import BitmapWorks.Proofs.Dispatcher.Worker
/-!
# Weave — every act is a step of every strand

A dispatcher that nobody has let go of does nothing to the strand of a task that is not in `Strand.Step` (`weave`).  So a
run of the dispatcher is, for each task, a run of its strand with the same notes (`weave_run`), and what the steps of a
strand preserve holds of each task of each run, whatever the other tasks do.  The history of all tasks only grows, with a
checkpoint behind each outcome that is settled if the caller wants to be told (`Onward`).
-/
namespace BitmapWorks

variable {W B V : Type} {bh : Behaviour W B V} {id : Nat}

/-! ## Strands -/

theorem Turn.settlement_eq {n : Note} {c c' : Cell B V} {e : Errand} {next : Multiset Errand} {posted : Nat}
    {events : List (Event V)} (h : Turn bh id n c e c' next posted events) : c'.settlement = c.settlement := by
  cases h <;> rfl

theorem Notice.spec {s settlement : Settlement (Except Fault V)} {outcome : Except Fault V} {event : Event V}
    (h : Notice id s outcome settlement event) : settlement.sink = none ∧ settlement.claimed = s.claimed := by
  cases h with
  | settled =>
    unfold Settlement.deliver
    split
    · exact ⟨by assumption, rfl⟩
    · exact ⟨rfl, rfl⟩
    · split <;> exact ⟨rfl, rfl⟩
  | discarded =>
    unfold Settlement.discard
    split <;> exact ⟨rfl, rfl⟩

namespace Strand

theorem Step.rooted {n : Note} {s s' : Strand B V} (h : Step bh id n s s') (hs : s.Rooted) : s'.Rooted := by
  intro hnone
  cases h with
  | receive => exact absurd (hs hnone).2.1 (Nat.succ_ne_zero _)
  | _ => cases hnone

theorem Step.calm {n : Note} {s s' : Strand B V} (h : Step bh id n s s') (hs : s.Calm) : s'.Calm := by
  intro c' hc'
  cases h with
  | reject b sink fault hsink => obtain rfl := Option.some.inj hc'; simpa [Cell.fresh, Settlement.fresh] using hsink
  | letIn b sink hsink => obtain rfl := Option.some.inj hc'; simpa [Cell.fresh, Settlement.fresh] using hsink
  | spread b sink n count hsink => obtain rfl := Option.some.inj hc'; simpa [Cell.fresh, Settlement.fresh] using hsink
  | conclude hbody hending hnotice => obtain rfl := Option.some.inj hc'; simp [Cell.close, hnotice.spec.1]
  | bodyless hbody hnotice => obtain rfl := Option.some.inj hc'; simp [Cell.close, hnotice.spec.1]
  | turn es hturn => obtain rfl := Option.some.inj hc'; rw [hturn.settlement_eq]; exact hs _ rfl
  | receive => exact hs c' hc'
  | _ =>
    obtain rfl := Option.some.inj hc'
    have hbefore := hs _ rfl
    exact hbefore

inductive Run (bh : Behaviour W B V) (id : Nat) (s₀ : Strand B V) : List Note → Strand B V → Prop
  | refl : Run bh id s₀ [] s₀
  | snoc {ns n s s'} : Run bh id s₀ ns s → Leads bh id n s s' → Run bh id s₀ (ns ++ [n]) s'

end Strand

namespace Dispatcher

variable {d d' : Dispatcher W B V}

/-! ## What every act keeps -/

theorem onward_spawn (b : B) (sink : Sink) : Onward d (d.spawn bh b sink) := by
  rw [spawn_eq]
  cases (bh.prepare d.world b).1 with
  | error fault => exact .event [.complete d.cells.length] (.prepared d.cells.length) rfl rfl rfl rfl (by simp) nofun rfl
  | ok =>
    dsimp only
    rcases letIn_cases bh (d := d.prepared bh b sink) d.cells.length (bh.prepare d.world b).2.2 with
      ⟨-, heq⟩ | ⟨-, -, heq⟩ | ⟨-, n, count, -, -, heq⟩
    · rw [heq]
      exact .event [.complete d.cells.length] (.prepared d.cells.length) rfl rfl rfl rfl (by simp) nofun rfl
    · rw [heq]
      exact .event [.submit d.cells.length] (.prepared d.cells.length) rfl rfl rfl rfl (by simp) nofun rfl
    · rw [heq]
      exact .event [.submitPart d.cells.length 0 count] (.prepared d.cells.length) rfl rfl rfl rfl (by simp) nofun rfl

theorem onward_submit (id : Nat) : Onward d (d.submit id) := by
  rw [submit_eq]
  cases (d.crew.submit (.single id .takeUp)).1 with
  | none => exact .quiet rfl rfl rfl rfl
  | some r => exact .plan [.complete id] rfl rfl rfl rfl (by simp)

theorem onward_submitPart (id next count : Nat) : Onward d (d.submitPart id next count) := by
  by_cases hnext : next < count
  · rw [submitPart_eq hnext]
    cases (d.crew.submit (.part id .hold)).1 with
    | none => exact .plan [.submitPart id (next + 1) count] rfl rfl rfl rfl (by simp)
    | some r => exact .plan [.abandon id (count - next) false] rfl rfl rfl rfl (by simp)
  · unfold submitPart
    rw [if_pos (Nat.not_lt.1 hnext)]
    exact .quiet rfl rfl rfl rfl

theorem onward_abandon (id left : Nat) (last : Bool) : Onward d (d.abandon id left last) := by
  unfold abandon
  cases left with
  | zero =>
    cases last with
    | true => exact .plan [.complete id] rfl rfl rfl rfl (by simp)
    | false => exact .quiet rfl rfl rfl rfl
  | succ left =>
    dsimp only
    split
    · exact .quiet rfl rfl rfl rfl
    · exact .plan [.abandon id left _] rfl rfl rfl rfl (by simp)

theorem onward_complete (id : Nat) : Onward d (d.complete bh id) := by
  cases hc : d.cells[id]? with
  | none =>
    unfold complete
    rw [hc]
    exact .quiet rfl rfl rfl rfl
  | some c =>
    cases hclaim : c.settlement.claimed with
    | true =>
      rw [complete_eq_self hc hclaim]
      exact .quiet rfl rfl rfl rfl
    | false =>
      rw [complete_eq hc hclaim]
      exact .event [.conclude id] (.flushed id c.tally) rfl rfl rfl rfl (by simp) nofun rfl

theorem onward_conclude (hbh : bh.Returns) (hcalm : ∀ id, (d.strand id).Calm) {id : Nat}
    (h : d.conclude? bh id = some d') : Onward d d' := by
  cases hc : d.cells[id]? with
  | none =>
    unfold conclude? at h
    rw [hc] at h
    obtain rfl := Option.some.inj h
    exact .quiet rfl rfl rfl rfl
  | some c =>
    obtain ⟨hsame, -, hhistory, -⟩ := conclude_spec hbh hc (hcalm id c hc) h
    exact ⟨hsame.gone, fun hmem => hsame.agenda ▸ hmem, hsame.checkpoints, hhistory⟩

theorem onward_pump (handled : Nat) : Onward d (d.pump handled) := by
  unfold pump
  split
  · exact .plan [.complete _, .pump _] rfl rfl rfl rfl (by simp)
  · exact .quiet rfl rfl rfl rfl

theorem onward_awaitIdle (h : d.awaitIdle? = some d') : Onward d d' := by
  unfold awaitIdle? at h
  split at h
  · cases h
    exact .quiet rfl rfl rfl rfl
  · split at h
    · cases h
      exact .plan [.complete _, .pump 0, .awaitIdle] rfl rfl rfl rfl (by simp)
    · cases h

theorem onward_drain (t : Drain) : Onward d (d.drain t) := by
  unfold drain
  split
  · exact .quiet rfl rfl rfl rfl
  · exact .plan [.pump 0, .drain _] rfl rfl rfl rfl (by simp)

theorem onward_drained : Onward d d.drained := by
  unfold drained
  split
  · exact .quiet rfl rfl rfl rfl
  · exact .plan [.force _, .pump 0, .recount] rfl rfl rfl rfl (by simp)

theorem onward_force (ids : List Nat) : Onward d (d.force ids) := by
  unfold force
  split
  · exact .quiet rfl rfl rfl rfl
  · split
    · exact .plan [.complete _, .force _] rfl rfl rfl rfl (by simp)
    · exact .plan [.force _] rfl rfl rfl rfl (by simp)

structure Steady (d : Dispatcher W B V) : Prop where
  gone : d.gone = false
  agenda : Chore.letGo ∉ d.agenda

theorem Onward.of_rest {chore : Chore} {rest : List Chore} (hagenda : d.agenda = chore :: rest)
    (h : Onward ({ d with agenda := rest } : Dispatcher W B V) d') : Onward d d' := by
  refine ⟨h.gone, fun hmem => ?_, h.checkpoints, h.history⟩
  rw [hagenda]
  exact List.mem_cons_of_mem _ (h.agenda hmem)

theorem onward_of_chore {chore : Chore} {rest : List Chore} (hagenda : d.agenda = chore :: rest)
    (hconclude : ∀ id, chore ≠ .conclude id) (hletGo : chore ≠ .letGo) (h : d.stepCaller? bh = some d') :
    Onward d d' := by
  rw [stepCaller?, hagenda] at h
  refine .of_rest hagenda ?_
  cases chore with
  | submit id => obtain rfl := Option.some.inj h; exact onward_submit id
  | submitPart id next count => obtain rfl := Option.some.inj h; exact onward_submitPart id next count
  | abandon id left last => obtain rfl := Option.some.inj h; exact onward_abandon id left last
  | complete id => obtain rfl := Option.some.inj h; exact onward_complete id
  | conclude id => exact absurd rfl (hconclude id)
  | pump handled => obtain rfl := Option.some.inj h; exact onward_pump handled
  | awaitIdle => exact onward_awaitIdle h
  | drain t => obtain rfl := Option.some.inj h; exact onward_drain t
  | drained => obtain rfl := Option.some.inj h; exact onward_drained
  | force ids => obtain rfl := Option.some.inj h; exact onward_force ids
  | recount => obtain rfl := Option.some.inj h; exact .quiet rfl rfl rfl rfl
  | closeCrew => obtain rfl := Option.some.inj h; exact .quiet rfl rfl rfl rfl
  | join => obtain rfl := Option.some.inj h; exact .quiet rfl rfl rfl rfl
  | letGo => exact absurd rfl hletGo

theorem onward_stepCaller (hbh : bh.Returns) (hsteady : d.Steady) (hcalm : ∀ id, (d.strand id).Calm)
    (h : d.stepCaller? bh = some d') : Onward d d' := by
  cases hagenda : d.agenda with
  | nil =>
    rw [stepCaller?, hagenda] at h
    cases h
  | cons chore rest =>
    by_cases hconclude : ∃ id, chore = .conclude id
    · obtain ⟨id, rfl⟩ := hconclude
      rw [stepCaller?, hagenda] at h
      exact .of_rest hagenda (onward_conclude hbh (fun id c hc => hcalm id c hc) h)
    · refine onward_of_chore hagenda (fun id heq => hconclude ⟨id, heq⟩) ?_ h
      rintro rfl
      exact hsteady.agenda (hagenda ▸ List.mem_cons_self ..)

structure Held (d : Dispatcher W B V) : Prop where
  steady : d.Steady
  rooted : ∀ id, (d.strand id).Rooted
  calm : ∀ id, (d.strand id).Calm

/-! ## Weaving -/

/-- **Every act is, for each task, a step of its strand, or nothing.** -/
theorem weave (hbh : bh.Returns) (h : d.Held) {a : Act W B V} (ha : a.returns = true) (hact : d.act? bh a = some d') :
    d'.Held ∧ Onward d d' ∧ ∀ id, Strand.Leads bh id (d.note bh id a) (d.strand id) (d'.strand id) := by
  have hboth : Onward d d' ∧ ∀ id, Strand.Leads bh id (d.note bh id a) (d.strand id) (d'.strand id) := by
    cases a with
    | move m =>
      cases m with
      | caller =>
        exact ⟨onward_stepCaller hbh h.steady h.calm hact, leads_stepCaller hbh h.rooted h.calm h.steady.agenda hact⟩
      | worker i => exact leads_stepWorker h.steady.gone hact
    | spawn b sink =>
      obtain rfl := Option.some.inj hact
      exact ⟨onward_spawn b sink, leads_spawn b (of_decide_eq_true ha)⟩
    | pumpAll =>
      obtain rfl := Option.some.inj hact
      exact ⟨.plan [.pump 0] rfl rfl rfl rfl (by simp),
        fun id => .inl ⟨rfl, strand_plan_quiet (by simp [Chore.task?]) id⟩⟩
    | untilIdle =>
      obtain rfl := Option.some.inj hact
      exact ⟨.plan [.pump 0, .awaitIdle] rfl rfl rfl rfl (by simp),
        fun id => .inl ⟨rfl, strand_plan_quiet (by simp [Chore.task?]) id⟩⟩
    | shutdown =>
      obtain rfl := Option.some.inj hact
      refine ⟨?_, fun id => .inl ⟨rfl, strand_shutdown id⟩⟩
      unfold shutdown
      split
      · exact .quiet rfl rfl rfl rfl
      · exact .plan d.shutdownChores rfl rfl rfl rfl (by simp [shutdownChores])
    | take id' =>
      obtain rfl := Option.some.inj hact
      refine ⟨?_, leads_take id'⟩
      unfold take
      cases d.cells[id']? <;> exact .quiet rfl rfl rfl rfl
    | poll id' =>
      obtain rfl := Option.some.inj hact
      refine ⟨?_, leads_poll id'⟩
      unfold poll
      cases d.cells[id']? <;> exact .quiet rfl rfl rfl rfl
    | dropPromise id' =>
      obtain rfl := Option.some.inj hact
      refine ⟨?_, leads_dropPromise id'⟩
      unfold dropPromise
      cases d.cells[id']? <;> exact .quiet rfl rfl rfl rfl
    | releaseValue v =>
      obtain rfl := Option.some.inj hact
      exact ⟨.quiet rfl rfl rfl rfl, fun id => .inl ⟨rfl, rfl⟩⟩
    | surround world =>
      obtain rfl := Option.some.inj hact
      exact ⟨.quiet rfl rfl rfl rfl, fun id => .inl ⟨rfl, rfl⟩⟩
    | regate admission =>
      obtain rfl := Option.some.inj hact
      exact ⟨.quiet rfl rfl rfl rfl, fun id => .inl ⟨rfl, rfl⟩⟩
  obtain ⟨honward, hleads⟩ := hboth
  refine ⟨⟨⟨honward.gone.trans h.steady.gone, mt honward.agenda h.steady.agenda⟩, fun id => ?_, fun id => ?_⟩, honward,
    hleads⟩
  · rcases hleads id with ⟨-, heq⟩ | hstep
    · rw [heq]; exact h.rooted id
    · exact hstep.rooted (h.rooted id)
  · rcases hleads id with ⟨-, heq⟩ | hstep
    · rw [heq]; exact h.calm id
    · exact hstep.calm (h.calm id)

/-! ## Runs -/

def notes (bh : Behaviour W B V) (d : Dispatcher W B V) (id : Nat) : List (Act W B V) → List Note
  | [] => []
  | a :: as => d.note bh id a :: match d.act? bh a with
    | none => []
    | some d => d.notes bh id as

theorem notes_concat {as : List (Act W B V)} (h : d.run? bh as = some d') (id : Nat) (a : Act W B V) :
    d.notes bh id (as ++ [a]) = d.notes bh id as ++ [d'.note bh id a] := by
  induction as generalizing d with
  | nil =>
    obtain rfl := Option.some.inj h
    rw [List.nil_append, notes, notes]
    cases d.act? bh a <;> rfl
  | cons a' as ih =>
    obtain ⟨d₁, hact, hrun⟩ := Option.bind_eq_some_iff.1 h
    rw [List.cons_append, notes, notes, hact]
    exact congrArg (List.cons _) (ih hrun)

/-- **A run of a dispatcher is a run of each strand, with the same notes.** -/
theorem weave_run (hbh : bh.Returns) (h : d.Held) {as : List (Act W B V)} (has : ∀ a ∈ as, a.returns = true)
    (hrun : d.run? bh as = some d') :
    d'.Held ∧ Onward d d' ∧ ∀ id, Strand.Run bh id (d.strand id) (d.notes bh id as) (d'.strand id) := by
  induction as using List.reverseRecOn generalizing d' with
  | nil =>
    obtain rfl := Option.some.inj hrun
    exact ⟨h, .quiet rfl rfl rfl rfl, fun id => .refl⟩
  | append_singleton as a ih =>
    rw [run?_append] at hrun
    obtain ⟨d₁, hrun₁, hlast⟩ := Option.bind_eq_some_iff.1 hrun
    obtain ⟨d₂, hact, hd₂⟩ := Option.bind_eq_some_iff.1 hlast
    obtain rfl := Option.some.inj hd₂
    obtain ⟨hheld, honward, hruns⟩ := ih (fun a ha => has a (List.mem_append_left _ ha)) hrun₁
    obtain ⟨hheld', honward', hleads⟩ :=
      weave hbh hheld (has a (List.mem_append_right _ (List.mem_singleton_self a))) hact
    refine ⟨hheld', honward.trans honward', fun id => ?_⟩
    rw [notes_concat hrun₁]
    exact (hruns id).snoc (hleads id)

theorem start_spec {world : W} {s : Settings} {processors : Nat} {admission : Admission} {checkpoints : Bool}
    (h : start world s processors admission checkpoints = .ok d) :
    d.Held ∧ d.checkpoints = checkpoints ∧ d.history = [] ∧ ∀ id, d.strand id = ⟨none, [], 0, 0, []⟩ := by
  unfold start at h
  split at h
  · cases h
  · cases h
    have hhand : ∀ id, (Crew.start s.workers s.queueBound : Crew Errand).hand.filter (·.id = id) = 0 := fun id => by
      rw [Crew.hand_start]
      rfl
    refine ⟨⟨⟨rfl, by simp⟩, fun id _ => ⟨rfl, rfl, hhand id, rfl⟩, fun id c hc => by cases hc⟩, rfl, rfl, fun id => ?_⟩
    exact Strand.ext rfl rfl rfl (hhand id) rfl

end Dispatcher
end BitmapWorks
