import BitmapWorks.Proofs.Dispatcher.Weave
/-!
# Agenda — what a move puts in the place of a chore

A move of the caller does the first chore of the agenda and puts what follows from it in its place (`follows_of_move`); a
move of a worker leaves the agenda alone (`agenda_stepWorker`).  So what a call still has to do is known from where it
began, however the workers move in between.
-/
namespace BitmapWorks

variable {W B V : Type} {bh : Behaviour W B V}

namespace Dispatcher

inductive Follows (d : Dispatcher W B V) : Chore → List Chore → Prop
  | submitted {id} : (d.crew.submit (.single id .takeUp)).1 = none → Follows d (.submit id) []
  | refused {id} : (d.crew.submit (.single id .takeUp)).1 ≠ none → Follows d (.submit id) [.complete id]
  | spread {id next count} : count ≤ next → Follows d (.submitPart id next count) []
  | part {id next count} : next < count → (d.crew.submit (.part id .hold)).1 = none →
    Follows d (.submitPart id next count) [.submitPart id (next + 1) count]
  | partRefused {id next count} : next < count → (d.crew.submit (.part id .hold)).1 ≠ none →
    Follows d (.submitPart id next count) [.abandon id (count - next) false]
  | last {id} : Follows d (.abandon id 0 true) [.complete id]
  | abandoned {id} : Follows d (.abandon id 0 false) []
  | abandon {id left last last'} : Follows d (.abandon id (left + 1) last) [.abandon id left last']
  | unspread {id left last} : Follows d (.abandon id (left + 1) last) []
  | claim {id} : Follows d (.complete id) [.conclude id]
  | late {id} : Follows d (.complete id) []
  | conclude {id} : Follows d (.conclude id) []
  | receive {id waiting handled} : d.inbox = id :: waiting →
    Follows d (.pump handled) [.complete id, .pump (handled + 1)]
  | pumped {handled} : d.inbox = [] → Follows d (.pump handled) []
  | await {id} : Follows d .awaitIdle [.complete id, .pump 0, .awaitIdle]
  | idle : Follows d .awaitIdle []
  | drain {t t'} : Follows d (.drain t) [.pump 0, .drain t']
  | drainOver {t} : Follows d (.drain t) []
  | timedOut {left} : d.drainOutcome = .timedOut left → Follows d .drained [.force d.registry, .pump 0, .recount]
  | drained : d.drainOutcome = .drained → Follows d .drained []
  | force {id ids} : (d.cells[id]?).map Cell.stage = some .queued →
    Follows d (.force (id :: ids)) [.complete id, .force ids]
  | pass {id ids} : (d.cells[id]?).map Cell.stage ≠ some .queued → Follows d (.force (id :: ids)) [.force ids]
  | forced : Follows d (.force []) []
  | recount : Follows d .recount []
  | closeCrew : Follows d .closeCrew []
  | join : Follows d .join []

variable {d d' : Dispatcher W B V} {chore : Chore} {rest planned : List Chore} {id i : Nat}

/-! ## Moves of the caller -/

/-- What a chore of the caller leaves to be done, and how the last drain ended. -/
structure Moves (d d' : Dispatcher W B V) (chore : Chore) (rest : List Chore) : Prop where
  agenda : ∃ planned, Follows d chore planned ∧ d'.agenda = planned ++ rest
  outcome : d'.drainOutcome = d.drainOutcome ∨ (∃ t, chore = .drain t) ∨
    chore = .recount ∧ d'.drainOutcome = if d.inFlight = 0 then .drained else .timedOut d.inFlight

theorem Moves.plan (hfollows : Follows d chore planned) (hagenda : d'.agenda = planned ++ rest)
    (houtcome : d'.drainOutcome = d.drainOutcome) : Moves d d' chore rest := ⟨⟨planned, hfollows, hagenda⟩, .inl houtcome⟩

theorem Moves.outcome_eq (h : Moves d d' chore rest) (hdrain : ∀ t, chore ≠ .drain t) (hrecount : chore ≠ .recount) :
    d'.drainOutcome = d.drainOutcome := by
  rcases h.outcome with heq | ⟨t, heq⟩ | ⟨heq, -⟩
  · exact heq
  · exact absurd heq (hdrain t)
  · exact absurd heq hrecount

theorem moves_submit : Moves d (({ d with agenda := rest } : Dispatcher W B V).submit id) (.submit id) rest := by
  rw [submit_eq]
  cases hsubmit : (d.crew.submit (.single id .takeUp)).1 with
  | none => exact .plan (.submitted hsubmit) rfl rfl
  | some r => exact .plan (.refused (by simp [hsubmit])) rfl rfl

theorem moves_submitPart (next count : Nat) :
    Moves d (({ d with agenda := rest } : Dispatcher W B V).submitPart id next count) (.submitPart id next count) rest := by
  by_cases hnext : next < count
  · rw [submitPart_eq hnext]
    cases hsubmit : (d.crew.submit (.part id .hold)).1 with
    | none => exact .plan (.part hnext hsubmit) rfl rfl
    | some r => exact .plan (.partRefused hnext (by simp [hsubmit])) rfl rfl
  · unfold submitPart
    rw [if_pos (Nat.not_lt.1 hnext)]
    exact .plan (.spread (Nat.not_lt.1 hnext)) rfl rfl

theorem moves_abandon (left : Nat) (last : Bool) :
    Moves d (({ d with agenda := rest } : Dispatcher W B V).abandon id left last) (.abandon id left last) rest := by
  unfold abandon
  cases left with
  | zero =>
    cases last with
    | true => exact .plan .last rfl rfl
    | false => exact .plan .abandoned rfl rfl
  | succ left =>
    dsimp only
    split
    · exact .plan .unspread rfl rfl
    · exact .plan .abandon rfl rfl

theorem moves_complete : Moves d (({ d with agenda := rest } : Dispatcher W B V).complete bh id) (.complete id) rest := by
  cases hc : d.cells[id]? with
  | none =>
    unfold complete
    dsimp only
    rw [hc]
    exact .plan .late rfl rfl
  | some c =>
    cases hclaim : c.settlement.claimed with
    | true =>
      rw [complete_eq_self (d := { d with agenda := rest }) hc hclaim]
      exact .plan .late rfl rfl
    | false =>
      rw [complete_eq (d := { d with agenda := rest }) hc hclaim]
      exact .plan .claim rfl rfl

theorem drainOutcome_settle (bh : Behaviour W B V) (id : Nat) (outcome : Except Fault V) :
    (d.settle bh id outcome).drainOutcome = d.drainOutcome := by
  unfold settle
  split
  · rfl
  · dsimp only
    split
    · rfl
    · split
      · rfl
      · split <;> rfl

theorem drainOutcome_conclude (hbh : bh.Returns) (h : d.conclude? bh id = some d') :
    d'.drainOutcome = d.drainOutcome := by
  cases hc : d.cells[id]? with
  | none =>
    unfold conclude? at h
    rw [hc] at h
    obtain rfl := Option.some.inj h
    rfl
  | some c =>
    have hfree := bodyIsFree_of_conclude hc h
    cases hbody : c.body with
    | none =>
      unfold conclude? at h
      rw [hc] at h
      simp only [hfree, Bool.not_true, Bool.false_eq_true, if_false, hbody] at h
      obtain rfl := Option.some.inj h
      exact drainOutcome_settle bh id _
    | some b =>
      have hclean : bh.cleanUp d.world b = (false, (bh.cleanUp d.world b).2) := Prod.ext (hbh.cleanUp d.world b) rfl
      cases hfault : c.fault with
      | some fault =>
        rw [conclude?_fault hc hfree hbody hclean hfault] at h
        obtain rfl := Option.some.inj h
        exact drainOutcome_settle bh id _
      | none =>
        obtain ⟨outcome, hresult⟩ :=
          Option.ne_none_iff_exists'.1 (hbh.result (bh.cleanUp d.world b).2.1 (bh.cleanUp d.world b).2.2)
        rw [conclude?_result hc hfree hbody hclean hfault hresult] at h
        obtain rfl := Option.some.inj h
        exact drainOutcome_settle bh id _

theorem moves_conclude (hbh : bh.Returns) (hcalm : ∀ id, (d.strand id).Calm)
    (h : ({ d with agenda := rest } : Dispatcher W B V).conclude? bh id = some d') : Moves d d' (.conclude id) rest := by
  refine .plan .conclude ?_ (drainOutcome_conclude (d := { d with agenda := rest }) hbh h)
  cases hc : d.cells[id]? with
  | none =>
    unfold conclude? at h
    dsimp only at h
    rw [hc] at h
    obtain rfl := Option.some.inj h
    rfl
  | some c =>
    obtain ⟨hsame, -⟩ := conclude_spec (d := { d with agenda := rest }) hbh hc (hcalm id c hc) h
    exact hsame.agenda

theorem moves_awaitIdle (h : ({ d with agenda := rest } : Dispatcher W B V).awaitIdle? = some d') :
    Moves d d' .awaitIdle rest := by
  unfold awaitIdle? at h
  split at h
  · obtain rfl := Option.some.inj h
    exact .plan .idle rfl rfl
  · split at h
    · obtain rfl := Option.some.inj h
      exact .plan .await rfl rfl
    · cases h

theorem moves_force (ids : List Nat) :
    Moves d (({ d with agenda := rest } : Dispatcher W B V).force ids) (.force ids) rest := by
  cases ids with
  | nil => exact .plan .forced rfl rfl
  | cons id ids =>
    by_cases hstage : (d.cells[id]?).map Cell.stage = some .queued
    · obtain ⟨c, hc, hqueued⟩ := Option.map_eq_some_iff.1 hstage
      rw [force_eq (d := { d with agenda := rest }) hc hqueued]
      exact .plan (.force hstage) rfl rfl
    · rw [force_eq_plan (d := { d with agenda := rest }) hstage]
      exact .plan (.pass hstage) rfl rfl

theorem moves_of_chore (hagenda : d.agenda = chore :: rest) (hconclude : ∀ id, chore ≠ .conclude id)
    (hletGo : chore ≠ .letGo) (h : d.stepCaller? bh = some d') : Moves d d' chore rest := by
  rw [stepCaller?, hagenda] at h
  cases chore with
  | submit id => obtain rfl := Option.some.inj h; exact moves_submit
  | submitPart id next count => obtain rfl := Option.some.inj h; exact moves_submitPart next count
  | abandon id left last => obtain rfl := Option.some.inj h; exact moves_abandon left last
  | complete id => obtain rfl := Option.some.inj h; exact moves_complete
  | conclude id => exact absurd rfl (hconclude id)
  | pump handled =>
    obtain rfl := Option.some.inj h
    unfold pump
    split
    · rename_i hinbox
      exact .plan (.receive hinbox) rfl rfl
    · rename_i hinbox
      exact .plan (.pumped hinbox) rfl rfl
  | awaitIdle => exact moves_awaitIdle h
  | drain t =>
    obtain rfl := Option.some.inj h
    unfold drain
    split
    · exact ⟨⟨_, .drainOver, rfl⟩, .inr (.inl ⟨t, rfl⟩)⟩
    · exact .plan .drain rfl rfl
  | drained =>
    obtain rfl := Option.some.inj h
    unfold drained
    split
    · rename_i hdrained
      exact .plan (.drained hdrained) rfl rfl
    · rename_i left hleft
      exact .plan (.timedOut hleft) rfl rfl
  | force ids => obtain rfl := Option.some.inj h; exact moves_force ids
  | recount => obtain rfl := Option.some.inj h; exact ⟨⟨_, .recount, rfl⟩, .inr (.inr ⟨rfl, rfl⟩)⟩
  | closeCrew => obtain rfl := Option.some.inj h; exact .plan .closeCrew rfl rfl
  | join => obtain rfl := Option.some.inj h; exact .plan .join rfl rfl
  | letGo => exact absurd rfl hletGo

/-- **A move of the caller puts what follows from the first chore in its place**, while the caller holds on to the
dispatcher. -/
theorem follows_of_move (hbh : bh.Returns) (hheld : d.Held) (hagenda : d.agenda = chore :: rest)
    (h : d.stepCaller? bh = some d') : Moves d d' chore rest := by
  by_cases hconclude : ∃ id, chore = .conclude id
  · obtain ⟨id, rfl⟩ := hconclude
    rw [stepCaller?, hagenda] at h
    exact moves_conclude hbh hheld.calm h
  · refine moves_of_chore hagenda (fun id heq => hconclude ⟨id, heq⟩) ?_ h
    rintro rfl
    exact hheld.steady.agenda (hagenda ▸ List.mem_cons_self ..)

/-! ## Moves of the workers -/

def Undisturbed (d d' : Dispatcher W B V) : Prop := d'.agenda = d.agenda ∧ d'.drainOutcome = d.drainOutcome

theorem undisturbed_recordOutcome (id : Nat) (outcome : Outcome) : Undisturbed d (d.recordOutcome id outcome) := by
  unfold recordOutcome
  split <;> exact ⟨rfl, rfl⟩

theorem undisturbed_stepSingle {c : Cell B V} {phase : SinglePhase} (hgone : d.gone = false)
    (h : d.stepSingle? bh i id c phase = some d') : Undisturbed d d' := by
  cases phase with
  | takeUp => obtain rfl := Option.some.inj h; exact ⟨rfl, rfl⟩
  | call =>
    rw [stepSingle?] at h
    split at h <;> obtain rfl := Option.some.inj h <;> exact ⟨rfl, rfl⟩
  | calling =>
    rw [stepSingle?] at h
    split at h
    · obtain rfl := Option.some.inj h
      exact ⟨rfl, rfl⟩
    · split at h
      · obtain rfl := Option.some.inj h
        exact ⟨rfl, rfl⟩
      · cases h
  | record outcome => obtain rfl := Option.some.inj h; exact undisturbed_recordOutcome id outcome
  | post =>
    obtain rfl := Option.some.inj h
    rw [post_eq hgone]
    exact ⟨rfl, rfl⟩

theorem undisturbed_stepPart {c : Cell B V} {phase : PartPhase} (hgone : d.gone = false)
    (h : d.stepPart? bh i id c phase = some d') : Undisturbed d d' := by
  cases phase with
  | hold =>
    rw [stepPart?] at h
    split at h <;> obtain rfl := Option.some.inj h
    · rw [endJob_eq hgone]
      exact ⟨rfl, rfl⟩
    · exact ⟨rfl, rfl⟩
  | fetch =>
    rw [stepPart?] at h
    split at h <;> obtain rfl := Option.some.inj h <;> exact ⟨rfl, rfl⟩
  | calling item =>
    rw [stepPart?] at h
    split at h
    · obtain rfl := Option.some.inj h
      exact ⟨rfl, rfl⟩
    · split at h
      · obtain rfl := Option.some.inj h
        exact ⟨rfl, rfl⟩
      · cases h
  | record outcome => obtain rfl := Option.some.inj h; exact undisturbed_recordOutcome id outcome
  | finish =>
    rw [stepPart?] at h
    split at h
    · obtain rfl := Option.some.inj h
      rw [endJob_eq hgone]
      exact ⟨rfl, rfl⟩
    · obtain rfl := Option.some.inj h
      split
      · exact ⟨rfl, rfl⟩
      · rw [endJob_eq]
        · exact ⟨rfl, rfl⟩
        · exact hgone
  | post =>
    obtain rfl := Option.some.inj h
    rw [post_eq hgone]
    exact ⟨rfl, rfl⟩
  | takeUp | look | load | call => obtain rfl := Option.some.inj h; exact ⟨rfl, rfl⟩

/-- **A move of a worker leaves the agenda alone**, while the caller holds on to the dispatcher. -/
theorem undisturbed_stepWorker (hgone : d.gone = false) (h : d.stepWorker? bh i = some d') : Undisturbed d d' := by
  unfold stepWorker? at h
  split at h
  · obtain ⟨crew, -, rfl⟩ := Option.map_eq_some_iff.1 h
    exact ⟨rfl, rfl⟩
  · split at h
    · cases h
    · split at h
      · exact undisturbed_stepSingle hgone h
      · exact undisturbed_stepPart hgone h

end Dispatcher
end BitmapWorks
