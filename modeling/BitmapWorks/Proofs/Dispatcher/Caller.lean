import BitmapWorks.Proofs.Dispatcher.Steps
/-!
# Caller — the caller's moves and calls as steps

Each chore and each call is looked at once: for the task that it is about it is a step, and for all others nothing.
-/
namespace BitmapWorks

variable {W B V : Type}

namespace Dispatcher

variable {bh : Behaviour W B V} {d : Dispatcher W B V} {id id' : Nat}

/-! ## Handing in -/

theorem submit_eq (id : Nat) : d.submit id = match (d.crew.submit (.single id .takeUp)).1 with
    | none => { d with crew := (d.crew.submit (.single id .takeUp)).2 }
    | some r => (({ d with crew := (d.crew.submit (.single id .takeUp)).2 } : Dispatcher W B V).modifyCell id
        (·.record r.fault)).plan [.complete id] := rfl

theorem strand_submit_of_ne (h : id' ≠ id) : (d.submit id').strand id = d.strand id := by
  rw [submit_eq]
  cases hr : (d.crew.submit (.single id' .takeUp)).1 with
  | none => exact strand_crew (by rw [Crew.hand_submit hr, filter_errand_of_ne (.single id' .takeUp) h])
  | some r =>
    dsimp only
    rw [strand_plan_of_ne (by simpa [Chore.task?] using h), strand_modifyCell_of_ne h]
    exact strand_crew (by rw [Crew.hand_submit_refused hr])

theorem step_submit {c : Cell B V} (hc : d.cells[id]? = some c) :
    Strand.Step bh id (.bar ((d.crew.submit (.single id .takeUp)).1.map Refusal.fault))
      { d.strand id with chores := .submit id :: (d.strand id).chores } ((d.submit id).strand id) := by
  rw [submit_eq]
  cases hr : (d.crew.submit (.single id .takeUp)).1 with
  | none =>
    refine (Strand.Step.submit (c := c)).cast (Strand.ext hc rfl rfl rfl rfl) (Strand.ext hc rfl rfl ?_ rfl)
    show Multiset.filter _ (d.crew.submit (.single id .takeUp)).2.hand = _
    rw [Crew.hand_submit hr]
    exact filter_errand (.single id .takeUp) rfl _
  | some r =>
    refine (Strand.Step.refuse (c := c) r.fault).cast (Strand.ext hc rfl rfl rfl rfl)
      (Strand.ext (cells_modifyCell hc _) (filter_chore rfl _) rfl ?_ rfl)
    show Multiset.filter _ (d.crew.submit (.single id .takeUp)).2.hand = _
    rw [Crew.hand_submit_refused hr]
    rfl

theorem submitPart_eq {next count : Nat} (h : next < count) :
    d.submitPart id next count = match (d.crew.submit (.part id .hold)).1 with
      | none => ({ d with crew := (d.crew.submit (.part id .hold)).2 } : Dispatcher W B V).plan
          [.submitPart id (next + 1) count]
      | some r => (({ d with crew := (d.crew.submit (.part id .hold)).2 } : Dispatcher W B V).modifyCell id
          (·.record r.fault)).plan [.abandon id (count - next) false] := if_neg (Nat.not_le.2 h)

theorem strand_submitPart_of_ne (h : id' ≠ id) (next count : Nat) :
    (d.submitPart id' next count).strand id = d.strand id := by
  by_cases hnext : next < count
  · rw [submitPart_eq hnext]
    cases hr : (d.crew.submit (.part id' .hold)).1 with
    | none =>
      dsimp only
      rw [strand_plan_of_ne (by simpa [Chore.task?] using h)]
      exact strand_crew (by rw [Crew.hand_submit hr, filter_errand_of_ne (.part id' .hold) h])
    | some r =>
      dsimp only
      rw [strand_plan_of_ne (by simpa [Chore.task?] using h), strand_modifyCell_of_ne h]
      exact strand_crew (by rw [Crew.hand_submit_refused hr])
  · unfold submitPart
    rw [if_pos (Nat.not_lt.1 hnext)]

theorem step_submitPart {c : Cell B V} (hc : d.cells[id]? = some c) {next count : Nat} (hnext : next < count) :
    Strand.Step bh id (.part (.offer ((d.crew.submit (.part id .hold)).1.map Refusal.fault)))
      { d.strand id with chores := .submitPart id next count :: (d.strand id).chores }
      ((d.submitPart id next count).strand id) := by
  rw [submitPart_eq hnext]
  cases hr : (d.crew.submit (.part id .hold)).1 with
  | none =>
    refine (Strand.Step.submitPart (c := c) hnext).cast (Strand.ext hc rfl rfl rfl rfl)
      (Strand.ext hc (filter_chore rfl _) rfl ?_ rfl)
    show Multiset.filter _ (d.crew.submit (.part id .hold)).2.hand = _
    rw [Crew.hand_submit hr]
    exact filter_errand (.part id .hold) rfl _
  | some r =>
    refine (Strand.Step.refusePart (c := c) r.fault hnext).cast (Strand.ext hc rfl rfl rfl rfl)
      (Strand.ext (cells_modifyCell hc _) (filter_chore rfl _) rfl ?_ rfl)
    show Multiset.filter _ (d.crew.submit (.part id .hold)).2.hand = _
    rw [Crew.hand_submit_refused hr]
    rfl

theorem step_submitted {c : Cell B V} (hc : d.cells[id]? = some c) {next count : Nat} (hnext : ¬ next < count) :
    Strand.Step bh id (.part .quiet) { d.strand id with chores := .submitPart id next count :: (d.strand id).chores }
      ((d.submitPart id next count).strand id) := by
  have hd : d.submitPart id next count = d := if_pos (Nat.not_lt.1 hnext)
  rw [hd]
  exact (Strand.Step.submitted (c := c) (Nat.not_lt.1 hnext)).cast (Strand.ext hc rfl rfl rfl rfl)
    (Strand.ext hc rfl rfl rfl rfl)

theorem strand_abandon_of_ne (h : id' ≠ id) (left : Nat) (last : Bool) :
    (d.abandon id' left last).strand id = d.strand id := by
  unfold abandon
  cases left with
  | zero =>
    cases last with
    | true => exact strand_plan_of_ne (by simpa [Chore.task?] using h)
    | false => rfl
  | succ left =>
    dsimp only
    cases (d.cells[id']?).bind (·.fanout) with
    | none => rfl
    | some f =>
      dsimp only
      rw [strand_plan_of_ne (by simpa [Chore.task?] using h), strand_modifyCell_of_ne h]

theorem step_abandon {c : Cell B V} (hc : d.cells[id]? = some c) (left : Nat) (last : Bool) :
    Strand.Step bh id (.part (if left = 0 then .signal last else .quiet))
      { d.strand id with chores := .abandon id left last :: (d.strand id).chores }
      ((d.abandon id left last).strand id) := by
  unfold abandon
  cases left with
  | zero =>
    refine (Strand.Step.abandoned (c := c)).cast (Strand.ext hc rfl rfl rfl rfl) ?_
    cases last with
    | true => exact Strand.ext hc (filter_chore rfl _) rfl rfl rfl
    | false => exact Strand.ext hc rfl rfl rfl rfl
  | succ left =>
    have hfanout : (d.cells[id]?).bind (·.fanout) = c.fanout := by
      rw [hc]
      rfl
    dsimp only
    rw [hfanout]
    cases hf : c.fanout with
    | none =>
      exact (Strand.Step.unspread hf).cast (Strand.ext hc rfl rfl rfl rfl) (Strand.ext hc rfl rfl rfl rfl)
    | some f =>
      exact (Strand.Step.abandon hf).cast (Strand.ext hc rfl rfl rfl rfl)
        (Strand.ext (cells_modifyCell hc _) (filter_chore rfl _) rfl rfl rfl)

/-! ## Completing -/

theorem complete_eq {c : Cell B V} (hc : d.cells[id]? = some c) (hclaim : c.settlement.claimed = false) :
    d.complete bh id = ((({ d with world := bh.credit d.world c.tally } : Dispatcher W B V).log
      (.flushed id c.tally)).modifyCell id fun c' =>
        { c' with settlement := { c.settlement with claimed := true }, stage := .completing, tally := 0 }).plan
      [.conclude id] := by
  unfold complete Settlement.claim
  rw [hc]
  dsimp only
  rw [hclaim]
  rfl

theorem complete_eq_self {c : Cell B V} (hc : d.cells[id]? = some c) (hclaim : c.settlement.claimed = true) :
    d.complete bh id = d := by
  unfold complete Settlement.claim
  rw [hc]
  dsimp only
  rw [hclaim]
  rfl

theorem strand_complete_of_ne (h : id' ≠ id) : (d.complete bh id').strand id = d.strand id := by
  cases hc : d.cells[id']? with
  | none =>
    unfold complete
    rw [hc]
  | some c =>
    cases hclaim : c.settlement.claimed with
    | true => rw [complete_eq_self hc hclaim]
    | false =>
      rw [complete_eq hc hclaim, strand_plan_of_ne (by simpa [Chore.task?] using h), strand_modifyCell_of_ne h,
        strand_log_of_ne (by simpa [Event.task?] using h)]
      rfl

theorem step_complete {c : Cell B V} (hc : d.cells[id]? = some c) :
    Strand.Step bh id .quiet { d.strand id with chores := .complete id :: (d.strand id).chores }
      ((d.complete bh id).strand id) := by
  cases hclaim : c.settlement.claimed with
  | true =>
    rw [complete_eq_self hc hclaim]
    exact (Strand.Step.late hclaim).cast (Strand.ext hc rfl rfl rfl rfl) (Strand.ext hc rfl rfl rfl rfl)
  | false =>
    rw [complete_eq hc hclaim]
    refine (Strand.Step.claim hclaim).cast (Strand.ext hc rfl rfl rfl rfl)
      (Strand.ext ?_ (filter_chore rfl _) rfl rfl (filter_event rfl _))
    show (Dispatcher.modifyCell (Dispatcher.log _ _) id _).cells[id]? = _
    exact cells_modifyCell hc _

structure Same (d d' : Dispatcher W B V) : Prop where
  agenda : d'.agenda = d.agenda
  inbox : d'.inbox = d.inbox
  crew : d'.crew = d.crew
  gone : d'.gone = d.gone
  checkpoints : d'.checkpoints = d.checkpoints

theorem cells_retire_of_ne (h : id' ≠ id) (entered : Bool) : (d.retire id' entered).cells[id]? = d.cells[id]? :=
  cells_modifyCell_of_ne h _

theorem cells_retire {c : Cell B V} (h : d.cells[id]? = some c) (entered : Bool) :
    (d.retire id entered).cells[id]? = some { c with stage := .done } :=
  cells_modifyCell (d := { d with
    admission := if entered then d.admission.leave else d.admission, registry := d.registry.filter (· ≠ id) }) h _

theorem deliver_returns {s : Settlement (Except Fault V)} (h : s.sink ≠ some (.callback true))
    (outcome o : Except Fault V) : (s.deliver outcome).1 ≠ .called o true := by
  unfold Settlement.deliver
  split
  · simp
  · rename_i unwinds hs
    cases unwinds with
    | true => exact absurd hs h
    | false => simp
  · split <;> simp

/-- The outcome has gone into the sink or the sink is dropped, and the task is done. -/
theorem settle_spec (bh : Behaviour W B V) {c : Cell B V} (hc : d.cells[id]? = some c)
    (hcalm : c.settlement.sink ≠ some (.callback true)) (outcome : Except Fault V) :
    ∃ settlement event, Notice id c.settlement outcome settlement event ∧
      (d.settle bh id outcome).cells[id]? = some { c with entered := false, settlement, stage := .done } ∧
      (∀ id', id ≠ id' → (d.settle bh id outcome).cells[id']? = d.cells[id']?) ∧
      Same d (d.settle bh id outcome) ∧
      (d.settle bh id outcome).history = event.echo d.checkpoints ++ event :: d.history := by
  have hentered := cells_modifyCell hc fun c => { c with entered := false }
  unfold settle
  rw [hc]
  dsimp only
  split
  · have hdrop := cells_modifyCell hentered fun c => { c with settlement := c.settlement.discard }
    refine ⟨_, _, .discarded, cells_retire hdrop c.entered, fun id' hne => ?_, ⟨rfl, rfl, rfl, rfl, rfl⟩, rfl⟩
    exact (cells_retire_of_ne hne _).trans ((cells_modifyCell_of_ne hne _).trans (cells_modifyCell_of_ne hne _))
  · have hput := cells_modifyCell hentered fun c' => { c' with settlement := (c.settlement.deliver outcome).2 }
    have hreturns := deliver_returns hcalm outcome
    have hnotice : Notice id c.settlement outcome (c.settlement.deliver outcome).2 (.settled id outcome) := .settled
    revert hput hreturns hnotice
    generalize c.settlement.deliver outcome = put
    obtain ⟨delivery, settlement⟩ := put
    intro hput hreturns hnotice
    dsimp only
    split
    · rename_i o
      exact absurd rfl (hreturns o)
    have hothers : ∀ id', id ≠ id' → _ := fun id' (hne : id ≠ id') =>
      (cells_modifyCell_of_ne (d := d.modifyCell id fun c => { c with entered := false }) hne
        fun c' => { c' with settlement }).trans (cells_modifyCell_of_ne hne _)
    split
    · rename_i hcheckpoints
      have htells : d.checkpoints = true := hcheckpoints
      refine ⟨_, _, hnotice, cells_retire hput c.entered,
        fun id' hne => (cells_retire_of_ne hne _).trans (hothers id' hne), ⟨rfl, rfl, rfl, rfl, rfl⟩, ?_⟩
      rw [htells]
      rfl
    · rename_i hcheckpoints
      have htells : d.checkpoints = false := eq_false_of_ne_true hcheckpoints
      refine ⟨_, _, hnotice, cells_retire hput c.entered,
        fun id' hne => (cells_retire_of_ne hne _).trans (hothers id' hne), ⟨rfl, rfl, rfl, rfl, rfl⟩, ?_⟩
      rw [htells]
      rfl

theorem Same.strand {d' : Dispatcher W B V} (h : Same d d') {cell : Option (Cell B V)} (hcell : d'.cells[id]? = cell)
    (events : List (Event V)) (hhistory : d'.history = events ++ d.history) :
    d'.strand id = ⟨cell, (d.strand id).chores, (d.strand id).posted, (d.strand id).errands,
      events.filter (·.task? = some id) ++ (d.strand id).story⟩ := by
  refine Strand.ext hcell ?_ ?_ ?_ ?_
  · exact congrArg (List.filter _) h.agenda
  · exact congrArg (List.count id) h.inbox
  · exact congrArg (fun crew : Crew Errand => crew.hand.filter (·.id = id)) h.crew
  · exact (congrArg (List.filter _) hhistory).trans (List.filter_append ..)

theorem task?_of_notice {s settlement : Settlement (Except Fault V)} {outcome : Except Fault V} {event : Event V}
    (h : Notice id s outcome settlement event) : event.task? = some id := by
  cases h <;> rfl

theorem filter_echo (checkpoints : Bool) (e : Event V) (id : Nat) :
    (e.echo checkpoints).filter (·.task? = some id) = [] := by
  cases e with
  | settled => cases checkpoints <;> rfl
  | _ => rfl

theorem settle_closes (bh : Behaviour W B V) {c : Cell B V} (hc : d.cells[id]? = some c) (hbody : c.body = none)
    (hcalm : c.settlement.sink ≠ some (.callback true)) (outcome : Except Fault V) :
    Same d (d.settle bh id outcome) ∧ (∀ id', id ≠ id' → (d.settle bh id outcome).strand id' = d.strand id') ∧
    ∃ settlement event, Notice id c.settlement outcome settlement event ∧
      (d.settle bh id outcome).history = event.echo d.checkpoints ++ event :: d.history ∧
      (d.settle bh id outcome).strand id
        = ⟨some (c.close settlement), (d.strand id).chores, (d.strand id).posted, (d.strand id).errands,
            event :: (d.strand id).story⟩ := by
  obtain ⟨settlement, event, hnotice, hcell, hothers, hsame, hhistory⟩ := settle_spec bh hc hcalm outcome
  have hclose : { c with entered := false, settlement, stage := .done } = c.close settlement := by
    obtain ⟨⟩ := c
    cases hbody
    rfl
  have htask := task?_of_notice hnotice
  have hevents : (d.settle bh id outcome).history = (event.echo d.checkpoints ++ [event]) ++ d.history := by
    rw [hhistory, List.append_assoc]
    rfl
  rw [hclose] at hcell
  refine ⟨hsame, fun id' hne => ?_, settlement, event, hnotice, hhistory, ?_⟩
  · have hother : event.task? ≠ some id' := by rw [htask]; simpa using hne
    rw [hsame.strand (hothers id' hne) _ hevents, List.filter_append, filter_echo, filter_event_of_ne hother]
    rfl
  · rw [hsame.strand hcell _ hevents, List.filter_append, filter_echo, filter_event htask]
    rfl

theorem world_modifyCell (f : Cell B V → Cell B V) : (d.modifyCell id f).world = d.world := rfl

def cleaned (d : Dispatcher W B V) (id : Nat) (world : W) : Dispatcher W B V :=
  ({ d.modifyCell id fun c => { c with body := none } with world } : Dispatcher W B V).log (.cleanedUp id)

theorem conclude?_fault {c : Cell B V} {b b' : B} {w' : W} {fault : Fault} (hc : d.cells[id]? = some c)
    (hfree : d.bodyIsFree id = true) (hbody : c.body = some b) (hclean : bh.cleanUp d.world b = (false, w', b'))
    (hfault : c.fault = some fault) :
    d.conclude? bh id
      = some (({ d.cleaned id w' with world := bh.discard w' b' } : Dispatcher W B V).settle bh id (.error fault)) := by
  unfold conclude?
  rw [hc]
  simp only [hfree, Bool.not_true, Bool.false_eq_true, if_false, hbody, world_modifyCell, hclean, hfault]
  rfl

theorem conclude?_result {c : Cell B V} {b b' : B} {w' : W} {outcome : Except Fault V} (hc : d.cells[id]? = some c)
    (hfree : d.bodyIsFree id = true) (hbody : c.body = some b) (hclean : bh.cleanUp d.world b = (false, w', b'))
    (hfault : c.fault = none) (hresult : (bh.result w' b').1 = some outcome) :
    d.conclude? bh id = some (({ (d.cleaned id w').log (.asked id) with world := (bh.result w' b').2 } :
      Dispatcher W B V).settle bh id outcome) := by
  have hpair : bh.result w' b' = (some outcome, (bh.result w' b').2) := Prod.ext hresult rfl
  have hworld : (({ d.modifyCell id fun c => { c with body := none } with world := w' } : Dispatcher W B V).log
    (.cleanedUp id) |>.log (.asked id)).world = w' := rfl
  unfold conclude?
  rw [hc]
  simp only [hfree, Bool.not_true, Bool.false_eq_true, if_false, hbody, world_modifyCell, hclean, hfault, hworld]
  rw [hpair]
  rfl

theorem bodyIsFree_of_conclude {c : Cell B V} (hc : d.cells[id]? = some c) {d' : Dispatcher W B V}
    (h : d.conclude? bh id = some d') : d.bodyIsFree id = true := by
  refine Bool.not_eq_false _ ▸ fun hnot => ?_
  unfold conclude? at h
  rw [hc] at h
  simp only [hnot, Bool.not_false, if_true] at h
  cases h

theorem ne_checkpoint_of_notice {s settlement : Settlement (Except Fault V)} {outcome : Except Fault V} {event : Event V}
    (h : Notice id s outcome settlement event) : event ≠ .checkpoint := by
  cases h <;> nofun

/-- **Concluding cleans up and settles.**  The hooks return, so the caller's call goes on. -/
theorem conclude_spec (hbh : bh.Returns) {c : Cell B V} (hc : d.cells[id]? = some c)
    (hcalm : c.settlement.sink ≠ some (.callback true)) {d' : Dispatcher W B V} (h : d.conclude? bh id = some d') :
    Same d d' ∧ (∀ id', id ≠ id' → d'.strand id' = d.strand id') ∧
      (∃ events, Echoed d.checkpoints events ∧ d'.history = events ++ d.history) ∧
      Strand.Step bh id .quiet { d.strand id with chores := .conclude id :: (d.strand id).chores } (d'.strand id) := by
  have hfree := bodyIsFree_of_conclude hc h
  cases hbody : c.body with
  | none =>
    unfold conclude? at h
    rw [hc] at h
    simp only [hfree, Bool.not_true, Bool.false_eq_true, if_false, hbody] at h
    obtain rfl := Option.some.inj h
    obtain ⟨hsame, hothers, settlement, event, hnotice, hhistory, hstrand⟩ :=
      settle_closes bh hc hbody hcalm (.error (c.fault.getD bodyMissing))
    refine ⟨hsame, hothers, ⟨_, .cons (ne_checkpoint_of_notice hnotice) .nil, ?_⟩, ?_⟩
    · rw [hhistory, List.append_assoc]
      rfl
    · exact (Strand.Step.bodyless hbody hnotice).cast (Strand.ext hc rfl rfl rfl rfl) hstrand
  | some b =>
    have htaken := cells_modifyCell hc fun c => { c with body := none }
    obtain ⟨w', b', hclean⟩ : ∃ w' b', bh.cleanUp d.world b = (false, w', b') :=
      ⟨_, _, Prod.ext (hbh.cleanUp d.world b) rfl⟩
    have hothers' : ∀ id', id ≠ id' → (d.cleaned id w').strand id' = d.strand id' := fun id' hne =>
      (strand_log_of_ne (by simpa [Event.task?] using hne)).trans (strand_modifyCell_of_ne hne _)
    have hcleaned : Echoed d.checkpoints [Event.cleanedUp (V := V) id] := .cons (e := .cleanedUp id) nofun .nil
    cases hfault : c.fault with
    | some fault =>
      rw [conclude?_fault hc hfree hbody hclean hfault] at h
      obtain rfl := Option.some.inj h
      obtain ⟨hsame, hothers, settlement, event, hnotice, hhistory, hstrand⟩ := settle_closes bh
        (d := { d.cleaned id w' with world := bh.discard w' b' }) htaken rfl hcalm (.error fault)
      refine ⟨⟨hsame.agenda, hsame.inbox, hsame.crew, hsame.gone, hsame.checkpoints⟩, fun id' hne => ?_,
        ⟨_, .cons (ne_checkpoint_of_notice hnotice) hcleaned, ?_⟩, ?_⟩
      · rw [hothers id' hne]
        exact hothers' id' hne
      · rw [hhistory, List.append_assoc]
        rfl
      · refine (Strand.Step.conclude hbody (.fault hfault) hnotice).cast (Strand.ext hc rfl rfl rfl rfl)
          (hstrand.trans (Strand.ext rfl rfl rfl rfl ?_))
        exact congrArg (List.cons event) (filter_event rfl _)
    | none =>
      obtain ⟨outcome, hresult⟩ := Option.ne_none_iff_exists'.1 (hbh.result w' b')
      rw [conclude?_result hc hfree hbody hclean hfault hresult] at h
      obtain rfl := Option.some.inj h
      obtain ⟨hsame, hothers, settlement, event, hnotice, hhistory, hstrand⟩ := settle_closes bh
        (d := { (d.cleaned id w').log (.asked id) with world := (bh.result w' b').2 }) htaken rfl hcalm outcome
      have hasked : Echoed d.checkpoints [Event.asked (V := V) id, .cleanedUp id] := .cons (e := .asked id) nofun hcleaned
      refine ⟨⟨hsame.agenda, hsame.inbox, hsame.crew, hsame.gone, hsame.checkpoints⟩, fun id' hne => ?_,
        ⟨_, .cons (ne_checkpoint_of_notice hnotice) hasked, ?_⟩, ?_⟩
      · rw [hothers id' hne]
        exact (strand_log_of_ne (by simpa [Event.task?] using hne)).trans (hothers' id' hne)
      · rw [hhistory, List.append_assoc]
        rfl
      · refine (Strand.Step.conclude hbody (.result hfault) hnotice).cast
          (Strand.ext hc rfl rfl rfl rfl) (hstrand.trans (Strand.ext rfl rfl rfl rfl ?_))
        exact congrArg (List.cons event)
          ((filter_event rfl _).trans (congrArg (List.cons (.asked id)) (filter_event rfl _)))

/-! ## Pumping and forcing -/

theorem strand_plan_quiet {chores : List Chore} (hquiet : ∀ chore ∈ chores, chore.task? = none) (id : Nat) :
    (d.plan chores).strand id = d.strand id :=
  strand_plan_of_ne fun chore hchore => by simp [hquiet chore hchore]

theorem strand_plan_cons {chore : Chore} (hchore : chore.task? = some id) {chores : List Chore}
    (hquiet : ∀ chore ∈ chores, chore.task? = none) :
    (d.plan (chore :: chores)).strand id = { d.strand id with chores := chore :: (d.strand id).chores } := by
  have hrest := congrArg Strand.chores (strand_plan_quiet (d := d) hquiet id)
  exact Strand.ext rfl ((filter_chore hchore (chores ++ d.agenda)).trans (congrArg (List.cons chore) hrest)) rfl rfl rfl

theorem leads_receive {waiting : List Nat} (hinbox : d.inbox = id' :: waiting) {chores : List Chore}
    (hquiet : ∀ chore ∈ chores, chore.task? = none) (id : Nat) :
    Strand.Leads bh id .quiet (d.strand id)
      ((({ d with inbox := waiting } : Dispatcher W B V).plan (.complete id' :: chores)).strand id) := by
  by_cases hid : id' = id
  · subst hid
    rw [strand_plan_cons rfl hquiet]
    refine .inr ((Strand.Step.receive (p := waiting.count id')).cast (Strand.ext rfl rfl ?_ rfl rfl) rfl)
    show d.inbox.count id' = _
    rw [hinbox, List.count_cons_self]
  · have hplan : ∀ chore ∈ Chore.complete id' :: chores, chore.task? ≠ some id := by
      intro chore hchore
      rcases List.mem_cons.1 hchore with rfl | hchore
      · simpa [Chore.task?] using hid
      · simp [hquiet chore hchore]
    rw [strand_plan_of_ne hplan]
    refine .inl ⟨rfl, Strand.ext rfl rfl ?_ rfl rfl⟩
    show waiting.count id = d.inbox.count id
    rw [hinbox, List.count_cons_of_ne hid]

theorem leads_pump (handled id : Nat) : Strand.Leads bh id .quiet (d.strand id) ((d.pump handled).strand id) := by
  unfold pump
  split
  · rename_i id' waiting hinbox
    exact leads_receive hinbox (by simp [Chore.task?]) id
  · exact .inl ⟨rfl, rfl⟩

theorem leads_awaitIdle {d' : Dispatcher W B V} (h : d.awaitIdle? = some d') (id : Nat) :
    Strand.Leads bh id .quiet (d.strand id) (d'.strand id) := by
  unfold awaitIdle? at h
  split at h
  · cases h
    exact .inl ⟨rfl, rfl⟩
  · cases hinbox : d.inbox with
    | nil =>
      rw [hinbox] at h
      cases h
    | cons id' waiting =>
      rw [hinbox] at h
      cases h
      exact leads_receive hinbox (by simp [Chore.task?]) id

theorem strand_drain (t : Drain) (id : Nat) : (d.drain t).strand id = d.strand id := by
  unfold drain
  split
  · rfl
  · exact strand_plan_quiet (by simp [Chore.task?]) id

theorem strand_drained (id : Nat) : d.drained.strand id = d.strand id := by
  unfold drained
  split
  · rfl
  · exact strand_plan_quiet (by simp [Chore.task?]) id

theorem force_eq {c : Cell B V} (hc : d.cells[id]? = some c) (hstage : c.stage = .queued) (ids : List Nat) :
    d.force (id :: ids) = (d.modifyCell id fun c =>
      { c.record .shuttingDown with stage := .completing, forced := true }).plan [.complete id, .force ids] := by
  obtain ⟨stage, entered, body, fanout, tally, fault, forced, settlement⟩ := c
  cases hstage
  simp only [force, hc]

theorem force_eq_plan (h : (d.cells[id]?).map Cell.stage ≠ some .queued) (ids : List Nat) :
    d.force (id :: ids) = d.plan [.force ids] := by
  cases hc : d.cells[id]? with
  | none => simp only [force, hc]
  | some c =>
    obtain ⟨stage, entered, body, fanout, tally, fault, forced, settlement⟩ := c
    rw [hc] at h
    cases stage with
    | queued => exact absurd rfl h
    | _ => simp only [force, hc]

theorem leads_force (ids : List Nat) (id : Nat) :
    Strand.Leads bh id (match ids with
      | id' :: _ => if id' = id ∧ (d.cells[id]?).map Cell.stage = some .queued then .bar (some .shuttingDown) else .quiet
      | [] => .quiet) (d.strand id) ((d.force ids).strand id) := by
  cases ids with
  | nil => exact .inl ⟨rfl, rfl⟩
  | cons id' ids =>
    have hquiet : ∀ chore ∈ [Chore.force ids], chore.task? = none := by simp [Chore.task?]
    dsimp only
    by_cases hstage : (d.cells[id']?).map Cell.stage = some .queued
    · obtain ⟨c, hc, hqueued⟩ := Option.map_eq_some_iff.1 hstage
      rw [force_eq hc hqueued]
      by_cases hid : id' = id
      · subst hid
        rw [if_pos ⟨rfl, hstage⟩, strand_plan_cons rfl hquiet]
        exact .inr ((Strand.Step.force hqueued).cast (Strand.ext hc rfl rfl rfl rfl)
          (Strand.ext (cells_modifyCell hc _) rfl rfl rfl rfl))
      · rw [if_neg fun h => hid h.1]
        refine .inl ⟨rfl, ?_⟩
        rw [strand_plan_of_ne (by simpa [Chore.task?] using hid), strand_modifyCell_of_ne hid]
    · have hnot : ¬ (id' = id ∧ (d.cells[id]?).map Cell.stage = some .queued) := by
        rintro ⟨rfl, h⟩
        exact hstage h
      rw [force_eq_plan hstage, if_neg hnot]
      exact .inl ⟨rfl, strand_plan_quiet hquiet id⟩

/-! ## Taking in -/

theorem strand_reject_of_ne (h : id' ≠ id) (fault : Fault) : (d.reject id' fault).strand id = d.strand id :=
  (strand_plan_of_ne (by simpa [Chore.task?] using h)).trans (strand_modifyCell_of_ne h _)

theorem strand_reject {c : Cell B V} (hc : d.cells[id]? = some c) (fault : Fault) :
    (d.reject id fault).strand id = { d.strand id with
      cell := some { c.record fault with stage := .rejected }, chores := .complete id :: (d.strand id).chores } :=
  Strand.ext (cells_modifyCell hc _) (filter_chore rfl _) rfl rfl rfl

/-- A task that is let in waits for a worker, or is spread over at least one partition. -/
theorem letIn_cases (bh : Behaviour W B V) (id : Nat) (b : B) :
    (d.admission.enter.1 = false ∧
      d.letIn bh id b = ({ d with admission := d.admission.enter.2 } : Dispatcher W B V).reject id .shuttingDown) ∨
    (d.admission.enter.1 = true ∧ bh.items b = none ∧ d.letIn bh id b =
      (({ d with admission := d.admission.enter.2, registry := d.registry ++ [id] } : Dispatcher W B V).modifyCell id
        fun c => { c with entered := true, stage := .queued }).plan [.submit id]) ∨
    (d.admission.enter.1 = true ∧ ∃ n count, bh.items b = some n ∧ 0 < count ∧ d.letIn bh id b =
      (({ d with admission := d.admission.enter.2, registry := d.registry ++ [id] } : Dispatcher W B V).modifyCell id
        fun c => { c with entered := true, stage := .queued, fanout := some (.start n count) }).plan
          [.submitPart id 0 count]) := by
  unfold letIn
  cases hinside : d.admission.enter.1 with
  | false =>
    have hout : (!d.admission.enter.1) = true := by simp [hinside]
    exact .inl ⟨rfl, if_pos hout⟩
  | true =>
    have hin : ¬ (!d.admission.enter.1) = true := by simp [hinside]
    dsimp only
    rw [if_neg hin]
    cases hitems : bh.items b with
    | none => exact .inr (.inl ⟨rfl, rfl, rfl⟩)
    | some n => exact .inr (.inr ⟨rfl, n, _, rfl, Nat.lt_of_lt_of_le Nat.one_pos (Nat.le_max_right ..), rfl⟩)

theorem strand_letIn_of_ne (h : id' ≠ id) (b : B) : (d.letIn bh id' b).strand id = d.strand id := by
  rcases letIn_cases bh id' b with ⟨-, heq⟩ | ⟨-, -, heq⟩ | ⟨-, n, count, -, -, heq⟩
  · rw [heq, strand_reject_of_ne h]
    rfl
  · rw [heq, strand_plan_of_ne (by simpa [Chore.task?] using h), strand_modifyCell_of_ne h]
    rfl
  · rw [heq, strand_plan_of_ne (by simpa [Chore.task?] using h), strand_modifyCell_of_ne h]
    rfl

def prepared (bh : Behaviour W B V) (d : Dispatcher W B V) (b : B) (sink : Sink) : Dispatcher W B V :=
  ({ d with
    world := (bh.prepare d.world b).2.1
    cells := d.cells ++ [{ Cell.fresh (bh.prepare d.world b).2.2 sink with stage := .validating }] } :
      Dispatcher W B V).log (.prepared d.cells.length)

theorem spawn_eq (b : B) (sink : Sink) : d.spawn bh b sink = match (bh.prepare d.world b).1 with
    | .error fault => (d.prepared bh b sink).reject d.cells.length fault
    | .ok () => (d.prepared bh b sink).letIn bh d.cells.length (bh.prepare d.world b).2.2 := rfl

theorem strand_prepared_of_ne (h : d.cells.length ≠ id) (b : B) (sink : Sink) :
    (d.prepared bh b sink).strand id = d.strand id := by
  unfold prepared
  rw [strand_log_of_ne (by simpa [Event.task?] using h)]
  refine Strand.ext ?_ rfl rfl rfl rfl
  show (d.cells ++ _)[id]? = d.cells[id]?
  rcases Nat.lt_or_gt_of_ne h with h | h
  · rw [List.getElem?_eq_none (by rw [List.length_append]; exact h), List.getElem?_eq_none (Nat.le_of_lt h)]
  · exact List.getElem?_append_left h

theorem strand_prepared (bh : Behaviour W B V) (b : B) (sink : Sink) : (d.prepared bh b sink).strand d.cells.length =
    { d.strand d.cells.length with
      cell := some { Cell.fresh (bh.prepare d.world b).2.2 sink with stage := .validating }
      story := .prepared d.cells.length :: (d.strand d.cells.length).story } :=
  Strand.ext List.getElem?_concat_length rfl rfl rfl (filter_event rfl _)

theorem leads_spawn (b : B) {sink : Sink} (hsink : sink ≠ .callback true) (id : Nat) :
    Strand.Leads bh id (d.note bh id (.spawn b sink)) (d.strand id) ((d.spawn bh b sink).strand id) := by
  rw [spawn_eq, note]
  by_cases hid : id = d.cells.length
  · subst hid
    rw [if_pos rfl]
    have hnone : d.cells[d.cells.length]? = none := List.getElem?_eq_none (Nat.le_refl _)
    have hcell := congrArg Strand.cell (strand_prepared bh (d := d) b sink)
    have hstrand := strand_prepared bh (d := d) b sink
    right
    cases hcheck : (bh.prepare d.world b).1 with
    | error fault =>
      refine (Strand.Step.reject (bh.prepare d.world b).2.2 sink fault hsink).cast
        (Strand.ext hnone rfl rfl rfl rfl) ?_
      rw [strand_reject hcell, hstrand]
      rfl
    | ok =>
      rcases letIn_cases bh (d := d.prepared bh b sink) d.cells.length (bh.prepare d.world b).2.2 with
        ⟨hinside, heq⟩ | ⟨hinside, hitems, heq⟩ | ⟨hinside, n, count, hitems, hcount, heq⟩
      · have hinside' : d.admission.enter.1 = false := hinside
        dsimp only
        rw [heq, hinside', if_neg (by simp)]
        refine (Strand.Step.reject (bh.prepare d.world b).2.2 sink .shuttingDown hsink).cast
          (Strand.ext hnone rfl rfl rfl rfl) ?_
        exact Strand.ext (cells_modifyCell hcell _) (filter_chore rfl _) rfl rfl (filter_event rfl _)
      · have hinside' : d.admission.enter.1 = true := hinside
        dsimp only
        rw [heq, hinside', if_pos rfl]
        refine (Strand.Step.letIn (bh.prepare d.world b).2.2 sink hsink hitems).cast
          (Strand.ext hnone rfl rfl rfl rfl) ?_
        exact Strand.ext (cells_modifyCell hcell _) (filter_chore rfl _) rfl rfl (filter_event rfl _)
      · have hinside' : d.admission.enter.1 = true := hinside
        dsimp only
        rw [heq, hinside', if_pos rfl]
        refine (Strand.Step.spread (bh.prepare d.world b).2.2 sink n count hsink hitems hcount).cast
          (Strand.ext hnone rfl rfl rfl rfl) ?_
        exact Strand.ext (cells_modifyCell hcell _) (filter_chore rfl _) rfl rfl (filter_event rfl _)
  · rw [if_neg hid]
    refine .inl ⟨rfl, ?_⟩
    have hne : d.cells.length ≠ id := fun h => hid h.symm
    cases (bh.prepare d.world b).1 with
    | error fault => exact (strand_reject_of_ne hne fault).trans (strand_prepared_of_ne hne b sink)
    | ok => exact (strand_letIn_of_ne hne _).trans (strand_prepared_of_ne hne b sink)

theorem step_spawn (b : B) {sink : Sink} (hsink : sink ≠ .callback true) {c : Cell B V}
    (hc : (d.spawn bh b sink).cells[d.cells.length]? = some c) :
    Strand.Step bh d.cells.length (d.note bh d.cells.length (.spawn b sink)) (d.strand d.cells.length)
      ((d.spawn bh b sink).strand d.cells.length) := by
  have hnone : d.cells[d.cells.length]? = none := List.getElem?_eq_none (Nat.le_refl _)
  refine (leads_spawn b hsink _).resolve_left fun hquiet => ?_
  cases hc.symm.trans ((congrArg Strand.cell hquiet.2).trans hnone)

/-! ## Promises -/

theorem leads_promise (f : Cell B V → Cell B V) (id' : Nat)
    (hf : ∀ c, d.cells[id']? = some c → ∃ promise, f c = { c with settlement := { c.settlement with promise } })
    (id : Nat) :
    Strand.Leads bh id .quiet (d.strand id) ((d.modifyCell id' f).strand id) := by
  by_cases hid : id' = id
  · subst hid
    cases hc : d.cells[id']? with
    | none =>
      refine .inl ⟨rfl, Strand.ext ?_ rfl rfl rfl rfl⟩
      show (d.cells.modify id' f)[id']? = d.cells[id']?
      rw [List.getElem?_modify_eq, hc]
      rfl
    | some c =>
      obtain ⟨promise, heq⟩ := hf c hc
      refine .inr ((Strand.Step.promise promise).cast (Strand.ext hc rfl rfl rfl rfl) (Strand.ext ?_ rfl rfl rfl rfl))
      exact (cells_modifyCell hc f).trans (congrArg some heq)
  · exact .inl ⟨rfl, strand_modifyCell_of_ne hid f⟩

theorem leads_take (id' id : Nat) : Strand.Leads bh id .quiet (d.strand id) ((d.take id').2.strand id) := by
  unfold take
  cases hc : d.cells[id']? with
  | none => exact .inl ⟨rfl, rfl⟩
  | some c =>
    refine leads_promise _ id' (fun c' hc' => ?_) id
    exact ⟨_, rfl⟩

theorem leads_poll (id' id : Nat) : Strand.Leads bh id .quiet (d.strand id) ((d.poll id').2.strand id) := by
  unfold poll
  cases hc : d.cells[id']? with
  | none => exact .inl ⟨rfl, rfl⟩
  | some c =>
    refine leads_promise _ id' (fun c' hc' => ?_) id
    exact ⟨_, rfl⟩

theorem leads_dropPromise (id' id : Nat) :
    Strand.Leads bh id .quiet (d.strand id) ((d.dropPromise bh id').strand id) := by
  unfold dropPromise
  cases hc : d.cells[id']? with
  | none => exact .inl ⟨rfl, rfl⟩
  | some c =>
    refine leads_promise (d := { d with world := _ }) _ id' (fun c' hc' => ?_) id
    exact ⟨_, rfl⟩

/-! ## A move of the caller -/

theorem strand_shutdown (id : Nat) : d.shutdown.strand id = d.strand id := by
  unfold shutdown
  split
  · rfl
  · exact strand_plan_quiet (by simp [shutdownChores, Chore.task?]) id

/-- The first chore is about one task: what doing it does to that task is a step, and to the others nothing. -/
theorem leads_chore (bh : Behaviour W B V) {chore : Chore} {rest : List Chore} (hagenda : d.agenda = chore :: rest)
    (htask : chore.task? = some id') {n : Note} {d' : Dispatcher W B V} (hrooted : (d.strand id').Rooted)
    (hself : ∀ c, ({ d with agenda := rest } : Dispatcher W B V).cells[id']? = some c → Strand.Step bh id' n
      { ({ d with agenda := rest } : Dispatcher W B V).strand id' with
        chores := chore :: (({ d with agenda := rest } : Dispatcher W B V).strand id').chores } (d'.strand id'))
    (hothers : ∀ id, id' ≠ id → d'.strand id = ({ d with agenda := rest } : Dispatcher W B V).strand id) (id : Nat) :
    Strand.Leads bh id (if id' = id then n else .quiet) (d.strand id) (d'.strand id) := by
  by_cases hid : id' = id
  · subst hid
    rw [if_pos rfl, strand_of_agenda hagenda htask]
    cases hc : d.cells[id']? with
    | none =>
      have hblank := (hrooted hc).1
      rw [strand_of_agenda hagenda htask] at hblank
      cases hblank
    | some c => exact .inr (hself c hc)
  · have hother : chore.task? ≠ some id := by rw [htask]; simpa using hid
    rw [if_neg hid, strand_of_agenda_of_ne hagenda hother]
    exact .inl ⟨rfl, hothers id hid⟩

theorem leads_of_agenda (bh : Behaviour W B V) {chore : Chore} {rest : List Chore} (hagenda : d.agenda = chore :: rest)
    (htask : chore.task? = none) {n : Note} {d' : Dispatcher W B V}
    (h : Strand.Leads bh id n (({ d with agenda := rest } : Dispatcher W B V).strand id) (d'.strand id)) :
    Strand.Leads bh id n (d.strand id) (d'.strand id) := by
  rw [strand_of_agenda_of_ne hagenda (by simp [htask])]
  exact h

/-! ### Chores of one task -/

section

variable {rest : List Chore} {d' : Dispatcher W B V}

theorem leads_submit (hagenda : d.agenda = .submit id' :: rest) (hrooted : (d.strand id').Rooted)
    (h : d.stepCaller? bh = some d') (id : Nat) :
    Strand.Leads bh id (d.note bh id (.move .caller)) (d.strand id) (d'.strand id) := by
  rw [stepCaller?, hagenda] at h
  rw [note, hagenda]
  obtain rfl := Option.some.inj h
  have hlead := leads_chore bh hagenda rfl hrooted (fun c hc => step_submit hc)
    (fun id hid => strand_submit_of_ne hid) id
  by_cases hid : id' = id
  · subst hid
    exact hlead
  · dsimp only
    rw [if_neg hid] at hlead ⊢
    exact hlead

theorem leads_submitPart {next count : Nat} (hagenda : d.agenda = .submitPart id' next count :: rest)
    (hrooted : (d.strand id').Rooted) (h : d.stepCaller? bh = some d') (id : Nat) :
    Strand.Leads bh id (d.note bh id (.move .caller)) (d.strand id) (d'.strand id) := by
  rw [stepCaller?, hagenda] at h
  rw [note, hagenda]
  obtain rfl := Option.some.inj h
  by_cases hnext : next < count
  · have hlead := leads_chore bh hagenda rfl hrooted (fun c hc => step_submitPart hc hnext)
      (fun id hid => strand_submitPart_of_ne hid next count) id
    by_cases hid : id' = id
    · subst hid
      dsimp only
      rw [if_pos hnext]
      exact hlead
    · dsimp only
      rw [if_neg hid] at hlead ⊢
      exact hlead
  · have hlead := leads_chore bh hagenda rfl hrooted (fun c hc => step_submitted hc hnext)
      (fun id hid => strand_submitPart_of_ne hid next count) id
    dsimp only
    rw [if_neg hnext]
    exact hlead

theorem leads_abandon {left : Nat} {last : Bool} (hagenda : d.agenda = .abandon id' left last :: rest)
    (hrooted : (d.strand id').Rooted) (h : d.stepCaller? bh = some d') (id : Nat) :
    Strand.Leads bh id (d.note bh id (.move .caller)) (d.strand id) (d'.strand id) := by
  rw [stepCaller?, hagenda] at h
  rw [note, hagenda]
  obtain rfl := Option.some.inj h
  have hlead := leads_chore bh hagenda rfl hrooted (fun c hc => step_abandon hc left last)
    (fun id hid => strand_abandon_of_ne hid left last) id
  cases left with
  | zero => exact hlead
  | succ left => exact hlead

theorem leads_complete (hagenda : d.agenda = .complete id' :: rest) (hrooted : (d.strand id').Rooted)
    (h : d.stepCaller? bh = some d') (id : Nat) :
    Strand.Leads bh id (d.note bh id (.move .caller)) (d.strand id) (d'.strand id) := by
  rw [stepCaller?, hagenda] at h
  rw [note, hagenda]
  obtain rfl := Option.some.inj h
  have hlead := leads_chore bh hagenda rfl hrooted (fun c hc => step_complete hc)
    (fun id hid => strand_complete_of_ne hid) id
  rw [ite_self] at hlead
  exact hlead

theorem leads_conclude (hbh : bh.Returns) (hagenda : d.agenda = .conclude id' :: rest)
    (hrooted : (d.strand id').Rooted) (hcalm : (d.strand id').Calm) (h : d.stepCaller? bh = some d') (id : Nat) :
    Strand.Leads bh id (d.note bh id (.move .caller)) (d.strand id) (d'.strand id) := by
  rw [stepCaller?, hagenda] at h
  rw [note, hagenda]
  cases hc : d.cells[id']? with
  | none =>
    have hblank := (hrooted hc).1
    rw [strand_of_agenda hagenda rfl] at hblank
    cases hblank
  | some c =>
    obtain ⟨-, hothers, -, hstep⟩ := conclude_spec (d := { d with agenda := rest }) hbh hc (hcalm c hc) h
    have hlead := leads_chore bh hagenda rfl hrooted (fun _ _ => hstep) hothers id
    rw [ite_self] at hlead
    exact hlead

/-! ### Chores of no task -/

theorem leads_of_no_task {chore : Chore} (hagenda : d.agenda = chore :: rest) (htask : chore.task? = none)
    (hkeeps : chore ≠ .letGo) (h : d.stepCaller? bh = some d') (id : Nat) :
    Strand.Leads bh id (d.note bh id (.move .caller)) (d.strand id) (d'.strand id) := by
  rw [stepCaller?, hagenda] at h
  rw [note, hagenda]
  cases chore with
  | pump handled =>
    obtain rfl := Option.some.inj h
    exact leads_of_agenda bh hagenda rfl (leads_pump handled id)
  | awaitIdle => exact leads_of_agenda bh hagenda rfl (leads_awaitIdle h id)
  | drain t =>
    obtain rfl := Option.some.inj h
    exact leads_of_agenda bh hagenda rfl (.inl ⟨rfl, strand_drain t id⟩)
  | drained =>
    obtain rfl := Option.some.inj h
    exact leads_of_agenda bh hagenda rfl (.inl ⟨rfl, strand_drained id⟩)
  | force ids =>
    obtain rfl := Option.some.inj h
    have hlead := leads_of_agenda bh hagenda rfl (leads_force ids id)
    cases ids <;> exact hlead
  | recount | closeCrew | join =>
    obtain rfl := Option.some.inj h
    exact leads_of_agenda bh hagenda rfl (.inl ⟨rfl, rfl⟩)
  | letGo => exact absurd rfl hkeeps
  | submit | submitPart | abandon | complete | conclude => cases htask

end

/-- **A move of the caller is a step for the task of its chore, and nothing for the others**, while the caller holds on
to the dispatcher. -/
theorem leads_stepCaller (hbh : bh.Returns) (hrooted : ∀ id, (d.strand id).Rooted) (hcalm : ∀ id, (d.strand id).Calm)
    (hkeeps : Chore.letGo ∉ d.agenda) {d' : Dispatcher W B V} (h : d.stepCaller? bh = some d') (id : Nat) :
    Strand.Leads bh id (d.note bh id (.move .caller)) (d.strand id) (d'.strand id) := by
  cases hagenda : d.agenda with
  | nil =>
    rw [stepCaller?, hagenda] at h
    cases h
  | cons chore rest =>
    rw [hagenda, List.mem_cons, not_or] at hkeeps
    cases chore with
    | submit id' => exact leads_submit hagenda (hrooted id') h id
    | submitPart id' next count => exact leads_submitPart hagenda (hrooted id') h id
    | abandon id' left last => exact leads_abandon hagenda (hrooted id') h id
    | complete id' => exact leads_complete hagenda (hrooted id') h id
    | conclude id' => exact leads_conclude hbh hagenda (hrooted id') (hcalm id') h id
    | _ => exact leads_of_no_task hagenda rfl (Ne.symm hkeeps.1) h id

end Dispatcher
end BitmapWorks
