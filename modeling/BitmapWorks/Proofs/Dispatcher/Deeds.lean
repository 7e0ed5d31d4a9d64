import BitmapWorks.Proofs.Dispatcher.Deals
/-!
# Deeds — what an act does to the world, and to what a task has

A task has its body until that is used up, and its promise.  The world of the tasks changes when a worker calls a body,
when the caller concludes a task, and when an outcome that waits in a promise is dropped.  Each of these is a deed of
one task, and what the other tasks have stays as it is (`does_of_act`).
-/
namespace BitmapWorks

variable {W B V : Type}

structure Holding (B V : Type) where
  body : Option B
  promise : Promise (Except Fault V)

def Cell.holding (c : Cell B V) : Holding B V := ⟨c.body, c.settlement.promise⟩

inductive Settles (bh : Behaviour W B V) (stopping : Bool) (w : W) (p : Promise (Except Fault V))
    (outcome : Except Fault V) : W → Promise (Except Fault V) → Option (Except Fault V) → Prop
  | kept : Settles bh stopping w p outcome w { p with line := .holding outcome } (some outcome)
  | called : Settles bh stopping w p outcome w p (some outcome)
  | lost : p.dropped = true → Settles bh stopping w p outcome (bh.lose w outcome) p (some outcome)
  | discarded {p'} : stopping = true → p' = p ∨ p' = { p with line := .ended } →
    Settles bh stopping w p outcome (bh.lose w outcome) p' none

/-- What is done for the task of a cell: the world and what the task has afterwards, and the outcome that it is settled
with, if it is. -/
inductive Deed (bh : Behaviour W B V) (stopping : Bool) (c : Cell B V) (w : W) :
    W → Holding B V → Option (Except Fault V) → Prop
  | work {b} (item : Nat) : c.body = some b → Deed bh stopping c w (bh.work w b item).world
    ⟨some (bh.work w b item).body, c.settlement.promise⟩ none
  | conclude {b outcome w₁ w₂ p told} : c.body = some b → c.settlement.claimed = true →
    Closes bh c.fault w b outcome w₁ → Settles bh stopping w₁ c.settlement.promise outcome w₂ p told →
    Deed bh stopping c w w₂ ⟨none, p⟩ told
  | ask {p : Promise (Except Fault V)} : p.waiting = c.settlement.promise.waiting ∨ p.waiting = none →
    Deed bh stopping c w w ⟨c.body, p⟩ none
  | forget : Deed bh stopping c w (c.settlement.promise.waiting.elim w (bh.lose w))
    ⟨c.body, c.settlement.promise.drop.2⟩ none

theorem Puts.settles {skips stopping : Bool} (hskips : skips = true → stopping = true) {bh : Behaviour W B V} {w w' : W}
    {s s' : Settlement (Except Fault V)} {outcome : Except Fault V} {told : Option (Except Fault V)}
    (h : Puts bh skips w s outcome w' s' told) : Settles bh stopping w s.promise outcome w' s'.promise told := by
  cases h with
  | kept => exact .kept
  | called => exact .called
  | lost _ _ hdropped => exact .lost hdropped
  | discarded hskip =>
    refine .discarded (hskips hskip) ?_
    unfold Settlement.discard
    split
    · exact .inr rfl
    · exact .inl rfl

namespace Dispatcher

variable {bh : Behaviour W B V} {d d' : Dispatcher W B V} {id id' : Nat} {c : Cell B V}

def holding (d : Dispatcher W B V) (id : Nat) : Option (Holding B V) := (d.cells[id]?).map Cell.holding

inductive Does (bh : Behaviour W B V) (d d' : Dispatcher W B V) : Act W B V → Prop
  | idle {a} : (d'.world = d.world ∨ ∃ tally, d'.world = bh.credit d.world tally) →
    (∀ id, d'.holding id = d.holding id) → d'.outcomes = d.outcomes → Does bh d d' a
  | deed {a id c h told} : d.cells[id]? = some c →
    Deed bh d.admission.gate.stopping c d.world d'.world h told →
    (c.body ≠ none → h.body = none → a = .move .caller) → d'.holding id = some h →
    (∀ id', id ≠ id' → d'.holding id' = d.holding id') →
    d'.outcomes = (told.map (id, ·)).toList ++ d.outcomes → Does bh d d' a
  | spawn {b sink} : d'.world = (bh.prepare d.world b).2.1 →
    d'.holding d.cells.length = some ⟨some (bh.prepare d.world b).2.2, .fresh⟩ →
    (∀ id, d.cells.length ≠ id → d'.holding id = d.holding id) → d'.outcomes = d.outcomes → Does bh d d' (.spawn b sink)
  | releaseValue {v} : d'.world = bh.release d.world v → (∀ id, d'.holding id = d.holding id) →
    d'.outcomes = d.outcomes → Does bh d d' (.releaseValue v)
  | surround {w} : d'.world = w → (∀ id, d'.holding id = d.holding id) → d'.outcomes = d.outcomes →
    Does bh d d' (.surround w)

/-! ## Changed cells -/

theorem holding_of_cells {h : Holding B V} (hc : d'.cells[id]? = some c) (hh : c.holding = h) :
    d'.holding id = some h := by
  rw [holding, hc, ← hh]
  rfl

theorem holding_of_same (hcells : d'.cells = d.cells) (id : Nat) : d'.holding id = d.holding id := by
  rw [holding, hcells, holding]

theorem holding_set {c' : Cell B V} (hc : d.cells[id]? = some c) (hcells : d'.cells = d.cells.set id c') :
    d'.holding id = some c'.holding ∧ ∀ id', id ≠ id' → d'.holding id' = d.holding id' := by
  refine ⟨holding_of_cells ?_ rfl, fun id' hne => ?_⟩
  · rw [hcells, List.getElem?_set_self (List.getElem?_eq_some_iff.1 hc).1]
  · rw [holding, hcells, List.getElem?_set_ne hne, holding]

theorem holding_concat (hcells : d'.cells = d.cells ++ [c]) :
    d'.holding d.cells.length = some c.holding ∧ ∀ id, d.cells.length ≠ id → d'.holding id = d.holding id := by
  refine ⟨holding_of_cells (by rw [hcells, List.getElem?_concat_length]) rfl, fun id hne => ?_⟩
  rw [holding, hcells, holding]
  rcases Nat.lt_or_gt_of_ne hne with hlt | hgt
  · rw [List.getElem?_eq_none (by rw [List.length_append]; exact hlt), List.getElem?_eq_none (Nat.le_of_lt hlt)]
  · rw [List.getElem?_append_left hgt]

/-! ## Asking -/

theorem waiting_receive (closed : Except Fault V) (p : Promise (Except Fault V)) :
    (p.receive closed).2.waiting = p.waiting ∨ (p.receive closed).2.waiting = none := by
  unfold Promise.receive
  split
  · exact .inl rfl
  · split
    · exact .inl rfl
    · exact .inr rfl
    · exact .inl rfl

theorem waiting_take (closed : Except Fault V) (p : Promise (Except Fault V)) :
    (p.take closed).2.waiting = p.waiting ∨ (p.take closed).2.waiting = none := by
  unfold Promise.take
  split
  · exact .inl rfl
  · exact waiting_receive closed p

theorem waiting_poll (closed : Except Fault V) (p : Promise (Except Fault V)) :
    (p.poll closed).2.waiting = p.waiting ∨ (p.poll closed).2.waiting = none := by
  have hreceive := waiting_receive closed p
  unfold Promise.poll
  split
  · exact .inl rfl
  · revert hreceive
    obtain ⟨answer, p'⟩ := p.receive closed
    cases answer <;> exact id

/-! ## Deals -/

/-- **A deal does nothing to what tasks have, or is a deed of one task, or what its name says.** -/
theorem Deal.does {a : Act W B V} (h : Deal bh d d' a) : Does bh d d' a := by
  cases h with
  | idle hidles hasked hworld hcells hlevel => exact .idle (.inl hworld) (holding_of_same hcells) hlevel.outcomes
  | @stir m id c c' hc halike hcells hworld hlevel =>
    obtain ⟨hself, hothers⟩ := holding_set hc hcells
    refine .idle (.inl hworld) (fun id' => ?_) hlevel.outcomes
    by_cases hid : id = id'
    · subst hid
      rw [hself, holding, hc, Cell.holding, halike.body, halike.settlement]
      rfl
    · exact hothers id' hid
  | @work i id c b item hc hbody hrun hcells hworld hlevel =>
    obtain ⟨hself, hothers⟩ := holding_set hc hcells
    refine .deed hc (?_ : Deed bh _ c d.world d'.world _ none) (fun _ hnone => by cases hnone) hself hothers hlevel.outcomes
    rw [hworld]
    exact .work item hbody
  | @credit id c hc hclaimed hcells hworld hlevel =>
    obtain ⟨hself, hothers⟩ := holding_set hc hcells
    refine .idle (.inr ⟨c.tally, hworld⟩) (fun id' => ?_) hlevel.outcomes
    by_cases hid : id = id'
    · subst hid
      rw [hself, holding, hc]
      rfl
    · exact hothers id' hid
  | conclude hc hbody hclaimed hagenda hcloses hputs hcells hregistry hadmission houtcomes =>
    obtain ⟨hself, hothers⟩ := holding_set hc hcells
    refine .deed hc (.conclude hbody hclaimed hcloses (hputs.settles fun hskips => ?_)) (fun _ _ => rfl) hself hothers
      houtcomes
    exact (Bool.and_eq_true_iff.1 hskips).2
  | @take id c hc hcells hworld hlevel | @poll id c hc hcells hworld hlevel =>
    obtain ⟨hself, hothers⟩ := holding_set hc hcells
    refine .deed hc (?_ : Deed bh _ c d.world d'.world _ none) (fun hbody hnone => (hbody hnone).elim) hself hothers
      hlevel.outcomes
    rw [hworld]
    first
      | exact .ask (waiting_take _ _)
      | exact .ask (waiting_poll _ _)
  | @forget id c hc hcells hworld hlevel =>
    obtain ⟨hself, hothers⟩ := holding_set hc hcells
    refine .deed hc (?_ : Deed bh _ c d.world d'.world _ none) (fun hbody hnone => (hbody hnone).elim) hself hothers
      hlevel.outcomes
    rw [hworld]
    exact .forget
  | reject hcause hcells hworld hregistry houtcomes =>
    obtain ⟨hself, hothers⟩ := holding_concat hcells
    exact .spawn hworld hself hothers houtcomes
  | letIn hprepare hopen hcells hworld hregistry hadmission houtcomes =>
    obtain ⟨hself, hothers⟩ := holding_concat hcells
    exact .spawn hworld hself hothers houtcomes
  | shutdown hworld hcells hregistry hadmission houtcomes =>
    exact .idle (.inl hworld) (holding_of_same hcells) houtcomes
  | releaseValue hworld hcells hlevel => exact .releaseValue hworld (holding_of_same hcells) hlevel.outcomes
  | surround hworld hcells hlevel => exact .surround hworld (holding_of_same hcells) hlevel.outcomes
  | regate hworld hcells hregistry hadmission houtcomes =>
    exact .idle (.inl hworld) (holding_of_same hcells) houtcomes

/-- **Every act does nothing to what tasks have, or a deed of one task, or what its name says.** -/
theorem does_of_act (hbh : bh.Returns) (hheld : d.Held) (hsound : ∀ id, (d.strand id).Sound) {a : Act W B V}
    (hact : d.act? bh a = some d') : Does bh d d' a := (deal_of_act hbh hheld hsound hact).does

/-- **A task that is let in waits with the body that its preparation gave**, and with partitions if it has items. -/
theorem cells_spawn {b b' : B} {w : W} (hprepare : bh.prepare d.world b = (.ok (), w, b'))
    (hopen : d.admission.enter.1 = true) (sink : Sink) :
    ∃ count, (d.spawn bh b sink).cells[d.cells.length]? = some { Cell.fresh b' sink with
        stage := .queued, entered := true, fanout := (bh.items b').map (.start · count) } ∧
      (d.spawn bh b sink).outcomes = d.outcomes := by
  have hcell := congrArg Strand.cell (strand_prepared bh (d := d) b sink)
  have hspawn : d.spawn bh b sink = (d.prepared bh b sink).letIn bh d.cells.length b' := by
    rw [spawn_eq, hprepare]
  rw [hprepare] at hcell
  rw [hspawn]
  rcases letIn_cases bh (d := d.prepared bh b sink) d.cells.length b' with
    ⟨hclosed, -⟩ | ⟨-, hitems, heq⟩ | ⟨-, n, count, hitems, -, heq⟩
  · have hshut : d.admission.enter.1 = false := hclosed
    rw [hopen] at hshut
    cases hshut
  · rw [heq, hitems]
    exact ⟨0, cells_modifyCell hcell _, rfl⟩
  · rw [heq, hitems]
    exact ⟨count, cells_modifyCell hcell _, rfl⟩

end Dispatcher
end BitmapWorks
