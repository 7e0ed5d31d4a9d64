import BitmapWorks.Proofs.Dispatcher.Deals
import BitmapWorks.Proofs.Dispatcher.Story
/-!
# Results — what a task without a fault is settled with

When the caller concludes a task without a fault, the body of that very task is cleaned up in the world as it then is, and
asked for its result there (`Dispatcher.result?`).  A run asks a task once at most, since its body is used up by that, and
a task that has no fault is settled with what it was asked for (`Answered.run`).
-/
namespace BitmapWorks

variable {W B V : Type} {bh : Behaviour W B V} {id : Nat}

/-- What the body of a task without a fault gives in a world, once it is cleaned up. -/
def Cell.result? (bh : Behaviour W B V) (w : W) (c : Cell B V) : Option (Except Fault V) :=
  match c.fault, c.body with
  | none, some b => (bh.result (bh.cleanUp w b).2.1 (bh.cleanUp w b).2.2).1
  | _, _ => none

theorem Closes.result_eq {w w' : W} {c : Cell B V} {b : B} {outcome : Except Fault V}
    (h : Closes bh c.fault w b outcome w') (hbody : c.body = some b) (hfault : c.fault = none) :
    c.result? bh w = some outcome := by
  rw [hfault] at h
  cases h with
  | asked hresult =>
    unfold Cell.result?
    rw [hfault, hbody]
    exact hresult

namespace Dispatcher

variable {d d' : Dispatcher W B V}

/-- The result that a task is asked for in an act, which is the caller's move that concludes it. -/
def result? (bh : Behaviour W B V) (d : Dispatcher W B V) (id : Nat) : Act W B V → Option (Except Fault V)
  | .move .caller =>
    if d.agenda.head? = some (.conclude id) then (d.cells[id]?).bind (Cell.result? bh d.world) else none
  | _ => none

/-- The results that a task is asked for by the acts of a run, in their order. -/
def results (bh : Behaviour W B V) (d : Dispatcher W B V) (id : Nat) : List (Act W B V) → List (Except Fault V)
  | [] => []
  | a :: as => (d.result? bh id a).toList ++ match d.act? bh a with
    | none => []
    | some d => d.results bh id as

def Concluding (d : Dispatcher W B V) (id : Nat) (a : Act W B V) : Prop :=
  a = .move .caller ∧ d.agenda.head? = some (.conclude id)

theorem result?_eq_none {a : Act W B V} (h : ¬ d.Concluding id a) : d.result? bh id a = none := by
  cases a with
  | move m =>
    cases m with
    | caller => exact if_neg fun hhead => h ⟨rfl, hhead⟩
    | worker i => rfl
  | _ => rfl

/-- **Only a conclusion settles a task**, and it settles the task that it concludes. -/
theorem Deal.outcomes_of_not_concluding {a : Act W B V} (h : Deal bh d d' a) (hnot : ¬ d.Concluding id a)
    {outcome : Except Fault V} (hmem : (id, outcome) ∈ d'.outcomes) : (id, outcome) ∈ d.outcomes := by
  cases h with
  | @conclude id' c b outcome' w settlement told hc hbody hclaimed hhead hcloses hputs hcells hregistry hadmission
      houtcomes =>
    rw [houtcomes] at hmem
    rcases List.mem_append.1 hmem with hnew | hold
    · obtain ⟨outcome₁, -, heq⟩ := Option.map_eq_some_iff.1 (Option.mem_toList.1 hnew)
      obtain ⟨rfl, -⟩ := Prod.mk.inj heq
      exact absurd ⟨rfl, hhead⟩ hnot
    · exact hold
  | reject _ _ _ _ houtcomes | letIn _ _ _ _ _ _ houtcomes | shutdown _ _ _ _ houtcomes | regate _ _ _ _ houtcomes =>
    exact houtcomes ▸ hmem
  | idle _ _ _ _ hlevel | stir _ _ _ _ hlevel | work _ _ _ _ _ hlevel | credit _ _ _ _ hlevel | take _ _ _ hlevel
  | poll _ _ _ hlevel | forget _ _ _ hlevel | releaseValue _ _ hlevel | surround _ _ hlevel =>
    exact hlevel.outcomes ▸ hmem

end Dispatcher

/-! ## One act -/

theorem Strand.Leads.cell {n : Note} {s s' : Strand B V} (h : Strand.Leads bh id n s s') {c : Cell B V}
    (hc : s.cell = some c) : ∃ c', s'.cell = some c' := by
  rcases h with ⟨-, rfl⟩ | hstep
  · exact ⟨c, hc⟩
  · exact hstep.cell_ne_none hc

theorem Strand.Leads.lasts {n : Note} {s s' : Strand B V} (h : Strand.Leads bh id n s s') (hs : s.Sound) {c c' : Cell B V}
    (hc : s.cell = some c) (hc' : s'.cell = some c') :
    (c.body = none → c'.body = none) ∧ (c'.fault = none → c.fault = none) := by
  have hs' := h.sound hs
  rcases h with ⟨-, rfl⟩ | hstep
  · obtain rfl := Option.some.inj (hc.symm.trans hc')
    exact ⟨fun hbody => hbody, fun hfault => hfault⟩
  · refine ⟨fun hbody => ?_, fun hfault => ?_⟩
    · have hdone := (hs.staged c hc).body.1 hbody
      refine (hs'.staged c' hc').body.2 ?_
      rcases hstep.stage_next hs.staged hc hc' with hsame | hnext
      · exact hsame.trans hdone
      · exact absurd hdone hnext.ne_done
    · have hor := hstep.fault
      rw [hc, hc', Option.bind_some, Option.bind_some, hfault] at hor
      exact (Option.or_eq_none_iff.1 hor.symm).1

namespace Dispatcher

variable {d d' : Dispatcher W B V} {results : List (Except Fault V)}

/-- How what a task is settled with stands to the results that it was asked for. -/
structure Answered (id : Nat) (d : Dispatcher W B V) (results : List (Except Fault V)) : Prop where
  once : results.length ≤ 1
  /-- As long as its body is there a task was neither asked nor settled. -/
  unused : (∀ c, d.cells[id]? = some c → c.body ≠ none) → results = [] ∧ ∀ outcome, (id, outcome) ∉ d.outcomes
  settled : ∀ c, d.cells[id]? = some c → c.fault = none → ∀ outcome, (id, outcome) ∈ d.outcomes → results = [outcome]

namespace Answered

/-- The caller's move that concludes a task asks it, and settles it with the answer. -/
theorem concludes {c : Cell B V} {b : B} {outcome : Except Fault V} {told : Option (Except Fault V)}
    (h : Answered id d results) (hhead : d.agenda.head? = some (.conclude id))
    (hconcludes : Concludes bh d d' id c b outcome told) :
    Answered id d' (results ++ (d.result? bh id (.move .caller)).toList) := by
  obtain ⟨w, settlement, hcloses, hputs, hcells⟩ := hconcludes.ends
  have hc := hconcludes.cell
  have hc' : d'.cells[id]? = some (c.close settlement) := by
    rw [hcells, List.getElem?_set_self (List.getElem?_eq_some_iff.1 hc).1]
  obtain ⟨hnone, hfresh⟩ := h.unused fun c' hc' => by
    obtain rfl := Option.some.inj (hc.symm.trans hc')
    simp [hconcludes.body]
  have hresult : d.result? bh id (.move .caller) = c.result? bh d.world := by
    unfold result?
    rw [if_pos hhead, hc]
    rfl
  rw [hnone, List.nil_append, hresult]
  refine ⟨?_, fun hbodies => absurd rfl (hbodies _ hc'), fun c' hc'' hfault outcome' hmem => ?_⟩
  · cases c.result? bh d.world <;> simp
  · obtain rfl := Option.some.inj (hc'.symm.trans hc'')
    rw [hconcludes.outcomes] at hmem
    rcases List.mem_append.1 hmem with hnew | hold
    · obtain ⟨outcome₁, htold, heq⟩ := Option.map_eq_some_iff.1 (Option.mem_toList.1 hnew)
      obtain ⟨-, rfl⟩ := Prod.mk.inj heq
      rw [hputs.told_eq] at htold
      split at htold
      · cases htold
      · obtain rfl := Option.some.inj htold
        rw [hcloses.result_eq hconcludes.body hfault]
        rfl
    · exact absurd hold (hfresh outcome')

/-- **Every act keeps what a task is settled with to what it was asked for.** -/
theorem act (hbh : bh.Returns) (hheld : d.Held) (hsound : ∀ id, (d.strand id).Sound) (h : Answered id d results)
    {a : Act W B V} (ha : a.returns = true) (hact : d.act? bh a = some d') :
    Answered id d' (results ++ (d.result? bh id a).toList) := by
  by_cases hconcluding : d.Concluding id a
  · obtain ⟨rfl, hhead⟩ := hconcluding
    obtain ⟨rest, hagenda⟩ := List.head?_eq_some_iff.1 hhead
    obtain ⟨c, b, outcome, told, hconcludes⟩ := concludes_of_stepCaller hbh hheld hsound hagenda hact
    exact h.concludes hhead hconcludes
  · have hdeal := deal_of_act hbh hheld hsound hact
    obtain ⟨-, -, hleads⟩ := weave hbh hheld ha hact
    rw [result?_eq_none hconcluding, Option.toList_none, List.append_nil]
    refine ⟨h.once, fun hbodies => ?_, fun c' hc' hfault outcome hmem => ?_⟩
    · obtain ⟨hnone, hfresh⟩ := h.unused fun c hc hbody => by
        obtain ⟨c', hc'⟩ := (hleads id).cell hc
        exact hbodies c' hc' (((hleads id).lasts (hsound id) hc hc').1 hbody)
      exact ⟨hnone, fun outcome hmem => hfresh outcome (hdeal.outcomes_of_not_concluding hconcluding hmem)⟩
    · have hold := hdeal.outcomes_of_not_concluding hconcluding hmem
      cases hc : d.cells[id]? with
      | none => exact absurd hold ((h.unused fun c hc₁ => by rw [hc] at hc₁; cases hc₁).2 outcome)
      | some c => exact h.settled c hc (((hleads id).lasts (hsound id) hc hc').2 hfault) outcome hold

theorem fresh (hheld : d.Held) (hnone : d.cells[id]? = none) : Answered id d [] := by
  have hunsettled : ∀ outcome, (id, outcome) ∉ d.outcomes := fun outcome hmem => by
    obtain ⟨-, -, -, hstory⟩ := hheld.rooted id hnone
    have hevent : .settled id outcome ∈ (d.strand id).story :=
      List.mem_filter.2 ⟨mem_outcomes.1 hmem, decide_eq_true rfl⟩
    rw [hstory] at hevent
    cases hevent
  exact ⟨Nat.zero_le 1, fun _ => ⟨rfl, hunsettled⟩, fun c _ _ outcome hmem => absurd hmem (hunsettled outcome)⟩

/-- **In a run a task is asked once at most, and settled with the answer if it has no fault.** -/
theorem run (hbh : bh.Returns) (hheld : d.Held) (hsound : ∀ id, (d.strand id).Sound) (h : Answered id d results)
    {as : List (Act W B V)} (has : ∀ a ∈ as, a.returns = true) (hrun : d.run? bh as = some d') :
    Answered id d' (results ++ d.results bh id as) := by
  induction as generalizing d results with
  | nil =>
    obtain rfl := Option.some.inj hrun
    rw [Dispatcher.results, List.append_nil]
    exact h
  | cons a as ih =>
    obtain ⟨d₁, hact, hrun⟩ := Option.bind_eq_some_iff.1 hrun
    have ha := has a (List.mem_cons_self ..)
    obtain ⟨hheld₁, -, hleads⟩ := weave hbh hheld ha hact
    have hsound₁ : ∀ id, (d₁.strand id).Sound := fun id => (hleads id).sound (hsound id)
    have h₁ := h.act hbh hheld hsound ha hact
    rw [Dispatcher.results, hact, ← List.append_assoc]
    exact ih hheld₁ hsound₁ h₁ (fun a ha => has a (List.mem_cons_of_mem _ ha)) hrun

end Answered
end Dispatcher
end BitmapWorks
