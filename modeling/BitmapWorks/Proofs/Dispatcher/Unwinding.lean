import BitmapWorks.Proofs.Dispatcher.Closing
import BitmapWorks.Proofs.Lists
/-!
# Unwinding — completions that the caller's code unwinds out of

Concluding a task runs code of the caller in three places: it cleans up, asks for the result, and calls the function that
the outcome goes to.  Each may unwind, and with it goes all that the caller was still to do (`Unwound`); only if all of
them return does the task go out (`Retired`).

Nothing is assumed of the caller's code here.  What an act does to the books, which are the register, the gate and the
marks of the cells, is a turnover or an arrival; so the gate always counts the tasks that are registered (`Booked`), and a
task that is in and was claimed stays in when nothing is planned of it any more (`Stranded`).
-/
namespace BitmapWorks

variable {W B V : Type} {bh : Behaviour W B V}

/-- Whether a task counts as in, and whether somebody has won the right to settle it. -/
def Cell.mark (c : Cell B V) : Bool × Bool := (c.entered, c.settlement.claimed)

theorem Cell.Alike.mark_eq {c c' : Cell B V} (h : c.Alike c') : c'.mark = c.mark := by
  rw [Cell.mark, h.entered, h.settlement, Cell.mark]

def Chore.concludes? : Chore → Option Nat
  | conclude id => some id
  | _ => none

namespace Dispatcher

variable {d d' d₁ : Dispatcher W B V} {id : Nat} {c c₁ : Cell B V}

/-! ## What unwinds -/

def settlingUnwinds (d : Dispatcher W B V) (c : Cell B V) : Bool :=
  !(c.entered && d.admission.gate.stopping) && decide (c.settlement.sink = some (.callback true))

def unwinds (bh : Behaviour W B V) (d : Dispatcher W B V) (id : Nat) : Bool :=
  (d.cells[id]?).any fun c =>
    match c.body with
    | none => d.settlingUnwinds c
    | some b =>
      let cleaned := bh.cleanUp d.world b
      cleaned.1 || c.fault.isNone && (bh.result cleaned.2.1 cleaned.2.2).1.isNone || d.settlingUnwinds c

def returns (bh : Behaviour W B V) (d : Dispatcher W B V) : Act W B V → Bool
  | .move .caller =>
    match d.agenda.head? with
    | some (.conclude id) => !d.unwinds bh id
    | _ => true
  | _ => true

def lingers (d : Dispatcher W B V) : Act W B V → Bool
  | .move .caller => decide (d.agenda.head? ≠ some .letGo)
  | _ => true

def marks (d : Dispatcher W B V) : List (Bool × Bool) := d.cells.map Cell.mark

def concluding (d : Dispatcher W B V) : List Nat := d.agenda.filterMap Chore.concludes?

theorem marks_of_cell (hc : d.cells[id]? = some c) : d.marks[id]? = some c.mark := by
  rw [marks, List.getElem?_map, hc]
  rfl

theorem marks_set {c' : Cell B V} (hcells : d'.cells = d.cells.set id c') : d'.marks = d.marks.set id c'.mark := by
  rw [marks, hcells, List.map_set, marks]

theorem marks_set_self {c' : Cell B V} (hc : d.cells[id]? = some c) (hcells : d'.cells = d.cells.set id c')
    (hmark : c'.mark = c.mark) : d'.marks = d.marks := by
  rw [marks_set hcells, hmark, ← marks_set (cells_set_self hc)]

structure Even (d d' : Dispatcher W B V) : Prop where
  marks : d'.marks = d.marks
  registry : d'.registry = d.registry
  inFlight : d'.inFlight = d.inFlight
  gone : d'.gone = d.gone

/-- What a conclusion leaves that the caller's code unwinds out of: the task is still registered and counted. -/
structure Unwound (d d' : Dispatcher W B V) (id : Nat) (c : Cell B V) : Prop where
  agenda : d'.agenda = []
  marks : ∃ entered, (entered = true → c.entered = true) ∧ d'.marks = d.marks.set id (entered, c.settlement.claimed)
  registry : d'.registry = d.registry
  inFlight : d'.inFlight = d.inFlight
  gone : d'.gone = d.gone

structure Retired (d d' : Dispatcher W B V) (id : Nat) (c : Cell B V) : Prop where
  agenda : d'.agenda = d.agenda
  outcome : d'.drainOutcome = d.drainOutcome
  marks : d'.marks = d.marks.set id (false, c.settlement.claimed)
  registry : d'.registry = d.registry.filter (· ≠ id)
  inFlight : d'.inFlight = d.inFlight - if c.entered then 1 else 0
  gone : d'.gone = d.gone

theorem Unwound.of_even (h : Unwound d₁ d' id c₁) (heven : Even d d₁) (hmark : c₁.mark = c.mark) :
    Unwound d d' id c := by
  obtain ⟨entered, hentered, hmarks⟩ := h.marks
  obtain ⟨hin, hwon⟩ := Prod.mk.inj hmark
  exact ⟨h.agenda, ⟨entered, fun h => hin ▸ hentered h, by rw [hmarks, heven.marks, hwon]⟩,
    h.registry.trans heven.registry, h.inFlight.trans heven.inFlight, h.gone.trans heven.gone⟩

theorem Retired.of_even (h : Retired d₁ d' id c₁) (heven : Even d d₁) (hmark : c₁.mark = c.mark)
    (hagenda : d₁.agenda = d.agenda) (houtcome : d₁.drainOutcome = d.drainOutcome) : Retired d d' id c := by
  obtain ⟨hin, hwon⟩ := Prod.mk.inj hmark
  exact ⟨h.agenda.trans hagenda, h.outcome.trans houtcome, by rw [h.marks, heven.marks, hwon],
    by rw [h.registry, heven.registry], by rw [h.inFlight, heven.inFlight, hin], h.gone.trans heven.gone⟩

theorem deliver_called_iff {s : Settlement (Except Fault V)} {outcome : Except Fault V} :
    (∃ o, (s.deliver outcome).1 = .called o true) ↔ s.sink = some (.callback true) := by
  constructor
  · rintro ⟨o, ho⟩
    by_contra hsink
    exact deliver_returns hsink outcome o ho
  · intro hsink
    exact ⟨outcome, by rw [Settlement.deliver, hsink]⟩

theorem retired_of_settled (d₁ : Dispatcher W B V) {settlement : Settlement (Except Fault V)}
    (hc : d.cells[id]? = some c) (hclaimed : settlement.claimed = c.settlement.claimed)
    (hcells : d₁.cells = d.cells.set id { c with entered := false, settlement }) (hregistry : d₁.registry = d.registry)
    (hadmission : d₁.admission = d.admission) (hgone : d₁.gone = d.gone) (hagenda : d₁.agenda = d.agenda)
    (houtcome : d₁.drainOutcome = d.drainOutcome) : Retired d (d₁.retire id c.entered) id c := by
  have hid := (List.getElem?_eq_some_iff.1 hc).1
  refine ⟨hagenda, houtcome, ?_, congrArg (List.filter _) hregistry, ?_, hgone⟩
  · rw [← hclaimed]
    exact marks_set (cells_modifyCell_set_set (d := { d₁ with admission := _, registry := _ }) hid hcells
      fun c => { c with stage := .done })
  · show (if c.entered then d₁.admission.leave else d₁.admission).gate.inFlight = _
    rw [hadmission]
    cases c.entered
    · exact (Int.sub_zero _).symm
    · rfl

/-- **Settling unwinds, or the task goes out.** -/
theorem settle_cases (bh : Behaviour W B V) (hc : d.cells[id]? = some c) (outcome : Except Fault V) :
    d.settlingUnwinds c = true ∧ Unwound d (d.settle bh id outcome) id c ∨
    d.settlingUnwinds c = false ∧ Retired d (d.settle bh id outcome) id c := by
  have hid := (List.getElem?_eq_some_iff.1 hc).1
  have hentered := cells_modifyCell_set hc fun c => { c with entered := false }
  unfold settle
  rw [hc]
  dsimp only
  split
  · rename_i hstopping
    have hskips : (c.entered && d.admission.gate.stopping) = true := hstopping
    have hdrop := cells_modifyCell_set_set hid hentered fun c => { c with settlement := c.settlement.discard }
    have hnotice : Notice id c.settlement outcome c.settlement.discard (.discarded id) := .discarded
    have hclaimed := hnotice.spec.2
    refine .inr ⟨by rw [settlingUnwinds, hskips]; rfl, ?_⟩
    obtain ⟨hagenda, houtcome, hmarks, hregistry, hinFlight, hgone⟩ :=
      retired_of_settled ((d.modifyCell id _).modifyCell id _ |>.log (.discarded id)) hc hclaimed hdrop rfl rfl rfl rfl rfl
    exact ⟨hagenda, houtcome, hmarks, hregistry, hinFlight, hgone⟩
  · rename_i hstopping
    have hskips : (c.entered && d.admission.gate.stopping) = false := Bool.eq_false_of_not_eq_true hstopping
    have hput := cells_modifyCell_set_set hid hentered fun c' => { c' with settlement := (c.settlement.deliver outcome).2 }
    have hcalled : (∃ o, (c.settlement.deliver outcome).1 = .called o true) ↔ c.settlement.sink = some (.callback true) :=
      deliver_called_iff
    have hnotice : Notice id c.settlement outcome (c.settlement.deliver outcome).2 (.settled id outcome) := .settled
    have hclaimed := hnotice.spec.2
    have hunwinds : d.settlingUnwinds c = decide (c.settlement.sink = some (.callback true)) := by
      rw [settlingUnwinds, hskips]
      rfl
    rw [hunwinds]
    -- the code looks at the delivery alone; what is known of it has to come along
    revert hput hcalled hclaimed
    generalize c.settlement.deliver outcome = put
    obtain ⟨delivery, settlement⟩ := put
    intro hput hcalled hclaimed
    dsimp only at hput hcalled hclaimed ⊢
    split
    · rename_i o
      refine .inl ⟨decide_eq_true (hcalled.1 ⟨o, rfl⟩), rfl, ⟨false, nofun, ?_⟩, rfl, rfl, rfl⟩
      rw [← hclaimed]
      exact marks_set hput
    · rename_i hnot
      have hcalm : c.settlement.sink ≠ some (.callback true) := fun hsink => by
        obtain ⟨o, rfl⟩ := hcalled.2 hsink
        exact hnot o rfl
      refine .inr ⟨decide_eq_false hcalm, ?_⟩
      split
      all_goals exact retired_of_settled _ hc hclaimed hput rfl rfl rfl rfl rfl

theorem conclude?_unwinding {b b' : B} {w' : W} (hc : d.cells[id]? = some c) (hfree : d.bodyIsFree id = true)
    (hbody : c.body = some b) (hclean : bh.cleanUp d.world b = (true, w', b')) :
    d.conclude? bh id = some ({ d.cleaned id w' with world := bh.discard w' b' } : Dispatcher W B V).unwind := by
  unfold conclude?
  rw [hc]
  simp only [hfree, Bool.not_true, Bool.false_eq_true, if_false, hbody, world_modifyCell, hclean, if_true]
  rfl

theorem conclude?_withheld {b b' : B} {w' : W} (hc : d.cells[id]? = some c) (hfree : d.bodyIsFree id = true)
    (hbody : c.body = some b) (hclean : bh.cleanUp d.world b = (false, w', b')) (hfault : c.fault = none)
    (hresult : (bh.result w' b').1 = none) : d.conclude? bh id =
      some ({ (d.cleaned id w').log (.asked id) with world := (bh.result w' b').2 } : Dispatcher W B V).unwind := by
  have hpair : bh.result w' b' = (none, (bh.result w' b').2) := Prod.ext hresult rfl
  have hworld : (({ d.modifyCell id fun c => { c with body := none } with world := w' } : Dispatcher W B V).log
    (.cleanedUp id) |>.log (.asked id)).world = w' := rfl
  unfold conclude?
  rw [hc]
  simp only [hfree, Bool.not_true, Bool.false_eq_true, if_false, hbody, world_modifyCell, hclean, hfault, hworld]
  rw [hpair]
  rfl

theorem settle_cases_of_even {outcome : Except Fault V} (hc₁ : d₁.cells[id]? = some c₁) (heven : Even d d₁)
    (hsettlement : c₁.settlement = c.settlement) (hentered : c₁.entered = c.entered)
    (hadmission : d₁.admission = d.admission) (hagenda : d₁.agenda = d.agenda)
    (houtcome : d₁.drainOutcome = d.drainOutcome) :
    d.settlingUnwinds c = true ∧ Unwound d (d₁.settle bh id outcome) id c ∨
    d.settlingUnwinds c = false ∧ Retired d (d₁.settle bh id outcome) id c := by
  have hmark : c₁.mark = c.mark := by rw [Cell.mark, hsettlement, hentered, Cell.mark]
  have hsame : d₁.settlingUnwinds c₁ = d.settlingUnwinds c := by
    rw [settlingUnwinds, hadmission, hsettlement, hentered, settlingUnwinds]
  rcases settle_cases bh hc₁ outcome with ⟨hunwinds, h⟩ | ⟨hreturns, h⟩
  · exact .inl ⟨hsame ▸ hunwinds, h.of_even heven hmark⟩
  · exact .inr ⟨hsame ▸ hreturns, h.of_even heven hmark hagenda houtcome⟩

/-- **A conclusion unwinds, or the task goes out.** -/
theorem conclude_cases (hc : d.cells[id]? = some c) (h : d.conclude? bh id = some d') :
    d.unwinds bh id = true ∧ Unwound d d' id c ∨ d.unwinds bh id = false ∧ Retired d d' id c := by
  have hfree := bodyIsFree_of_conclude hc h
  unfold unwinds
  rw [hc, Option.any_some]
  cases hbody : c.body with
  | none =>
    unfold conclude? at h
    rw [hc] at h
    simp only [hfree, Bool.not_true, Bool.false_eq_true, if_false, hbody] at h
    obtain rfl := Option.some.inj h
    exact settle_cases bh hc _
  | some b =>
    have hcell : (d.modifyCell id fun c => { c with body := none }).cells[id]? = some { c with body := none } :=
      cells_modifyCell hc _
    have htaken : (d.modifyCell id fun c => { c with body := none }).marks = d.marks :=
      marks_set_self hc (cells_modifyCell_set hc _) rfl
    have hmarks : ∃ entered, (entered = true → c.entered = true) ∧
        (d.modifyCell id fun c => { c with body := none }).marks = d.marks.set id (entered, c.settlement.claimed) :=
      ⟨c.entered, fun h => h, htaken.trans (marks_set (cells_set_self hc))⟩
    rcases hclean : bh.cleanUp d.world b with ⟨unwinds, w', b'⟩
    simp only [hclean]
    cases unwinds with
    | true =>
      rw [conclude?_unwinding hc hfree hbody hclean] at h
      obtain rfl := Option.some.inj h
      exact .inl ⟨rfl, rfl, hmarks, rfl, rfl, rfl⟩
    | false =>
      simp only [Bool.false_or]
      cases hfault : c.fault with
      | some fault =>
        rw [conclude?_fault hc hfree hbody hclean hfault] at h
        obtain rfl := Option.some.inj h
        exact settle_cases_of_even hcell ⟨htaken, rfl, rfl, rfl⟩ rfl rfl rfl rfl rfl
      | none =>
        cases hresult : (bh.result w' b').1 with
        | none =>
          rw [conclude?_withheld hc hfree hbody hclean hfault hresult] at h
          obtain rfl := Option.some.inj h
          exact .inl ⟨rfl, rfl, hmarks, rfl, rfl, rfl⟩
        | some outcome =>
          rw [conclude?_result hc hfree hbody hclean hfault hresult] at h
          obtain rfl := Option.some.inj h
          exact settle_cases_of_even hcell ⟨htaken, rfl, rfl, rfl⟩ rfl rfl rfl rfl rfl

/-! ## The books -/

/-- What an act does to the books while nobody comes. -/
inductive Turnover (d d' : Dispatcher W B V) : Prop
  | even : Even d d' → d'.concluding = d.concluding → Turnover d d'
  | claim {id entered} : d.marks[id]? = some (entered, false) → d'.marks = d.marks.set id (entered, true) →
    d'.registry = d.registry → d'.inFlight = d.inFlight → d'.concluding = id :: d.concluding → Turnover d d'
  | retire {id entered won} : d.concluding = id :: d'.concluding → d.marks[id]? = some (entered, won) →
    d'.marks = d.marks.set id (false, won) → d'.registry = d.registry.filter (· ≠ id) →
    d'.inFlight = d.inFlight - (if entered then 1 else 0) → Turnover d d'
  | unwind {id entered entered' won} : id ∈ d.concluding → d.marks[id]? = some (entered, won) →
    d'.marks = d.marks.set id (entered', won) → (entered' = true → entered = true) → d'.registry = d.registry →
    d'.inFlight = d.inFlight → d'.concluding = [] → Turnover d d'

inductive Arrival (d d' : Dispatcher W B V) : Prop
  | turnAway : d'.marks = d.marks ++ [(false, false)] → d'.registry = d.registry → d'.inFlight = d.inFlight →
    d'.concluding = d.concluding → Arrival d d'
  | letIn : d'.marks = d.marks ++ [(true, false)] → d'.registry = d.registry ++ [d.marks.length] →
    d'.inFlight = d.inFlight + 1 → d'.concluding = d.concluding → Arrival d d'

/-- Whether the books are in order: the gate counts the tasks that are registered, each of them once; whoever counts as in
is registered; who is to be concluded was claimed, and is to be concluded once; and whoever is registered counts as in
until the task is claimed, and until it is concluded then. -/
structure Booked (d : Dispatcher W B V) : Prop where
  held : d.gone = false
  count : d.inFlight = d.registry.length
  once : d.registry.Nodup
  single : d.concluding.Nodup
  entered : ∀ id won, d.marks[id]? = some (true, won) → id ∈ d.registry
  won : ∀ id ∈ d.concluding, ∃ entered, d.marks[id]? = some (entered, true)
  inside : ∀ id ∈ d.registry, ∃ entered won, d.marks[id]? = some (entered, won) ∧
    (won = false ∨ id ∈ d.concluding → entered = true)

/-- A task that is in and was claimed, and that nobody is to conclude. -/
structure Stranded (d : Dispatcher W B V) (id : Nat) : Prop where
  registered : id ∈ d.registry
  won : ∃ entered, d.marks[id]? = some (entered, true)
  unplanned : id ∉ d.concluding

theorem Booked.known (h : Booked d) (hid : id ∈ d.registry) : id < d.marks.length := by
  obtain ⟨entered, won, hmark, -⟩ := h.inside id hid
  exact (List.getElem?_eq_some_iff.1 hmark).1

theorem Booked.concluding_lt (h : Booked d) (hid : id ∈ d.concluding) : id < d.marks.length := by
  obtain ⟨entered, hmark⟩ := h.won id hid
  exact (List.getElem?_eq_some_iff.1 hmark).1

/-- **Who is in and is to be concluded counts as in**, so the books stay in order when the task goes out. -/
theorem Booked.length_filter (h : Booked d) {entered won : Bool} (hid : id ∈ d.concluding)
    (hmark : d.marks[id]? = some (entered, won)) :
    ((d.registry.filter (· ≠ id)).length : Int) = d.registry.length - if entered then 1 else 0 := by
  have herase : d.registry.filter (· ≠ id) = d.registry.erase id := by
    rw [h.once.erase_eq_filter]
    exact List.filter_congr fun id' _ => by by_cases hne : id' = id <;> simp [hne]
  rw [herase, List.length_erase]
  -- whoever is to be concluded and is registered counts as in, so the filter takes one away just if the gate does
  cases entered with
  | true =>
    have hmem := h.entered id won hmark
    have hpos := List.length_pos_of_mem hmem
    rw [if_pos hmem, if_pos rfl]
    omega
  | false =>
    have hnot : id ∉ d.registry := fun hmem => by
      obtain ⟨entered', won', hmark', hin⟩ := h.inside id hmem
      obtain ⟨rfl, rfl⟩ := Prod.mk.inj (Option.some.inj (hmark.symm.trans hmark'))
      cases hin (.inr hid)
    simp [hnot]

theorem Booked.claim (h : Booked d) (hheld : d'.gone = false) {entered : Bool}
    (hmark : d.marks[id]? = some (entered, false)) (hmarks : d'.marks = d.marks.set id (entered, true))
    (hregistry : d'.registry = d.registry) (hinFlight : d'.inFlight = d.inFlight)
    (hconcluding : d'.concluding = id :: d.concluding) : Booked d' := by
  -- nobody has claimed the task, so it is not to be concluded yet
  have hnot : id ∉ d.concluding := fun hid => by
    obtain ⟨entered', hwon⟩ := h.won id hid
    rw [hmark] at hwon
    cases hwon
  have hset := getElem?_set_of_eq_some hmark (entered, true)
  refine ⟨hheld, ?_, hregistry ▸ h.once, ?_, fun id' won' hmark' => ?_, fun id' hid' => ?_, fun id' hid' => ?_⟩
  · rw [hinFlight, hregistry]
    exact h.count
  · rw [hconcluding]
    exact List.nodup_cons.2 ⟨hnot, h.single⟩
  · rw [hmarks, hset] at hmark'
    rw [hregistry]
    split at hmark'
    · next hid =>
      subst hid
      obtain ⟨rfl, rfl⟩ := Prod.mk.inj (Option.some.inj hmark')
      exact h.entered _ _ hmark
    · exact h.entered id' won' hmark'
  · rw [hmarks, hset]
    rw [hconcluding] at hid'
    split
    · exact ⟨entered, rfl⟩
    · next hid => exact h.won id' ((List.mem_cons.1 hid').resolve_left (Ne.symm hid))
  · rw [hregistry] at hid'
    obtain ⟨entered', won', hmark', hin⟩ := h.inside id' hid'
    rw [hmarks, hset, hconcluding]
    split
    · next hid =>
      subst hid
      obtain ⟨rfl, rfl⟩ := Prod.mk.inj (Option.some.inj (hmark.symm.trans hmark'))
      exact ⟨_, true, rfl, fun _ => hin (.inl rfl)⟩
    · next hid =>
      refine ⟨entered', won', hmark', fun hor => hin (hor.imp_right fun hmem => ?_)⟩
      exact (List.mem_cons.1 hmem).resolve_left (Ne.symm hid)

theorem Booked.retire (h : Booked d) (hheld : d'.gone = false) {entered won : Bool}
    (hconcluding : d.concluding = id :: d'.concluding) (hmark : d.marks[id]? = some (entered, won))
    (hmarks : d'.marks = d.marks.set id (false, won)) (hregistry : d'.registry = d.registry.filter (· ≠ id))
    (hinFlight : d'.inFlight = d.inFlight - (if entered then 1 else 0)) : Booked d' := by
  have hid : id ∈ d.concluding := hconcluding ▸ List.mem_cons_self ..
  obtain ⟨hnot, hnodup⟩ := List.nodup_cons.1 (hconcluding ▸ h.single)
  have hset := getElem?_set_of_eq_some hmark (false, won)
  refine ⟨hheld, ?_, hregistry ▸ h.once.filter _, hnodup, fun id' won' hmark' => ?_, fun id' hid' => ?_,
    fun id' hid' => ?_⟩
  · rw [hinFlight, hregistry, h.length_filter hid hmark, h.count]
  · rw [hmarks, hset] at hmark'
    rw [hregistry, List.mem_filter]
    split at hmark'
    · cases hmark'
    · next hne => exact ⟨h.entered id' won' hmark', decide_eq_true (Ne.symm hne)⟩
  · rw [hmarks, hset, if_neg fun heq : id = id' => hnot (heq ▸ hid')]
    exact h.won id' (hconcluding ▸ List.mem_cons_of_mem _ hid')
  · rw [hregistry, List.mem_filter] at hid'
    obtain ⟨hmem, hne⟩ := hid'
    obtain ⟨entered', won', hmark', hin⟩ := h.inside id' hmem
    rw [hmarks, hset, if_neg (Ne.symm (of_decide_eq_true hne))]
    refine ⟨entered', won', hmark', fun hor => hin (hor.imp_right fun hmem' => ?_)⟩
    exact hconcluding ▸ List.mem_cons_of_mem _ hmem'

theorem Booked.unwind (h : Booked d) (hheld : d'.gone = false) {entered entered' won : Bool} (hid : id ∈ d.concluding)
    (hmark : d.marks[id]? = some (entered, won)) (hmarks : d'.marks = d.marks.set id (entered', won))
    (hentered : entered' = true → entered = true) (hregistry : d'.registry = d.registry)
    (hinFlight : d'.inFlight = d.inFlight) (hconcluding : d'.concluding = []) : Booked d' := by
  obtain ⟨entered₀, hwon⟩ := h.won id hid
  obtain ⟨rfl, rfl⟩ := Prod.mk.inj (Option.some.inj (hmark.symm.trans hwon))
  have hset := getElem?_set_of_eq_some hmark (entered', true)
  refine ⟨hheld, ?_, hregistry ▸ h.once, ?_, fun id' won' hmark' => ?_, fun id' hid' => ?_, fun id' hid' => ?_⟩
  · rw [hinFlight, hregistry]
    exact h.count
  · rw [hconcluding]
    exact List.nodup_nil
  · rw [hmarks, hset] at hmark'
    rw [hregistry]
    split at hmark'
    · next heq =>
      subst heq
      obtain ⟨rfl, rfl⟩ := Prod.mk.inj (Option.some.inj hmark')
      obtain rfl := hentered rfl
      exact h.entered _ _ hmark
    · exact h.entered id' won' hmark'
  · rw [hconcluding] at hid'
    cases hid'
  · rw [hregistry] at hid'
    obtain ⟨entered₁, won₁, hmark₁, hin⟩ := h.inside id' hid'
    rw [hmarks, hset, hconcluding]
    split
    · exact ⟨entered', true, rfl, by simp⟩
    · exact ⟨entered₁, won₁, hmark₁, fun hor => hin (hor.imp_right (by simp))⟩

theorem Booked.turnover (h : Booked d) (ht : Turnover d d') (hgone : d'.gone = d.gone) : Booked d' := by
  have hheld : d'.gone = false := hgone.trans h.held
  cases ht with
  | even heven hconcluding =>
    obtain ⟨hmarks, hregistry, hinFlight, -⟩ := heven
    refine ⟨hheld, ?_, ?_, ?_, ?_, ?_, ?_⟩
    all_goals simp only [hmarks, hregistry, hinFlight, hconcluding]
    exacts [h.count, h.once, h.single, h.entered, h.won, h.inside]
  | claim hmark hmarks hregistry hinFlight hconcluding =>
    exact h.claim hheld hmark hmarks hregistry hinFlight hconcluding
  | retire hconcluding hmark hmarks hregistry hinFlight =>
    exact h.retire hheld hconcluding hmark hmarks hregistry hinFlight
  | unwind hid hmark hmarks hentered hregistry hinFlight hconcluding =>
    exact h.unwind hheld hid hmark hmarks hentered hregistry hinFlight hconcluding

theorem Booked.turnAway (h : Booked d) (hheld : d'.gone = false) (hmarks : d'.marks = d.marks ++ [(false, false)])
    (hregistry : d'.registry = d.registry) (hinFlight : d'.inFlight = d.inFlight)
    (hconcluding : d'.concluding = d.concluding) : Booked d' := by
  refine ⟨hheld, ?_, hregistry ▸ h.once, hconcluding ▸ h.single, fun id' won' hmark' => ?_, fun id' hid' => ?_,
    fun id' hid' => ?_⟩
  · rw [hinFlight, hregistry]
    exact h.count
  · rw [hmarks] at hmark'
    rw [hregistry]
    rcases eq_some_of_getElem?_concat hmark' with hmark' | ⟨-, hnew⟩
    · exact h.entered id' won' hmark'
    · cases hnew
  · rw [hconcluding] at hid'
    rw [hmarks, List.getElem?_append_left (h.concluding_lt hid')]
    exact h.won id' hid'
  · rw [hregistry] at hid'
    rw [hmarks, List.getElem?_append_left (h.known hid'), hconcluding]
    exact h.inside id' hid'

theorem Booked.letIn (h : Booked d) (hheld : d'.gone = false) (hmarks : d'.marks = d.marks ++ [(true, false)])
    (hregistry : d'.registry = d.registry ++ [d.marks.length]) (hinFlight : d'.inFlight = d.inFlight + 1)
    (hconcluding : d'.concluding = d.concluding) : Booked d' := by
  refine ⟨hheld, ?_, ?_, hconcluding ▸ h.single, fun id' won' hmark' => ?_, fun id' hid' => ?_, fun id' hid' => ?_⟩
  · rw [hinFlight, hregistry, h.count, List.length_append]
    rfl
  · rw [hregistry]
    refine List.nodup_append.2 ⟨h.once, List.nodup_singleton _, fun id' hid' new hnew => ?_⟩
    rw [List.mem_singleton.1 hnew]
    exact Nat.ne_of_lt (h.known hid')
  · rw [hmarks] at hmark'
    rw [hregistry, List.mem_append]
    rcases eq_some_of_getElem?_concat hmark' with hmark' | ⟨hnew, -⟩
    · exact .inl (h.entered id' won' hmark')
    · exact .inr (List.mem_singleton.2 hnew)
  · rw [hconcluding] at hid'
    rw [hmarks, List.getElem?_append_left (h.concluding_lt hid')]
    exact h.won id' hid'
  · rw [hregistry] at hid'
    rw [hmarks, hconcluding]
    rcases List.mem_append.1 hid' with hid' | hid'
    · rw [List.getElem?_append_left (h.known hid')]
      exact h.inside id' hid'
    · rw [List.mem_singleton.1 hid', List.getElem?_concat_length]
      exact ⟨true, false, rfl, fun _ => rfl⟩

theorem Booked.arrival (h : Booked d) (ha : Arrival d d') (hgone : d'.gone = d.gone) : Booked d' := by
  have hheld : d'.gone = false := hgone.trans h.held
  cases ha with
  | turnAway hmarks hregistry hinFlight hconcluding => exact h.turnAway hheld hmarks hregistry hinFlight hconcluding
  | letIn hmarks hregistry hinFlight hconcluding => exact h.letIn hheld hmarks hregistry hinFlight hconcluding

theorem Stranded.turnover (h : Stranded d id) (ht : Turnover d d') : Stranded d' id := by
  obtain ⟨hregistered, ⟨entered, hwon⟩, hunplanned⟩ := h
  cases ht with
  | even heven hconcluding =>
    obtain ⟨hmarks, hregistry, -, -⟩ := heven
    exact ⟨hregistry ▸ hregistered, ⟨entered, hmarks ▸ hwon⟩, hconcluding ▸ hunplanned⟩
  | @claim id' entered' hmark hmarks hregistry hinFlight hconcluding =>
    have hne : id' ≠ id := by
      rintro rfl
      rw [hmark] at hwon
      cases hwon
    refine ⟨hregistry ▸ hregistered, ⟨entered, ?_⟩, ?_⟩
    · rw [hmarks, List.getElem?_set_ne hne]
      exact hwon
    · rw [hconcluding, List.mem_cons]
      exact not_or.2 ⟨Ne.symm hne, hunplanned⟩
  | @retire id' entered' won hconcluding hmark hmarks hregistry =>
    rw [hconcluding, List.mem_cons, not_or] at hunplanned
    obtain ⟨hne, hunplanned⟩ := hunplanned
    refine ⟨?_, ⟨entered, ?_⟩, hunplanned⟩
    · rw [hregistry, List.mem_filter]
      exact ⟨hregistered, decide_eq_true hne⟩
    · rw [hmarks, List.getElem?_set_ne (Ne.symm hne)]
      exact hwon
  | @unwind id' entered₁ entered₂ won hid hmark hmarks hentered hregistry hinFlight hconcluding =>
    have hne : id' ≠ id := by
      rintro rfl
      exact hunplanned hid
    refine ⟨hregistry ▸ hregistered, ⟨entered, ?_⟩, by rw [hconcluding]; exact List.not_mem_nil⟩
    rw [hmarks, List.getElem?_set_ne hne]
    exact hwon

theorem Stranded.arrival (h : Stranded d id) (ha : Arrival d d') : Stranded d' id := by
  obtain ⟨hregistered, ⟨entered, hwon⟩, hunplanned⟩ := h
  have hold : ∀ m, (d.marks ++ [m])[id]? = some (entered, true) := fun m => by
    rw [List.getElem?_append_left (List.getElem?_eq_some_iff.1 hwon).1]
    exact hwon
  cases ha with
  | turnAway hmarks hregistry hinFlight hconcluding =>
    exact ⟨hregistry ▸ hregistered, ⟨entered, hmarks ▸ hold _⟩, hconcluding ▸ hunplanned⟩
  | letIn hmarks hregistry hinFlight hconcluding =>
    exact ⟨hregistry ▸ List.mem_append_left _ hregistered, ⟨entered, hmarks ▸ hold _⟩, hconcluding ▸ hunplanned⟩

/-! ## Acts -/

theorem Visited.even (h : Visited d d') : Even d d' := by
  refine ⟨?_, h.registry, by rw [inFlight, h.admission, inFlight], h.gone⟩
  rcases h.cells with hcells | ⟨id, c, promise, hc, hcells⟩
  · rw [marks, hcells, marks]
  · exact marks_set_self hc hcells rfl

theorem Level.even (h : Level d d') (hmarks : d'.marks = d.marks) (hgone : d'.gone = d.gone) : Even d d' :=
  ⟨hmarks, h.registry, by rw [inFlight, h.admission, inFlight], hgone⟩

theorem concluding_cons {chore : Chore} {rest : List Chore} (hagenda : d.agenda = chore :: rest)
    (hchore : chore.concludes? = none) : d.concluding = rest.filterMap Chore.concludes? := by
  rw [concluding, hagenda, List.filterMap_cons_none hchore]

theorem concluding_of_agenda {planned rest : List Chore} (hagenda : d.agenda = planned ++ rest)
    (hplanned : ∀ chore ∈ planned, chore.concludes? = none) : d.concluding = rest.filterMap Chore.concludes? := by
  rw [concluding, hagenda, List.filterMap_append, List.filterMap_eq_nil_iff.2 hplanned, List.nil_append]

theorem Follows.concludes {chore : Chore} {planned : List Chore} (h : Follows d chore planned)
    (hcomplete : ∀ id, chore ≠ .complete id) : ∀ chore' ∈ planned, chore'.concludes? = none := by
  cases h with
  | claim => exact absurd rfl (hcomplete _)
  | _ => simp [Chore.concludes?]

theorem turnover_stepWorker {i : Nat} (hgone : d.gone = false) (h : d.stepWorker? bh i = some d') :
    Turnover d d' ∧ d'.gone = d.gone := by
  obtain ⟨honward, -⟩ := leads_stepWorker hgone h
  obtain ⟨hagenda, -⟩ := undisturbed_stepWorker hgone h
  have hconcluding : d'.concluding = d.concluding := by rw [concluding, hagenda, concluding]
  have hdeal := deal_stepWorker hgone h
  refine ⟨.even ?_ hconcluding, honward.gone⟩
  cases hdeal with
  | idle hidles hasked hworld hcells hl => exact hl.even (by rw [marks, hcells, marks]) honward.gone
  | stir hc halike hcells hworld hl => exact hl.even (marks_set_self hc hcells halike.mark_eq) honward.gone
  | work hc hbody hrun hcells hworld hl => exact hl.even (marks_set_self hc hcells rfl) honward.gone

/-- A completion that comes too late changes nothing; the first one claims the task and is to conclude it. -/
theorem turnover_complete {rest : List Chore} (hagenda : d.agenda = .complete id :: rest) :
    Turnover d (({ d with agenda := rest } : Dispatcher W B V).complete bh id) := by
  have hrest := concluding_cons hagenda rfl
  cases hc : d.cells[id]? with
  | none =>
    have hsame : ({ d with agenda := rest } : Dispatcher W B V).complete bh id = { d with agenda := rest } := by
      unfold complete
      dsimp only
      rw [hc]
    rw [hsame]
    exact .even ⟨rfl, rfl, rfl, rfl⟩ hrest.symm
  | some c =>
    cases hclaim : c.settlement.claimed with
    | true =>
      rw [complete_eq_self (d := { d with agenda := rest }) hc hclaim]
      exact .even ⟨rfl, rfl, rfl, rfl⟩ hrest.symm
    | false =>
      rw [complete_eq (d := { d with agenda := rest }) hc hclaim]
      have hmark : d.marks[id]? = some (c.entered, false) := by rw [marks_of_cell hc, Cell.mark, hclaim]
      refine .claim hmark ?_ rfl rfl (congrArg (List.cons id) hrest.symm)
      exact marks_set (cells_modifyCell_set (d := { d with world := _, history := _, agenda := _ }) hc _)

theorem turnover_conclude (hb : Booked d) {rest : List Chore} (hagenda : d.agenda = .conclude id :: rest)
    (h : ({ d with agenda := rest } : Dispatcher W B V).conclude? bh id = some d') : Turnover d d' ∧ d'.gone = d.gone := by
  have hconcluding : d.concluding = id :: rest.filterMap Chore.concludes? := by
    rw [concluding, hagenda]
    rfl
  have hid : id ∈ d.concluding := hconcluding ▸ List.mem_cons_self ..
  obtain ⟨entered, hwon⟩ := hb.won id hid
  rw [marks, List.getElem?_map] at hwon
  obtain ⟨c, hc, -⟩ := Option.map_eq_some_iff.1 hwon
  have hmark := marks_of_cell hc
  rcases conclude_cases (d := { d with agenda := rest }) hc h with ⟨-, hunwound⟩ | ⟨-, hretired⟩
  · obtain ⟨entered', hentered, hmarks⟩ := hunwound.marks
    refine ⟨.unwind hid hmark hmarks hentered hunwound.registry hunwound.inFlight ?_, hunwound.gone⟩
    rw [concluding, hunwound.agenda]
    rfl
  · refine ⟨.retire ?_ hmark hretired.marks hretired.registry hretired.inFlight, hretired.gone⟩
    rw [hconcluding, concluding, hretired.agenda]

/-- **A move of the caller is a turnover**, whether its code returns or not. -/
theorem turnover_stepCaller (hb : Booked d) (hlingers : d.agenda.head? ≠ some .letGo) (h : d.stepCaller? bh = some d') :
    Turnover d d' ∧ d'.gone = d.gone := by
  cases hagenda : d.agenda with
  | nil =>
    rw [stepCaller?, hagenda] at h
    cases h
  | cons chore rest =>
    have hletGo : chore ≠ .letGo := by
      rintro rfl
      exact hlingers (by rw [hagenda]; rfl)
    cases chore with
    | complete id =>
      have hgone := (onward_of_chore hagenda (by simp) hletGo h).gone
      rw [stepCaller?, hagenda] at h
      obtain rfl := Option.some.inj h
      exact ⟨turnover_complete hagenda, hgone⟩
    | conclude id =>
      rw [stepCaller?, hagenda] at h
      exact turnover_conclude hb hagenda h
    | letGo => exact absurd rfl hletGo
    | _ =>
      have hgone := (onward_of_chore hagenda (by simp) hletGo h).gone
      obtain ⟨planned, hfollows, hplanned⟩ := (moves_of_chore hagenda (by simp) hletGo h).agenda
      have hconcluding : d'.concluding = d.concluding :=
        (concluding_of_agenda hplanned (hfollows.concludes (by simp))).trans (concluding_cons hagenda rfl).symm
      refine ⟨.even ?_ hconcluding, hgone⟩
      cases stirs_of_chore hagenda (by simp) (by simp) hletGo h with
      | idle hcells hworld hl =>
        exact ⟨by rw [marks, hcells, marks], hl.registry, by rw [inFlight, hl.admission]; rfl, hgone⟩
      | stir hc halike hcells hworld hl =>
        exact ⟨marks_set_self hc hcells halike.mark_eq, hl.registry, by rw [inFlight, hl.admission]; rfl, hgone⟩

/-- **A move of the caller whose code returns puts what follows from the first chore in its place.** -/
theorem moves_of_returns {chore : Chore} {rest : List Chore} (hagenda : d.agenda = chore :: rest)
    (hlingers : d.agenda.head? ≠ some .letGo) (hreturns : d.returns bh (.move .caller) = true)
    (h : d.stepCaller? bh = some d') : Moves d d' chore rest := by
  have hletGo : chore ≠ .letGo := by
    rintro rfl
    exact hlingers (by rw [hagenda]; rfl)
  by_cases hconclude : ∃ id, chore = .conclude id
  · obtain ⟨id, rfl⟩ := hconclude
    have hcalm : d.unwinds bh id = false := by
      rw [returns, hagenda] at hreturns
      simpa using hreturns
    rw [stepCaller?, hagenda] at h
    cases hc : d.cells[id]? with
    | none =>
      unfold conclude? at h
      dsimp only at h
      rw [hc] at h
      obtain rfl := Option.some.inj h
      exact .plan .conclude rfl rfl
    | some c =>
      rcases conclude_cases (d := { d with agenda := rest }) hc h with ⟨hunwinds, -⟩ | ⟨-, hretired⟩
      · have hsame : d.unwinds bh id = true := hunwinds
        rw [hcalm] at hsame
        cases hsame
      · exact .plan .conclude hretired.agenda hretired.outcome
  · exact moves_of_chore hagenda (fun id heq => hconclude ⟨id, heq⟩) hletGo h

theorem turnover_of_within (hb : Booked d) {a : Act W B V} (ha : a.within = true) (hlingers : d.lingers a = true)
    (hact : d.act? bh a = some d') : Turnover d d' ∧ d'.gone = d.gone := by
  cases a with
  | move m =>
    cases m with
    | caller => exact turnover_stepCaller hb (of_decide_eq_true hlingers) hact
    | worker i => exact turnover_stepWorker hb.held hact
  | surround w =>
    obtain rfl := Option.some.inj hact
    exact ⟨.even ⟨rfl, rfl, rfl, rfl⟩ rfl, rfl⟩
  | _ => cases ha

theorem arrival_spawn (bh : Behaviour W B V) (d : Dispatcher W B V) (b : B) (sink : Sink) :
    Arrival d (d.spawn bh b sink) := by
  have hconcluding : (d.spawn bh b sink).concluding = d.concluding := by
    rw [spawn_eq]
    split
    · rfl
    · rcases letIn_cases bh (d := d.prepared bh b sink) d.cells.length (bh.prepare d.world b).2.2 with
        ⟨-, heq⟩ | ⟨-, -, heq⟩ | ⟨-, n, count, -, -, heq⟩
      all_goals
        rw [heq]
        rfl
  have hdeal : Deal bh d (d.spawn bh b sink) (.spawn b sink) := deal_spawn b sink
  cases hdeal with
  | idle hidles => cases hidles
  | reject hcause hcells hworld hregistry =>
    refine .turnAway (by rw [marks, hcells, List.map_append]; rfl) hregistry ?_ hconcluding
    rcases hcause with ⟨-, hadmission⟩ | ⟨-, hclosed, -, hadmission⟩
    · rw [inFlight, hadmission, inFlight]
    · rw [inFlight, hadmission, d.admission.enter_inFlight, hclosed, inFlight]
      simp
  | letIn hprepare hopen hcells hworld hregistry hadmission =>
    refine .letIn (by rw [marks, hcells, List.map_append]; rfl) ?_ ?_ hconcluding
    · rw [hregistry, marks, List.length_map]
    · rw [inFlight, hadmission, d.admission.enter_inFlight, if_pos hopen, inFlight]

/-- **Every act is a turnover or an arrival**, while the caller holds on to the dispatcher. -/
theorem books_of_act (hb : Booked d) {a : Act W B V} (hgate : a.keepsGate = true) (hlingers : d.lingers a = true)
    (hact : d.act? bh a = some d') : (Turnover d d' ∨ Arrival d d') ∧ d'.gone = d.gone := by
  have heven : ∀ {d' : Dispatcher W B V}, Even d d' → d'.concluding = d.concluding →
      (Turnover d d' ∨ Arrival d d') ∧ d'.gone = d.gone := fun h hconcluding => ⟨.inl (.even h hconcluding), h.gone⟩
  cases a with
  | move | surround =>
    obtain ⟨hturnover, hgone⟩ := turnover_of_within hb rfl hlingers hact
    exact ⟨.inl hturnover, hgone⟩
  | spawn b sink =>
    obtain rfl := Option.some.inj hact
    exact ⟨.inr (arrival_spawn bh d b sink), (onward_spawn b sink).gone⟩
  | pumpAll | untilIdle =>
    obtain rfl := Option.some.inj hact
    exact heven ⟨rfl, rfl, rfl, rfl⟩ rfl
  | shutdown =>
    obtain rfl := Option.some.inj hact
    unfold shutdown
    split
    · exact heven ⟨rfl, rfl, rfl, rfl⟩ rfl
    · exact heven ⟨rfl, rfl, Admission.beginShutdown_inFlight _, rfl⟩ rfl
  | take | poll | dropPromise | releaseValue =>
    have hvisited := visited_of_act rfl hact
    exact heven hvisited.even (congrArg (List.filterMap Chore.concludes?) hvisited.agenda)
  | regate => cases hgate

/-! ## Runs -/

theorem Booked.act (h : Booked d) {a : Act W B V} (hgate : a.keepsGate = true) (hlingers : d.lingers a = true)
    (hact : d.act? bh a = some d') : Booked d' ∧ ∀ id, Stranded d id → Stranded d' id := by
  obtain ⟨hturnover | harrival, hgone⟩ := books_of_act h hgate hlingers hact
  · exact ⟨h.turnover hturnover hgone, fun id hs => hs.turnover hturnover⟩
  · exact ⟨h.arrival harrival hgone, fun id hs => hs.arrival harrival⟩

/-- **The books stay in order throughout a run, and who is stranded stays so**, while the caller holds on to the dispatcher
and leaves the admission to it. -/
theorem Booked.run (h : Booked d) {as : List (Act W B V)} (has : ∀ a ∈ as, a.keepsGate = true)
    (hlingers : Along bh (fun d a => d.lingers a = true) d as) (hrun : d.run? bh as = some d') :
    Booked d' ∧ ∀ id, Stranded d id → Stranded d' id := by
  induction as generalizing d with
  | nil =>
    obtain rfl := Option.some.inj hrun
    exact ⟨h, fun _ hs => hs⟩
  | cons a as ih =>
    obtain ⟨d₁, hact, hrun⟩ := Option.bind_eq_some_iff.1 hrun
    obtain ⟨hfirst, hlater⟩ := hlingers
    rw [hact] at hlater
    obtain ⟨hb, hstranded⟩ := h.act (has a (List.mem_cons_self ..)) hfirst hact
    obtain ⟨hb', hstranded'⟩ := ih hb (fun a ha => has a (List.mem_cons_of_mem _ ha)) hlater hrun
    exact ⟨hb', fun id hs => hstranded' id (hstranded id hs)⟩

theorem lingers_of_steady (h : d.Steady) (a : Act W B V) : d.lingers a = true := by
  cases a with
  | move m =>
    cases m with
    | caller => exact decide_eq_true fun hhead => h.agenda (List.mem_of_mem_head? hhead)
    | worker i => rfl
  | _ => rfl

theorem Steady.caller (h : d.Steady) (hstep : d.stepCaller? bh = some d') : d'.Steady := by
  cases hagenda : d.agenda with
  | nil =>
    rw [stepCaller?, hagenda] at hstep
    cases hstep
  | cons chore rest =>
    by_cases hconclude : ∃ id, chore = .conclude id
    · obtain ⟨id, rfl⟩ := hconclude
      have hrest : Chore.letGo ∉ rest := fun hmem => h.agenda (hagenda ▸ List.mem_cons_of_mem _ hmem)
      rw [stepCaller?, hagenda] at hstep
      cases hc : d.cells[id]? with
      | none =>
        unfold conclude? at hstep
        dsimp only at hstep
        rw [hc] at hstep
        obtain rfl := Option.some.inj hstep
        exact ⟨h.gone, hrest⟩
      | some c =>
        rcases conclude_cases (d := { d with agenda := rest }) hc hstep with ⟨-, hunwound⟩ | ⟨-, hretired⟩
        · exact ⟨hunwound.gone.trans h.gone, by simp [hunwound.agenda]⟩
        · exact ⟨hretired.gone.trans h.gone, by simpa [hretired.agenda] using hrest⟩
    · have honward : Onward d d' := by
        refine onward_of_chore hagenda (fun id heq => hconclude ⟨id, heq⟩) ?_ hstep
        rintro rfl
        exact h.agenda (hagenda ▸ List.mem_cons_self ..)
      exact ⟨honward.gone.trans h.gone, mt honward.agenda h.agenda⟩

theorem Steady.act (h : d.Steady) {a : Act W B V} (hact : d.act? bh a = some d') : d'.Steady := by
  have honward : Onward d d' → d'.Steady := fun ho => ⟨ho.gone.trans h.gone, mt ho.agenda h.agenda⟩
  cases a with
  | move m =>
    cases m with
    | worker i => exact honward (leads_stepWorker h.gone hact).1
    | caller => exact h.caller hact
  | spawn b sink =>
    obtain rfl := Option.some.inj hact
    exact honward (onward_spawn b sink)
  | pumpAll | untilIdle =>
    obtain rfl := Option.some.inj hact
    exact ⟨h.gone, by simpa [pumpAll, untilIdle, plan] using h.agenda⟩
  | shutdown =>
    obtain rfl := Option.some.inj hact
    unfold shutdown
    split
    · exact ⟨h.gone, h.agenda⟩
    · exact ⟨h.gone, by simpa [plan, shutdownChores] using h.agenda⟩
  | take | poll | dropPromise | releaseValue =>
    have hvisited := visited_of_act rfl hact
    exact ⟨hvisited.gone.trans h.gone, hvisited.agenda ▸ h.agenda⟩
  | surround | regate =>
    obtain rfl := Option.some.inj hact
    exact ⟨h.gone, h.agenda⟩

theorem along_lingers (h : d.Steady) (as : List (Act W B V)) : Along bh (fun d a => d.lingers a = true) d as := by
  induction as generalizing d with
  | nil => trivial
  | cons a as ih =>
    refine ⟨lingers_of_steady h a, ?_⟩
    split
    · trivial
    · rename_i d₁ hact
      exact ih (h.act hact)

theorem Steady.run (h : d.Steady) {as : List (Act W B V)} (hrun : d.run? bh as = some d') : d'.Steady := by
  induction as generalizing d with
  | nil =>
    obtain rfl := Option.some.inj hrun
    exact h
  | cons a as ih =>
    obtain ⟨d₁, hact, hrun⟩ := Option.bind_eq_some_iff.1 hrun
    exact ih (h.act hact) hrun

theorem booked_start {world : W} {s : Settings} {processors : Nat} {checkpoints : Bool}
    (h : start world s processors .fresh checkpoints = .ok d) : Booked d ∧ d.Steady := by
  obtain ⟨hheld, -⟩ := start_spec h
  refine ⟨?_, hheld.steady⟩
  unfold start at h
  split at h
  · cases h
  · cases h
    exact ⟨rfl, rfl, List.nodup_nil, List.nodup_nil, nofun, nofun, nofun⟩

end Dispatcher
end BitmapWorks
