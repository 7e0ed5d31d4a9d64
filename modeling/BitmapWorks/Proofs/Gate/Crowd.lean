import BitmapWorks.Gate
import BitmapWorks.Proofs.Lists
import Mathlib.Tactic.Common
/-!
# Crowd — any number of visits at one gate

Visits come to a gate at any time, and their moves, the tasks that go out, the beginning of the shutdown and looks at the
count follow each other in any order (`run?`).  Two facts carry what follows.  Every move keeps the count equal to the
number of visits that have counted themselves in and neither gone out nor stepped back (`move?_counted`), and behind the
beginning of the shutdown no move lets a visit in (`move?_gotIn`).  So a count of zero that is read then is final
(`gate_of_run`).
-/
namespace BitmapWorks

/-- A visit at a gate, until the task that it let in goes out. -/
inductive Guest where
  | visiting (visit : Visit)
  | gone
  deriving DecidableEq, Repr

namespace Guest

def fresh : Guest := visiting .arriving

def gotIn : Guest → Bool
  | visiting (.over true) | gone => true
  | _ => false

def isInside : Guest → Bool
  | visiting (.over true) => true
  | _ => false

/-- Whether a visit has counted itself in and is not over. -/
def isMidway : Guest → Bool
  | visiting .counted | visiting .leaving => true
  | _ => false

end Guest

/-- A gate and its visits, by number in the order in which they start. -/
structure Crowd where
  gate : Gate
  guests : List Guest
  deriving DecidableEq, Repr

namespace Crowd

def fresh : Crowd := ⟨.fresh, []⟩

inductive Move where
  /-- A visit starts. -/
  | arrive
  /-- A visit makes its next move. -/
  | advance (i : Nat)
  /-- The task that a visit let in goes out. -/
  | leave (i : Nat)
  | beginShutdown
  /-- Somebody reads the count. -/
  | look
  deriving DecidableEq, Repr

def move? (c : Crowd) : Move → Option Crowd
  | .arrive => some { c with guests := c.guests ++ [.fresh] }
  | .advance i =>
    match c.guests[i]? with
    | none | some .gone | some (.visiting (.over _)) => none
    | some (.visiting visit) =>
      let (gate, visit) := c.gate.visit visit
      some ⟨gate, c.guests.set i (.visiting visit)⟩
  | .leave i =>
    match c.guests[i]? with
    | some (.visiting (.over true)) => some ⟨c.gate.leave, c.guests.set i .gone⟩
    | _ => none
  | .beginShutdown => some { c with gate := c.gate.beginShutdown }
  | .look => some c

def run? (c : Crowd) : List Move → Option Crowd
  | [] => some c
  | m :: ms => (c.move? m).bind fun c => run? c ms

/-! ## Moves -/

inductive Turn (g : Gate) : Guest → Gate → Guest → Prop
  | refused : g.stopping = true → Turn g (.visiting .arriving) g (.visiting (.over false))
  | welcomed : g.stopping = false → Turn g (.visiting .arriving) g (.visiting .welcome)
  | counted : Turn g (.visiting .welcome) { g with inFlight := g.inFlight + 1 } (.visiting .counted)
  | warned : g.stopping = true → Turn g (.visiting .counted) g (.visiting .leaving)
  | entered : g.stopping = false → Turn g (.visiting .counted) g (.visiting (.over true))
  | steppedBack : Turn g (.visiting .leaving) { g with inFlight := g.inFlight - 1 } (.visiting (.over false))
  | left : Turn g (.visiting (.over true)) { g with inFlight := g.inFlight - 1 } .gone

theorem turn_visit (g : Gate) {visit : Visit} (h : ∀ inside, visit ≠ .over inside) :
    Turn g (.visiting visit) (g.visit visit).1 (.visiting (g.visit visit).2) := by
  cases visit with
  | arriving =>
    cases hstop : g.stopping with
    | true => simpa [Gate.visit, hstop] using Turn.refused hstop
    | false => simpa [Gate.visit, hstop] using Turn.welcomed hstop
  | welcome => exact .counted
  | counted =>
    cases hstop : g.stopping with
    | true => simpa [Gate.visit, hstop] using Turn.warned hstop
    | false => simpa [Gate.visit, hstop] using Turn.entered hstop
  | leaving => exact .steppedBack
  | «over» inside => exact absurd rfl (h inside)

/-- **A move brings a guest, begins the shutdown, changes nothing, or is a turn of one guest.** -/
theorem move?_cases {c c' : Crowd} {m : Move} (h : c.move? m = some c') :
    c' = { c with guests := c.guests ++ [.fresh] } ∨ c' = { c with gate := c.gate.beginShutdown } ∨ c' = c ∨
    ∃ i g gate g', c.guests[i]? = some g ∧ Turn c.gate g gate g' ∧ c' = ⟨gate, c.guests.set i g'⟩ := by
  cases m with
  | arrive => exact .inl (Option.some.inj h).symm
  | beginShutdown => exact .inr (.inl (Option.some.inj h).symm)
  | look => exact .inr (.inr (.inl (Option.some.inj h).symm))
  | advance i =>
    unfold move? at h
    dsimp only at h
    split at h
    · cases h
    · cases h
    · cases h
    · rename_i visit hover hg
      exact .inr (.inr (.inr ⟨i, _, _, _, hg, turn_visit c.gate fun inside heq => hover inside (by rw [heq]),
        (Option.some.inj h).symm⟩))
  | leave i =>
    unfold move? at h
    dsimp only at h
    split at h
    · rename_i hg
      exact .inr (.inr (.inr ⟨i, _, _, _, hg, .left, (Option.some.inj h).symm⟩))
    · cases h

/-! ## The count -/

/-- Whether the count is that of the tasks that are in and of the visits between counting themselves in and their end. -/
def Counted (c : Crowd) : Prop :=
  c.gate.inFlight = c.guests.countP Guest.isInside + c.guests.countP Guest.isMidway

/-- **A turn changes the count as it changes whether the guest is counted.** -/
theorem Turn.inFlight {g gate : Gate} {guest guest' : Guest} (h : Turn g guest gate guest') :
    gate.inFlight + guest.isInside.toNat + guest.isMidway.toNat
      = g.inFlight + guest'.isInside.toNat + guest'.isMidway.toNat := by
  cases h <;> simp [Guest.isInside, Guest.isMidway]

theorem move?_counted {c c' : Crowd} {m : Move} (h : c.move? m = some c') (hc : c.Counted) : c'.Counted := by
  rcases move?_cases h with rfl | rfl | rfl | ⟨i, g, gate, g', hg, hturn, rfl⟩
  · simpa [Counted, Guest.fresh, Guest.isInside, Guest.isMidway] using hc
  · exact hc
  · exact hc
  · have hinside := countP_set_add (p := Guest.isInside) hg g'
    have hmidway := countP_set_add (p := Guest.isMidway) hg g'
    have hcount := hturn.inFlight
    unfold Counted at hc ⊢
    dsimp only
    omega

/-! ## The shutdown -/

/-- **A move leaves a guest alone, brings it, or is a turn of it.** -/
theorem move?_guest {c c' : Crowd} {m : Move} (h : c.move? m = some c') (i : Nat) :
    c'.guests[i]? = c.guests[i]? ∨ (c.guests[i]? = none ∧ c'.guests[i]? = some .fresh) ∨
    ∃ g gate g', c.guests[i]? = some g ∧ Turn c.gate g gate g' ∧ c'.guests[i]? = some g' := by
  rcases move?_cases h with rfl | rfl | rfl | ⟨j, g, gate, g', hg, hturn, rfl⟩
  · by_cases hi : i < c.guests.length
    · exact .inl (List.getElem?_append_left hi)
    · rw [List.getElem?_append_right (Nat.not_lt.1 hi), List.getElem?_eq_none (Nat.not_lt.1 hi)]
      cases i - c.guests.length with
      | zero => exact .inr (.inl ⟨rfl, rfl⟩)
      | succ => exact .inl rfl
  · exact .inl rfl
  · exact .inl rfl
  · by_cases hij : j = i
    · subst hij
      exact .inr (.inr ⟨g, gate, g', hg, hturn, by simp [List.getElem?_set_self', hg]⟩)
    · exact .inl (List.getElem?_set_ne hij)

theorem Turn.stopping {g gate : Gate} {guest guest' : Guest} (h : Turn g guest gate guest') :
    gate.stopping = g.stopping := by
  cases h <;> rfl

/-- Behind the beginning of the shutdown a turn lets nobody in, and a visit that has not looked yet is refused. -/
theorem Turn.of_stopping {g gate : Gate} {guest guest' : Guest} (h : Turn g guest gate guest')
    (hstop : g.stopping = true) :
    guest'.gotIn = guest.gotIn ∧ (guest = .fresh → guest' = .visiting (.over false)) ∧
      guest ≠ .visiting (.over false) := by
  cases h <;> simp_all [Guest.gotIn, Guest.fresh]

theorem move?_stopping {c c' : Crowd} {m : Move} (h : c.move? m = some c') (hstop : c.gate.stopping = true) :
    c'.gate.stopping = true := by
  rcases move?_cases h with rfl | rfl | rfl | ⟨i, g, gate, g', hg, hturn, rfl⟩
  · exact hstop
  · rfl
  · exact hstop
  · exact hturn.stopping.trans hstop

def gotIn (c : Crowd) (i : Nat) : Bool := (c.guests[i]?).any Guest.gotIn

/-- Whether the visit of a number has not looked yet or was refused. -/
def IsTurnedAway (c : Crowd) (i : Nat) : Prop :=
  c.guests[i]? = some .fresh ∨ c.guests[i]? = some (.visiting (.over false))

/-- **Behind the beginning of the shutdown no move lets a visit in.** -/
theorem move?_gotIn {c c' : Crowd} {m : Move} (h : c.move? m = some c') (hstop : c.gate.stopping = true) (i : Nat) :
    c'.gotIn i = c.gotIn i := by
  unfold gotIn
  rcases move?_guest h i with heq | ⟨hnone, hfresh⟩ | ⟨g, gate, g', hg, hturn, hg'⟩
  · rw [heq]
  · rw [hnone, hfresh]
    rfl
  · rw [hg, hg']
    exact (hturn.of_stopping hstop).1

theorem move?_isTurnedAway {c c' : Crowd} {m : Move} (h : c.move? m = some c') (hstop : c.gate.stopping = true) {i : Nat}
    (hi : c.IsTurnedAway i) : c'.IsTurnedAway i := by
  unfold IsTurnedAway at hi ⊢
  rcases move?_guest h i with heq | ⟨hnone, hfresh⟩ | ⟨g, gate, g', hg, hturn, hg'⟩
  · rwa [heq]
  · exact .inl hfresh
  · obtain ⟨-, hrefused, hnot⟩ := hturn.of_stopping hstop
    rw [hg] at hi
    rcases hi with hi | hi
    · exact .inr (hrefused (Option.some.inj hi) ▸ hg')
    · exact absurd (Option.some.inj hi) hnot

/-! ## Runs -/

theorem run?_counted {ms : List Move} {c c' : Crowd} (h : c.run? ms = some c') (hc : c.Counted) : c'.Counted := by
  induction ms generalizing c with
  | nil => exact Option.some.inj h ▸ hc
  | cons m ms ih =>
    obtain ⟨c₁, hmove, hrun⟩ := Option.bind_eq_some_iff.1 h
    exact ih hrun (move?_counted hmove hc)

theorem run?_of_stopping {ms : List Move} {c c' : Crowd} (h : c.run? ms = some c') (hstop : c.gate.stopping = true) :
    c'.gate.stopping = true ∧ ∀ i, c'.gotIn i = c.gotIn i ∧ (c.IsTurnedAway i → c'.IsTurnedAway i) := by
  induction ms generalizing c with
  | nil =>
    obtain rfl := Option.some.inj h
    exact ⟨hstop, fun i => ⟨rfl, id⟩⟩
  | cons m ms ih =>
    obtain ⟨c₁, hmove, hrun⟩ := Option.bind_eq_some_iff.1 h
    obtain ⟨hstop', hkeeps⟩ := ih hrun (move?_stopping hmove hstop)
    exact ⟨hstop', fun i => ⟨(hkeeps i).1.trans (move?_gotIn hmove hstop i),
      fun hi => (hkeeps i).2 (move?_isTurnedAway hmove hstop hi)⟩⟩

/-- What a gate guarantees at each point of a run. -/
structure Guarded (c : Crowd) : Prop where
  notNegative : 0 ≤ c.gate.inFlight
  /-- The count is that of the tasks that are in and of the visits that have counted themselves in and are not over. -/
  counted : c.gate.inFlight = c.guests.countP Guest.isInside + c.guests.countP Guest.isMidway
  /-- A visit that starts behind the beginning of the shutdown ends with its first move: it does not get in, and the
  move leaves the gate and the other visits alone. -/
  refused : c.gate.stopping = true → ∀ i : Nat, c.guests[i]? = some .fresh → ∀ ms c', c.run? ms = some c' →
    c'.guests[i]? = some (.visiting (.over false)) ∨ (c'.guests[i]? = some .fresh ∧
      c'.move? (.advance i) = some { c' with guests := c'.guests.set i (.visiting (.over false)) })
  /-- When the count is zero behind the beginning of the shutdown, whoever gets in at any time has gone out already. -/
  final : c.gate.stopping = true → c.gate.inFlight = 0 → ∀ ms c', c.run? ms = some c' →
    ∀ i : Nat, c'.gotIn i = true → c.guests[i]? = some .gone

theorem Counted.eq_gone {c : Crowd} (h : c.Counted) (hzero : c.gate.inFlight = 0) {i : Nat} (hi : c.gotIn i = true) :
    c.guests[i]? = some .gone := by
  obtain ⟨g, hg, hin⟩ := (Option.any_eq_true _ _).1 hi
  have hnone : c.guests.countP Guest.isInside = 0 := by
    unfold Counted at h
    omega
  have hout := List.countP_eq_zero.1 hnone g (List.mem_of_getElem? hg)
  cases g with
  | gone => exact hg
  | visiting visit =>
    cases visit with
    | «over» inside => cases inside <;> simp_all [Guest.gotIn, Guest.isInside]
    | _ => cases hin

/-- **What a gate guarantees, whatever order the moves at it come in.** -/
theorem gate_of_run {ms : List Move} {c : Crowd} (h : fresh.run? ms = some c) : c.Guarded := by
  have hcounted : c.Counted := run?_counted h rfl
  refine ⟨?_, hcounted, fun hstop i hi ms' c' hrun => ?_, fun hstop hzero ms' c' hrun i hin => ?_⟩
  · unfold Counted at hcounted
    omega
  · obtain ⟨hstop', hkeeps⟩ := run?_of_stopping hrun hstop
    rcases (hkeeps i).2 (.inl hi) with hfresh | hover
    · refine .inr ⟨hfresh, ?_⟩
      rw [move?, hfresh]
      simp [Guest.fresh, Gate.visit, hstop']
    · exact .inl hover
  · refine hcounted.eq_gone hzero ?_
    rw [← ((run?_of_stopping hrun hstop).2 i).1]
    exact hin

/-- One task is in, and a visit has counted itself in, when the shutdown begins; the visit steps back, the task goes
out, and a third visit comes too late. -/
def closingMoves : List Move :=
  [.arrive, .advance 0, .advance 0, .advance 0, .arrive, .advance 1, .advance 1, .beginShutdown, .look, .advance 1,
    .leave 0, .arrive, .advance 1, .look]

theorem gate_of_run_closing : ∃ c, fresh.run? closingMoves = some c ∧ c.Guarded ∧ c.gate = ⟨0, true⟩ ∧
    c.guests = [.gone, .visiting (.over false), .fresh] :=
  ⟨⟨⟨0, true⟩, [.gone, .visiting (.over false), .fresh]⟩, rfl, @gate_of_run closingMoves _ rfl, rfl, rfl⟩

end Crowd
end BitmapWorks
