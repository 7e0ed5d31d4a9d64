import BitmapWorks.Encoding
import BitmapWorks.Proofs.Lists
import BitmapWorks.Shelf
import Mathlib.Data.List.Basic
import Mathlib.Tactic.Common
/-!
# Contest — changes of one bitmap while guards come and go

Several parties have clones of one bitmap.  A change looks whether a guard is alive, and lands in a move of its own
behind that; between the two come moves of other changes, new guards and guards that are dropped, in any order
(`run?`).  A guard holds off every change that looks while it is alive, but none that had looked before it came.  So
while guards stay alive (`runGuarded?`) nothing lands but the changes that were past their look at the start
(`Shielded`), and the bitmap stays as it is, in its values and in what it is held in, exactly if none of those would
alter it (`stays_iff_of_run`).
-/
namespace BitmapWorks

def Change.onContent (x : Change) (content : Content) : Content := .owned (x.apply content.bitmap)

/-- How far a change has come. -/
inductive Attempt where
  /-- It has not looked yet. -/
  | asking (x : Change)
  /-- It has seen no guard. -/
  | cleared (x : Change)
  /-- It is over, with its answer. -/
  | over (answer : Except Fault Bool)
  deriving DecidableEq, Repr

/-- What lands with the next move of a change. -/
def Attempt.lands : Attempt → List Change
  | cleared x => [x]
  | _ => []

def Slot.attempt (s : Slot) : Attempt → Slot × Attempt
  | .asking x => (s, if s.isFrozen then .over (.error .frozen) else .cleared x)
  | .cleared x => (s.apply x, .over (.ok (x.isNew s.bitmap)))
  | .over answer => (s, .over answer)

/-- **A change that nobody disturbs is its two moves in a row.** -/
theorem Slot.change_eq_attempt (s : Slot) (x : Change) :
    (s.attempt (.asking x)).1.attempt (s.attempt (.asking x)).2 = ((s.change x).2, .over (s.change x).1) := by
  cases hfrozen : s.isFrozen with
  | true => simp [attempt, hfrozen, change_of_frozen hfrozen]
  | false => simp [attempt, hfrozen, change_of_not_frozen hfrozen]

/-- A bitmap, the changes of it by number in the order in which they start, and a record of those that have landed. -/
structure Contest where
  slot : Slot
  attempts : List Attempt
  landed : List (Nat × Change)

namespace Contest

def opened (content : Content) : Contest := ⟨.ofContent content none, [], []⟩

inductive Move where
  /-- A change starts. -/
  | start (x : Change)
  /-- A change makes its next move. -/
  | advance (i : Nat)
  | freeze
  /-- A guard is dropped. -/
  | unfreeze
  /-- Somebody reads the bitmap. -/
  | look
  deriving DecidableEq, Repr

def move? (c : Contest) : Move → Option Contest
  | .start x => some { c with attempts := c.attempts ++ [.asking x] }
  | .advance i =>
    match c.attempts[i]? with
    | none | some (.over _) => none
    | some a =>
      let (slot, a') := c.slot.attempt a
      some ⟨slot, c.attempts.set i a', c.landed ++ a.lands.map fun x => (i, x)⟩
  | .freeze => some { c with slot := { c.slot with guards := c.slot.guards + 1 } }
  | .unfreeze => if c.slot.isFrozen then some { c with slot := { c.slot with guards := c.slot.guards - 1 } } else none
  | .look => some c

def run? (c : Contest) : List Move → Option Contest
  | [] => some c
  | m :: ms => (c.move? m).bind fun c => run? c ms

/-- A run with a guard alive all the time, from the first state to the last. -/
def runGuarded? (c : Contest) : List Move → Option Contest
  | [] => if c.slot.isFrozen then some c else none
  | m :: ms => if c.slot.isFrozen then (c.move? m).bind fun c => runGuarded? c ms else none

/-! ## Moves -/

/-- What a move of one change does to the bitmap and to the change, and what lands with it. -/
inductive Turn (s : Slot) : Attempt → Slot → Attempt → List Change → Prop
  | refused (x : Change) : s.isFrozen = true → Turn s (.asking x) s (.over (.error .frozen)) []
  | cleared (x : Change) : s.isFrozen = false → Turn s (.asking x) s (.cleared x) []
  | landed (x : Change) : Turn s (.cleared x) (s.apply x) (.over (.ok (x.isNew s.bitmap))) [x]

theorem turn_attempt (s : Slot) {a : Attempt} (h : ∀ answer, a ≠ .over answer) :
    Turn s a (s.attempt a).1 (s.attempt a).2 a.lands := by
  cases a with
  | asking x =>
    cases hfrozen : s.isFrozen with
    | true => simpa [Slot.attempt, Attempt.lands, hfrozen] using Turn.refused x hfrozen
    | false => simpa [Slot.attempt, Attempt.lands, hfrozen] using Turn.cleared x hfrozen
  | cleared x => exact .landed x
  | «over» answer => exact absurd rfl (h answer)

/-- **A move starts a change, changes the number of guards at most, or is a turn of one change.** -/
theorem move?_cases {c c' : Contest} {m : Move} (h : c.move? m = some c') :
    (∃ x, c' = { c with attempts := c.attempts ++ [.asking x] }) ∨
    (∃ guards, c' = { c with slot := { c.slot with guards := guards } }) ∨
    ∃ i a slot a' xs, c.attempts[i]? = some a ∧ Turn c.slot a slot a' xs ∧
      c' = ⟨slot, c.attempts.set i a', c.landed ++ xs.map fun x => (i, x)⟩ := by
  cases m with
  | start x => exact .inl ⟨x, (Option.some.inj h).symm⟩
  | freeze => exact .inr (.inl ⟨_, (Option.some.inj h).symm⟩)
  | unfreeze =>
    rw [move?] at h
    split at h
    · exact .inr (.inl ⟨_, (Option.some.inj h).symm⟩)
    · cases h
  | look => exact .inr (.inl ⟨c.slot.guards, (Option.some.inj h).symm⟩)
  | advance i =>
    unfold move? at h
    dsimp only at h
    split at h
    · cases h
    · cases h
    · rename_i a hover ha
      exact .inr (.inr ⟨i, a, _, _, _, ha, turn_attempt c.slot fun answer heq => hover answer (by rw [heq]),
        (Option.some.inj h).symm⟩)

/-! ## The record -/

/-- What a bitmap is held in when changes have landed in it one after the other. -/
def replay (content : Content) (late : List (Nat × Change)) : Content :=
  late.foldl (fun content p => p.2.onContent content) content

theorem replay_eq_self {content : Content} {late : List (Nat × Change)}
    (h : ∀ p ∈ late, p.2.onContent content = content) : replay content late = content := by
  induction late with
  | nil => rfl
  | cons p late ih =>
    have hfirst : p.2.onContent content = content := h p List.mem_cons_self
    show replay (p.2.onContent content) late = content
    rw [hfirst]
    exact ih fun q hq => h q (List.mem_cons_of_mem _ hq)

/-- **A turn does to the bitmap what lands with it.** -/
theorem Turn.content {s slot : Slot} {a a' : Attempt} {xs : List Change} (h : Turn s a slot a' xs) (i : Nat) :
    slot.content = replay s.content (xs.map fun x => (i, x)) := by
  cases h <;> rfl

/-- Whether the record of a bitmap tells what it is held in, and names each change that was carried out once. -/
structure Recorded (content : Content) (c : Contest) : Prop where
  content : c.slot.content = replay content c.landed
  once : (c.landed.map Prod.fst).Nodup
  answered : ∀ i, i ∈ c.landed.map Prod.fst ↔ ∃ new, c.attempts[i]? = some (.over (.ok new))

theorem recorded_opened (content : Content) : Recorded content (opened content) :=
  ⟨rfl, List.nodup_nil, fun i => ⟨nofun, fun ⟨_, h⟩ => by cases h⟩⟩

/-- **A turn answers a change as carried out exactly if it lands.** -/
theorem Turn.answered {s slot : Slot} {a a' : Attempt} {xs : List Change} (h : Turn s a slot a' xs) :
    (∀ new, a ≠ .over (.ok new)) ∧
      (xs = [] ∧ (∀ new, a' ≠ .over (.ok new)) ∨ ∃ x new, xs = [x] ∧ a' = .over (.ok new)) := by
  cases h with
  | refused x => exact ⟨nofun, .inl ⟨rfl, nofun⟩⟩
  | cleared x => exact ⟨nofun, .inl ⟨rfl, nofun⟩⟩
  | landed x => exact ⟨nofun, .inr ⟨x, _, rfl, rfl⟩⟩

theorem Recorded.step {content : Content} {c c' : Contest} {m : Move} (hc : Recorded content c)
    (h : c.move? m = some c') : Recorded content c' := by
  rcases move?_cases h with ⟨x, rfl⟩ | ⟨guards, rfl⟩ | ⟨i, a, slot, a', xs, ha, hturn, rfl⟩
  · refine ⟨hc.content, hc.once, fun i => (hc.answered i).trans ?_⟩
    refine exists_congr fun new => ⟨fun hi => ?_, fun hi => (eq_some_of_getElem?_concat hi).resolve_right ?_⟩
    · rw [List.getElem?_append_left (List.getElem?_eq_some_iff.1 hi).1]
      exact hi
    · rintro ⟨-, heq⟩
      cases heq
  · exact ⟨hc.content, hc.once, hc.answered⟩
  · obtain ⟨hbefore, hafter⟩ := hturn.answered
    have hnot : i ∉ c.landed.map Prod.fst := fun hi => by
      obtain ⟨new, hnew⟩ := (hc.answered i).1 hi
      exact hbefore new (Option.some.inj (ha.symm.trans hnew))
    refine ⟨?_, ?_, fun j => ?_⟩
    · rw [hturn.content i, hc.content]
      exact (List.foldl_append ..).symm
    · rcases hafter with ⟨rfl, -⟩ | ⟨x, new, rfl, -⟩
      · simpa using hc.once
      · simpa [List.nodup_append] using ⟨hc.once, fun j x hx hj => hnot (hj ▸ List.mem_map_of_mem hx)⟩
    · dsimp only
      rw [getElem?_set_of_eq_some ha, List.map_append, List.mem_append, hc.answered]
      by_cases hij : i = j
      · subst hij
        rcases hafter with ⟨rfl, hnew⟩ | ⟨x, new, rfl, rfl⟩
        · simp [ha, hbefore, hnew]
        · simp
      · have hother : j ∉ (xs.map fun x => (i, x)).map Prod.fst := fun hj => by
          obtain ⟨entry, hentry, rfl⟩ := List.mem_map.1 hj
          obtain ⟨x, -, rfl⟩ := List.mem_map.1 hentry
          exact hij rfl
        simp only [if_neg hij, hother, or_false]

theorem Recorded.run {content : Content} {ms : List Move} {c c' : Contest} (hc : Recorded content c)
    (h : c.run? ms = some c') : Recorded content c' := by
  induction ms generalizing c with
  | nil => exact Option.some.inj h ▸ hc
  | cons m ms ih =>
    obtain ⟨c₁, hmove, hrun⟩ := Option.bind_eq_some_iff.1 h
    exact ih (hc.step hmove) hrun

/-! ## Under a guard -/

/-- What becomes of a bitmap and of its changes from one state to another while guards stay alive. -/
structure Shielded (c c' : Contest) : Prop where
  /-- All that lands is of changes that had looked before, and nothing else becomes of the bitmap. -/
  late : ∃ late, c'.landed = c.landed ++ late ∧ c'.slot.content = replay c.slot.content late ∧
    ∀ p ∈ late, c.attempts[p.1]? = some (.cleared p.2)
  /-- A change that looks is refused. -/
  refused : ∀ (i : Nat) a, c'.attempts[i]? = some a → c.attempts[i]? = some a ∨
    (∃ x new, c.attempts[i]? = some (.cleared x) ∧ a = .over (.ok new)) ∨ (∃ x, a = .asking x) ∨
      a = .over (.error .frozen)

theorem Shielded.refl (c : Contest) : Shielded c c :=
  ⟨⟨[], (List.append_nil _).symm, rfl, fun _ hp => absurd hp List.not_mem_nil⟩, fun _ _ h => .inl h⟩

/-- **Under a guard a turn lands only what was cleared, and refuses what looks.** -/
theorem Turn.of_frozen {s slot : Slot} {a a' : Attempt} {xs : List Change} (h : Turn s a slot a' xs)
    (hfrozen : s.isFrozen = true) :
    xs = [] ∧ (∃ x, a = .asking x) ∧ a' = .over (.error .frozen) ∨
      ∃ x new, xs = [x] ∧ a = .cleared x ∧ a' = .over (.ok new) := by
  cases h with
  | refused x => exact .inl ⟨rfl, ⟨x, rfl⟩, rfl⟩
  | cleared x hfree => rw [hfrozen] at hfree; cases hfree
  | landed x => exact .inr ⟨x, _, rfl, rfl, rfl⟩

theorem Shielded.step {c₀ c c' : Contest} {m : Move} (hc : Shielded c₀ c) (hfrozen : c.slot.isFrozen = true)
    (h : c.move? m = some c') : Shielded c₀ c' := by
  obtain ⟨late, hlanded, hcontent, hcleared⟩ := hc.late
  rcases move?_cases h with ⟨x, rfl⟩ | ⟨guards, rfl⟩ | ⟨i, a, slot, a', xs, ha, hturn, rfl⟩
  · refine ⟨⟨late, hlanded, hcontent, hcleared⟩, fun i a ha => ?_⟩
    rcases eq_some_of_getElem?_concat ha with ha | ⟨-, rfl⟩
    · exact hc.refused i a ha
    · exact .inr (.inr (.inl ⟨x, rfl⟩))
  · exact ⟨⟨late, hlanded, hcontent, hcleared⟩, hc.refused⟩
  · refine ⟨⟨late ++ xs.map fun x => (i, x), by rw [hlanded, List.append_assoc], ?_, fun p hp => ?_⟩,
      fun j b hb => ?_⟩
    · rw [hturn.content i, hcontent]
      exact (List.foldl_append ..).symm
    · rcases List.mem_append.1 hp with hp | hp
      · exact hcleared p hp
      -- a change that is past its look was so at the start, since nothing has been let past it
      · rcases hturn.of_frozen hfrozen with ⟨rfl, -, -⟩ | ⟨x, new, rfl, rfl, -⟩
        · cases hp
        · obtain rfl := List.mem_singleton.1 hp
          rcases hc.refused i _ ha with h | ⟨_, _, _, h⟩ | ⟨_, h⟩ | h
          · exact h
          all_goals cases h
    · dsimp only at hb
      rw [getElem?_set_of_eq_some ha] at hb
      split at hb
      · next hij =>
        subst hij
        obtain rfl := Option.some.inj hb
        rcases hturn.of_frozen hfrozen with ⟨-, -, rfl⟩ | ⟨x, new, -, rfl, rfl⟩
        · exact .inr (.inr (.inr rfl))
        · rcases hc.refused i _ ha with h | ⟨_, _, _, h⟩ | ⟨_, h⟩ | h
          · exact .inr (.inl ⟨x, new, h, rfl⟩)
          all_goals cases h
      · exact hc.refused j b hb

theorem Shielded.run {ms : List Move} {c₀ c c' : Contest} (hc : Shielded c₀ c) (h : c.runGuarded? ms = some c') :
    Shielded c₀ c' := by
  induction ms generalizing c with
  | nil =>
    rw [runGuarded?] at h
    split at h
    · exact Option.some.inj h ▸ hc
    · cases h
  | cons m ms ih =>
    rw [runGuarded?] at h
    split at h
    · next hfrozen =>
      obtain ⟨c₁, hmove, hrun⟩ := Option.bind_eq_some_iff.1 h
      exact ih (hc.step hfrozen hmove) hrun
    · cases h

/-- **A change that is past its look lands whatever guards are alive.** -/
theorem runGuarded?_advance {c : Contest} {i : Nat} {x : Change} (hfrozen : c.slot.isFrozen = true)
    (hx : c.attempts[i]? = some (.cleared x)) :
    ∃ c', c.runGuarded? [.advance i] = some c' ∧ c'.slot.content = x.onContent c.slot.content := by
  let c' : Contest := ⟨c.slot.apply x, c.attempts.set i (.over (.ok (x.isNew c.slot.bitmap))), c.landed ++ [(i, x)]⟩
  have hmove : c.move? (.advance i) = some c' := by
    simp only [move?, hx]
    rfl
  refine ⟨c', ?_, rfl⟩
  rw [runGuarded?, if_pos hfrozen, hmove]
  exact if_pos hfrozen

/-- **What a guard holds off, whatever order the moves come in.**  From a point where a guard is alive, for as long as
one is, nothing lands but changes that had looked before that point; the bitmap stays as it is exactly if each of those
would leave it so. -/
theorem stays_iff_of_run {content : Content} {ms : List Move} {c : Contest} (h : (opened content).run? ms = some c)
    (hfrozen : c.slot.isFrozen = true) :
    Recorded content c ∧ (∀ ms' c', c.runGuarded? ms' = some c' → Shielded c c') ∧
      ((∀ ms' c', c.runGuarded? ms' = some c' → c'.slot.content = c.slot.content) ↔
        ∀ (i : Nat) x, c.attempts[i]? = some (.cleared x) → x.onContent c.slot.content = c.slot.content) := by
  have hshielded : ∀ ms' c', c.runGuarded? ms' = some c' → Shielded c c' := fun _ _ hrun => (Shielded.refl c).run hrun
  refine ⟨(recorded_opened content).run h, hshielded, fun hstays i x hx => ?_, fun hnone ms' c' hrun => ?_⟩
  · obtain ⟨c', hrun, hcontent⟩ := runGuarded?_advance hfrozen hx
    exact hcontent.symm.trans (hstays _ c' hrun)
  · obtain ⟨late, -, hcontent, hcleared⟩ := (hshielded ms' c' hrun).late
    exact hcontent.trans (replay_eq_self fun p hp => hnone p.1 p.2 (hcleared p hp))

/-- One value is added; another addition is past its look when a guard comes. -/
def overtakenMoves : List Move :=
  [.start (.add 3), .advance 0, .advance 0, .start (.add 4), .advance 1, .freeze]

theorem stays_iff_of_run_overtaken : ∃ c c', (opened (.owned (.ofList [1, 2]))).run? overtakenMoves = some c ∧
    c.slot.isFrozen = true ∧ c.landed = [(0, .add 3)] ∧ c.runGuarded? [.start .clear, .advance 2, .advance 1] = some c' ∧
    Shielded c c' ∧ c'.slot.bitmap.values = [1, 2, 3, 4] ∧ c'.attempts[2]? = some (.over (.error .frozen)) := by
  have hends : (((opened (.owned (.ofList [1, 2]))).run? overtakenMoves).bind fun c =>
      (c.runGuarded? [.start .clear, .advance 2, .advance 1]).map fun c' =>
        decide (c.slot.isFrozen = true ∧ c.landed = [(0, .add 3)] ∧ c'.slot.bitmap.values = [1, 2, 3, 4] ∧
          c'.attempts[2]? = some (.over (.error .frozen)))) = some true := by decide +kernel
  obtain ⟨c, hrun, hlater⟩ := Option.bind_eq_some_iff.1 hends
  obtain ⟨c', hrun', hc⟩ := Option.map_eq_some_iff.1 hlater
  obtain ⟨hfrozen, hlanded, hvalues, hrefused⟩ := of_decide_eq_true hc
  exact ⟨c, c', hrun, hfrozen, hlanded, hrun', (stays_iff_of_run hrun hfrozen).2.1 _ c' hrun', hvalues, hrefused⟩

def pairInPlace : Option Content :=
  (Decoding.decode 0 (Encoding.encode (.ofList [1, 2]) .frozenPortable) .frozenPortable).toOption

/-- **A guard does not keep the bitmap as it is.**  A change that had looked before the guard came empties it, and moves
it out of the bytes that it was used in, between two looks under the guard. -/
theorem emptied_under_guard : ∃ content c c', pairInPlace = some content ∧
    (opened content).run? [.start .clear, .advance 0, .freeze] = some c ∧
    c.runGuarded? [.look, .advance 0, .look] = some c' ∧
    c.slot.bitmap.values = [1, 2] ∧ c.slot.content.isView = true ∧
    c'.slot.bitmap.values = [] ∧ c'.slot.content.isView = false := by
  have hends : (pairInPlace.bind fun content =>
      ((opened content).run? [.start .clear, .advance 0, .freeze]).bind fun c =>
        (c.runGuarded? [.look, .advance 0, .look]).map fun c' =>
          decide (c.slot.bitmap.values = [1, 2] ∧ c.slot.content.isView = true ∧ c'.slot.bitmap.values = [] ∧
            c'.slot.content.isView = false)) = some true := by decide +kernel
  obtain ⟨content, hcontent, hends⟩ := Option.bind_eq_some_iff.1 hends
  obtain ⟨c, hrun, hends⟩ := Option.bind_eq_some_iff.1 hends
  obtain ⟨c', hrun', hends⟩ := Option.map_eq_some_iff.1 hends
  exact ⟨content, c, c', hcontent, hrun, hrun', of_decide_eq_true hends⟩

end Contest
end BitmapWorks
