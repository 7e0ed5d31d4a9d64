import BitmapWorks.Shelf
/-!
# Slots — what changes on a shelf, and what stays

Bitmaps go by their number, and a new bitmap gets the next number.  A step on the shelf touches the bitmaps of a few
numbers and no others (`Frame`); a slot that nobody holds any more is cleared, and its number finds nothing from then on.
-/
namespace BitmapWorks

namespace Shelf

def numbers (s : Shelf) : Nat := s.slots.length

theorem lt_numbers {s : Shelf} {n : Nat} {slot : Slot} (h : s.get? n = some slot) : n < s.numbers := by
  obtain ⟨held, hheld, -⟩ := Option.bind_eq_some_iff.1 h
  exact (List.getElem?_eq_some_iff.1 hheld).1

/-- Whether a shelf has changed at these numbers at most, apart from new bitmaps. -/
structure Frame (names : List Nat) (s s' : Shelf) : Prop where
  grows : s.numbers ≤ s'.numbers
  same : ∀ n < s.numbers, n ∉ names → s'.get? n = s.get? n

theorem Frame.refl (names : List Nat) (s : Shelf) : Frame names s s := ⟨Nat.le_refl _, fun _ _ _ => rfl⟩

theorem Frame.trans {names : List Nat} {s s₁ s₂ : Shelf} (h : Frame names s s₁) (h' : Frame names s₁ s₂) :
    Frame names s s₂ :=
  ⟨Nat.le_trans h.grows h'.grows, fun n hn hnot =>
    (h'.same n (Nat.lt_of_lt_of_le hn h.grows) hnot).trans (h.same n hn hnot)⟩

theorem Frame.mono {names names' : List Nat} {s s' : Shelf} (h : Frame names s s') (hsub : names ⊆ names') :
    Frame names' s s' :=
  ⟨h.grows, fun n hn hnot => h.same n hn fun hmem => hnot (hsub hmem)⟩

theorem frame_modify (s : Shelf) (i : Nat) (f : Slot → Slot) : Frame [i] s (s.modify i f) := by
  refine ⟨Nat.le_of_eq (List.length_modify ..).symm, fun n _ hnot => ?_⟩
  have hne : i ≠ n := fun h => hnot (List.mem_singleton.2 h.symm)
  show ((s.slots.modify i (Option.map f))[n]?).join = _
  rw [List.getElem?_modify_ne _ _ hne]
  rfl

theorem frame_settle (s : Shelf) (i : Nat) : Frame [i] s (s.settle i).2 := by
  unfold settle
  cases s.get? i with
  | none => exact .refl _ _
  | some t =>
    dsimp only
    by_cases hheld : t.isHeld = true
    · rw [if_pos hheld]
      exact .refl _ _
    rw [if_neg hheld]
    refine ⟨Nat.le_of_eq (List.length_set ..).symm, fun n _ hnot => ?_⟩
    have hne : i ≠ n := fun h => hnot (List.mem_singleton.2 h.symm)
    show ((s.slots.set i none)[n]?).join = _
    rw [List.getElem?_set_ne hne]
    rfl

theorem frame_drop (s : Shelf) (i : Nat) : Frame [i] s (s.drop i).2 :=
  (frame_modify s i _).trans (frame_settle _ i)

theorem frame_unfreeze (s : Shelf) (i : Nat) : Frame [i] s (s.unfreeze i).2 :=
  (frame_modify s i _).trans (frame_settle _ i)

/-- **What is put on the shelf gets the next number and disturbs nothing.** -/
theorem put_spec (s : Shelf) (c : Content) (charge : Option Nat) :
    (s.put c charge).1 = s.numbers ∧ (s.put c charge).2.numbers = s.numbers + 1 ∧ Frame [] s (s.put c charge).2 ∧
      (s.put c charge).2.get? s.numbers = some (.ofContent c charge) := by
  have hlength : (s.put c charge).2.numbers = s.numbers + 1 := List.length_append
  refine ⟨rfl, hlength, ⟨by omega, fun n hn _ => ?_⟩, ?_⟩
  · show ((s.slots ++ _)[n]?).join = _
    rw [List.getElem?_append_left hn]
    rfl
  · show ((s.slots ++ _)[s.slots.length]?).join = _
    rw [List.getElem?_concat_length]
    rfl

/-! ## What a number finds -/

theorem get?_of_le (s : Shelf) {n : Nat} (h : s.numbers ≤ n) : s.get? n = none := by
  unfold get?
  rw [List.getElem?_eq_none h]
  rfl

theorem get?_modify (s : Shelf) (i : Nat) (f : Slot → Slot) (n : Nat) :
    (s.modify i f).get? n = if i = n then (s.get? n).map f else s.get? n := by
  unfold modify get?
  dsimp only
  rw [List.getElem?_modify]
  split <;> rcases s.slots[n]? with _ | _ | t <;> rfl

theorem get?_clear (s : Shelf) (i n : Nat) :
    (Shelf.mk (s.slots.set i none)).get? n = if i = n then none else s.get? n := by
  unfold get?
  dsimp only
  rw [List.getElem?_set]
  split
  · split <;> rfl
  · rfl

theorem get?_put (s : Shelf) (c : Content) (charge : Option Nat) (n : Nat) :
    (s.put c charge).2.get? n = if n = s.numbers then some (.ofContent c charge) else s.get? n := by
  obtain ⟨-, -, hframe, hnew⟩ := s.put_spec c charge
  rcases Nat.lt_trichotomy n s.numbers with hlt | rfl | hgt
  · rw [if_neg (Nat.ne_of_lt hlt)]
    exact hframe.same n hlt List.not_mem_nil
  · rw [if_pos rfl]
    exact hnew
  · rw [if_neg (Nat.ne_of_gt hgt), get?_of_le s (Nat.le_of_lt hgt), get?_of_le]
    exact Nat.le_trans (Nat.le_of_eq List.length_append) hgt

/-- **Settling clears a bitmap that nobody holds**, and leaves every other one alone. -/
theorem settle_cases (s : Shelf) (i : Nat) :
    s.settle i = (0, s) ∧ (∀ t, s.get? i = some t → t.isHeld = true) ∨
    ∃ t, s.get? i = some t ∧ t.handles = 0 ∧ t.guards = 0 ∧ s.settle i = (t.charge.getD 0, ⟨s.slots.set i none⟩) := by
  unfold settle
  cases hget : s.get? i with
  | none => exact .inl ⟨rfl, nofun⟩
  | some t =>
    dsimp only
    by_cases hheld : t.isHeld = true
    · rw [if_pos hheld]
      refine .inl ⟨rfl, fun t' ht' => ?_⟩
      obtain rfl := Option.some.inj ht'
      exact hheld
    · have hnone : t.handles + t.guards = 0 := by
        simpa [Slot.isHeld] using hheld
      rw [if_neg hheld]
      exact .inr ⟨t, rfl, by omega, by omega, rfl⟩

/-! ## Counts -/

def handles (s : Shelf) (n : Nat) : Nat := (s.get? n).elim 0 Slot.handles

def guards (s : Shelf) (n : Nat) : Nat := (s.get? n).elim 0 Slot.guards

theorem handles_modify (s : Shelf) (i : Nat) (f : Slot → Slot) (n : Nat) :
    (s.modify i f).handles n = if i = n then (s.get? n).elim 0 fun t => (f t).handles else s.handles n := by
  unfold handles
  rw [get?_modify]
  split <;> cases s.get? n <;> rfl

theorem guards_modify (s : Shelf) (i : Nat) (f : Slot → Slot) (n : Nat) :
    (s.modify i f).guards n = if i = n then (s.get? n).elim 0 fun t => (f t).guards else s.guards n := by
  unfold guards
  rw [get?_modify]
  split <;> cases s.get? n <;> rfl

/-! ## Changes -/

theorem modify_congr {s : Shelf} {i : Nat} {f g : Slot → Slot} (h : ∀ t, s.get? i = some t → f t = g t) :
    s.modify i f = s.modify i g := by
  refine congrArg Shelf.mk (List.ext_getElem? fun n => ?_)
  rw [List.getElem?_modify, List.getElem?_modify]
  split
  · next hn =>
    subst hn
    rcases hslot : s.slots[i]? with _ | _ | t
    · rfl
    · rfl
    · have ht : s.get? i = some t := Option.join_eq_some_iff.2 hslot
      exact congrArg (fun t => some (some t)) (h t ht)
  · rfl

theorem modify_id (s : Shelf) (i : Nat) : s.modify i id = s := by simp [modify]

theorem change_eq (s : Shelf) (n : Nat) (c : Change) : (s.change n c).2 = s.modify n fun t => (t.change c).2 := by
  unfold change
  cases ht : s.get? n with
  | none => exact (modify_id s n).symm.trans (modify_congr fun t ht' => by simp [ht] at ht')
  | some t =>
    refine modify_congr fun t' ht' => ?_
    rw [ht] at ht'
    rw [Option.some.inj ht']

theorem keeps_change (t : Slot) (c : Change) : (t.change c).2.handles = t.handles ∧ (t.change c).2.guards = t.guards ∧
    (t.change c).2.charge = t.charge := by
  unfold Slot.change
  split <;> exact ⟨rfl, rfl, rfl⟩

/-- **A change that is refused leaves the shelf as it was.** -/
theorem change_of_frozen {s : Shelf} {i : Nat} {t : Slot} (ht : s.get? i = some t) (hfrozen : t.isFrozen = true)
    (c : Change) : s.change i c = (.error .frozen, s) := by
  have hsame : (s.modify i fun _ => t) = s :=
    (modify_congr fun t' ht' => Option.some.inj (ht.symm.trans ht')).trans (modify_id s i)
  simp only [change, ht, Slot.change_of_frozen hfrozen, hsame]

theorem change_of_not_frozen {s : Shelf} {i : Nat} {t : Slot} (ht : s.get? i = some t) (hfree : t.isFrozen = false)
    (c : Change) : s.change i c = (.ok (c.isNew t.bitmap), s.modify i fun _ => t.apply c) := by
  simp only [change, ht, Slot.change_of_not_frozen hfree]

theorem guarded {s : Shelf} {n : Nat} (hguards : 0 < s.guards n) : ∃ t, s.get? n = some t ∧ 0 < t.guards := by
  unfold guards at hguards
  cases hget : s.get? n with
  | none =>
    rw [hget] at hguards
    cases hguards
  | some t =>
    rw [hget] at hguards
    exact ⟨t, rfl, hguards⟩

/-- **While a bitmap has a guard, every change is refused and changes nothing.** -/
theorem change_of_guarded {s : Shelf} {n : Nat} (hguards : 0 < s.guards n) (c : Change) :
    s.change n c = (.error .frozen, s) := by
  obtain ⟨t, ht, hguards⟩ := guarded hguards
  exact change_of_frozen ht (decide_eq_true hguards) c

end Shelf
end BitmapWorks
