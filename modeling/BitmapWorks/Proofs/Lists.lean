import Mathlib.Algebra.BigOperators.Group.List.Basic
import Mathlib.Algebra.GroupWithZero.Nat
/-!
# Lists — entries, counts and sums of a list of which one entry is replaced

The state of many parties is a list with one entry for each.  A move of one of them replaces its entry, and a party that
comes gets the last one.
-/
namespace BitmapWorks

variable {α : Type} {l : List α} {i : Nat} {x : α}

theorem getElem?_set_of_eq_some (h : l[i]? = some x) (y : α) (j : Nat) :
    (l.set i y)[j]? = if i = j then some y else l[j]? := by
  rw [List.getElem?_set]
  split
  · rw [if_pos (List.getElem?_eq_some_iff.1 h).1]
  · rfl

theorem eq_some_of_getElem?_concat {y : α} (h : (l ++ [x])[i]? = some y) :
    l[i]? = some y ∨ i = l.length ∧ y = x := by
  rcases Nat.lt_or_ge i l.length with hi | hi
  · exact .inl ((List.getElem?_append_left hi).symm.trans h)
  · rw [List.getElem?_append_right hi, List.getElem?_singleton] at h
    split at h
    · exact .inr ⟨by omega, (Option.some.inj h).symm⟩
    · cases h

theorem exists_sum_set {M : Type} [AddCommMonoid M] (h : l[i]? = some x) (f : α → M) :
    ∃ rest, (l.map f).sum = f x + rest ∧ ∀ y, ((l.set i y).map f).sum = f y + rest := by
  induction l generalizing i with
  | nil => cases h
  | cons a l ih =>
    cases i with
    | zero =>
      obtain rfl := Option.some.inj h
      exact ⟨(l.map f).sum, rfl, fun y => rfl⟩
    | succ i =>
      obtain ⟨rest, hbefore, hafter⟩ := ih (i := i) h
      refine ⟨f a + rest, ?_, fun y => ?_⟩
      · rw [List.map_cons, List.sum_cons, hbefore, add_left_comm]
      · rw [List.set_cons_succ, List.map_cons, List.sum_cons, hafter, add_left_comm]

theorem sum_set_add (h : l[i]? = some x) (f : α → Nat) (y : α) :
    ((l.set i y).map f).sum + f x = (l.map f).sum + f y := by
  obtain ⟨rest, hbefore, hafter⟩ := exists_sum_set h f
  rw [hbefore, hafter]
  omega

theorem countP_set_add {p : α → Bool} (h : l[i]? = some x) (y : α) :
    (l.set i y).countP p + (p x).toNat = l.countP p + (p y).toNat := by
  obtain ⟨hi, rfl⟩ := List.getElem?_eq_some_iff.1 h
  have hpos : p l[i] = true → 0 < l.countP p := fun hp => List.countP_pos_iff.2 ⟨_, List.getElem_mem hi, hp⟩
  rw [List.countP_set hi]
  cases hp : p l[i] <;> cases hp' : p y <;> simp_all

theorem length_filter_range (l : List α) (p : α → Bool) :
    ((List.range l.length).filter fun j => (l[j]?).any p).length = l.countP p := by
  have hmap : (List.range l.length).map (fun j => l[j]?) = l.map some :=
    List.ext_getElem (by simp) fun j h h' => by simp
  rw [← List.countP_eq_length_filter]
  have hcount := congrArg (List.countP (Option.any p)) hmap
  rw [List.countP_map, List.countP_map] at hcount
  exact hcount

/-- A value that one entry of a list has belongs to that entry alone. -/
theorem exists_filter_eq_singleton {β : Type} [DecidableEq β] {f : α → β} {b : β} (h : (l.map f).count b = 1) :
    ∃ a, f a = b ∧ l.filter (fun x => decide (f x = b)) = [a] := by
  rw [List.count_eq_countP, List.countP_map, List.countP_eq_length_filter] at h
  have hsame : (fun x => decide (f x = b)) = (fun y => y == b) ∘ f := by
    funext x
    simp [beq_eq_decide]
  obtain ⟨a, ha⟩ := List.length_eq_one_iff.1 h
  have hmem : a ∈ l.filter ((fun y => y == b) ∘ f) := ha ▸ List.mem_singleton_self a
  exact ⟨a, by simpa using (List.mem_filter.1 hmem).2, hsame ▸ ha⟩

end BitmapWorks
