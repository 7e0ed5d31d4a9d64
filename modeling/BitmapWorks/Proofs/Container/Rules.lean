import BitmapWorks.Bitmap
import Mathlib.Algebra.GroupWithZero.Nat
/-!
# Rules — what the rules of the kinds bound

A container that keeps the rules of its kind holds at least one and at most `2 ^ 16` numbers, says truly how many
(`length_lows`), and lists them in ascending order.  A bitmap that keeps the rules has at most `2 ^ 16` containers.
-/
namespace BitmapWorks

/-! ## Ascending words -/

namespace Container

theorem ascending_iff_pairwise : ∀ xs : List UInt16, ascending xs = true ↔ xs.Pairwise (· < ·)
  | [] => by simp [ascending]
  | [x] => by simp [ascending]
  | x :: y :: rest => by
    rw [ascending, Bool.and_eq_true, decide_eq_true_eq, ascending_iff_pairwise (y :: rest), List.pairwise_cons (a := x)]
    constructor
    · rintro ⟨hxy, h⟩
      refine ⟨fun z hz => ?_, h⟩
      rcases List.mem_cons.1 hz with rfl | hz
      · exact hxy
      · exact UInt16.lt_trans hxy (List.rel_of_pairwise_cons h hz)
    · rintro ⟨hx, h⟩
      exact ⟨hx y List.mem_cons_self, h⟩

theorem toNat_add_length_le : ∀ (x : UInt16) (xs : List UInt16), ascending (x :: xs) = true →
    x.toNat + xs.length < 65536
  | x, [], _ => by simpa using x.toNat_lt
  | x, y :: rest, h => by
    rw [ascending, Bool.and_eq_true, decide_eq_true_eq] at h
    have hxy : x.toNat < y.toNat := h.1
    have ih := toNat_add_length_le y rest h.2
    rw [List.length_cons]
    omega

/-- **There are no more than `2 ^ 16` ascending words.** -/
theorem length_le_of_ascending {xs : List UInt16} (h : ascending xs = true) : xs.length ≤ 65536 := by
  cases xs with
  | nil => simp
  | cons x xs =>
    have := toNat_add_length_le x xs h
    rw [List.length_cons]
    omega

end Container

/-! ## Spaced runs -/

namespace Run

theorem spaced_cons {least : Nat} {r : Run} {rs : List Run} :
    spaced least (r :: rs) = true ↔ least ≤ r.start.toNat ∧ r.last < 65536 ∧ spaced (r.last + 2) rs = true := by
  rw [spaced, Bool.and_eq_true, Bool.and_eq_true, decide_eq_true_eq, decide_eq_true_eq, and_assoc]

theorem start_add_size (r : Run) : r.start.toNat + r.size = r.last + 1 := rfl

theorem start_le_last (r : Run) : r.start.toNat ≤ r.last := Nat.le_add_right _ _

/-- Spaced runs hold no more numbers than there are from the least start on. -/
theorem sum_size_le : ∀ (least : Nat) (rs : List Run), spaced least rs = true → least ≤ 65536 →
    least + (rs.map size).sum ≤ 65536
  | least, [], _, hl => by simpa using hl
  | least, r :: rs, h, _ => by
    obtain ⟨h1, h2, h3⟩ := spaced_cons.1 h
    have hs := start_add_size r
    rw [List.map_cons, List.sum_cons]
    cases rs with
    | nil =>
      rw [List.map_nil, List.sum_nil]
      omega
    | cons s rs =>
      have hl := (spaced_cons.1 h3).1
      have hs := (spaced_cons.1 h3).2.1
      have := start_le_last s
      have ih := sum_size_le (r.last + 2) (s :: rs) h3 (by omega)
      omega

theorem two_mul_length_le : ∀ (least : Nat) (rs : List Run), spaced least rs = true → rs ≠ [] →
    least + 2 * rs.length ≤ 65537
  | _, [], _, hne => absurd rfl hne
  | least, [r], h, _ => by
    obtain ⟨h1, h2, -⟩ := spaced_cons.1 h
    have := start_le_last r
    simp only [List.length_cons, List.length_nil]
    omega
  | least, r :: s :: rs, h, _ => by
    obtain ⟨h1, -, h3⟩ := spaced_cons.1 h
    have := start_le_last r
    have ih := two_mul_length_le (r.last + 2) (s :: rs) h3 (by simp)
    rw [List.length_cons]
    omega

@[simp] theorem length_lows (r : Run) : r.lows.length = r.size := by simp [lows]

theorem mem_lows {r : Run} {n : Nat} : n ∈ r.lows ↔ r.start.toNat ≤ n ∧ n ≤ r.last := by
  have := start_add_size r
  rw [lows, List.mem_range'_1]
  omega

theorem mem_flatMap_lows {rs : List Run} {n : Nat} : n ∈ rs.flatMap lows ↔ ∃ r ∈ rs, r.start.toNat ≤ n ∧ n ≤ r.last := by
  simp only [List.mem_flatMap, mem_lows]

theorem bounds_of_spaced : ∀ {least : Nat} {rs : List Run}, spaced least rs = true → ∀ n ∈ rs.flatMap lows,
    least ≤ n ∧ n < 65536
  | _, [], _, _, h => by cases h
  | least, r :: rs, hs, n, h => by
    obtain ⟨h1, h2, h3⟩ := spaced_cons.1 hs
    have := start_le_last r
    rw [List.flatMap_cons, List.mem_append, mem_lows] at h
    rcases h with h | h
    · omega
    · have := bounds_of_spaced h3 n h
      omega

theorem pairwise_of_spaced : ∀ {least : Nat} {rs : List Run}, spaced least rs = true →
    (rs.flatMap lows).Pairwise (· < ·)
  | _, [], _ => List.Pairwise.nil
  | least, r :: rs, hs => by
    obtain ⟨-, -, h3⟩ := spaced_cons.1 hs
    rw [List.flatMap_cons, List.pairwise_append]
    refine ⟨List.pairwise_lt_range', pairwise_of_spaced h3, fun m hm n hn => ?_⟩
    have := (mem_lows.1 hm).2
    have := (bounds_of_spaced h3 n hn).1
    omega

end Run

/-! ## Containers -/

namespace Container

theorem valid_array {xs : Array UInt16} :
    (array xs).valid = true ↔ 0 < xs.size ∧ xs.size ≤ arrayLimit ∧ ascending xs.toList = true := by
  simp [valid, and_assoc]

-- The width is a variable here so that nothing computes the power.
theorem lt_one_shiftLeft (bits width : Nat) : bits < 1 <<< width ↔ bits < 2 ^ width := by rw [Nat.one_shiftLeft]

theorem valid_bitset {count bits : Nat} :
    (bitset count bits).valid = true ↔ arrayLimit < count ∧ bits < 2 ^ 65536 ∧ (lowsOfBits bits).length = count := by
  rewrite [valid, Bool.and_eq_true, Bool.and_eq_true, decide_eq_true_eq, decide_eq_true_eq, decide_eq_true_eq, and_assoc]
  exact and_congr_right' (and_congr_left' (lt_one_shiftLeft bits 65536))

theorem valid_runs {rs : List Run} : (runs rs).valid = true ↔ rs ≠ [] ∧ Run.spaced 0 rs = true := by
  simp [valid]

theorem length_lowsOfBits_le (bits : Nat) : (lowsOfBits bits).length ≤ 65536 :=
  Nat.le_trans (List.length_filter_le _ _) (Nat.le_of_eq List.length_range)

theorem card_runs (rs : List Run) : (runs rs).card = (rs.map Run.size).sum := rfl

theorem length_lows {c : Container} (h : c.valid = true) : c.lows.length = c.card := by
  cases c with
  | array xs => simp [lows, card]
  | bitset count bits => exact (valid_bitset.1 h).2.2
  | runs rs =>
    rw [lows, card_runs, List.length_flatMap]
    simp

theorem lows_array (xs : Array UInt16) : (array xs).lows = xs.toList.map UInt16.toNat := rfl

theorem lows_bitset (count bits : Nat) : (bitset count bits).lows = lowsOfBits bits := by rw [lows]

theorem lows_runs (rs : List Run) : (runs rs).lows = rs.flatMap Run.lows := rfl

theorem mem_lowsOfBits {bits n : Nat} : n ∈ lowsOfBits bits ↔ n < 65536 ∧ bits.testBit n = true := by
  rw [lowsOfBits, List.mem_filter, List.mem_range]

theorem pairwise_lowsOfBits (bits : Nat) : (lowsOfBits bits).Pairwise (· < ·) := List.pairwise_lt_range.filter _

theorem pairwise_lows {c : Container} (h : c.valid = true) : c.lows.Pairwise (· < ·) := by
  cases c with
  | array xs => exact List.pairwise_map.2 ((ascending_iff_pairwise _).1 (valid_array.1 h).2.2)
  | bitset count bits => exact pairwise_lowsOfBits bits
  | runs rs => exact Run.pairwise_of_spaced (valid_runs.1 h).2

theorem lt_of_mem_lows {c : Container} (h : c.valid = true) {n : Nat} (hn : n ∈ c.lows) : n < 65536 := by
  cases c with
  | array xs =>
    obtain ⟨x, -, rfl⟩ := List.mem_map.1 hn
    exact x.toNat_lt
  | bitset count bits =>
    rw [lows_bitset, mem_lowsOfBits] at hn
    exact hn.1
  | runs rs => exact (Run.bounds_of_spaced (valid_runs.1 h).2 n hn).2

theorem contains_iff {c : Container} {v : UInt16} : c.contains v = true ↔ v.toNat ∈ c.lows := by
  cases c with
  | array xs =>
    rw [contains, lows_array, List.mem_map, Array.contains_iff_mem, ← Array.mem_toList_iff]
    exact ⟨fun h => ⟨v, h, rfl⟩, fun ⟨x, hx, hv⟩ => UInt16.toNat_inj.1 hv ▸ hx⟩
  | bitset count bits =>
    have hlt : v.toNat < 65536 := v.toNat_lt
    rw [contains, lows_bitset, mem_lowsOfBits, and_iff_right hlt]
  | runs rs =>
    rw [contains, lows_runs, Run.mem_flatMap_lows, List.any_eq_true]
    simp only [Run.covers, Bool.and_eq_true, decide_eq_true_eq, UInt16.le_iff_toNat_le]

theorem card_pos {c : Container} (h : c.valid = true) : 0 < c.card := by
  cases c with
  | array xs => exact (valid_array.1 h).1
  | bitset count bits => exact Nat.lt_of_le_of_lt (Nat.zero_le _) (valid_bitset.1 h).1
  | runs rs =>
    obtain ⟨hne, -⟩ := valid_runs.1 h
    cases rs with
    | nil => exact absurd rfl hne
    | cons r rs =>
      simp only [card_runs, List.map_cons, List.sum_cons, Run.size]
      omega

theorem card_le {c : Container} (h : c.valid = true) : c.card ≤ 65536 := by
  cases c with
  | array xs => exact Nat.le_trans (valid_array.1 h).2.1 (by decide)
  | bitset count bits =>
    obtain ⟨-, -, hc⟩ := valid_bitset.1 h
    exact hc ▸ length_lowsOfBits_le bits
  | runs rs => simpa [card_runs] using Run.sum_size_le 0 rs (valid_runs.1 h).2 (by omega)

theorem length_runs_lt {rs : List Run} (h : (runs rs).valid = true) : rs.length < 65536 := by
  obtain ⟨hne, hs⟩ := valid_runs.1 h
  have := Run.two_mul_length_le 0 rs hs hne
  omega

theorem bodySize_le {c : Container} (h : c.valid = true) : c.bodySize ≤ 131074 := by
  cases c with
  | array xs =>
    have := (valid_array.1 h).2.1
    simp only [bodySize, arrayLimit] at *
    omega
  | bitset count bits => exact (by decide : bitsetBytes ≤ 131074)
  | runs rs =>
    obtain ⟨hne, hs⟩ := valid_runs.1 h
    have := Run.two_mul_length_le 0 rs hs hne
    simp only [bodySize]
    omega

end Container

/-! ## Bitmaps -/

namespace Bitmap

theorem valid_iff {b : Bitmap} : b.valid = true ↔
    Container.ascending (b.containers.map Prod.fst) = true ∧ ∀ kc ∈ b.containers, kc.2.valid = true := by
  simp [valid, keysAscending]

theorem length_containers_le {b : Bitmap} (h : b.valid = true) : b.containers.length ≤ 65536 := by
  simpa using Container.length_le_of_ascending (valid_iff.1 h).1

end Bitmap
end BitmapWorks
