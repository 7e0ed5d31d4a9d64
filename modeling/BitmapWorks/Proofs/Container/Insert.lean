import BitmapWorks.Proofs.Container.Rules
/-!
# Insert — adding a number to a container

Adding a number keeps the rules of whatever kind the container has or gets (`valid_insert`), and the container holds
that number and what it held before (`mem_lows_insert`).
-/
namespace BitmapWorks

/-! ## Arrays -/

namespace Container

theorem mem_insertSorted {v x : UInt16} : ∀ {xs : List UInt16}, x ∈ insertSorted v xs ↔ x = v ∨ x ∈ xs
  | [] => by simp [insertSorted]
  | y :: ys => by
    rw [insertSorted]
    split
    · rw [List.mem_cons]
    · rw [List.mem_cons, mem_insertSorted, List.mem_cons, or_left_comm]

theorem pairwise_insertSorted {v : UInt16} : ∀ {xs : List UInt16}, xs.Pairwise (· < ·) → v ∉ xs →
    (insertSorted v xs).Pairwise (· < ·)
  | [], _, _ => List.pairwise_singleton _ _
  | y :: ys, h, hv => by
    rw [List.pairwise_cons] at h
    rw [List.mem_cons, not_or] at hv
    rw [insertSorted]
    split
    · rename_i hlt
      refine List.pairwise_cons.2 ⟨fun x hx => ?_, List.pairwise_cons.2 h⟩
      rcases List.mem_cons.1 hx with rfl | hx
      · exact hlt
      · exact UInt16.lt_trans hlt (h.1 x hx)
    · rename_i hnlt
      refine List.pairwise_cons.2 ⟨fun x hx => ?_, pairwise_insertSorted h.2 hv.2⟩
      rcases mem_insertSorted.1 hx with rfl | hx
      · exact UInt16.lt_of_le_of_ne (UInt16.not_lt.1 hnlt) (Ne.symm hv.1)
      · exact h.1 x hx

theorem lt_of_isAbove {v : UInt16} {xs : Array UInt16} (hs : xs.toList.Pairwise (· < ·)) (h : isAbove v xs = true) :
    ∀ x ∈ xs.toList, x < v := by
  intro x hx
  rw [isAbove, ← Array.getLast?_toList] at h
  cases hlast : xs.toList.getLast? with
  | none =>
    rw [List.getLast?_eq_none_iff.1 hlast] at hx
    cases hx
  | some y =>
    rw [hlast, Option.all_some, decide_eq_true_eq] at h
    obtain ⟨ys, hys⟩ := List.getLast?_eq_some_iff.1 hlast
    rw [hys, List.pairwise_append] at hs
    rw [hys, List.mem_append, List.mem_singleton] at hx
    rcases hx with hx | rfl
    · exact UInt16.lt_trans (hs.2.2 x hx y List.mem_cons_self) h
    · exact h

theorem mem_place {v x : UInt16} {xs : Array UInt16} : x ∈ (place v xs).toList ↔ x = v ∨ x ∈ xs.toList := by
  rw [place]
  split
  · rw [Array.toList_push, List.mem_append, List.mem_singleton, or_comm]
  · rw [List.toList_toArray, mem_insertSorted]

theorem pairwise_place {v : UInt16} {xs : Array UInt16} (hs : xs.toList.Pairwise (· < ·)) (hv : v ∉ xs.toList) :
    (place v xs).toList.Pairwise (· < ·) := by
  rw [place]
  split
  · rename_i habove
    rw [Array.toList_push, List.pairwise_append]
    refine ⟨hs, List.pairwise_singleton _ _, fun x hx y hy => ?_⟩
    rw [List.mem_singleton] at hy
    exact hy ▸ lt_of_isAbove hs habove x hx
  · rw [List.toList_toArray]
    exact pairwise_insertSorted hs hv

theorem length_insertSorted (v : UInt16) : ∀ xs : List UInt16, (insertSorted v xs).length = xs.length + 1
  | [] => rfl
  | x :: xs => by
    rw [insertSorted]
    split
    · rfl
    · rw [List.length_cons, length_insertSorted v xs, List.length_cons]

theorem size_place (v : UInt16) (xs : Array UInt16) : (place v xs).size = xs.size + 1 := by
  rw [place]
  split
  · exact Array.size_push _
  · rw [List.size_toArray, length_insertSorted, Array.length_toList]

/-! ## Bit tables -/

theorem testBit_insert {bits v n : Nat} : (bits ||| 1 <<< v).testBit n = true ↔ n = v ∨ bits.testBit n = true := by
  rw [Nat.testBit_or, Nat.one_shiftLeft, Nat.testBit_two_pow, Bool.or_eq_true, decide_eq_true_eq, or_comm, eq_comm]

theorem testBit_foldl {lows : List Nat} {n : Nat} : ∀ {bits : Nat},
    (lows.foldl (fun bits low => bits ||| 1 <<< low) bits).testBit n = true ↔ n ∈ lows ∨ bits.testBit n = true := by
  induction lows with
  | nil => simp
  | cons low lows ih =>
    intro bits
    rw [List.foldl_cons, ih, testBit_insert, List.mem_cons, or_left_comm, or_assoc]

/-- **The table of some numbers has just their bits set.** -/
theorem testBit_bitsOfLows {lows : List Nat} {n : Nat} : (bitsOfLows lows).testBit n = true ↔ n ∈ lows := by
  rw [bitsOfLows, testBit_foldl, Nat.zero_testBit]
  simp

theorem insert_lt {bits v w : Nat} (hbits : bits < 2 ^ w) (hv : v < w) : bits ||| 1 <<< v < 2 ^ w := by
  rw [Nat.one_shiftLeft]
  exact Nat.or_lt_two_pow hbits (Nat.pow_lt_pow_right (by decide) hv)

theorem foldl_lt {lows : List Nat} {w : Nat} (h : ∀ n ∈ lows, n < w) : ∀ {bits : Nat}, bits < 2 ^ w →
    lows.foldl (fun bits low => bits ||| 1 <<< low) bits < 2 ^ w := by
  induction lows with
  | nil => exact fun hbits => hbits
  | cons low lows ih =>
    intro bits hbits
    exact ih (fun n hn => h n (List.mem_cons_of_mem _ hn)) (insert_lt hbits (h low List.mem_cons_self))

theorem bitsOfLows_lt {lows : List Nat} {w : Nat} (h : ∀ n ∈ lows, n < w) : bitsOfLows lows < 2 ^ w :=
  foldl_lt h (Nat.two_pow_pos w)

theorem eq_of_pairwise_lt {α : Type} [LT α] (hirr : ∀ a : α, ¬ a < a) (htrans : ∀ a b c : α, a < b → b < c → a < c)
    {xs ys : List α} (hx : xs.Pairwise (· < ·)) (hy : ys.Pairwise (· < ·)) (h : ∀ n, n ∈ xs ↔ n ∈ ys) : xs = ys := by
  have hne : ∀ {a b : α}, a < b → a ≠ b := by
    rintro a _ hab rfl
    exact hirr a hab
  refine List.Perm.eq_of_pairwise (fun a b _ _ hab hba => ?_) hx hy
    ((List.perm_ext_iff_of_nodup (hx.imp hne) (hy.imp hne)).2 h)
  exact absurd (htrans a b a hab hba) (hirr a)

/-- **One more bit is one more number.** -/
theorem length_lowsOfBits_insert {bits v : Nat} (hv : v < 65536) (hnew : bits.testBit v = false) :
    (lowsOfBits (bits ||| 1 <<< v)).length = (lowsOfBits bits).length + 1 := by
  have hnd : ∀ m, (lowsOfBits m).Nodup := fun m => (pairwise_lowsOfBits m).imp Nat.ne_of_lt
  have hnot : v ∉ lowsOfBits bits := fun h => by
    rw [mem_lowsOfBits, hnew] at h
    cases h.2
  have hperm : (lowsOfBits (bits ||| 1 <<< v)).Perm (v :: lowsOfBits bits) := by
    refine (List.perm_ext_iff_of_nodup (hnd _) (List.nodup_cons.2 ⟨hnot, hnd bits⟩)).2 fun n => ?_
    rw [mem_lowsOfBits, testBit_insert, List.mem_cons, mem_lowsOfBits]
    constructor
    · rintro ⟨hn, rfl | h⟩
      · exact .inl rfl
      · exact .inr ⟨hn, h⟩
    · rintro (rfl | ⟨hn, h⟩)
      · exact ⟨hv, .inl rfl⟩
      · exact ⟨hn, .inr h⟩
  exact hperm.length_eq

theorem lowsOfBits_bitsOfLows {lows : List Nat} (hs : lows.Pairwise (· < ·)) (h : ∀ n ∈ lows, n < 65536) :
    lowsOfBits (bitsOfLows lows) = lows := by
  refine eq_of_pairwise_lt Nat.lt_irrefl (fun _ _ _ => Nat.lt_trans) (pairwise_lowsOfBits _) hs fun n => ?_
  rw [mem_lowsOfBits, testBit_bitsOfLows]
  exact ⟨fun hn => hn.2, fun hn => ⟨h n hn, hn⟩⟩

end Container

/-! ## Runs -/

namespace Run

@[simp] theorem last_single (v : UInt16) : last ⟨v, 0⟩ = v.toNat := rfl

theorem last_extend {start extra : UInt16} (h : start.toNat + extra.toNat + 1 < 65536) :
    last ⟨start, extra + 1⟩ = start.toNat + extra.toNat + 1 := by
  show start.toNat + (extra + 1).toNat = _
  rw [UInt16.toNat_add, UInt16.toNat_one, Nat.mod_eq_of_lt (by omega), Nat.add_assoc]

theorem last_bridge {r s : Run} (hadj : s.start.toNat = r.last + 1) (hs : s.last < 65536) :
    last ⟨r.start, r.extra + s.extra + 1⟩ = s.last := by
  rw [last] at hadj hs
  show r.start.toNat + (r.extra + s.extra + 1).toNat = s.start.toNat + s.extra.toNat
  rw [UInt16.toNat_add, UInt16.toNat_add, UInt16.toNat_one, Nat.mod_add_mod, Nat.mod_eq_of_lt (by omega)]
  omega

theorem mem_lows_cons {r : Run} {rs : List Run} {n : Nat} :
    n ∈ (r :: rs).flatMap lows ↔ (r.start.toNat ≤ n ∧ n ≤ r.last) ∨ n ∈ rs.flatMap lows := by
  rw [List.flatMap_cons, List.mem_append, mem_lows]

/-- Joining keeps runs spaced if the next one starts behind the first. -/
theorem spaced_join {least : Nat} {r : Run} {rs : List Run} (h : least ≤ r.start.toNat) (hr : r.last < 65536)
    (hs : spaced (r.last + 1) rs = true) : spaced least (join r rs) = true := by
  cases rs with
  | nil => exact spaced_cons.2 ⟨h, hr, rfl⟩
  | cons s rs =>
    obtain ⟨h1, h2, h3⟩ := spaced_cons.1 hs
    rw [join]
    split
    · rename_i hadj
      have hlast := last_bridge hadj h2
      exact spaced_cons.2 ⟨h, by rwa [hlast], by rwa [hlast]⟩
    · rename_i hgap
      exact spaced_cons.2 ⟨h, hr, spaced_cons.2 ⟨by omega, h2, h3⟩⟩

theorem mem_join {r : Run} {rs : List Run} (hs : spaced (r.last + 1) rs = true) {n : Nat} :
    n ∈ (join r rs).flatMap lows ↔ n ∈ (r :: rs).flatMap lows := by
  cases rs with
  | nil => rfl
  | cons s rs =>
    obtain ⟨h1, h2, -⟩ := spaced_cons.1 hs
    rw [join]
    split
    · rename_i hadj
      have := start_le_last r
      have := start_le_last s
      rw [mem_lows_cons, last_bridge hadj h2, mem_lows_cons, mem_lows_cons, ← or_assoc]
      refine or_congr_left ?_
      show r.start.toNat ≤ n ∧ n ≤ s.last ↔ _
      omega
    · rfl

/-- A run with the number behind it, in front of runs that are spaced from it. -/
theorem spaced_extend {v : UInt16} {r : Run} {rs : List Run} (hv : v.toNat = r.last + 1)
    (hs : spaced (r.last + 2) rs = true) :
    last ⟨r.start, r.extra + 1⟩ = v.toNat ∧ spaced (last ⟨r.start, r.extra + 1⟩ + 1) rs = true := by
  have hlt : v.toNat < 65536 := v.toNat_lt
  have hlast : last ⟨r.start, r.extra + 1⟩ = v.toNat := by
    rw [last_extend (by rw [← last, ← hv]; exact hlt), hv]
    rfl
  exact ⟨hlast, by rw [hlast, hv]; exact hs⟩

theorem last_prepend {v : UInt16} {r : Run} (hv : v.toNat + 1 = r.start.toNat) (hr : r.last < 65536) :
    last ⟨v, r.extra + 1⟩ = r.last := by
  rw [last] at hr
  show v.toNat + (r.extra + 1).toNat = r.start.toNat + r.extra.toNat
  rw [UInt16.toNat_add, UInt16.toNat_one, Nat.mod_eq_of_lt (by omega)]
  omega

theorem spaced_insert {v : UInt16} : ∀ {least : Nat} {rs : List Run}, spaced least rs = true → least ≤ v.toNat →
    spaced least (insert v rs) = true
  | _, [], _, hv => spaced_cons.2 ⟨hv, v.toNat_lt, rfl⟩
  | least, r :: rs, hs, hv => by
    obtain ⟨h1, h2, h3⟩ := spaced_cons.1 hs
    rw [insert]
    split
    · rename_i hbefore
      exact spaced_cons.2 ⟨hv, v.toNat_lt, spaced_cons.2 ⟨hbefore, h2, h3⟩⟩
    split
    · rename_i hfront
      have hlast := last_prepend hfront h2
      exact spaced_cons.2 ⟨hv, by rwa [hlast], by rwa [hlast]⟩
    split
    · exact hs
    split
    · rename_i hbehind
      obtain ⟨hlast, hspaced⟩ := spaced_extend hbehind h3
      exact spaced_join h1 (hlast ▸ v.toNat_lt) hspaced
    · exact spaced_cons.2 ⟨h1, h2, spaced_insert h3 (by omega)⟩

theorem mem_insert {v : UInt16} {n : Nat} : ∀ {least : Nat} {rs : List Run}, spaced least rs = true →
    (n ∈ (insert v rs).flatMap lows ↔ n = v.toNat ∨ n ∈ rs.flatMap lows)
  | _, [], _ => by
    rw [insert, mem_lows_cons, last_single]
    show v.toNat ≤ n ∧ n ≤ v.toNat ∨ _ ↔ _
    rw [← Nat.le_antisymm_iff, eq_comm]
  | least, r :: rs, hs => by
    obtain ⟨h1, h2, h3⟩ := spaced_cons.1 hs
    have hr := start_le_last r
    rw [insert]
    split
    · rw [mem_lows_cons, last_single]
      show v.toNat ≤ n ∧ n ≤ v.toNat ∨ _ ↔ _
      rw [← Nat.le_antisymm_iff, eq_comm]
    split
    · rename_i hfront
      rw [mem_lows_cons, last_prepend hfront h2, mem_lows_cons, ← or_assoc]
      refine or_congr_left ?_
      show v.toNat ≤ n ∧ n ≤ r.last ↔ _
      omega
    split
    · rename_i hin
      refine (or_iff_right_of_imp ?_).symm
      rintro rfl
      exact mem_lows_cons.2 (.inl ⟨by omega, hin⟩)
    split
    · rename_i hbehind
      obtain ⟨hlast, hspaced⟩ := spaced_extend hbehind h3
      rw [mem_join hspaced, mem_lows_cons, hlast, mem_lows_cons, ← or_assoc]
      refine or_congr_left ?_
      show r.start.toNat ≤ n ∧ n ≤ v.toNat ↔ _
      omega
    · rw [mem_lows_cons, mem_insert h3, mem_lows_cons, or_left_comm]

theorem insert_ne_nil (v : UInt16) (rs : List Run) : insert v rs ≠ [] := by
  cases rs with
  | nil => exact List.cons_ne_nil _ _
  | cons r rs =>
    have hjoin : ∀ s : Run, join s rs ≠ [] := by
      intro s
      cases rs with
      | nil => exact List.cons_ne_nil _ _
      | cons t rs =>
        rw [join]
        split <;> exact List.cons_ne_nil _ _
    rw [insert]
    repeat' split
    all_goals first | exact List.cons_ne_nil _ _ | exact hjoin _

end Run

/-! ## Containers -/

namespace Container

theorem mem_lows_array {xs : Array UInt16} {v : UInt16} : v.toNat ∈ (array xs).lows ↔ v ∈ xs.toList := by
  rw [lows_array, List.mem_map]
  exact ⟨fun ⟨x, hx, hv⟩ => UInt16.toNat_inj.1 hv ▸ hx, fun h => ⟨v, h, rfl⟩⟩

/-- A number that is neither above an array nor in it, or above it, is not in it. -/
theorem not_mem_of_not_present {v : UInt16} {xs : Array UInt16} (hs : xs.toList.Pairwise (· < ·))
    (h : ¬ (!isAbove v xs && xs.contains v) = true) : v ∉ xs.toList := by
  intro hv
  cases habove : isAbove v xs with
  | true => exact UInt16.lt_irrefl v (lt_of_isAbove hs habove v hv)
  | false => exact h (by simp [habove, ← Array.mem_toList_iff, hv])

theorem valid_insert {c : Container} (h : c.valid = true) (v : UInt16) : (c.insert v).valid = true := by
  cases c with
  | array xs =>
    obtain ⟨hpos, hle, hasc⟩ := valid_array.1 h
    have hs := (ascending_iff_pairwise _).1 hasc
    rw [insert]
    split
    · exact h
    rename_i hnew
    have hv := not_mem_of_not_present hs hnew
    have hlt : v.toNat < 65536 := v.toNat_lt
    split
    · rename_i hroom
      refine valid_array.2 ⟨?_, ?_, (ascending_iff_pairwise _).2 (pairwise_place hs hv)⟩ <;> rw [size_place] <;> omega
    · rename_i hfull
      have hlow : ∀ n ∈ xs.toList.map UInt16.toNat, n < 65536 := fun n hn => lt_of_mem_lows h hn
      have hbit : (bitsOfLows (xs.toList.map UInt16.toNat)).testBit v.toNat = false :=
        Bool.eq_false_iff.2 fun hb => hv (mem_lows_array.1 (testBit_bitsOfLows.1 hb))
      have hlength := length_lowsOfBits_insert hlt hbit
      have hpair : (xs.toList.map UInt16.toNat).Pairwise (· < ·) := pairwise_lows h
      have hsize : (xs.toList.map UInt16.toNat).length = xs.size := List.length_map ..
      rw [lowsOfBits_bitsOfLows hpair hlow, hsize] at hlength
      have hbits := insert_lt (bitsOfLows_lt hlow) hlt
      exact valid_bitset.2 ⟨by omega, hbits, hlength⟩
  | bitset count bits =>
    obtain ⟨hmany, hbits, hcount⟩ := valid_bitset.1 h
    rw [insert]
    split
    · exact h
    · rename_i hnew
      have hlt : v.toNat < 65536 := v.toNat_lt
      have hlength := length_lowsOfBits_insert hlt (Bool.eq_false_iff.2 hnew)
      exact valid_bitset.2 ⟨Nat.lt_succ_of_lt hmany, insert_lt (w := 65536) hbits hlt, hlength.trans (by rw [hcount])⟩
  | runs rs =>
    exact valid_runs.2 ⟨Run.insert_ne_nil v rs, Run.spaced_insert (valid_runs.1 h).2 (Nat.zero_le _)⟩

theorem mem_lows_insert {c : Container} (h : c.valid = true) (v : UInt16) {n : Nat} :
    n ∈ (c.insert v).lows ↔ n = v.toNat ∨ n ∈ c.lows := by
  have hlt : v.toNat < 65536 := v.toNat_lt
  cases c with
  | array xs =>
    have hs := (ascending_iff_pairwise _).1 (valid_array.1 h).2.2
    rw [insert]
    split
    · rename_i hold
      refine (or_iff_right_of_imp ?_).symm
      rintro rfl
      rw [Bool.and_eq_true, Array.contains_iff_mem, ← Array.mem_toList_iff] at hold
      exact mem_lows_array.2 hold.2
    split
    · simp only [lows_array, List.mem_map, mem_place]
      constructor
      · rintro ⟨x, rfl | hx, rfl⟩
        · exact .inl rfl
        · exact .inr ⟨x, hx, rfl⟩
      · rintro (rfl | ⟨x, hx, rfl⟩)
        · exact ⟨v, .inl rfl, rfl⟩
        · exact ⟨x, .inr hx, rfl⟩
    · rw [lows_bitset, lows_array, mem_lowsOfBits, testBit_insert, testBit_bitsOfLows]
      refine and_iff_right_of_imp ?_
      rintro (rfl | hn)
      · exact hlt
      · exact lt_of_mem_lows h hn
  | bitset count bits =>
    rw [insert]
    split
    · rename_i hold
      refine (or_iff_right_of_imp ?_).symm
      rintro rfl
      exact mem_lowsOfBits.2 ⟨hlt, hold⟩
    · rw [lows_bitset, mem_lowsOfBits, testBit_insert, lows_bitset, mem_lowsOfBits]
      constructor
      · rintro ⟨hn, rfl | hb⟩
        · exact .inl rfl
        · exact .inr ⟨hn, hb⟩
      · rintro (rfl | ⟨hn, hb⟩)
        · exact ⟨hlt, .inl rfl⟩
        · exact ⟨hn, .inr hb⟩
  | runs rs => exact Run.mem_insert (valid_runs.1 h).2

theorem valid_singleton (v : UInt16) : (singleton v).valid = true :=
  valid_array.2 ⟨Nat.one_pos, by simp [arrayLimit], rfl⟩

theorem lows_singleton (v : UInt16) : (singleton v).lows = [v.toNat] := rfl

end Container
end BitmapWorks
