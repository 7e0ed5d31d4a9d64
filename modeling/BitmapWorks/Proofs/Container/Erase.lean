import BitmapWorks.Proofs.Container.Insert
/-!
# Erase — taking a number out of a container

Deletion keeps what a container held but for the one number (`mem_lows_erase`), and it keeps the rules unless nothing is
left (`valid_erase`).  Of a run that has the number the parts below and above it stay, of a bit table with few numbers left
the array of these.
-/
namespace BitmapWorks

/-! ## Runs -/

namespace Run

theorem spaced_mono {least least' : Nat} {rs : List Run} (h : spaced least rs = true) (hle : least' ≤ least) :
    spaced least' rs = true := by
  cases rs with
  | nil => rfl
  | cons r rs =>
    obtain ⟨h1, h2, h3⟩ := spaced_cons.1 h
    exact spaced_cons.2 ⟨by omega, h2, h3⟩

theorem last_below {v start : UInt16} (h : start.toNat < v.toNat) : last ⟨start, v - start - 1⟩ + 1 = v.toNat := by
  have hsub : (v - start).toNat = v.toNat - start.toNat :=
    UInt16.toNat_sub_of_le v start (UInt16.le_iff_toNat_le.2 (Nat.le_of_lt h))
  have hone : (1 : UInt16) ≤ v - start := by
    rw [UInt16.le_iff_toNat_le, UInt16.toNat_one]
    omega
  show start.toNat + (v - start - 1).toNat + 1 = v.toNat
  rw [UInt16.toNat_sub_of_le _ _ hone, hsub, UInt16.toNat_one]
  omega

theorem above_spec {v : UInt16} {m : Nat} (h : v.toNat < m) (hm : m < 65536) :
    (v + 1).toNat = v.toNat + 1 ∧ last ⟨v + 1, UInt16.ofNat (m - v.toNat - 1)⟩ = m := by
  have hstart : (v + 1).toNat = v.toNat + 1 := by
    rw [UInt16.toNat_add, UInt16.toNat_one, Nat.mod_eq_of_lt (by omega)]
  have hextra : (UInt16.ofNat (m - v.toNat - 1)).toNat = m - v.toNat - 1 := by
    rw [UInt16.toNat_ofNat', Nat.mod_eq_of_lt (by omega)]
  refine ⟨hstart, ?_⟩
  show (v + 1).toNat + (UInt16.ofNat (m - v.toNat - 1)).toNat = m
  omega

section

variable {v : UInt16} {r : Run} {rs : List Run} {least n : Nat}

/-- **What is left of a run keeps the distance to the runs around it.** -/
theorem spaced_without (h : spaced least (r :: rs) = true) (hin : r.start.toNat ≤ v.toNat ∧ v.toNat ≤ r.last) :
    spaced least (without v r ++ rs) = true := by
  obtain ⟨h1, h2, h3⟩ := spaced_cons.1 h
  have habove : spaced (v.toNat + 1)
      ((if v.toNat < r.last then [⟨v + 1, UInt16.ofNat (r.last - v.toNat - 1)⟩] else []) ++ rs) = true := by
    by_cases hlast : v.toNat < r.last
    · obtain ⟨hstart, hend⟩ := above_spec hlast h2
      rw [if_pos hlast]
      exact spaced_cons.2 ⟨Nat.le_of_eq hstart.symm, by rwa [hend], by rwa [hend]⟩
    · rw [if_neg hlast]
      exact spaced_mono h3 (by omega)
  unfold without
  dsimp only
  rw [List.append_assoc]
  by_cases hbelow : r.start < v
  · have hend := last_below (UInt16.lt_iff_toNat_lt.1 hbelow)
    rw [if_pos hbelow]
    exact spaced_cons.2 ⟨h1, by omega, spaced_mono habove (by omega)⟩
  · rw [if_neg hbelow]
    exact spaced_mono habove (by omega)

theorem mem_without (h : r.last < 65536) (hin : r.start.toNat ≤ v.toNat ∧ v.toNat ≤ r.last) :
    n ∈ (without v r).flatMap lows ↔ (r.start.toNat ≤ n ∧ n ≤ r.last) ∧ n ≠ v.toNat := by
  have hbelow : n ∈ (if r.start < v then [(⟨r.start, v - r.start - 1⟩ : Run)] else []).flatMap lows ↔
      r.start.toNat ≤ n ∧ n < v.toNat := by
    by_cases hlt : r.start < v
    · have hend := last_below (UInt16.lt_iff_toNat_lt.1 hlt)
      rw [if_pos hlt, mem_lows_cons]
      simp only [List.flatMap_nil, List.not_mem_nil, or_false]
      omega
    · have hge := UInt16.not_lt.1 hlt
      rw [UInt16.le_iff_toNat_le] at hge
      rw [if_neg hlt]
      simp only [List.flatMap_nil, List.not_mem_nil, false_iff]
      omega
  have habove :
      n ∈ (if v.toNat < r.last then [(⟨v + 1, UInt16.ofNat (r.last - v.toNat - 1)⟩ : Run)] else []).flatMap lows ↔
        v.toNat < n ∧ n ≤ r.last := by
    by_cases hlt : v.toNat < r.last
    · obtain ⟨hstart, hend⟩ := above_spec hlt h
      rw [if_pos hlt, mem_lows_cons, hend]
      simp only [List.flatMap_nil, List.not_mem_nil, or_false]
      show (v + 1).toNat ≤ n ∧ n ≤ r.last ↔ _
      omega
    · rw [if_neg hlt]
      simp only [List.flatMap_nil, List.not_mem_nil, false_iff]
      omega
  unfold without
  dsimp only
  rw [List.flatMap_append, List.mem_append, hbelow, habove]
  omega

end

theorem spaced_erase {v : UInt16} : ∀ {least : Nat} {rs : List Run}, spaced least rs = true →
    spaced least (erase v rs) = true
  | _, [], _ => rfl
  | least, r :: rs, h => by
    obtain ⟨h1, h2, h3⟩ := spaced_cons.1 h
    rw [erase]
    split
    · exact h
    · rename_i hstart
      have hle := UInt16.le_iff_toNat_le.1 (UInt16.not_lt.1 hstart)
      split
      · exact spaced_cons.2 ⟨h1, h2, spaced_erase h3⟩
      · rename_i hlast
        exact spaced_without h ⟨hle, Nat.not_lt.1 hlast⟩

/-- **Runs hold what they held before but for the number taken out.** -/
theorem mem_erase {v : UInt16} {n : Nat} : ∀ {least : Nat} {rs : List Run}, spaced least rs = true →
    (n ∈ (erase v rs).flatMap lows ↔ n ∈ rs.flatMap lows ∧ n ≠ v.toNat)
  | _, [], _ => by simp [erase]
  | least, r :: rs, h => by
    obtain ⟨h1, h2, h3⟩ := spaced_cons.1 h
    have hrest := bounds_of_spaced h3 n
    have hr := start_le_last r
    rw [erase]
    split
    · rename_i hstart
      have hlt := UInt16.lt_iff_toNat_lt.1 hstart
      rw [mem_lows_cons]
      refine (and_iff_left_of_imp ?_).symm
      rintro (hn | hn)
      · omega
      · have := hrest hn
        omega
    · rename_i hstart
      have hle := UInt16.le_iff_toNat_le.1 (UInt16.not_lt.1 hstart)
      split
      · rename_i hlast
        rw [mem_lows_cons, mem_erase h3, mem_lows_cons, or_and_right]
        refine or_congr_left (and_iff_left_of_imp ?_).symm
        intro hn
        omega
      · rename_i hlast
        have hin : r.start.toNat ≤ v.toNat ∧ v.toNat ≤ r.last := ⟨hle, Nat.not_lt.1 hlast⟩
        rw [List.flatMap_append, List.mem_append, mem_without h2 hin, mem_lows_cons, or_and_right]
        refine or_congr_right (and_iff_left_of_imp ?_).symm
        intro hn
        have := hrest hn
        omega

end Run

/-! ## Containers -/

namespace Container

/-- **One bit less is one number less.** -/
theorem testBit_erase {bits v n : Nat} (h : bits.testBit v = true) :
    (bits ^^^ 1 <<< v).testBit n = true ↔ bits.testBit n = true ∧ n ≠ v := by
  rw [Nat.testBit_xor, Nat.one_shiftLeft, Nat.testBit_two_pow]
  by_cases hn : v = n
  · subst hn
    simp [h]
  · simp [hn, Ne.symm hn]

theorem erase_lt {bits v w : Nat} (hbits : bits < 2 ^ w) (hv : v < w) : bits ^^^ 1 <<< v < 2 ^ w := by
  rw [Nat.one_shiftLeft]
  exact Nat.xor_lt_two_pow hbits (Nat.pow_lt_pow_right (by decide) hv)

theorem length_lowsOfBits_erase {bits v : Nat} (hv : v < 65536) (h : bits.testBit v = true) :
    (lowsOfBits (bits ^^^ 1 <<< v)).length + 1 = (lowsOfBits bits).length := by
  have hback : (bits ^^^ 1 <<< v) ||| 1 <<< v = bits := by
    refine Nat.eq_of_testBit_eq fun n => Bool.eq_iff_iff.2 ?_
    rw [testBit_insert, testBit_erase h]
    by_cases hn : n = v
    · simp [hn, h]
    · simp [hn]
  have hnew : (bits ^^^ 1 <<< v).testBit v = false := by
    refine Bool.eq_false_iff.2 fun hb => ?_
    exact ((testBit_erase h).1 hb).2 rfl
  rw [← length_lowsOfBits_insert hv hnew, hback]

theorem lows_arrayOfLows {lows : List Nat} (h : ∀ n ∈ lows, n < 65536) : (arrayOfLows lows).lows = lows := by
  rw [arrayOfLows, lows_array, List.map_map]
  refine (List.map_congr_left fun n hn => ?_).trans (List.map_id _)
  exact UInt16.toNat_ofNat_of_lt' (h n hn)

theorem ascending_arrayOfLows {lows : List Nat} (hs : lows.Pairwise (· < ·)) (h : ∀ n ∈ lows, n < 65536) :
    ascending (lows.map UInt16.ofNat) = true := by
  rw [ascending_iff_pairwise]
  refine List.pairwise_map.2 (hs.imp_of_mem fun {a b} ha hb hab => ?_)
  rw [UInt16.lt_iff_toNat_lt, UInt16.toNat_ofNat_of_lt' (h a ha), UInt16.toNat_ofNat_of_lt' (h b hb)]
  exact hab

section

variable {c : Container} {v : UInt16}

/-- **A container holds what it held before but for the number taken out.** -/
theorem mem_lows_erase (h : c.valid = true) {n : Nat} : n ∈ (c.erase v).lows ↔ n ∈ c.lows ∧ n ≠ v.toNat := by
  cases c with
  | array xs =>
    simp only [erase, lows_array, List.mem_map, Array.toList_filter, List.mem_filter, decide_eq_true_eq]
    constructor
    · rintro ⟨x, ⟨hx, hne⟩, rfl⟩
      exact ⟨⟨x, hx, rfl⟩, fun heq => hne (UInt16.toNat_inj.1 heq)⟩
    · rintro ⟨⟨x, hx, rfl⟩, hne⟩
      exact ⟨x, ⟨hx, fun heq => hne (by rw [heq])⟩, rfl⟩
  | bitset count bits =>
    rw [erase]
    by_cases hbit : bits.testBit v.toNat = true
    · have hlow : ∀ m ∈ lowsOfBits (bits ^^^ 1 <<< v.toNat), m < 65536 := fun m hm => (mem_lowsOfBits.1 hm).1
      have hlows : n ∈ lowsOfBits (bits ^^^ 1 <<< v.toNat) ↔ n ∈ lowsOfBits bits ∧ n ≠ v.toNat := by
        rw [mem_lowsOfBits, testBit_erase hbit, mem_lowsOfBits, and_assoc]
      rw [if_pos hbit]
      dsimp only
      split
      · rw [lows_arrayOfLows hlow, hlows, lows_bitset]
      · rw [lows_bitset, hlows, lows_bitset]
    · rw [if_neg hbit]
      refine (and_iff_left_of_imp ?_).symm
      rintro hn rfl
      rw [lows_bitset, mem_lowsOfBits] at hn
      exact hbit hn.2
  | runs rs => exact Run.mem_erase (valid_runs.1 h).2

/-- What a bit table becomes: the array of what is left if that is little, and otherwise a table with one number less. -/
theorem erase_bitset {count bits : Nat} (h : (bitset count bits).valid = true) (hbit : bits.testBit v.toNat = true) :
    (((bitset count bits).erase v).lows.length = count - 1) ∧ ((bitset count bits).erase v).card = count - 1 ∧
      ((bitset count bits).erase v).valid = true := by
  obtain ⟨hmany, hbits, hcount⟩ := valid_bitset.1 h
  have hv : v.toNat < 65536 := v.toNat_lt
  have hlength := length_lowsOfBits_erase hv hbit
  have hleft : (lowsOfBits (bits ^^^ 1 <<< v.toNat)).length = count - 1 := by omega
  have hlow : ∀ m ∈ lowsOfBits (bits ^^^ 1 <<< v.toNat), m < 65536 := fun m hm => (mem_lowsOfBits.1 hm).1
  rw [erase, if_pos hbit]
  dsimp only
  split
  · rename_i hfew
    refine ⟨by rw [lows_arrayOfLows hlow, hleft], ?_, valid_array.2 ⟨?_, ?_, ?_⟩⟩
    · simp [arrayOfLows, card, hleft]
    · simp only [List.size_toArray, List.length_map, hleft]
      unfold arrayLimit at hmany
      omega
    · simpa [hleft] using hfew
    · rw [List.toList_toArray]
      exact ascending_arrayOfLows (pairwise_lowsOfBits _) hlow
  · rename_i hmore
    exact ⟨by rw [lows_bitset, hleft], rfl, valid_bitset.2 ⟨Nat.not_le.1 hmore, erase_lt hbits hv, hleft⟩⟩

/-- **A container says truly how many numbers are left**, also when there are none. -/
theorem length_lows_erase (h : c.valid = true) : (c.erase v).lows.length = (c.erase v).card := by
  cases c with
  | array xs => exact List.length_map ..
  | bitset count bits =>
    by_cases hbit : bits.testBit v.toNat = true
    · obtain ⟨hlows, hcard, -⟩ := erase_bitset h hbit
      rw [hlows, hcard]
    · rw [erase, if_neg hbit]
      exact length_lows h
  | runs rs => simp [erase, lows_runs, card_runs, List.length_flatMap]

theorem valid_erase (h : c.valid = true) (hleft : (c.erase v).card ≠ 0) : (c.erase v).valid = true := by
  cases c with
  | array xs =>
    obtain ⟨-, hle, hasc⟩ := valid_array.1 h
    rw [erase] at hleft ⊢
    refine valid_array.2 ⟨Nat.pos_of_ne_zero hleft, Nat.le_trans Array.size_filter_le hle, ?_⟩
    rw [ascending_iff_pairwise] at hasc ⊢
    rw [Array.toList_filter]
    exact hasc.filter _
  | bitset count bits =>
    by_cases hbit : bits.testBit v.toNat = true
    · exact (erase_bitset h hbit).2.2
    · rw [erase, if_neg hbit]
      exact h
  | runs rs =>
    refine valid_runs.2 ⟨fun hnil => hleft ?_, Run.spaced_erase (valid_runs.1 h).2⟩
    rw [erase, hnil]
    rfl

end

end Container
end BitmapWorks
