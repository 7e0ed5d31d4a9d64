import BitmapWorks.Proofs.Bitmap.Members
/-!
# Kinds — bitmaps that are built from values

Insertion makes arrays and bit tables, and a container of these kinds is known by the numbers it holds, since their
count alone decides between the two (`Container.eq_ofLows`).  So a bitmap built from values has forgotten in which order
they came and how often (`ofList_congr`).  Choosing the kinds by size looks at each container only, and changes no
values (`values_optimize`).
-/
namespace BitmapWorks

/-! ## Runs of ascending numbers -/

namespace Run

theorem push_eq_insert {low : Nat} (hlow : low < 65536) {rs : List Run} (hs : spaced (low + 1) rs = true) :
    push low rs = insert (UInt16.ofNat low) rs := by
  have hlow : (UInt16.ofNat low).toNat = low := UInt16.toNat_ofNat_of_lt' hlow
  cases rs with
  | nil => rfl
  | cons r rs =>
    obtain ⟨hle, -, -⟩ := spaced_cons.1 hs
    rw [push, insert, hlow]
    by_cases hnext : low + 1 = r.start.toNat
    · rw [if_pos hnext, if_neg (Nat.not_lt.2 (Nat.le_of_eq hnext.symm)), if_pos hnext]
    · rw [if_neg hnext, if_pos (Nat.lt_of_le_of_ne hle hnext)]

/-- **The runs of ascending numbers are spaced, and hold these numbers.** -/
theorem ofLows_rules : ∀ {lows : List Nat} {least : Nat}, lows.Pairwise (· < ·) →
    (∀ n ∈ lows, least ≤ n ∧ n < 65536) →
      spaced least (ofLows lows) = true ∧ ∀ n, n ∈ (ofLows lows).flatMap Run.lows ↔ n ∈ lows
  | [], _, _, _ => ⟨rfl, fun _ => Iff.rfl⟩
  | low :: lows, least, hs, hbounds => by
    obtain ⟨hfirst, hrest⟩ := List.pairwise_cons.1 hs
    obtain ⟨hle, hlt⟩ := hbounds low List.mem_cons_self
    have hbehind : ∀ n ∈ lows, low + 1 ≤ n ∧ n < 65536 := fun n hn =>
      ⟨hfirst n hn, (hbounds n (List.mem_cons_of_mem _ hn)).2⟩
    obtain ⟨hspaced, hmem⟩ := ofLows_rules hrest hbehind
    have heq : ofLows (low :: lows) = insert (UInt16.ofNat low) (ofLows lows) := push_eq_insert hlt hspaced
    have hlow : (UInt16.ofNat low).toNat = low := UInt16.toNat_ofNat_of_lt' hlt
    have hmono : spaced least (ofLows lows) = true := spaced_mono hspaced (Nat.le_succ_of_le hle)
    rw [heq]
    refine ⟨spaced_insert hmono (by rwa [hlow]), fun n => ?_⟩
    rw [mem_insert hmono, hmem, hlow, List.mem_cons]

end Run

/-! ## Kinds of containers -/

namespace Container

variable {c d : Container}

theorem runs_rules (h : c.valid = true) :
    (runs (Run.ofLows c.lows)).valid = true ∧ (runs (Run.ofLows c.lows)).lows = c.lows := by
  obtain ⟨hspaced, hmem⟩ := Run.ofLows_rules (pairwise_lows h) fun n hn => ⟨Nat.zero_le n, lt_of_mem_lows h hn⟩
  have hlows : (runs (Run.ofLows c.lows)).lows = c.lows :=
    eq_of_pairwise_lt Nat.lt_irrefl (fun _ _ _ => Nat.lt_trans) (Run.pairwise_of_spaced hspaced) (pairwise_lows h) hmem
  refine ⟨valid_runs.2 ⟨fun hnil => ?_, hspaced⟩, hlows⟩
  have hnone : c.lows = [] := by
    rw [← hlows, hnil]
    rfl
  have hpos := card_pos h
  rw [← length_lows h, hnone] at hpos
  exact absurd hpos (Nat.lt_irrefl 0)

theorem lt_of_testBit {bits n w : Nat} (h : bits < 2 ^ w) (hset : bits.testBit n = true) : n < w := by
  have hle : 2 ^ n ≤ bits := Nat.ge_two_pow_of_testBit hset
  exact (Nat.pow_lt_pow_iff_right (by decide)).1 (Nat.lt_of_le_of_lt hle h)

theorem bitsOfLows_lowsOfBits {bits : Nat} (h : bits < 2 ^ 65536) : bitsOfLows (lowsOfBits bits) = bits := by
  apply Nat.eq_of_testBit_eq
  intro n
  rw [Bool.eq_iff_iff, testBit_bitsOfLows, mem_lowsOfBits, and_iff_right_iff_imp]
  exact lt_of_testBit h

/-- **A container that keeps no runs is known by the numbers it holds.** -/
theorem eq_ofLows (h : c.valid = true) (hkind : c.isRuns = false) : c = ofLows c.lows := by
  cases c with
  | array xs =>
    have hlength : (array xs).lows.length = xs.size := length_lows h
    have hback : (xs.toList.map UInt16.toNat).map UInt16.ofNat = xs.toList := by
      rw [List.map_map]
      exact List.map_id'' (fun x => UInt16.ofNat_toNat) xs.toList
    rw [ofLows, hlength, if_pos (valid_array.1 h).2.1, arrayOfLows, lows_array, hback]
  | bitset count bits =>
    obtain ⟨hmany, hbits, hcount⟩ := valid_bitset.1 h
    rw [lows_bitset, ofLows, hcount, if_neg (Nat.not_le.2 hmany), bitsOfLows_lowsOfBits hbits]
  | runs rs => cases hkind

theorem ofLows_rules (h : c.valid = true) : (ofLows c.lows).valid = true ∧ (ofLows c.lows).lows = c.lows := by
  have hpos : 0 < c.lows.length := by
    rw [length_lows h]
    exact card_pos h
  have hbounds : ∀ n ∈ c.lows, n < 65536 := fun n hn => lt_of_mem_lows h hn
  rw [ofLows]
  by_cases hfew : c.lows.length ≤ arrayLimit
  · rw [if_pos hfew]
    refine ⟨valid_array.2 ⟨?_, ?_, ascending_arrayOfLows (pairwise_lows h) hbounds⟩, lows_arrayOfLows hbounds⟩
    · rwa [List.size_toArray, List.length_map]
    · rwa [List.size_toArray, List.length_map]
  · have hlows := lowsOfBits_bitsOfLows (pairwise_lows h) hbounds
    rw [if_neg hfew, lows_bitset, hlows]
    refine ⟨valid_bitset.2 ⟨Nat.not_le.1 hfew, bitsOfLows_lt hbounds, by rw [hlows]⟩, rfl⟩

/-- **Choosing the kind by size keeps the rules and what is held.** -/
theorem optimize_rules (h : c.valid = true) : c.optimize.valid = true ∧ c.optimize.lows = c.lows := by
  have hruns := runs_rules h
  cases c with
  | array xs =>
    rw [optimize]
    split
    · exact hruns
    · exact ⟨h, rfl⟩
  | bitset count bits =>
    rw [lows_bitset] at hruns
    rw [optimize, lows_bitset]
    split
    · exact hruns
    · exact ⟨h, lows_bitset count bits⟩
  | runs rs =>
    rw [optimize]
    split
    · exact ⟨h, rfl⟩
    · exact ofLows_rules h

theorem isRuns_insert (c : Container) (v : UInt16) : (c.insert v).isRuns = c.isRuns := by
  cases c with
  | array xs =>
    rw [insert]
    split
    · rfl
    · split <;> rfl
  | bitset count bits =>
    rw [insert]
    split <;> rfl
  | runs rs => rfl

end Container

/-! ## Bitmaps -/

namespace Bitmap

variable {a b : Bitmap}

def Plain (b : Bitmap) : Prop := ∀ kc ∈ b.containers, kc.2.isRuns = false

theorem plain_add (hb : b.Plain) (v : UInt32) : (b.add v).Plain := by
  intro kc hkc
  rcases mem_insertAt hkc with rfl | ⟨c, hc, rfl⟩ | hold
  · rfl
  · exact (c.isRuns_insert _).trans (hb _ hc)
  · exact hb kc hold

theorem plain_addMany (vs : List UInt32) (hb : b.Plain) : (b.addMany vs).Plain := by
  induction vs generalizing b with
  | nil => exact hb
  | cons v vs ih => exact ih (plain_add hb v)

theorem plain_ofList (vs : List UInt32) : (ofList vs).Plain := plain_addMany vs (by simp [Plain, empty])

/-- Containers with the same keys that hold the same numbers, none of them as runs, are the same. -/
theorem containers_eq_of_zip : ∀ {cs ds : List (UInt16 × Container)}, cs.map Prod.fst = ds.map Prod.fst →
    (∀ kc ∈ cs, kc.2.valid = true ∧ kc.2.isRuns = false) → (∀ kc ∈ ds, kc.2.valid = true ∧ kc.2.isRuns = false) →
    (∀ p ∈ cs.zip ds, p.1.2.lows = p.2.2.lows) → cs = ds
  | [], [], _, _, _, _ => rfl
  | [], _ :: _, h, _, _, _ => by cases h
  | _ :: _, [], h, _, _, _ => by cases h
  | (k, c) :: cs, (k', d) :: ds, h, hc, hd, hlows => by
    obtain ⟨rfl, hrest⟩ : k = k' ∧ cs.map Prod.fst = ds.map Prod.fst := List.cons.inj h
    obtain ⟨⟨hvalid, hkind⟩, hc'⟩ := List.forall_mem_cons.1 hc
    obtain ⟨⟨hvalid', hkind'⟩, hd'⟩ := List.forall_mem_cons.1 hd
    rw [List.zip_cons_cons, List.forall_mem_cons] at hlows
    obtain ⟨hsame, hlows'⟩ := hlows
    have heq : c = d :=
      (Container.eq_ofLows hvalid hkind).trans ((congrArg Container.ofLows hsame).trans
        (Container.eq_ofLows hvalid' hkind').symm)
    rw [heq, containers_eq_of_zip hrest hc' hd' hlows']

/-- **Bitmaps without runs that list the same values are the same.** -/
theorem eq_of_values_eq (ha : a.valid = true) (hb : b.valid = true) (hplain : a.Plain) (hplain' : b.Plain)
    (h : a.values = b.values) : a = b :=
  congrArg Bitmap.mk (containers_eq_of_zip (keys_eq_of_values_eq ha hb h)
    (fun kc hkc => ⟨(valid_iff.1 ha).2 kc hkc, hplain kc hkc⟩) (fun kc hkc => ⟨(valid_iff.1 hb).2 kc hkc, hplain' kc hkc⟩)
    (lows_eq_of_values_eq ha hb h))

/-- **A bitmap that is built from values depends only on which values there are.** -/
theorem ofList_congr {vs ws : List UInt32} (h : ∀ v, v ∈ vs ↔ v ∈ ws) : ofList vs = ofList ws :=
  eq_of_values_eq (valid_ofList vs) (valid_ofList ws) (plain_ofList vs) (plain_ofList ws) (values_ofList_congr h)

/-! ## The choice of kinds -/

theorem valid_optimize (hb : b.valid = true) : b.optimize.valid = true := by
  obtain ⟨hkeys, hrules⟩ := valid_iff.1 hb
  refine valid_iff.2 ⟨?_, fun kc hkc => ?_⟩
  · have hsame : b.optimize.containers.map Prod.fst = b.containers.map Prod.fst := List.map_map ..
    rwa [hsame]
  · obtain ⟨kc', hkc', rfl⟩ := List.mem_map.1 hkc
    exact (Container.optimize_rules (hrules kc' hkc')).1

theorem values_optimize (hb : b.valid = true) : b.optimize.values = b.values := by
  rw [values, optimize, List.flatMap_map]
  refine List.flatMap_congr fun kc hkc => ?_
  exact congrArg (List.map (value kc.1)) (Container.optimize_rules ((valid_iff.1 hb).2 kc hkc)).2

end Bitmap
end BitmapWorks
