import BitmapWorks.Proofs.Bitmap.Members
import BitmapWorks.Proofs.Decoding.RoundTrip
/-!
# Words — plain words, read as a set

A string of words is the set of its words, in whatever order and however often they stand there (`words_flatMap`).
Their number has to be below `2 ^ 32`, and one bitmap has that many values: the one that holds all values there are
(`Bitmap.card_lt_iff`).  Every other bitmap is read back from its own words, and that one is refused (`words_wordBytes_cases`).
-/
namespace BitmapWorks

/-! ## How many values there are -/

namespace Bitmap

theorem card_image_toNat (s : Finset UInt32) : (s.image UInt32.toNat).card = s.card :=
  Finset.card_image_of_injective s fun _ _ h => UInt32.toNat_inj.1 h

theorem card_le_of_values (s : Finset UInt32) : s.card ≤ 2 ^ 32 := by
  rw [← card_image_toNat, ← Finset.card_range (2 ^ 32)]
  refine Finset.card_le_card fun n hn => ?_
  obtain ⟨v, -, rfl⟩ := Finset.mem_image.1 hn
  exact Finset.mem_range.2 v.toNat_lt

/-- **A bitmap has fewer than `2 ^ 32` values unless it holds them all.** -/
theorem card_lt_iff {b : Bitmap} (hb : b.valid = true) : b.card < 2 ^ 32 ↔ ∃ v, v ∉ b.members := by
  rw [← card_members hb]
  constructor
  · intro hlt
    refine Classical.byContradiction fun hnone => Nat.not_le.2 hlt ?_
    rw [← card_image_toNat, ← Finset.card_range (2 ^ 32)]
    refine Finset.card_le_card fun n hn => Finset.mem_image.2 ⟨UInt32.ofNat n, ?_, ?_⟩
    · exact Classical.byContradiction fun h => hnone ⟨_, h⟩
    · exact UInt32.toNat_ofNat_of_lt' (Finset.mem_range.1 hn)
  · rintro ⟨v, hv⟩
    have hle := card_le_of_values (insert v b.members)
    rw [Finset.card_insert_of_notMem hv] at hle
    exact hle

end Bitmap

/-! ## Words -/

namespace Decoding

theorem words_flatMap_eq (vs : List UInt32) : words (vs.flatMap Bytes.ofWord32)
    = if 2 ^ 32 ≤ vs.length then .error (.corrupted "uint32 array too large") else .ok (.ofList vs) := by
  have hcount : 4 * vs.length / 4 = vs.length := Nat.mul_div_cancel_left _ (by decide)
  rw [words, Bytes.length_flatMap_ofWord32, hcount, if_neg (by omega), ofWords, Bytes.words32_flatMap_ofWord32]
  rfl

/-- **Words are read as the set of them**, in any order and with any repetitions. -/
theorem words_flatMap {vs : List UInt32} (h : vs.length < 2 ^ 32) :
    words (vs.flatMap Bytes.ofWord32) = .ok (.ofList vs) := by
  rw [words_flatMap_eq, if_neg (Nat.not_le.2 h)]

theorem words_flatMap_error {vs : List UInt32} (h : 2 ^ 32 ≤ vs.length) :
    words (vs.flatMap Bytes.ofWord32) = .error (.corrupted "uint32 array too large") := by
  rw [words_flatMap_eq, if_pos h]

/-- **The words of a bitmap are read back as its values** if there are fewer than `2 ^ 32`. -/
theorem words_wordBytes {b : Bitmap} (hb : b.valid = true) (hcard : b.card < 2 ^ 32) :
    ∃ d : Bitmap, words (Encoding.wordBytes b) = .ok d ∧ d.valid = true ∧ d.values = b.values := by
  rw [← Bitmap.length_values hb] at hcard
  exact ⟨.ofList b.values, words_flatMap hcard, Bitmap.valid_ofList _, Bitmap.values_ofList_values hb⟩

theorem words_wordBytes_full {b : Bitmap} (hb : b.valid = true) (hfull : ∀ v, v ∈ b.members) :
    words (Encoding.wordBytes b) = .error (.corrupted "uint32 array too large") := by
  refine words_flatMap_error (Nat.le_of_not_lt fun hlt => ?_)
  rw [Bitmap.length_values hb, Bitmap.card_lt_iff hb] at hlt
  obtain ⟨v, hv⟩ := hlt
  exact hv (hfull v)

/-- **Plain words and sets.**  A bitmap that lacks any value is read back from its words; the one that lacks none is refused.
Fewer than `2 ^ 32` words are read as the set of them, and bytes that are no words are refused. -/
theorem words_wordBytes_cases {b : Bitmap} (hb : b.valid = true) :
    ((∃ v, v ∉ b.members) → ∃ d, words (Encoding.wordBytes b) = .ok d ∧ d.valid = true ∧ d.values = b.values) ∧
    ((∀ v, v ∈ b.members) →
      words (Encoding.wordBytes b) = .error (.corrupted "uint32 array too large")) ∧
    (∀ vs : List UInt32, vs.length < 2 ^ 32 → ∃ d, words (vs.flatMap Bytes.ofWord32) = .ok d ∧ d.valid = true ∧
      d.members = vs.toFinset) ∧
    ∀ bs : Bytes, bs.length % 4 ≠ 0 →
      words bs = .error (.corrupted "uint32 array length is not a multiple of 4") := by
  refine ⟨fun hlacks => words_wordBytes hb ((Bitmap.card_lt_iff hb).2 hlacks), words_wordBytes_full hb,
    fun vs hvs => ⟨_, words_flatMap hvs, Bitmap.valid_ofList vs, Bitmap.members_ofList vs⟩, fun bs hbs => ?_⟩
  unfold words
  exact if_pos hbs

theorem words_wordBytes_cases_mixed : mixed.valid = true ∧
    (∃ d, words (Encoding.wordBytes mixed) = .ok d ∧ d.values = mixed.values) ∧
    (∃ d, words (([9, 4, 9] : List UInt32).flatMap Bytes.ofWord32) = .ok d ∧ d.members = {4, 9}) ∧
    words [4, 0, 0, 0, 9, 0] = .error (.corrupted "uint32 array length is not a multiple of 4") := by
  obtain ⟨hback, -, hlist, hodd⟩ := words_wordBytes_cases valid_mixed
  have hlacks : 7 ∉ mixed.members := by
    rw [Bitmap.mem_members, ← Bitmap.contains_iff_mem valid_mixed]
    decide +kernel
  obtain ⟨d, hd, -, hvalues⟩ := hback ⟨7, hlacks⟩
  obtain ⟨e, he, -, hmembers⟩ := hlist [9, 4, 9] (by decide)
  exact ⟨valid_mixed, ⟨d, hd, hvalues⟩, ⟨e, he, hmembers.trans (by decide)⟩, hodd _ (by decide)⟩

/-- All values there are: a run from end to end under every key. -/
def whole : Bitmap := ⟨(List.range 65536).map fun k => (UInt16.ofNat k, .runs [⟨0, 65535⟩])⟩

theorem containers_whole :
    whole.containers = (List.range 65536).map fun k => (UInt16.ofNat k, .runs [⟨0, 65535⟩]) := by rw [whole]

theorem valid_whole : whole.valid = true := by
  refine Bitmap.valid_iff.2 ⟨(Container.ascending_iff_pairwise _).2 ?_, fun kc hkc => ?_⟩
  · rw [containers_whole, List.map_map]
    refine List.pairwise_map.2 (List.pairwise_lt_range.imp_of_mem fun {k l} hk hl hlt => ?_)
    have hk' : k < UInt16.size := List.mem_range.1 hk
    have hl' : l < UInt16.size := List.mem_range.1 hl
    rw [UInt16.lt_iff_toNat_lt]
    simp only [Function.comp_apply, UInt16.toNat_ofNat_of_lt' hk', UInt16.toNat_ofNat_of_lt' hl', hlt]
  · rw [containers_whole] at hkc
    obtain ⟨k, -, rfl⟩ := List.mem_map.1 hkc
    show (Container.runs [⟨0, 65535⟩]).valid = true
    decide

theorem mem_members_whole (v : UInt32) : v ∈ whole.members := by
  have hkey : (Bitmap.keyOf v).toNat < 65536 := (Bitmap.keyOf v).toNat_lt
  have hlow : (Bitmap.lowOf v).toNat < 65536 := (Bitmap.lowOf v).toNat_lt
  rw [Bitmap.mem_members, Bitmap.mem_values (Bitmap.valid_iff.1 valid_whole).2]
  rw [containers_whole]
  refine ⟨_, List.mem_map_of_mem (List.mem_range.2 hkey), UInt16.ofNat_toNat, ?_⟩
  rw [Container.lows_runs, Run.mem_flatMap_lows]
  exact ⟨_, List.mem_singleton_self _, Nat.zero_le _, Nat.le_of_lt_succ hlow⟩

/-- **The bitmap of all values is not read back from its words.** -/
theorem whole_refused : whole.valid = true ∧ (∀ v, v ∈ whole.members) ∧
    words (Encoding.wordBytes whole) = .error (.corrupted "uint32 array too large") :=
  ⟨valid_whole, mem_members_whole, words_wordBytes_full valid_whole mem_members_whole⟩

end Decoding
end BitmapWorks
