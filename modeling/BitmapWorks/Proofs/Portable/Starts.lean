import BitmapWorks.Proofs.Bitmap.Kinds
import BitmapWorks.Proofs.Portable.Place
/-!
# Starts — the interchange layout, and where its words for starts end

A header stores where each body starts in a word of 32 bits, and what does not fit into the word is cut off.  The view of
an encoding takes each body at what is left of its start (`view?_encode`).  That is no loss for the bitmaps there are in
practice: arrays, bit tables and whatever `optimize` chooses have bodies that are small enough (`addressable_of_plain`,
`addressable_optimize`).  It is one for bitmaps that keep many short runs: `shredded` has a body that starts behind
`2 ^ 32` bytes, and its view shows no number there (`view?_shredded`).
-/
namespace BitmapWorks

/-! ## Bodies of chosen kinds -/

namespace Container

variable {c : Container}

theorem bodySize_le_of_not_isRuns (h : c.valid = true) (hkind : c.isRuns = false) : c.bodySize ≤ bitsetBytes := by
  cases c with
  | array xs =>
    have hsize := (valid_array.1 h).2.1
    simp only [bodySize, arrayLimit, bitsetBytes] at hsize ⊢
    omega
  | bitset count bits => exact Nat.le_refl _
  | runs rs => cases hkind

theorem isRuns_ofLows (lows : List Nat) : (ofLows lows).isRuns = false := by
  rw [ofLows]
  split <;> rfl

/-- **A kind that is chosen by size takes no more bytes than a bit table.** -/
theorem bodySize_optimize_le (h : c.valid = true) : c.optimize.bodySize ≤ bitsetBytes := by
  cases c with
  | array xs =>
    have hsize := bodySize_le_of_not_isRuns h rfl
    rw [optimize]
    split
    · next hless => exact Nat.le_trans (Nat.le_of_lt hless) hsize
    · exact hsize
  | bitset count bits =>
    rw [optimize]
    split
    · next hless => exact Nat.le_of_lt hless
    · exact Nat.le_refl _
  | runs rs =>
    rw [optimize]
    split
    · next hless => exact Nat.le_trans hless (Nat.min_le_left _ _)
    · exact bodySize_le_of_not_isRuns (ofLows_rules h).1 (isRuns_ofLows _)

end Container

namespace Portable

theorem addressable_of_plain {b : Bitmap} (hb : b.valid = true) (h : b.Plain) : addressable b = true :=
  addressable_of_bodySize_le hb fun kc hkc =>
    Nat.le_trans (Container.bodySize_le_of_not_isRuns ((Bitmap.valid_iff.1 hb).2 kc hkc) (h kc hkc)) (by decide)

theorem addressable_optimize {b : Bitmap} (hb : b.valid = true) : addressable b.optimize = true := by
  refine addressable_of_bodySize_le (Bitmap.valid_optimize hb) fun kc hkc => ?_
  obtain ⟨kc', hkc', rfl⟩ := List.mem_map.1 hkc
  exact Nat.le_trans (Container.bodySize_optimize_le ((Bitmap.valid_iff.1 hb).2 kc' hkc')) (by decide)

/-! ## What the view of an encoding looks at -/

/-- **The view of an encoding takes each body at what the word keeps of its start.** -/
theorem view?_encode {b : Bitmap} (hb : b.valid = true) (hst : storesOffsets (hasRuns b) b.containers.length = true) :
    view? (encode b) = some ⟨((b.containers.map Head.ofContainer).zip (offsets (headerSize b) b.containers)).map
      fun p => (p.1.key, found (encode b) (p.1, p.2 % 2 ^ 32))⟩ := by
  have hheader := readHeader?_encode_append hb []
  rw [List.append_nil, if_pos hst] at hheader
  rw [view?_eq hheader, places, Option.getD_some, List.zip_map_right, List.map_map]
  rfl

def bodiesSize (cs : List (UInt16 × Container)) : Nat := (cs.map fun (_, c) => c.bodySize).sum

theorem bodiesSize_concat (cs : List (UInt16 × Container)) (kc : UInt16 × Container) :
    bodiesSize (cs ++ [kc]) = bodiesSize cs + kc.2.bodySize := by
  simp [bodiesSize]

theorem offsets_concat (start : Nat) (cs : List (UInt16 × Container)) (kc : UInt16 × Container) :
    offsets start (cs ++ [kc]) = offsets start cs ++ [start + bodiesSize cs] := by
  induction cs generalizing start with
  | nil => rfl
  | cons x cs ih =>
    rw [List.cons_append, offsets, ih, offsets, List.cons_append, Nat.add_assoc]
    rfl

theorem le_of_mem_offsets {start at_ : Nat} {cs : List (UInt16 × Container)} (h : at_ ∈ offsets start cs) :
    at_ ≤ start + bodiesSize cs := by
  induction cs generalizing start with
  | nil => cases h
  | cons x cs ih =>
    have hsize : bodiesSize (x :: cs) = x.2.bodySize + bodiesSize cs := rfl
    rw [offsets] at h
    rcases List.mem_cons.1 h with rfl | h
    · omega
    · have := ih h
      omega

/-- **Up to the first start that does not fit, the view of an encoding shows the containers.** -/
theorem view?_encode_concat {b : Bitmap} (hb : b.valid = true)
    (hst : storesOffsets (hasRuns b) b.containers.length = true) {front : List (UInt16 × Container)} {key : UInt16}
    {c : Container} (hcs : b.containers = front ++ [(key, c)])
    (hfits : ∀ start ∈ offsets (headerSize b) front, start < 2 ^ 32) :
    view? (encode b) = some ⟨front ++
      [(key, found (encode b) (Head.ofContainer (key, c), (headerSize b + bodiesSize front) % 2 ^ 32))]⟩ := by
  have hvalid := (Bitmap.valid_iff.1 hb).2
  rw [hcs] at hvalid
  -- the bodies in front are read in sequence, and so found where they start
  have hread := readBodies?_append front (body c) fun kc hkc => hvalid kc (List.mem_append_left _ hkc)
  have hbodies : (encode b).drop (headerSize b) = (front.flatMap fun (_, c) => body c) ++ body c := by
    have hheader := readHeader?_encode_append hb []
    have hdrop := drop_bodiesAt hheader
    rw [bodiesAt_encode_append, List.append_nil, List.append_nil] at hdrop
    rw [hdrop, hcs, List.flatMap_append, List.flatMap_singleton]
  have hstart : headerSize b ≤ (encode b).length := by
    rw [length_encode, size_eq]
    omega
  rw [← hbodies] at hread
  obtain ⟨hfront, -⟩ := map_found_offsets hread hstart
  have hkept : ((front.map Head.ofContainer).zip (offsets (headerSize b) front)).map
      (fun p => (p.1.key, found (encode b) (p.1, p.2 % 2 ^ 32))) = front := by
    refine (List.map_congr_left fun p hp => ?_).trans hfront
    rw [Nat.mod_eq_of_lt (hfits p.2 (List.of_mem_zip hp).2)]
  have hlength : (front.map Head.ofContainer).length = (offsets (headerSize b) front).length := by
    rw [List.length_map, length_offsets]
  rw [view?_encode hb hst, hcs, offsets_concat, List.map_append, List.zip_append hlength, List.map_append, hkept]
  rfl

/-! ## A bitmap in shreds -/

def shreds (n : Nat) : List Run := (List.range n).map fun i => ⟨UInt16.ofNat (2 * i), 0⟩

/-- A single number under the first key, and behind it runs that make the body under key 32767 start just behind
`2 ^ 32`, by as many bytes as there are in front of the count of the first container. -/
def shard : Nat → Container
  | 0 => .array #[0]
  | 1 => .runs (shreds 16385)
  | _ + 2 => .runs (shreds 32768)

def shards (n : Nat) : List (UInt16 × Container) := (List.range n).map fun k => (UInt16.ofNat k, shard k)

/-- Containers under 32768 keys, most of them with every other number in runs. -/
def shredded : Bitmap := ⟨shards 32768⟩

theorem spaced_shreds {n : Nat} (h : n ≤ 32768) : Run.spaced 0 (shreds n) = true := by
  have hspaced : ∀ (m i least : Nat), least ≤ 2 * i → i + m ≤ 32768 →
      Run.spaced least ((List.range' i m).map fun i => ⟨UInt16.ofNat (2 * i), 0⟩) = true := by
    intro m
    induction m with
    | zero =>
      intro i least _ _
      rfl
    | succ m ih =>
      intro i least hleast hend
      have hstart : (UInt16.ofNat (2 * i)).toNat = 2 * i := UInt16.toNat_ofNat_of_lt' (by simp only [UInt16.size]; omega)
      have hlast : Run.last ⟨UInt16.ofNat (2 * i), 0⟩ = 2 * i := hstart
      rw [List.range'_succ, List.map_cons, Run.spaced_cons, hlast, hstart]
      exact ⟨hleast, by omega, ih (i + 1) _ (by omega) (by omega)⟩
  rw [shreds, List.range_eq_range']
  exact hspaced n 0 0 (Nat.le_refl _) (by omega)

theorem valid_shreds {n : Nat} (hpos : 0 < n) (h : n ≤ 32768) : (Container.runs (shreds n)).valid = true := by
  refine Container.valid_runs.2 ⟨List.ne_nil_of_length_pos ?_, spaced_shreds h⟩
  rwa [shreds, List.length_map, List.length_range]

theorem bodySize_shreds (n : Nat) : (Container.runs (shreds n)).bodySize = 2 + 4 * n := by
  rw [Container.bodySize, shreds, List.length_map, List.length_range]

theorem valid_shard : ∀ k : Nat, (shard k).valid = true
  | 0 => by decide
  | 1 => valid_shreds (by decide) (by decide)
  | _ + 2 => valid_shreds (by decide) (by decide)

theorem shards_succ (n : Nat) : shards (n + 1) = shards n ++ [(UInt16.ofNat n, shard n)] := by
  rw [shards, List.range_succ, List.map_append, List.map_singleton]
  rfl

theorem length_shards (n : Nat) : (shards n).length = n := by rw [shards, List.length_map, List.length_range]

theorem keys_shards (n : Nat) : (shards n).map Prod.fst = (List.range n).map UInt16.ofNat := by
  rw [shards, List.map_map]
  rfl

theorem bodiesSize_shards (n : Nat) : bodiesSize (shards (n + 2)) = 65544 + 131074 * n := by
  induction n with
  | zero =>
    have hfirst : bodiesSize (shards 1) = 2 := rfl
    have hsecond : (shard 1).bodySize = 2 + 4 * 16385 := bodySize_shreds 16385
    rw [shards_succ, bodiesSize_concat, hfirst, hsecond]
  | succ n ih =>
    have hnext : (shard (n + 2)).bodySize = 2 + 4 * 32768 := bodySize_shreds 32768
    rw [shards_succ, bodiesSize_concat, ih, hnext]
    omega

theorem valid_shards {n : Nat} (h : n ≤ 65536) : (Bitmap.mk (shards n)).valid = true := by
  refine Bitmap.valid_iff.2 ⟨?_, fun kc hkc => ?_⟩
  · show Container.ascending ((shards n).map Prod.fst) = true
    rw [keys_shards, Container.ascending_iff_pairwise, List.pairwise_map]
    refine List.pairwise_lt_range.imp_of_mem fun {i j} hi hj hlt => ?_
    have hi := List.mem_range.1 hi
    have hj := List.mem_range.1 hj
    rw [UInt16.lt_iff_toNat_lt, UInt16.toNat_ofNat_of_lt' (by simp only [UInt16.size]; omega),
      UInt16.toNat_ofNat_of_lt' (by simp only [UInt16.size]; omega)]
    exact hlt
  · obtain ⟨k, -, rfl⟩ := List.mem_map.1 hkc
    exact valid_shard k

theorem hasRuns_shards {n : Nat} (h : 2 ≤ n) : hasRuns ⟨shards n⟩ = true :=
  List.any_eq_true.2 ⟨(1, shard 1), List.mem_map.2 ⟨1, List.mem_range.2 h, rfl⟩, rfl⟩

theorem storesOffsets_shards {n : Nat} (h : 4 ≤ n) :
    storesOffsets (hasRuns ⟨shards n⟩) (Bitmap.mk (shards n)).containers.length = true := by
  rw [length_shards, storesOffsets, Bool.or_eq_true]
  exact .inr (decide_eq_true h)

theorem length_cookieBytes_shards {n : Nat} (h : 2 ≤ n) : (cookieBytes ⟨shards n⟩).length = 4 + (n + 7) / 8 := by
  rw [length_cookieBytes, if_pos (hasRuns_shards h), length_shards]

theorem headerSize_shards {n : Nat} (h : 4 ≤ n) : headerSize ⟨shards n⟩ = 4 + (n + 7) / 8 + 4 * n + 4 * n := by
  rw [headerSize_eq, length_cookieBytes_shards (by omega), length_headBytes, length_startBytes,
    if_pos (storesOffsets_shards h), length_shards]

theorem bodyAt_of_no_runs {h : Head} (hr : h.runs = true) (rest : Bytes) : bodyAt h (Bytes.le 2 0 ++ rest) = .runs [] := by
  rw [bodyAt_runs hr, takePadded_append (Bytes.length_le 2 0)]
  rfl

/-- Behind the cookie and the key of the first container there is its count less one. -/
theorem drop_encode_shards {n : Nat} (h : 1 ≤ n) :
    ∃ rest, (encode ⟨shards (n + 1)⟩).drop (4 + (n + 8) / 8 + 2) = Bytes.le 2 0 ++ rest := by
  have hcookie := length_cookieBytes_shards (n := n + 1) (by omega)
  have hheads : ∃ rest, headBytes (shards (n + 1)) = Bytes.ofWord16 0 ++ (Bytes.le 2 0 ++ rest) := by
    rw [shards, List.range_succ_eq_map, List.map_cons, headBytes_cons]
    exact ⟨_, rfl⟩
  obtain ⟨rest, hrest⟩ := hheads
  rw [encode_eq, hrest, ← hcookie, ← List.drop_drop, List.drop_left, List.append_assoc, List.append_assoc]
  exact ⟨_, rfl⟩

theorem le_of_mem_offsets_shards {start at_ n : Nat} (h : at_ ∈ offsets start (shards (n + 3))) :
    at_ ≤ start + (65544 + 131074 * n) := by
  rw [shards_succ, offsets_concat, bodiesSize_shards, List.mem_append, List.mem_singleton] at h
  rcases h with h | rfl
  · have := le_of_mem_offsets h
    rwa [bodiesSize_shards] at this
  · exact Nat.le_refl _

/-- **What is kept of the last start leads to a count of zero**, so the view shows no number there. -/
theorem view?_shards {n : Nat} (h : n = 32767) :
    view? (encode ⟨shards (n + 1)⟩) = some ⟨shards n ++ [(UInt16.ofNat n, .runs [])]⟩ := by
  have hheader := headerSize_shards (n := n + 1) (by omega)
  obtain ⟨rest, hrest⟩ := drop_encode_shards (n := n) (by omega)
  obtain ⟨m, rfl⟩ : ∃ m, n = m + 3 := ⟨n - 3, by omega⟩
  have hsize := bodiesSize_shards (m + 1)
  have hkept : (headerSize ⟨shards (m + 3 + 1)⟩ + bodiesSize (shards (m + 3))) % 2 ^ 32 = 4 + (m + 3 + 8) / 8 + 2 := by
    rw [hheader, hsize]
    omega
  rw [view?_encode_concat (valid_shards (by omega)) (storesOffsets_shards (by omega)) (shards_succ _), hkept, found, hrest,
    bodyAt_of_no_runs rfl]
  intro start hstart
  have := le_of_mem_offsets_shards hstart
  omega

theorem valid_shredded : shredded.valid = true := valid_shards (by decide)

theorem values_concat_no_runs (cs : List (UInt16 × Container)) (key : UInt16) :
    (Bitmap.mk (cs ++ [(key, .runs [])])).values = (Bitmap.mk cs).values := by
  rw [Bitmap.values_concat]
  exact List.append_nil _

theorem values_shards_ne (n : Nat) : (Bitmap.mk (shards n)).values ≠ (Bitmap.mk (shards (n + 1))).values := by
  have hpos := Container.card_pos (valid_shard n)
  rw [← Container.length_lows (valid_shard n)] at hpos
  intro h
  have hlengths := congrArg List.length h
  rw [shards_succ, Bitmap.values_concat, List.length_append, List.length_map] at hlengths
  dsimp only at hlengths
  omega

/-- What is left of `shredded` where its encoding is used in place: no number under the last key. -/
def frayed : Bitmap := ⟨shards 32767 ++ [(32767, .runs [])]⟩

theorem view?_shredded : view? (encode shredded) = some frayed := view?_shards rfl

theorem values_frayed : frayed.values = (Bitmap.mk (shards 32767)).values := by
  rw [frayed, values_concat_no_runs]

theorem values_frayed_ne : frayed.values ≠ shredded.values := by
  rw [values_frayed, shredded]
  exact values_shards_ne 32767

/-- The container without numbers is seen where the keys are compared. -/
theorem sameValues_frayed : frayed.sameValues (.ofList frayed.values) = false := by
  have hvalid : (Bitmap.mk (shards 32767)).valid = true := valid_shards (by decide)
  have hkeys := Bitmap.keys_eq_of_values_eq (Bitmap.valid_ofList (Bitmap.mk (shards 32767)).values) hvalid
    (Bitmap.values_ofList_values hvalid)
  rw [values_frayed, Bitmap.sameValues, hkeys, Bool.and_eq_false_iff]
  refine .inl (beq_eq_false_iff_ne.2 fun h => ?_)
  have hlengths := congrArg List.length h
  rw [frayed, List.length_map, List.length_map, List.length_append, List.length_singleton] at hlengths
  dsimp only at hlengths
  omega

end Portable
end BitmapWorks
