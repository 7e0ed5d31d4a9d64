import BitmapWorks.Proofs.Text.Staged
import Mathlib.Algebra.Order.BigOperators.Group.List
import Mathlib.Algebra.Order.Group.Nat
/-!
# Room — how full the staging buffer gets

One value with its separator takes at most `entryRoom` bytes, and the buffer is emptied whenever that much might not fit,
so values alone never overfill it (`Staging.size_push_le`).  How full it is depends on the lengths of the entries only
(`level`).  What stands behind all values goes in without a look at the room that is left; where that is none at all the
last piece is too long by one byte.

The main statement is `overfull_iff`.
-/
namespace BitmapWorks
namespace Text

/-! ## Entries -/

theorem length_digits_le {k n : Nat} (h : n < 10 ^ (k + 1)) : (digits n).length ≤ k + 1 := by
  induction k generalizing n with
  | zero => simp [digits_of_lt (show n < 10 by simpa using h)]
  | succ k ih =>
    by_cases hn : n < 10
    · simp [digits_of_lt hn]
    · have hpow : 10 ^ (k + 1 + 1) = 10 * 10 ^ (k + 1) := by rw [Nat.pow_succ, Nat.mul_comm]
      have htenth := ih (n := n / 10) (by omega)
      rw [digits_of_le (Nat.not_lt.1 hn), List.length_append, List.length_singleton]
      omega

theorem le_length_digits {k n : Nat} (h : 10 ^ k ≤ n) : k + 1 ≤ (digits n).length := by
  induction k generalizing n with
  | zero => exact List.length_pos_of_ne_nil (digits_ne_nil n)
  | succ k ih =>
    have hpow : 10 ^ (k + 1) = 10 * 10 ^ k := by rw [Nat.pow_succ, Nat.mul_comm]
    have hone : 0 < 10 ^ k := Nat.pow_pos (by decide)
    have htenth := ih (n := n / 10) (by omega)
    rw [digits_of_le (show 10 ≤ n by omega), List.length_append, List.length_singleton]
    omega

/-- A number between two powers of ten has as many digits as they tell. -/
theorem length_digits {k n : Nat} (hlow : 10 ^ k ≤ n) (hhigh : n < 10 ^ (k + 1)) : (digits n).length = k + 1 :=
  Nat.le_antisymm (length_digits_le hhigh) (le_length_digits hlow)

def entry (v : UInt32) : Nat := 1 + (digits v.toNat).length

/-- **No value takes more bytes than an entry may.** -/
theorem entry_le (v : UInt32) : entry v ≤ entryRoom := by
  have hlt : v.toNat < 10 ^ (9 + 1) := Nat.lt_trans v.toNat_lt (by decide)
  have hlength := length_digits_le hlt
  unfold entry entryRoom
  omega

/-- The lengths of the entries of values, of which the first one has no separator. -/
def entries : List UInt32 → List Nat
  | [] => []
  | v :: vs => (digits v.toNat).length :: vs.map entry

/-! ## Levels -/

/-- How full a buffer is behind entries of some lengths, if it is emptied whenever the next entry might not fit. -/
def level (n : Nat) (lengths : List Nat) : Nat :=
  lengths.foldl (fun n length => (if stagingRoom < n + entryRoom then 0 else n) + length) n

theorem level_append (n : Nat) (front back : List Nat) : level n (front ++ back) = level (level n front) back :=
  List.foldl_append

theorem level_of_fits {n : Nat} {lengths : List Nat} (h : n + lengths.sum + entryRoom ≤ stagingRoom) :
    level n lengths = n + lengths.sum := by
  induction lengths generalizing n with
  | nil => rfl
  | cons length lengths ih =>
    rw [List.sum_cons] at h
    have hroom : ¬ stagingRoom < n + entryRoom := by omega
    rw [level, List.foldl_cons, if_neg hroom, List.sum_cons]
    have hrest := ih (n := n + length) (by omega)
    rw [level] at hrest
    rw [hrest, Nat.add_assoc]

namespace Staging

theorem size_makeRoom (s : Staging) :
    s.makeRoom.buffer.size = if stagingRoom < s.buffer.size + entryRoom then 0 else s.buffer.size := by
  unfold makeRoom
  split <;> rfl

theorem size_push (style : TextStyle) (s : Staging) (v : UInt32) : (push style s v).buffer.size
    = s.makeRoom.buffer.size + if s.started then entry v else (digits v.toNat).length := by
  rw [← started_makeRoom s]
  unfold push entry
  cases h : s.makeRoom.started <;> simp [h, Array.appendList_eq_append, ← Array.length_toList, Nat.add_comm 1]

/-- **A value never overfills the buffer**, however full it was. -/
theorem size_push_le (style : TextStyle) (s : Staging) (v : UInt32) : (push style s v).buffer.size ≤ stagingRoom := by
  have hentry := entry_le v
  have hdigits : (digits v.toNat).length ≤ entry v := Nat.le_add_left _ _
  have hroom : s.makeRoom.buffer.size + entryRoom ≤ stagingRoom := by
    rw [size_makeRoom]
    split
    · decide
    · omega
  rw [size_push]
  split <;> omega

theorem size_foldl (style : TextStyle) (values : List UInt32) {s : Staging} (h : s.started = true) :
    (values.foldl (push style) s).buffer.size = level s.buffer.size (values.map entry) := by
  induction values generalizing s with
  | nil => rfl
  | cons v values ih =>
    rw [List.foldl_cons, ih rfl, size_push, size_makeRoom, h]
    rfl

/-- **How full the buffer is depends on the lengths of the entries only.** -/
theorem size_pushAll (style : TextStyle) (values : List UInt32) :
    (pushAll style values).buffer.size = level (opening style).length (entries values) := by
  have hstart : (start style).buffer.size = (opening style).length := by simp [start]
  cases values with
  | nil => exact hstart
  | cons v values =>
    rw [pushAll, List.foldl_cons, size_foldl style values rfl, size_push, size_makeRoom, hstart]
    simp [start, entries, level]

theorem size_pushAll_le (style : TextStyle) (values : List UInt32) : (pushAll style values).buffer.size ≤ stagingRoom := by
  cases values using List.reverseRecOn with
  | nil => cases style <;> decide
  | append_singleton values v =>
    rw [pushAll, List.foldl_append]
    exact size_push_le ..

/-! ## Pieces -/

/-- Whether all pieces that have left were so full that another entry might not have fitted, and not too full. -/
def Packed (s : Staging) : Prop :=
  ∀ piece ∈ s.left, stagingRoom < piece.length + entryRoom ∧ piece.length ≤ stagingRoom

theorem Packed.push {s : Staging} (h : s.Packed) (hsize : s.buffer.size ≤ stagingRoom) (style : TextStyle) (v : UInt32) :
    (push style s v).Packed := by
  intro piece hpiece
  have hleft : piece ∈ s.makeRoom.left := hpiece
  unfold makeRoom at hleft
  split at hleft
  · rename_i hfull
    rcases List.mem_cons.1 hleft with rfl | hleft
    · rw [Array.length_toList]
      exact ⟨hfull, hsize⟩
    · exact h piece hleft
  · exact h piece hleft

/-- **Only full pieces leave the buffer in front of its end.** -/
theorem packed_pushAll (style : TextStyle) (values : List UInt32) : (pushAll style values).Packed := by
  induction values using List.reverseRecOn with
  | nil =>
    intro piece hpiece
    cases hpiece
  | append_singleton values v ih =>
    rw [pushAll, List.foldl_append]
    exact ih.push (size_pushAll_le style values) style v

end Staging

/-- The pieces of a text are those that were full, and what is in the buffer at the end. -/
theorem pieces_eq (style : TextStyle) (values : List UInt32) : pieces style values
    = (Staging.pushAll style values).left.reverse ++ [(Staging.pushAll style values).buffer.toList ++ closing style] := by
  simp [pieces, Staging.pieces, Staging.finish, Array.appendList_eq_append]

theorem length_closing_le (style : TextStyle) : (closing style).length ≤ 1 := by cases style <;> decide

theorem closing_ne_nil {style : TextStyle} : closing style ≠ [] ↔ style = .jsonArray := by cases style <;> simp [closing]

/-- **A piece is too long just where the last value of a list in brackets leaves no room at all.** -/
theorem overfull_piece_iff {style : TextStyle} {values : List UInt32} :
    (∃ piece ∈ pieces style values, stagingRoom < piece.length) ↔
      style = .jsonArray ∧ level (opening style).length (entries values) = stagingRoom := by
  have hsize := Staging.size_pushAll_le style values
  rw [pieces_eq, ← Staging.size_pushAll, ← closing_ne_nil]
  constructor
  · rintro ⟨piece, hpiece, hlong⟩
    rcases List.mem_append.1 hpiece with hfull | hlast
    · have hshort := (Staging.packed_pushAll style values piece (List.mem_reverse.1 hfull)).2
      omega
    · rw [List.mem_singleton.1 hlast, List.length_append, Array.length_toList] at hlong
      have hclosing := length_closing_le style
      refine ⟨fun hnone => ?_, by omega⟩
      rw [hnone, List.length_nil] at hlong
      omega
  · rintro ⟨hclosing, hfull⟩
    refine ⟨_, List.mem_append_right _ (List.mem_singleton_self _), ?_⟩
    have hpos := List.length_pos_of_ne_nil hclosing
    rw [List.length_append, Array.length_toList]
    omega

/-! ## What a destination sees -/

end Text

namespace Destination

theorem sizes_writeAll (d : Destination) (bs : Bytes) : ∃ sizes,
    (d.writeAll bs).1.sizes.toList = d.sizes.toList ++ sizes ∧ ∀ n ∈ sizes, n ≤ bs.length := by
  obtain ⟨taken, rest, hbs, hoffered, -⟩ := d.met_writeAll bs
  obtain ⟨sizes, hsizes, -, hsum⟩ := hoffered.sizes
  refine ⟨_, hsizes, ?_⟩
  intro n hn
  rcases List.mem_append.1 hn with hn | hn
  · have hle := List.le_sum_of_mem hn
    rw [hbs, List.length_append]
    omega
  · have hzero : n = 0 := by
      revert hn
      generalize (d.writeAll bs).2 = fault
      rcases fault with - | - | - <;> simp [lastSize]
    omega

theorem sizes_writePieces {most : Nat} {pieces : List Bytes} (h : ∀ piece ∈ pieces, piece.length ≤ most)
    (d : Destination) : ∃ sizes,
    (d.writePieces pieces).1.sizes.toList = d.sizes.toList ++ sizes ∧ ∀ n ∈ sizes, n ≤ most := by
  induction pieces generalizing d with
  | nil => exact ⟨[], (List.append_nil _).symm, nofun⟩
  | cons piece pieces ih =>
    obtain ⟨hpiece, hpieces⟩ := List.forall_mem_cons.1 h
    obtain ⟨first, hfirst, hshort⟩ := d.sizes_writeAll piece
    have hshort' : ∀ n ∈ first, n ≤ most := fun n hn => Nat.le_trans (hshort n hn) hpiece
    rw [writePieces]
    rcases hwrite : d.writeAll piece with ⟨d', _ | why⟩
    · obtain ⟨rest, hrest, hshort''⟩ := ih hpieces d'
      rw [hwrite] at hfirst
      refine ⟨first ++ rest, ?_, List.forall_mem_append.2 ⟨hshort', hshort''⟩⟩
      rw [← List.append_assoc, ← hfirst]
      exact hrest
    · rw [hwrite] at hfirst
      exact ⟨first, hfirst, hshort'⟩

/-- A destination without limits takes all that it is offered in one call. -/
theorem writeAll_willing {d : Destination} (hreplies : d.replies = []) (hmost : d.most = none) {bs : Bytes} (hbs : bs ≠ []) :
    d.writeAll bs = (d.take bs, none) := by
  obtain ⟨replies, most, flushFault, received, sizes, flushes⟩ := d
  obtain rfl : replies = [] := hreplies
  obtain rfl : most = none := hmost
  rw [writeAll, if_neg (by simpa using hbs)]
  simp [cut, hbs, writeAll]

/-- Each piece that is not empty is a call of a destination without limits. -/
theorem sizes_writePieces_willing {d : Destination} (hreplies : d.replies = []) (hmost : d.most = none)
    (pieces : List Bytes) : (d.writePieces pieces).2 = none ∧
    (d.writePieces pieces).1.sizes.toList = d.sizes.toList ++ (pieces.filter (· ≠ [])).map List.length := by
  induction pieces generalizing d with
  | nil => exact ⟨rfl, (List.append_nil _).symm⟩
  | cons piece pieces ih =>
    by_cases hnone : piece = []
    · subst hnone
      have hwrite : d.writeAll [] = (d, none) := by rw [writeAll]; rfl
      rw [writePieces, hwrite]
      simpa using ih hreplies hmost
    · have htake := ih (d := d.take piece) hreplies hmost
      rw [writePieces, writeAll_willing hreplies hmost hnone]
      simpa [hnone, take] using htake

end Destination

namespace Text

theorem sizes_writeText (b : Bitmap) (style : TextStyle) (d : Destination) :
    (writeText b style d).1.sizes = (d.writePieces (pieces style b.values)).1.sizes := by
  unfold writeText
  rcases d.writePieces (pieces style b.values) with ⟨d', _ | why⟩ <;> rfl

theorem length_piece_le {style : TextStyle} {values : List UInt32} :
    ∀ piece ∈ pieces style values, piece.length ≤ stagingRoom + (closing style).length := by
  intro piece hpiece
  rw [pieces_eq] at hpiece
  rcases List.mem_append.1 hpiece with hfull | hlast
  · exact Nat.le_add_right_of_le (Staging.packed_pushAll style values piece (List.mem_reverse.1 hfull)).2
  · rw [List.mem_singleton.1 hlast, List.length_append, Array.length_toList]
    exact Nat.add_le_add_right (Staging.size_pushAll_le style values) _

/-- **The staging buffer is overfull where the last value of a list in brackets has filled it to the brim.**  While the
values go in it keeps within its room, and it is written out early only when the next value might not fit.  What stands
behind all values goes in regardless, so then the last piece is longer than the room by the closing bracket, and a
destination that takes what it is offered gets it so in one call. -/
theorem overfull_iff (b : Bitmap) (style : TextStyle) :
    (∀ front, front <+: b.values → (Staging.pushAll style front).buffer.size ≤ stagingRoom) ∧
    (∃ full last, pieces style b.values = full ++ [last] ∧
      (∀ piece ∈ full, stagingRoom < piece.length + entryRoom ∧ piece.length ≤ stagingRoom) ∧
      last.length = level (opening style).length (entries b.values) + (closing style).length) ∧
    ((∃ piece ∈ pieces style b.values, stagingRoom < piece.length) ↔
      style = .jsonArray ∧ level (opening style).length (entries b.values) = stagingRoom) ∧
    (∀ d : Destination, ∃ sizes, (writeText b style d).1.sizes.toList = d.sizes.toList ++ sizes ∧
      ∀ n ∈ sizes, n ≤ stagingRoom + (closing style).length) ∧
    (writeText b style .unlimited).1.sizes.toList = ((pieces style b.values).filter (· ≠ [])).map List.length := by
  refine ⟨fun front _ => Staging.size_pushAll_le style front, ?_, overfull_piece_iff, fun d => ?_, ?_⟩
  · refine ⟨_, _, pieces_eq style b.values, fun piece hpiece => ?_, ?_⟩
    · exact Staging.packed_pushAll style b.values piece (List.mem_reverse.1 hpiece)
    · rw [List.length_append, Array.length_toList, Staging.size_pushAll]
  · rw [sizes_writeText]
    exact Destination.sizes_writePieces length_piece_le d
  · rw [sizes_writeText]
    exact (Destination.sizes_writePieces_willing rfl rfl _).2

/-- The values from 999999998 up to 1000005955. -/
def brimful : List UInt32 := (List.range' 999999998 5958).map UInt32.ofNat

theorem toNat_of_mem_range' {start count n : Nat} (h : n ∈ List.range' start count) (hsmall : start + count ≤ 2 ^ 32) :
    (UInt32.ofNat n).toNat = n :=
  UInt32.toNat_ofNat_of_lt' (Nat.lt_of_lt_of_le (List.mem_range'_1.1 h).2 hsmall)

theorem pairwise_brimful : brimful.Pairwise (· < ·) := by
  refine List.pairwise_map.2 ((List.pairwise_lt_range' ..).imp_of_mem fun {m n} hm hn hlt => ?_)
  rw [UInt32.lt_iff_toNat_lt, toNat_of_mem_range' hm (by decide), toNat_of_mem_range' hn (by decide)]
  exact hlt

theorem entries_brimful : entries brimful = 9 :: 10 :: List.replicate 5955 11 ++ [11] := by
  have hsplit : List.range' 999999998 5958
      = 999999998 :: 999999999 :: (List.range' 1000000000 5955 ++ [1000005955]) := by
    rw [List.range'_succ, List.range'_succ, List.range'_concat]
  have hlong : ∀ n ∈ List.range' 1000000000 5955, entry (UInt32.ofNat n) = 11 := by
    intro n hn
    have hrange := List.mem_range'_1.1 hn
    have hlow : 10 ^ 9 ≤ n := hrange.1
    have hhigh : n < 10 ^ (9 + 1) := Nat.lt_trans hrange.2 (by decide)
    rw [entry, toNat_of_mem_range' hn (by decide), length_digits hlow hhigh]
  have hnine : (digits (UInt32.ofNat 999999998).toNat).length = 9 := length_digits (k := 8) (by decide) (by decide)
  have hten : entry (UInt32.ofNat 999999999) = 10 :=
    congrArg (1 + ·) (length_digits (k := 8) (by decide) (by decide))
  have hlast : entry (UInt32.ofNat 1000005955) = 11 :=
    congrArg (1 + ·) (length_digits (k := 9) (by decide) (by decide))
  have hmap : ((List.range' 1000000000 5955).map UInt32.ofNat).map entry = List.replicate 5955 11 := by
    rw [List.map_map]
    exact (List.map_congr_left hlong).trans (by rw [List.map_const', List.length_range'])
  rw [brimful, hsplit]
  simp only [List.map_cons, List.map_append, List.map_nil, entries, hnine, hten, hlast, hmap, List.cons_append]

theorem level_brimful : level (opening .jsonArray).length (entries brimful) = stagingRoom := by
  have hsum : (9 :: 10 :: List.replicate 5955 11).sum = 65524 := by
    rw [List.sum_cons, List.sum_cons, List.sum_replicate_nat]
  have hfront : level 1 (9 :: 10 :: List.replicate 5955 11) = 65525 := by
    rw [level_of_fits] <;> rw [hsum]
    decide
  show level 1 (entries brimful) = stagingRoom
  rw [entries_brimful, level_append, hfront]
  rfl

/-- **The text of these values in brackets has a piece that is longer than the room**: their digits and commas fill the
buffer to the brim, and the closing bracket still goes in. -/
theorem brimful_overfull : (Bitmap.ofList brimful).valid = true ∧
    ¬ (∀ piece ∈ pieces .jsonArray (Bitmap.ofList brimful).values, piece.length ≤ stagingRoom) ∧
    stagingRoom + 1 ∈ (writeText (.ofList brimful) .jsonArray .unlimited).1.sizes.toList := by
  have hlevel := level_brimful
  rw [← Bitmap.values_ofList_of_pairwise pairwise_brimful] at hlevel
  obtain ⟨piece, hpiece, hlong⟩ := overfull_piece_iff.2 ⟨rfl, hlevel⟩
  have hlength : piece.length = stagingRoom + 1 := Nat.le_antisymm (length_piece_le piece hpiece) hlong
  refine ⟨Bitmap.valid_ofList _, fun hall => Nat.not_le.2 hlong (hall piece hpiece), ?_⟩
  rw [sizes_writeText, (Destination.sizes_writePieces_willing rfl rfl _).2]
  refine List.mem_append_right _ (List.mem_map.2 ⟨piece, List.mem_filter.2 ⟨hpiece, ?_⟩, hlength⟩)
  have hne : piece ≠ [] := List.ne_nil_of_length_pos (by omega)
  exact decide_eq_true hne

end Text
end BitmapWorks
