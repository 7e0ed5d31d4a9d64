import BitmapWorks.Text.Scan
import Mathlib.Data.List.TakeWhile
import Mathlib.Tactic.Common
/-!
# Arrival — it makes no difference how a text arrives

A source hands out a text in pieces of any length, with interrupted calls between them, until a piece without bytes ends
the text or a call fails.  Scanning what comes finds what scanning the whole text at once finds, and a call that fails
before the end leaves no bitmap (`Text.scanSource_eq`).  `Text.receive` makes the calls one by one and has all pieces read
into one chunk of memory, where the bytes behind a shorter piece are those of an earlier one.
-/
namespace BitmapWorks

def ReadReply.goesOn : ReadReply → Bool
  | .piece bs => !bs.isEmpty
  | .interrupted => true
  | .fails _ => false

def ReadReply.bytes : ReadReply → Bytes
  | .piece bs => bs
  | _ => []

def ReadReply.errno? : ReadReply → Option Int
  | .fails n => some n
  | _ => none

namespace Source

def bytes (source : Source) : Bytes := (source.takeWhile ReadReply.goesOn).flatMap ReadReply.bytes

/-- The error number of the first call that fails, if it comes before the end. -/
def failure? (source : Source) : Option Int := (source.dropWhile ReadReply.goesOn).head?.bind ReadReply.errno?

def putBack (bs : Bytes) (source : Source) : Source := if bs.isEmpty then source else .piece bs :: source

def call (room : Nat) : Source → ReadReply × Source
  | .piece bs :: source => (.piece (bs.take room), putBack (bs.drop room) source)
  | reply :: source => (reply, source)
  | [] => (.piece [], [])

theorem weight_putBack_le (bs : Bytes) (source : Source) :
    (putBack bs source).weight ≤ weight (.piece bs :: source) := by
  unfold putBack
  split
  · simp only [weight]
    omega
  · exact Nat.le_refl _

theorem weight_call_lt {room : Nat} {source rest : Source} {reply : ReadReply} (h : source.call room = (reply, rest))
    (hmore : reply.goesOn = true) : rest.weight < source.weight := by
  match source with
  | [] =>
    simp only [call, Prod.mk.injEq] at h
    simp [← h.1, ReadReply.goesOn] at hmore
  | .interrupted :: source =>
    simp only [call, Prod.mk.injEq] at h
    simp [← h.2, weight]
  | .fails n :: source =>
    simp only [call, Prod.mk.injEq] at h
    simp [← h.1, ReadReply.goesOn] at hmore
  | .piece bs :: source =>
    simp only [call, Prod.mk.injEq] at h
    obtain ⟨rfl, rfl⟩ := h
    have hpart : bs.take room ≠ [] := by simpa [ReadReply.goesOn] using hmore
    have hlength := List.length_pos_iff.2 hpart
    have hle := weight_putBack_le (bs.drop room) source
    simp only [weight, List.length_take, List.length_drop] at hlength hle ⊢
    omega

end Source

namespace Text

/-! ## All at once -/

/-- What is found in a source from a scanner's state on, if all that comes is scanned at once. -/
def found (s : Scanner) (source : Source) : Except Int Bitmap :=
  match source.failure? with
  | some n => .error n
  | none => .ok (s.feedAll source.bytes).finish

variable {s : Scanner} {source : Source} {bs : Bytes}

theorem found_piece (hbs : bs ≠ []) : found s (.piece bs :: source) = found (s.feedAll bs) source := by
  have hgoes : (ReadReply.piece bs).goesOn = true := by simpa [ReadReply.goesOn] using hbs
  simp [found, Source.failure?, Source.bytes, hgoes, ReadReply.bytes, Scanner.feedAll]

/-- **A piece may be cut anywhere.** -/
theorem found_cut {room : Nat} (hpart : bs.take room ≠ []) :
    found s (.piece bs :: source) = found (s.feedAll (bs.take room)) (.putBack (bs.drop room) source) := by
  have hbs : bs ≠ [] := fun h => hpart (by simp [h])
  have hall : s.feedAll bs = (s.feedAll (bs.take room)).feedAll (bs.drop room) := by
    simp only [Scanner.feedAll, ← List.foldl_append, List.take_append_drop]
  rw [found_piece hbs, hall, Source.putBack]
  split <;> rename_i hnone
  · rw [List.isEmpty_iff.1 hnone]
    rfl
  · exact (found_piece fun h => hnone (by simp [h])).symm

/-! ## Piece by piece -/

theorem found_call {room : Nat} (hroom : 0 < room) : found s source = match source.call room with
    | (.interrupted, rest) => found s rest
    | (.fails n, _) => .error n
    | (.piece [], _) => .ok s.finish
    | (.piece (b :: bs), rest) => found (s.feedAll (b :: bs)) rest := by
  obtain ⟨room, rfl⟩ := Nat.exists_eq_succ_of_ne_zero hroom.ne'
  match source with
  | [] => rfl
  | .interrupted :: source => rfl
  | .fails n :: source => rfl
  | .piece [] :: source => rfl
  | .piece (b :: bs) :: source => exact found_cut (List.cons_ne_nil b _)

/-- What is left to be found when the next piece has come, past interrupted calls. -/
theorem found_next (room : Nat) : found s source = match source.next room with
    | (.error n, _) => .error n
    | (.ok [], _) => .ok s.finish
    | (.ok (b :: bs), rest) => found (s.feedAll (b :: bs)) rest := by
  induction source with
  | nil => rfl
  | cons reply source ih =>
    match reply with
    | .interrupted => exact ih
    | .fails n => rfl
    | .piece [] => rfl
    | .piece (b :: bs) => exact found_cut (List.cons_ne_nil b _)

theorem scanOnward_eq (s : Scanner) (source : Source) : scanOnward s source = found s source := by
  fun_induction scanOnward s source with
  | case1 s source n rest h => rw [found_next readRoom, h]
  | case2 s source rest h => rw [found_next readRoom, h]
  | case3 s source b bs rest h ih =>
    rw [found_next readRoom, h]
    exact ih

/-- The numbers in a source from a scanner's state on, by way of a chunk of memory. -/
def receive (chunk : Bytes) (s : Scanner) (source : Source) : Except Int Bitmap :=
  match _h : source.call chunk.length with
  | (.interrupted, rest) => receive chunk s rest
  | (.fails n, _) => throw n
  | (.piece [], _) => return s.finish
  | (.piece (b :: bs), rest) =>
    let chunk := (b :: bs) ++ chunk.drop (b :: bs).length
    receive chunk (s.feedAll (chunk.take (b :: bs).length)) rest
termination_by source.weight
decreasing_by all_goals exact Source.weight_call_lt _h rfl

theorem receive_eq {chunk : Bytes} (hchunk : chunk ≠ []) (s : Scanner) (source : Source) :
    receive chunk s source = found s source := by
  have hroom := List.length_pos_iff.2 hchunk
  fun_induction receive chunk s source with
  | case1 chunk s source rest h ih =>
    rw [found_call hroom, h]
    exact ih hchunk hroom
  | case2 chunk s source n rest h =>
    rw [found_call hroom, h]
    rfl
  | case3 chunk s source rest h =>
    rw [found_call hroom, h]
    rfl
  | case4 chunk s source b bs rest h chunk' ih =>
    -- what is behind the piece in the chunk is not looked at
    have hread : chunk'.take (b :: bs).length = b :: bs := List.take_left' rfl
    rw [found_call hroom, h, ih nofun (Nat.succ_pos _), hread]

/-- **A text is scanned the same however it arrives**: what is found is what a scan of all bytes up to the end finds,
and if a call fails before the end, its error number is all there is. -/
theorem scanSource_eq (source : Source) :
    scanSource source = (match source.failure? with
      | some n => .error n
      | none => .ok (scan source.bytes)) ∧
    ∀ c chunk, receive (c :: chunk) .start source = scanSource source := by
  refine ⟨scanOnward_eq .start source, fun c chunk => ?_⟩
  rw [receive_eq (List.cons_ne_nil c chunk), scanSource, scanOnward_eq]

/-- The text `12,-3` cut in its number, behind its separator and behind its sign. -/
example : (scanSource [.piece [49], .interrupted, .piece [50, 44], .piece [45], .interrupted, .piece [51]]).map
    Bitmap.values = .ok [12] := by cbv

end Text
end BitmapWorks
