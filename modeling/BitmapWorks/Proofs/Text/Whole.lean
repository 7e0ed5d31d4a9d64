import BitmapWorks.Proofs.Stream.Offers
import BitmapWorks.Text.Render
/-!
# Whole — the text of a bitmap in one piece

A destination without limits gets all pieces of a text, one behind the other (`Text.bytes_eq`).  Put together, the pieces
that leave the staging buffer are the text of the values, wherever the buffer was emptied (`Text.flatten_pieces`).
-/
namespace BitmapWorks

/-- **The text of a bitmap is its pieces, one behind the other.** -/
theorem Text.bytes_eq (b : Bitmap) (style : TextStyle) : bytes b style = (pieces style b.values).flatten := by
  obtain ⟨taken, rest, hpieces, hoffered, hall⟩ := Destination.met_writePieces .unlimited (pieces style b.values)
  have hnone := hoffered.answers.eq_none nofun nofun
  obtain rfl := hall.1 hnone
  have hreceived := hoffered.received
  rw [List.append_nil] at hpieces
  unfold bytes writeText
  rw [hpieces, ← List.nil_append taken]
  cases hwrite : Destination.unlimited.writePieces (pieces style b.values) with
  | mk d fault =>
    rw [hwrite] at hnone hreceived
    subst hnone
    exact hreceived

namespace Text

theorem digitsOnto_eq (n : Nat) (behind : Bytes) : digitsOnto n behind = digits n ++ behind := by
  induction n using Nat.strongRecOn generalizing behind with
  | ind n ih =>
    by_cases hn : n < 10
    · simp [digits, digitsOnto, hn]
    · have hless : n / 10 < n := by omega
      have hstep : ∀ behind, digitsOnto n behind = digitsOnto (n / 10) (UInt8.ofNat (48 + n % 10) :: behind) := by
        intro behind
        rw [digitsOnto]
        exact if_neg hn
      rw [digits, hstep, hstep, ih _ hless, ih _ hless [_], List.append_assoc]
      rfl

theorem digits_of_lt {n : Nat} (h : n < 10) : digits n = [UInt8.ofNat (48 + n)] := by
  rw [digits, digitsOnto, Nat.mod_eq_of_lt h]
  exact if_pos h

/-- The last digit of a number stands behind the digits of its tenth. -/
theorem digits_of_le {n : Nat} (h : 10 ≤ n) : digits n = digits (n / 10) ++ [UInt8.ofNat (48 + n % 10)] := by
  rw [← digitsOnto_eq, digits, digitsOnto]
  exact if_neg (Nat.not_lt.2 h)

def tail (style : TextStyle) (values : List UInt32) : Bytes :=
  values.flatMap fun v => separator style :: digits v.toNat

theorem joined_cons (style : TextStyle) (v : UInt32) (values : List UInt32) :
    joined style (v :: values) = digits v.toNat ++ tail style values := by
  induction values generalizing v with
  | nil => simp [joined, tail]
  | cons w values ih => simp [joined, ih, tail]

namespace Staging

def text (s : Staging) : Bytes := s.pieces.flatten

theorem text_eq (s : Staging) : s.text = s.left.reverse.flatten ++ s.buffer.toList := by
  simp [text, pieces]

theorem text_makeRoom (s : Staging) : s.makeRoom.text = s.text := by
  unfold makeRoom
  split <;> simp [text_eq]

theorem started_makeRoom (s : Staging) : s.makeRoom.started = s.started := by
  unfold makeRoom
  split <;> rfl

theorem text_push (style : TextStyle) (s : Staging) (v : UInt32) :
    (push style s v).text = s.text ++ ((if s.started then [separator style] else []) ++ digits v.toNat) := by
  rw [← text_makeRoom s, ← started_makeRoom s]
  unfold push
  cases h : s.makeRoom.started <;> simp [text_eq, h, Array.appendList_eq_append]

theorem text_foldl (style : TextStyle) (values : List UInt32) {s : Staging} (h : s.started = true) :
    (values.foldl (push style) s).text = s.text ++ tail style values := by
  induction values generalizing s with
  | nil => simp [tail]
  | cons v values ih =>
    have hstarted : (push style s v).started = true := rfl
    rw [List.foldl_cons, ih hstarted, text_push, h]
    simp [tail]

theorem text_pushAll (style : TextStyle) (values : List UInt32) :
    (pushAll style values).text = opening style ++ joined style values := by
  have hstart : (start style).text = opening style := by simp [text_eq, start]
  cases values with
  | nil => simp [pushAll, joined, hstart]
  | cons v values =>
    have hfirst : (push style (start style) v).text = opening style ++ digits v.toNat := by
      rw [text_push, hstart]
      rfl
    rw [pushAll, List.foldl_cons, text_foldl style values rfl, hfirst, joined_cons, List.append_assoc]

theorem text_finish (style : TextStyle) (s : Staging) : (s.finish style).text = s.text ++ closing style := by
  simp [text_eq, finish, Array.appendList_eq_append]

end Staging

/-- **The pieces of a text make up the text of the values**, wherever they were cut. -/
theorem flatten_pieces (style : TextStyle) (values : List UInt32) :
    (pieces style values).flatten = render style values := by
  have hpieces : (pieces style values).flatten = ((Staging.pushAll style values).finish style).text := rfl
  rw [hpieces, Staging.text_finish, Staging.text_pushAll, render]

theorem bytes_eq_render (b : Bitmap) (style : TextStyle) : bytes b style = render style b.values := by
  rw [bytes_eq, flatten_pieces]

end Text
end BitmapWorks
