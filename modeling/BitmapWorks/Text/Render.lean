import BitmapWorks.Bitmap
import BitmapWorks.Format
import BitmapWorks.Stream
/-!
# Render — bitmaps as text

`TextStyle.render` says what the text of some values is.  `pieces` is the same text cut as it leaves a staging buffer
that is emptied whenever the next value might not fit, and `writeText` hands these pieces to a destination.
-/
namespace BitmapWorks
namespace Text

/-! ## The text of values -/

def digitsOnto (n : Nat) (behind : Bytes) : Bytes :=
  let here := UInt8.ofNat (48 + n % 10) :: behind
  if n < 10 then here else digitsOnto (n / 10) here

def digits (n : Nat) : Bytes := digitsOnto n []

def separator : TextStyle → UInt8
  | .lines => 10
  | .tabs => 9
  | .commas | .jsonArray => 44

def opening : TextStyle → Bytes
  | .jsonArray => [91]
  | _ => []

def closing : TextStyle → Bytes
  | .jsonArray => [93]
  | _ => []

def joined (style : TextStyle) : List UInt32 → Bytes
  | [] => []
  | [v] => digits v.toNat
  | v :: w :: rest => digits v.toNat ++ separator style :: joined style (w :: rest)

def render (style : TextStyle) (values : List UInt32) : Bytes := opening style ++ joined style values ++ closing style

/-! ## Staging -/

def stagingRoom : Nat := 65536

/-- The most bytes that one value takes with its separator. -/
def entryRoom : Nat := 11

/-- A staging buffer, whether a value has come yet, and the pieces that have left, newest first. -/
structure Staging where
  buffer : Array UInt8
  started : Bool
  left : List Bytes

namespace Staging

def start (style : TextStyle) : Staging := ⟨(opening style).toArray, false, []⟩

/-- Empties the buffer if the next value might not fit. -/
def makeRoom (s : Staging) : Staging :=
  if stagingRoom < s.buffer.size + entryRoom then ⟨#[], s.started, s.buffer.toList :: s.left⟩ else s

def push (style : TextStyle) (s : Staging) (v : UInt32) : Staging :=
  let s := s.makeRoom
  let buffer := if s.started then s.buffer.push (separator style) else s.buffer
  ⟨buffer.appendList (digits v.toNat), true, s.left⟩

def pushAll (style : TextStyle) (values : List UInt32) : Staging := values.foldl (push style) (start style)

def finish (style : TextStyle) (s : Staging) : Staging := { s with buffer := s.buffer.appendList (closing style) }

/-- The pieces in order, the last one being what is in the buffer. -/
def pieces (s : Staging) : List Bytes := (s.buffer.toList :: s.left).reverse

end Staging

def pieces (style : TextStyle) (values : List UInt32) : List Bytes :=
  ((Staging.pushAll style values).finish style).pieces

def writeText (b : Bitmap) (style : TextStyle) (d : Destination) : Destination × Option WriteFault :=
  match d.writePieces (pieces style b.values) with
  | (d', none) => d'.flush
  | stopped => stopped

/-- The text of a bitmap, as a destination without limits gets it. -/
def bytes (b : Bitmap) (style : TextStyle) : Bytes := (writeText b style .unlimited).1.received.toList

end Text
end BitmapWorks
