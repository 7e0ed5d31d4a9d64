import BitmapWorks.Encoding
import BitmapWorks.Frozen
/-!
# Decoding — bitmaps from bytes

`decode` gives the contents of a handle: a bitmap of its own, or a frozen one that keeps a copy of the bytes.  No bytes
at all are the empty bitmap in every format.  `decodeOwned` takes the containers out of a frozen one.
-/
namespace BitmapWorks

/-- What a handle holds: a bitmap of its own or a frozen one. -/
inductive Content where
  | owned (bitmap : Bitmap)
  | frozen (frozen : Frozen)
  deriving DecidableEq, Repr

namespace Content

def bitmap : Content → Bitmap
  | owned b => b
  | frozen v => v.bitmap

def isView : Content → Bool
  | owned _ => false
  | frozen _ => true

/-- The bytes that the contents count for: the portable size, or the memory of the copy. -/
def footprint : Content → Nat
  | owned b => Portable.size b
  | frozen v => v.window.allocated

end Content

namespace Decoding

def wrongCount : Fault := .corrupted "corrupted data, wrong cardinality header"

def ofWords (bs : Bytes) : Bitmap := .ofList (Bytes.words32 bs)

def portable (bs : Bytes) : Except Fault Bitmap :=
  match Portable.decode? bs with
  | some b => .ok b
  | none => .error Frozen.badPortable

def tagged : Bytes → Except Fault Bitmap
  | [] => .error (.corrupted "invalid header byte")
  | tag :: rest =>
    if tag = Encoding.valuesTag then
      match Bytes.split? 4 rest with
      | none => .error wrongCount
      | some (count, values) =>
        if Bytes.leNat count * 4 + 5 = rest.length + 1 then .ok (ofWords values) else .error wrongCount
    else if tag = Encoding.containersTag then portable rest
    else .error (.corrupted "invalid header byte")

def words (bs : Bytes) : Except Fault Bitmap :=
  if bs.length % 4 ≠ 0 then .error (.corrupted "uint32 array length is not a multiple of 4")
  else if 1 <<< 32 ≤ bs.length / 4 then .error (.corrupted "uint32 array too large")
  else .ok (ofWords bs)

/-- The contents that bytes encode in a format, where memory for a copy is given at `base`. -/
def decode (base : Nat) (bs : Bytes) (f : Format) : Except Fault Content :=
  if bs.isEmpty then .ok (.owned .empty)
  else match f with
    | .portable => .owned <$> portable bs
    | .tagged => .owned <$> tagged bs
    | .frozenNative | .frozenPortable => .frozen <$> Frozen.copy base bs f

def decodeOwned (base : Nat) (bs : Bytes) (f : Format) : Except Fault Bitmap :=
  if bs.isEmpty then .ok .empty
  else match f with
    | .portable => portable bs
    | .tagged => tagged bs
    | .frozenNative | .frozenPortable => Frozen.bitmap <$> Frozen.copy base bs f

end Decoding
end BitmapWorks
