import BitmapWorks.Format
import BitmapWorks.Native
import BitmapWorks.Portable
import BitmapWorks.Window
/-!
# Encoding — bitmaps as bytes in the binary formats

`encode` says what the bytes are and `encodedSize` how many, without building them.  `serialize` puts them into memory
of exactly that size; `writeInto` puts them into memory of a caller, if they fit and the memory starts on the boundary
of the format, and otherwise leaves that memory alone.

The tagged format has two forms: plain values behind a count, or the portable layout.  `plan` takes the smaller one.
-/
namespace BitmapWorks
namespace Encoding

def valuesTag : UInt8 := 1

def containersTag : UInt8 := 2

/-- Sets of this size and above are never written as plain values. -/
def valuesLimit : Nat := 1 <<< 24

/-! ## The two forms of the tagged format -/

/-- A form of the tagged format: so many plain values, or the portable layout of so many bytes. -/
inductive Plan where
  | values (card : Nat)
  | containers (size : Nat)
  deriving DecidableEq, Repr

def Plan.length : Plan → Nat
  | values card => 1 + 4 + card * 4
  | containers size => 1 + size

/-- The smaller form; the portable layout if both are of a size. -/
def plan (b : Bitmap) : Plan :=
  let card := b.card
  let size := Portable.size b
  if card < valuesLimit ∧ card * 4 + 4 < size then .values card else .containers size

/-! ## Encodings -/

def wordBytes (b : Bitmap) : Bytes := b.values.flatMap Bytes.ofWord32

def tagged (b : Bitmap) : Bytes :=
  match plan b with
  | .values card => valuesTag :: (Bytes.le 4 card ++ wordBytes b)
  | .containers _ => containersTag :: Portable.encode b

def encode (b : Bitmap) : Format → Bytes
  | .tagged => tagged b
  | .portable | .frozenPortable => Portable.encode b
  | .frozenNative => Native.encode b

def encodedSize (b : Bitmap) : Format → Nat
  | .tagged => (plan b).length
  | .portable | .frozenPortable => Portable.size b
  | .frozenNative => Native.size b

def put (b : Bitmap) (f : Format) (memory : Bytes) : Except Fault (Nat × Bytes) :=
  let bytes := encode b f
  if bytes.length ≤ memory.length then .ok (bytes.length, bytes ++ memory.drop bytes.length)
  else .error (.bufferTooSmall bytes.length memory.length)

def serialize (base : Nat) (b : Bitmap) (f : Format) : Except Fault Window := do
  let window ← Window.zeroed base (encodedSize b f) f.alignment
  let (written, bytes) ← put b f window.visible
  return (window.write bytes).truncate written

/-- Writes the encoding to the front of a caller's memory at an address: how many bytes, or why not, and the memory
afterwards. -/
def writeInto (b : Bitmap) (f : Format) (address : Nat) (memory : Bytes) : Except Fault Nat × Bytes :=
  let required := encodedSize b f
  if memory.length < required then (.error (.bufferTooSmall required memory.length), memory)
  else if !Window.isAligned address f.alignment then (.error (.misaligned f.alignment), memory)
  else match put b f (memory.take required) with
    | .ok (written, bytes) => (.ok written, bytes ++ memory.drop required)
    | .error fault => (.error fault, memory)

end Encoding
end BitmapWorks
