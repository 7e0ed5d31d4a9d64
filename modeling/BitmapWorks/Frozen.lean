import BitmapWorks.Format
import BitmapWorks.Native
import BitmapWorks.Portable
import BitmapWorks.Window
/-!
# Frozen — bitmaps used in place

In the two frozen formats the containers are used where the bytes lie.  `check` tests what can be tested of the bytes
before that; past it the bytes are trusted.  A `Frozen` owns a copy of the bytes on the boundary that both formats are
content with, while `alias?` looks at a caller's bytes wherever they start.
-/
namespace BitmapWorks

/-- A frozen bitmap: the window that holds its bytes, their format, and what they show. -/
structure Frozen where
  window : Window
  format : Format
  bitmap : Bitmap
  deriving DecidableEq, Repr

namespace Frozen

def notFrozen (f : Format) : Fault := .argument (f.name ++ " is not a frozen format")

def badPortable : Fault := .corrupted "invalid portable data"

def misfit : Native.Misfit → Fault
  | .tooShort => .corrupted "frozen data too short"
  | .badTrailer => .corrupted "invalid frozen header"

def check (address : Nat) (bs : Bytes) : Format → Except Fault Unit
  | .frozenNative =>
    if !Window.isAligned address Format.frozenAlignment then .error (.misaligned Format.frozenAlignment)
    else (Native.fits bs).mapError misfit
  | .frozenPortable => if (Portable.decode? bs).isSome then .ok () else .error badPortable
  | f => .error (notFrozen f)

def view (bs : Bytes) : Format → Bitmap
  | .frozenNative => Native.view bs
  | _ => (Portable.view? bs).getD .empty

def ofWindow (w : Window) (f : Format) : Except Fault Frozen := do
  check w.start w.visible f
  return ⟨w, f, view w.visible f⟩

def copy (base : Nat) (bs : Bytes) (f : Format) : Except Fault Frozen := do
  ofWindow (← Window.copy base bs Format.frozenAlignment) f

def describe (v : Frozen) : String :=
  "FrozenBitmap \x7b format: " ++ v.format.label ++ ", bytes: " ++ toString v.window.length ++ ", cardinality: "
    ++ toString v.bitmap.card ++ " \x7d"

def describeAlias (f : Format) (b : Bitmap) : String :=
  "UnsafeAliasedView \x7b format: " ++ f.label ++ ", cardinality: " ++ toString b.card ++ " \x7d"

/-- A caller's bytes at an address, used in place; `none` if there are no bytes. -/
def alias? (address : Nat) (bs : Bytes) (f : Format) : Except Fault (Option Bitmap) :=
  if !f.isFrozen then .error (notFrozen f)
  else if bs.isEmpty then .ok none
  else do
    check address bs f
    return some (view bs f)

end Frozen
end BitmapWorks
