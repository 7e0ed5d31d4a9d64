import BitmapWorks.FileSystem
import BitmapWorks.Ledger
import BitmapWorks.Shelf
/-!
# World — what the tasks of a dispatcher share

The ledger's total, the shelf of bitmaps, the files, and the doors that stand open.  Holders of bitmaps come and go here,
and when the last one goes the ledger gets the bitmap's charge back.
-/
namespace BitmapWorks

/-- The ledger's total, the bitmaps, the files, and the names of the doors that stand open. -/
structure World where
  total : Int
  shelf : Shelf
  files : FileSystem
  openDoors : List String
  deriving Repr

namespace World

def empty : World := ⟨0, .empty, .empty, []⟩

def credit (w : World) (tally : Int) : World := { w with total := Ledger.adjust w.total tally }

def discharge (w : World) (bytes : Nat) : World := { w with total := Ledger.released w.total bytes }

def hold (w : World) (i : Nat) : World := { w with shelf := w.shelf.hold i }

def letGo (w : World) (i : Nat) : World :=
  let (bytes, shelf) := w.shelf.drop i
  { w with shelf }.discharge bytes

def freeze (w : World) (i : Nat) : World := { w with shelf := w.shelf.freeze i }

def unfreeze (w : World) (i : Nat) : World :=
  let (bytes, shelf) := w.shelf.unfreeze i
  { w with shelf }.discharge bytes

def place (w : World) (c : Content) (charge : Option Nat) : Nat × World :=
  let (i, shelf) := w.shelf.put c charge
  (i, { w with shelf })

/-- The bitmap of a number; the empty one if there is none. -/
def bitmap (w : World) (i : Nat) : Bitmap := ((w.shelf.get? i).map Slot.bitmap).getD .empty

def openDoor (w : World) (name : String) : World := { w with openDoors := name :: w.openDoors }

end World
end BitmapWorks
