import BitmapWorks.Decoding
/-!
# Shelf — bitmaps that several parties hold

Each slot of the shelf has one bitmap, which its holders share.  A holder has a handle or a freeze guard; while a guard
is alive every change is refused.  A change of a frozen bitmap in place copies it into a bitmap of its own first.  With
the last holder the slot is cleared, and the charge that came with its bitmap is given back.
-/
namespace BitmapWorks

/-- A shared bitmap: what it holds, how many handles and guards there are, and the bytes it is charged with. -/
structure Slot where
  content : Content
  handles : Nat
  guards : Nat
  charge : Option Nat
  deriving Repr

inductive Change where
  | add (v : UInt32)
  | addMany (vs : List UInt32)
  | remove (v : UInt32)
  | clear
  deriving DecidableEq, Repr

namespace Change

def apply (b : Bitmap) : Change → Bitmap
  | add v => b.add v
  | addMany vs => b.addMany vs
  | remove v => b.remove v
  | clear => .empty

def isNew (b : Bitmap) : Change → Bool
  | add v => !b.contains v
  | _ => false

end Change

namespace Slot

def ofContent (c : Content) (charge : Option Nat) : Slot := ⟨c, 1, 0, charge⟩

def bitmap (s : Slot) : Bitmap := s.content.bitmap

def isFrozen (s : Slot) : Bool := decide (0 < s.guards)

/-- Changes the bitmap; it is one of its own afterwards.  Guards are not looked at. -/
def apply (s : Slot) (c : Change) : Slot := { s with content := .owned (c.apply s.bitmap) }

def change (s : Slot) (c : Change) : Except Fault Bool × Slot :=
  if s.isFrozen then (.error .frozen, s) else (.ok (c.isNew s.bitmap), s.apply c)

def describe (s : Slot) : String :=
  "SharedBitmap \x7b cardinality: " ++ toString s.bitmap.card ++ ", view: " ++ toString s.content.isView
    ++ ", frozen: " ++ toString s.isFrozen ++ " \x7d"

def isHeld (s : Slot) : Bool := decide (0 < s.handles + s.guards)

theorem change_of_frozen {s : Slot} (h : s.isFrozen = true) (c : Change) : s.change c = (.error .frozen, s) := by
  simp [change, h]

theorem change_of_not_frozen {s : Slot} (h : s.isFrozen = false) (c : Change) :
    s.change c = (.ok (c.isNew s.bitmap), s.apply c) := by
  simp [change, h]

end Slot

/-- Slots by number; a cleared one stays empty. -/
structure Shelf where
  slots : List (Option Slot)
  deriving Repr

namespace Shelf

def empty : Shelf := ⟨[]⟩

def get? (s : Shelf) (i : Nat) : Option Slot := (s.slots[i]?).join

def put (s : Shelf) (c : Content) (charge : Option Nat) : Nat × Shelf :=
  (s.slots.length, ⟨s.slots ++ [some (.ofContent c charge)]⟩)

def modify (s : Shelf) (i : Nat) (f : Slot → Slot) : Shelf := ⟨s.slots.modify i (Option.map f)⟩

def hold (s : Shelf) (i : Nat) : Shelf := s.modify i fun t => { t with handles := t.handles + 1 }

def freeze (s : Shelf) (i : Nat) : Shelf := s.modify i fun t => { t with guards := t.guards + 1 }

/-- Clears the slot if nobody holds it any more: the bytes of its charge and the shelf afterwards. -/
def settle (s : Shelf) (i : Nat) : Nat × Shelf :=
  match s.get? i with
  | none => (0, s)
  | some t => if t.isHeld then (0, s) else (t.charge.getD 0, ⟨s.slots.set i none⟩)

def drop (s : Shelf) (i : Nat) : Nat × Shelf :=
  (s.modify i fun t => { t with handles := t.handles - 1 }).settle i

def unfreeze (s : Shelf) (i : Nat) : Nat × Shelf :=
  (s.modify i fun t => { t with guards := t.guards - 1 }).settle i

def change (s : Shelf) (i : Nat) (c : Change) : Except Fault Bool × Shelf :=
  match s.get? i with
  | none => (.error (.internal "no such bitmap"), s)
  | some t =>
    let (answer, t') := t.change c
    (answer, s.modify i fun _ => t')

def same (s : Shelf) (i j : Nat) : Bool :=
  i == j || match s.get? i, s.get? j with
    | some t, some u => t.bitmap.sameValues u.bitmap
    | _, _ => false

end Shelf
end BitmapWorks
