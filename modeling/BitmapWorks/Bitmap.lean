import BitmapWorks.Container
/-!
# Bitmap — compressed sets of 32-bit values

A bitmap is a list of containers by ascending key, where a value's key is its high half and its container holds its
low half.  `values` lists what a bitmap holds; equality of contents does not look at the kinds of the containers.
-/
namespace BitmapWorks

/-- A set of 32-bit values as containers by key. -/
structure Bitmap where
  containers : List (UInt16 × Container)
  deriving DecidableEq, Repr

namespace Bitmap

def keyOf (v : UInt32) : UInt16 := (v >>> 16).toUInt16

def lowOf (v : UInt32) : UInt16 := v.toUInt16

def value (key : UInt16) (low : Nat) : UInt32 := UInt32.ofNat (key.toNat * 65536 + low)

def empty : Bitmap := ⟨[]⟩

/-! ## Contents -/

def values (b : Bitmap) : List UInt32 := b.containers.flatMap fun (key, c) => c.lows.map (value key)

/-- The first `n` values, without listing the containers behind them. -/
def firstValues : Nat → List (UInt16 × Container) → List UInt32
  | _, [] => []
  | n, (key, c) :: rest =>
    let here := (c.lows.take n).map (value key)
    if n ≤ here.length then here else here ++ firstValues (n - here.length) rest

def card (b : Bitmap) : Nat := (b.containers.map fun (_, c) => c.card).foldr (· + ·) 0

def isEmpty (b : Bitmap) : Bool := b.card == 0

def contains (b : Bitmap) (v : UInt32) : Bool :=
  b.containers.any fun (key, c) => key == keyOf v && c.contains (lowOf v)

/-- Whether two bitmaps hold the same values, in whatever kinds of containers. -/
def sameValues (a b : Bitmap) : Bool :=
  a.containers.map Prod.fst == b.containers.map Prod.fst &&
    (a.containers.zip b.containers).all fun (x, y) => x.2.card == y.2.card && (x.2 == y.2 || x.2.lows == y.2.lows)

/-! ## Changes -/

def insertAt (key low : UInt16) : List (UInt16 × Container) → List (UInt16 × Container)
  | [] => [(key, .singleton low)]
  | (k, c) :: rest =>
    if key < k then (key, .singleton low) :: (k, c) :: rest
    else if key = k then (k, c.insert low) :: rest
    else (k, c) :: insertAt key low rest

/-- Takes a low half under a key away; a container that is left empty goes. -/
def eraseAt (key low : UInt16) : List (UInt16 × Container) → List (UInt16 × Container)
  | [] => []
  | (k, c) :: rest =>
    if key = k then
      let left := c.erase low
      if left.card = 0 then rest else (k, left) :: rest
    else (k, c) :: eraseAt key low rest

def add (b : Bitmap) (v : UInt32) : Bitmap := ⟨insertAt (keyOf v) (lowOf v) b.containers⟩

def addMany (b : Bitmap) (vs : List UInt32) : Bitmap := vs.foldl add b

def remove (b : Bitmap) (v : UInt32) : Bitmap := ⟨eraseAt (keyOf v) (lowOf v) b.containers⟩

def ofList (vs : List UInt32) : Bitmap := empty.addMany vs

def optimize (b : Bitmap) : Bitmap := ⟨b.containers.map fun (key, c) => (key, c.optimize)⟩

/-! ## Rules -/

def keysAscending (b : Bitmap) : Bool := Container.ascending (b.containers.map Prod.fst)

/-- Whether the keys are in order and every container keeps the rules of its kind. -/
def valid (b : Bitmap) : Bool := b.keysAscending && b.containers.all fun (_, c) => c.valid

end Bitmap
end BitmapWorks
