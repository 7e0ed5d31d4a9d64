import BitmapWorks.Bytes
import BitmapWorks.Fault
/-!
# Window — byte buffers that start on a boundary

Memory comes at an address that nobody chooses.  A window therefore asks for up to `alignment - 1` bytes more than it
shows and shows the stretch from the first boundary on; the bytes before and behind it stay unused.  `base` is the
address of the storage.
-/
namespace BitmapWorks

/-- A stretch of `length` bytes at `offset` of a storage that starts at the address `base`. -/
structure Window where
  base : Nat
  storage : Bytes
  offset : Nat
  length : Nat
  alignment : Nat
  deriving DecidableEq, Repr

namespace Window

def sizeLimit : Nat := 1 <<< 64

/-- Memory is asked for in vain from this number of bytes on. -/
def memoryLimit : Nat := 1 <<< 47

def isPowerOfTwo (n : Nat) : Bool := decide (n ≠ 0) && decide (1 <<< n.log2 = n)

def padding (address alignment : Nat) : Nat := (alignment - address % alignment) % alignment

def isAligned (address alignment : Nat) : Bool := decide (alignment ≤ 1) || decide (address % alignment = 0)

def visible (w : Window) : Bytes := (w.storage.drop w.offset).take w.length

def start (w : Window) : Nat := w.base + w.offset

def allocated (w : Window) : Nat := w.storage.length

/-! ## Making windows -/

def zeroed (base length alignment : Nat) : Except Fault Window :=
  if !isPowerOfTwo alignment then .error (.argument ("alignment " ++ toString alignment ++ " is not a power of two"))
  else
    let total := length + (alignment - 1)
    if sizeLimit ≤ total then .error (.allocation (sizeLimit - 1))
    else if memoryLimit ≤ total then .error (.allocation total)
    else .ok ⟨base, List.replicate total 0, padding base alignment, length, alignment⟩

def write (w : Window) (bs : Bytes) : Window :=
  { w with storage := w.storage.take w.offset ++ bs ++ w.storage.drop (w.offset + bs.length) }

def copy (base : Nat) (bs : Bytes) (alignment : Nat) : Except Fault Window := do
  return (← zeroed base bs.length alignment).write bs

def ofBytes (bs : Bytes) : Window := ⟨0, bs, 0, bs.length, 1⟩

/-! ## Changing windows -/

def truncate (w : Window) (n : Nat) : Window := { w with length := min w.length n }

def set? (w : Window) (i : Nat) (b : UInt8) : Option Window :=
  if i < w.length then some { w with storage := w.storage.set (w.offset + i) b } else none

def describe (w : Window) : String :=
  "AlignedBuffer \x7b len: " ++ toString w.length ++ ", alignment: " ++ toString w.alignment ++ ", .. \x7d"

/-! ## Boundaries -/

theorem padding_lt {address alignment : Nat} (h : 0 < alignment) : padding address alignment < alignment :=
  Nat.mod_lt _ h

theorem add_padding_mod {address alignment : Nat} (h : 0 < alignment) :
    (address + padding address alignment) % alignment = 0 := by
  have hm := Nat.mod_lt address h
  unfold padding
  by_cases h0 : address % alignment = 0
  · simp [h0]
  · rw [Nat.mod_eq_of_lt (by omega : alignment - address % alignment < alignment), Nat.add_mod,
      Nat.mod_eq_of_lt (by omega : alignment - address % alignment < alignment)]
    rw [show address % alignment + (alignment - address % alignment) = alignment by omega, Nat.mod_self]

end Window
end BitmapWorks
