/-!
# Bytes — byte strings and little-endian numbers

Every layout of this library is a string of bytes, and every number in one is little-endian.  `le w n` writes the low
`w` bytes of `n` and `leNat` reads bytes of any number back; `words16` and `words32` read a whole string as words.
`takePadded` reads a stretch that may run past the end, where the bytes count as zero.
-/
namespace BitmapWorks

abbrev Bytes := List UInt8

namespace Bytes

/-! ## Numbers -/

def le : Nat → Nat → Bytes
  | 0, _ => []
  | w + 1, n => UInt8.ofNat n :: le w (n / 256)

def leNat : Bytes → Nat
  | [] => 0
  | b :: bs => b.toNat + 256 * leNat bs

def ofWord16 (v : UInt16) : Bytes := le 2 v.toNat

def ofWord32 (v : UInt32) : Bytes := le 4 v.toNat

@[simp] theorem length_le (w n : Nat) : (le w n).length = w := by
  induction w generalizing n with
  | zero => rfl
  | succ w ih => simp [le, ih]

/-- **Bytes are the writing of the number they spell.** -/
theorem le_leNat : ∀ bs : Bytes, le bs.length (leNat bs) = bs
  | [] => rfl
  | b :: bs => by
    have hb : b.toNat < 256 := b.toNat_lt
    have h1 : (b.toNat + 256 * leNat bs) / 256 = leNat bs := by omega
    have h2 : UInt8.ofNat (b.toNat + 256 * leNat bs) = b := by
      apply UInt8.toNat_inj.1
      simp only [UInt8.toNat_ofNat', Nat.reducePow]
      omega
    rw [List.length_cons, leNat, le, h1, h2, le_leNat bs]

/-! ## Strings of words -/

/-- Reads 16-bit words until fewer than two bytes are left, in front of the words read before (newest first). -/
def words16Onto : Bytes → List UInt16 → List UInt16
  | a :: b :: rest, read => words16Onto rest (UInt16.ofNat (leNat [a, b]) :: read)
  | _, read => read.reverse

/-- The bytes as 16-bit words; a last odd byte is left out. -/
def words16 (bs : Bytes) : List UInt16 := words16Onto bs []

def words32Onto : Bytes → List UInt32 → List UInt32
  | a :: b :: c :: d :: rest, read => words32Onto rest (UInt32.ofNat (leNat [a, b, c, d]) :: read)
  | _, read => read.reverse

/-- The bytes as 32-bit words; up to three last bytes are left out. -/
def words32 (bs : Bytes) : List UInt32 := words32Onto bs []

/-! ## Stretches -/

def split? (n : Nat) (bs : Bytes) : Option (Bytes × Bytes) :=
  if n ≤ bs.length then some (bs.take n, bs.drop n) else none

/-- The first `n` bytes, where bytes past the end are zero. -/
def takePadded (n : Nat) (bs : Bytes) : Bytes :=
  let head := bs.take n
  head ++ List.replicate (n - head.length) 0

@[simp] theorem length_takePadded (n : Nat) (bs : Bytes) : (takePadded n bs).length = n := by
  simp only [takePadded, List.length_append, List.length_take, List.length_replicate]
  omega

theorem takePadded_of_le {n : Nat} {bs : Bytes} (h : n ≤ bs.length) : takePadded n bs = bs.take n := by
  simp [takePadded, List.length_take, Nat.min_eq_left h]

end Bytes
end BitmapWorks
