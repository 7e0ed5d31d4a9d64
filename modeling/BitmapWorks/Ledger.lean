/-!
# Ledger — bytes that callers hold

The ledger's total counts the bytes of values that callers hold.  A task does not touch it while it works: it keeps a
tally, which goes into the ledger once, when the task completes.  Every byte that is counted this way belongs to a
charge that travels with a value, and dropping the value takes its bytes off the total again.

Totals and tallies are signed 64-bit words.
-/
namespace BitmapWorks
namespace Ledger

def wrap (n : Int) : Int := n.bmod (1 <<< 64)

def mostBytes : Nat := (1 <<< 63) - 1

/-- The entry for some bytes; more than fit count as many as fit. -/
def entry (bytes : Nat) : Int := min bytes mostBytes

def allocated (tally : Int) (bytes : Nat) : Int := wrap (tally + entry bytes)

def released (tally : Int) (bytes : Nat) : Int := wrap (tally - entry bytes)

def adjust (total delta : Int) : Int := wrap (total + delta)

theorem wrap_eq {n : Int} (h₁ : -mostBytes ≤ n) (h₂ : n ≤ mostBytes) : wrap n = n := by
  unfold mostBytes at h₁ h₂
  unfold wrap
  rw [Int.bmod_eq_of_le] <;> omega

theorem wrap_add_wrap (m n : Int) : wrap (m + wrap n) = wrap (m + n) := by
  simp [wrap]

end Ledger
end BitmapWorks
