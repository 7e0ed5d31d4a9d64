/-!
# Container — the low halves of the values that share one high half

A container holds numbers below `2 ^ 16` in one of three kinds: an ascending array of words, a table of `2 ^ 16` bits,
or ascending runs of neighbours.  Insertion, deletion and `optimize` decide the kind; `lows` is what a container holds
whatever its kind.

A container taken from foreign bytes keeps what the bytes say, also where the rules of its kind are broken; `valid` is
the test of those rules, and it holds of everything that the operations below build from nothing.
-/
namespace BitmapWorks

/-! ## Runs -/

/-- The numbers `start, start + 1, …, start + extra`. -/
structure Run where
  start : UInt16
  extra : UInt16
  deriving DecidableEq, Repr

namespace Run

def last (r : Run) : Nat := r.start.toNat + r.extra.toNat

def size (r : Run) : Nat := r.extra.toNat + 1

def lows (r : Run) : List Nat := List.range' r.start.toNat r.size

def covers (v : UInt16) (r : Run) : Bool := decide (r.start ≤ v) && decide (v.toNat ≤ r.last)

def push (low : Nat) : List Run → List Run
  | r :: rs =>
    if low + 1 = r.start.toNat then ⟨UInt16.ofNat low, r.extra + 1⟩ :: rs else ⟨UInt16.ofNat low, 0⟩ :: r :: rs
  | [] => [⟨UInt16.ofNat low, 0⟩]

/-- The maximal runs of ascending numbers. -/
def ofLows (lows : List Nat) : List Run := lows.foldr push []

def join (r : Run) : List Run → List Run
  | s :: rs => if s.start.toNat = r.last + 1 then ⟨r.start, r.extra + s.extra + 1⟩ :: rs else r :: s :: rs
  | [] => [r]

/-- Adds a number to ascending runs; runs that come to touch are joined. -/
def insert (v : UInt16) : List Run → List Run
  | [] => [⟨v, 0⟩]
  | r :: rs =>
    if v.toNat + 1 < r.start.toNat then ⟨v, 0⟩ :: r :: rs
    else if v.toNat + 1 = r.start.toNat then ⟨v, r.extra + 1⟩ :: rs
    else if v.toNat ≤ r.last then r :: rs
    else if v.toNat = r.last + 1 then join ⟨r.start, r.extra + 1⟩ rs
    else r :: insert v rs

def without (v : UInt16) (r : Run) : List Run :=
  let below := if r.start < v then [⟨r.start, v - r.start - 1⟩] else []
  let above := if v.toNat < r.last then [⟨v + 1, UInt16.ofNat (r.last - v.toNat - 1)⟩] else []
  below ++ above

def erase (v : UInt16) : List Run → List Run
  | [] => []
  | r :: rs =>
    if v < r.start then r :: rs
    else if r.last < v.toNat then r :: erase v rs
    else without v r ++ rs

/-- Whether runs stay below `2 ^ 16` and leave a gap between neighbours; `from` is the least start allowed. -/
def spaced : Nat → List Run → Bool
  | _, [] => true
  | least, r :: rs => decide (least ≤ r.start.toNat) && decide (r.last < 65536) && spaced (r.last + 2) rs

end Run

/-! ## Containers -/

/-- The low halves under one key, in one of the three kinds.  A bit table carries the count of its numbers. -/
inductive Container where
  | array (lows : Array UInt16)
  | bitset (count : Nat) (bits : Nat)
  | runs (runs : List Run)
  deriving DecidableEq, Repr

namespace Container

def arrayLimit : Nat := 4096

def bitsetBytes : Nat := 8192

def lowsOfBits (bits : Nat) : List Nat := (List.range 65536).filter bits.testBit

def bitsOfLows (lows : List Nat) : Nat := lows.foldl (fun bits low => bits ||| 1 <<< low) 0

/-- The numbers that a container holds, in the order it keeps them (ascending in a valid one). -/
def lows : Container → List Nat
  | array xs => xs.toList.map UInt16.toNat
  | bitset _ bits => lowsOfBits bits
  | runs rs => rs.flatMap Run.lows

/-- How many numbers a container says it holds. -/
def card : Container → Nat
  | array xs => xs.size
  | bitset count _ => count
  | runs rs => (rs.map Run.size).foldr (· + ·) 0

def isRuns : Container → Bool
  | runs _ => true
  | _ => false

def contains (v : UInt16) : Container → Bool
  | array xs => xs.contains v
  | bitset _ bits => bits.testBit v.toNat
  | runs rs => rs.any (Run.covers v)

def singleton (v : UInt16) : Container := array #[v]

/-! ## Insertion -/

def isAbove (v : UInt16) (xs : Array UInt16) : Bool := xs.back?.all (· < v)

def insertSorted (v : UInt16) : List UInt16 → List UInt16
  | [] => [v]
  | x :: xs => if v < x then v :: x :: xs else x :: insertSorted v xs

def place (v : UInt16) (xs : Array UInt16) : Array UInt16 :=
  if isAbove v xs then xs.push v else (insertSorted v xs.toList).toArray

/-- Adds a number.  A full array becomes a bit table; otherwise the kind stays. -/
def insert (v : UInt16) : Container → Container
  | array xs =>
    if !isAbove v xs && xs.contains v then array xs
    else if xs.size < arrayLimit then array (place v xs)
    else bitset (xs.size + 1) (bitsOfLows (xs.toList.map UInt16.toNat) ||| 1 <<< v.toNat)
  | bitset count bits =>
    if bits.testBit v.toNat then bitset count bits else bitset (count + 1) (bits ||| 1 <<< v.toNat)
  | runs rs => runs (Run.insert v rs)

/-! ## Deletion -/

def arrayOfLows (lows : List Nat) : Container := array (lows.map UInt16.ofNat).toArray

/-- Takes a number out.  A bit table that is left with few numbers becomes an array; otherwise the kind stays. -/
def erase (v : UInt16) : Container → Container
  | array xs => array (xs.filter (· ≠ v))
  | bitset count bits =>
    if bits.testBit v.toNat then
      let rest := bits ^^^ 1 <<< v.toNat
      if count - 1 ≤ arrayLimit then arrayOfLows (lowsOfBits rest) else bitset (count - 1) rest
    else bitset count bits
  | runs rs => runs (Run.erase v rs)

/-! ## Sizes and the choice of kind -/

def bodySize : Container → Nat
  | array xs => 2 * xs.size
  | bitset _ _ => bitsetBytes
  | runs rs => 2 + 4 * rs.length

def ofLows (lows : List Nat) : Container :=
  if lows.length ≤ arrayLimit then arrayOfLows lows else bitset lows.length (bitsOfLows lows)

/-- Changes to runs where they are smaller than the kind at hand, and away from them where they are larger than both
other kinds would be. -/
def optimize : Container → Container
  | array xs =>
    let rs := Run.ofLows (array xs).lows
    if 2 + 4 * rs.length < 2 * xs.size then runs rs else array xs
  | bitset count bits =>
    let rs := Run.ofLows (lowsOfBits bits)
    if 2 + 4 * rs.length < bitsetBytes then runs rs else bitset count bits
  | runs rs =>
    if 2 + 4 * rs.length ≤ min bitsetBytes (2 * (runs rs).card) then runs rs else ofLows (runs rs).lows

/-! ## Rules of the kinds -/

def ascending : List UInt16 → Bool
  | x :: y :: rest => decide (x < y) && ascending (y :: rest)
  | _ => true

/-- Whether a container keeps the rules of its kind: arrays are ascending and neither empty nor too long, bit tables
hold more than an array could and carry their true count, and runs are spaced and not missing. -/
def valid : Container → Bool
  | array xs => decide (0 < xs.size) && decide (xs.size ≤ arrayLimit) && ascending xs.toList
  | bitset count bits =>
    decide (arrayLimit < count) && decide (bits < 1 <<< 65536) && decide ((lowsOfBits bits).length = count)
  | runs rs => !rs.isEmpty && Run.spaced 0 rs

end Container
end BitmapWorks
