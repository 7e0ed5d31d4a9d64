import BitmapWorks.Bitmap
import BitmapWorks.Bytes
import BitmapWorks.Portable
/-!
# Native — the memory-mapped layout

All bit tables, then all runs, then all arrays, each zone in the order of the containers; behind them the keys, the
counts and the kinds of the containers and, as the last word, how many there are.  `fits` reads that trailer from the
back and tells whether the zones add up to exactly the bytes before it; `view` takes the containers out of bytes that
fit and trusts what it finds in the zones.
-/
namespace BitmapWorks
namespace Native

def cookie : Nat := 13766

def bitsetCode : UInt8 := 1
def arrayCode : UInt8 := 2
def runsCode : UInt8 := 3

/-! ## Writing -/

def code : Container → UInt8
  | .bitset _ _ => bitsetCode
  | .array _ => arrayCode
  | .runs _ => runsCode

/-- The word that gives a container's size: one less than its values, or its runs. -/
def count : Container → Nat
  | .bitset n _ => n - 1
  | .array xs => xs.size - 1
  | .runs rs => rs.length

def zoneSize : Container → Nat
  | .bitset _ _ => Container.bitsetBytes
  | .array xs => 2 * xs.size
  | .runs rs => 4 * rs.length

def bitsetZone : Container → Bytes
  | .bitset _ bits => Bytes.le Container.bitsetBytes bits
  | _ => []

def runsZone : Container → Bytes
  | .runs rs => rs.flatMap fun r => Bytes.ofWord16 r.start ++ Bytes.ofWord16 r.extra
  | _ => []

def arrayZone : Container → Bytes
  | .array xs => xs.toList.flatMap Bytes.ofWord16
  | _ => []

def size (b : Bitmap) : Nat := (b.containers.map fun (_, c) => zoneSize c).foldr (· + ·) 0 + 5 * b.containers.length + 4

def encode (b : Bitmap) : Bytes :=
  let cs := b.containers
  cs.flatMap (fun (_, c) => bitsetZone c) ++ cs.flatMap (fun (_, c) => runsZone c)
    ++ cs.flatMap (fun (_, c) => arrayZone c) ++ cs.flatMap (fun (key, _) => Bytes.ofWord16 key)
    ++ cs.flatMap (fun (_, c) => Bytes.le 2 (count c)) ++ cs.map (fun (_, c) => code c)
    ++ Bytes.le 4 (cs.length * 32768 + cookie)

/-! ## The trailer -/

structure Head where
  key : UInt16
  count : Nat
  code : UInt8

inductive Misfit where
  | tooShort
  | badTrailer
  deriving DecidableEq, Repr

def Head.zoneSize? (h : Head) : Option Nat :=
  if h.code = bitsetCode then some Container.bitsetBytes
  else if h.code = runsCode then some (4 * h.count)
  else if h.code = arrayCode then some (2 * (h.count + 1))
  else none

/-- Where the trailer starts and what it says, if the last word is one of this layout and the rest of the trailer is
there. -/
def readTrailer? (bs : Bytes) : Option (Nat × List Head) :=
  let wordAt := bs.length - 4
  let word := Bytes.leNat (bs.drop wordAt)
  let n := word / 32768
  if word % 32768 = cookie ∧ 5 * n ≤ wordAt then
    let keysAt := wordAt - 5 * n
    let trailer := bs.drop keysAt
    let keys := Bytes.words16 (trailer.take (2 * n))
    let counts := Bytes.words16 ((trailer.drop (2 * n)).take (2 * n))
    let codes := (trailer.drop (4 * n)).take n
    some (keysAt, (keys.zip (counts.zip codes)).map fun (k, c, t) => ⟨k, c.toNat, t⟩)
  else none

def zonesSize? : List Head → Option Nat
  | [] => some 0
  | h :: hs => do return (← h.zoneSize?) + (← zonesSize? hs)

/-- Whether bytes are in this layout: the last word is there, it leads to a trailer, and the zones add up. -/
def fits (bs : Bytes) : Except Misfit Unit :=
  if bs.length < 4 then .error .tooShort
  else match readTrailer? bs with
    | none => .error .badTrailer
    | some (keysAt, heads) => if zonesSize? heads = some keysAt then .ok () else .error .badTrailer

/-! ## Reading in place -/

/-- Takes the containers' zones off the fronts of what is left of the three zones. -/
def containersFrom : List Head → Bytes → Bytes → Bytes → List (UInt16 × Container)
  | [], _, _, _ => []
  | h :: hs, bitsets, runs, arrays =>
    if h.code = bitsetCode then
      let table := bitsets.take Container.bitsetBytes
      (h.key, .bitset (h.count + 1) (Bytes.leNat table))
        :: containersFrom hs (bitsets.drop Container.bitsetBytes) runs arrays
    else if h.code = runsCode then
      let table := Bytes.words16 (runs.take (4 * h.count))
      (h.key, .runs (Portable.runsOnto table [])) :: containersFrom hs bitsets (runs.drop (4 * h.count)) arrays
    else
      let table := Bytes.words16 (arrays.take (2 * (h.count + 1)))
      (h.key, .array table.toArray) :: containersFrom hs bitsets runs (arrays.drop (2 * (h.count + 1)))

def zoneOf (kind : UInt8) (heads : List Head) : Nat :=
  (heads.map fun h => if h.code = kind then h.zoneSize?.getD 0 else 0).foldr (· + ·) 0

def view (bs : Bytes) : Bitmap :=
  match readTrailer? bs with
  | none => .empty
  | some (_, heads) =>
    let runsAt := zoneOf bitsetCode heads
    let arraysAt := runsAt + zoneOf runsCode heads
    ⟨containersFrom heads bs (bs.drop runsAt) (bs.drop arraysAt)⟩

end Native
end BitmapWorks
