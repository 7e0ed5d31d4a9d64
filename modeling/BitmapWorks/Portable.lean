import BitmapWorks.Bitmap
import BitmapWorks.Bytes
/-!
# Portable — the interchange layout

A header names the containers (key and count each) and, in most cases, where each body starts; the bodies follow in
order.  `encode` writes the layout.  There are two ways to read it: `decode?` walks the bodies in sequence, never looks
at the stored starts and checks the rules of every container, while `view?` takes each body from its stored start and
trusts what it finds there.
-/
namespace BitmapWorks
namespace Portable

def plainCookie : Nat := 12346

/-- The low half of the first word of a layout with runs. -/
def runsCookie : Nat := 12347

/-- From this many containers on, a layout with runs stores where the bodies start. -/
def offsetThreshold : Nat := 4

/-! ## Writing -/

def hasRuns (b : Bitmap) : Bool := b.containers.any fun (_, c) => c.isRuns

def storesOffsets (runs : Bool) (n : Nat) : Bool := !runs || decide (offsetThreshold ≤ n)

def headerSize (b : Bitmap) : Nat :=
  let n := b.containers.length
  let runs := hasRuns b
  (if runs then 4 + (n + 7) / 8 else 8) + 4 * n + (if storesOffsets runs n then 4 * n else 0)

def size (b : Bitmap) : Nat := headerSize b + (b.containers.map fun (_, c) => c.bodySize).foldr (· + ·) 0

/-- Flags packed eight to a byte, the first in the lowest bit. -/
def packFlags (flags : List Bool) : Bytes :=
  Bytes.le ((flags.length + 7) / 8) (flags.foldr (fun f acc => f.toNat + 2 * acc) 0)

def body : Container → Bytes
  | .array xs => xs.toList.flatMap Bytes.ofWord16
  | .bitset _ bits => Bytes.le Container.bitsetBytes bits
  | .runs rs => Bytes.le 2 rs.length ++ rs.flatMap fun r => Bytes.ofWord16 r.start ++ Bytes.ofWord16 r.extra

def offsets : Nat → List (UInt16 × Container) → List Nat
  | _, [] => []
  | at_, (_, c) :: rest => at_ :: offsets (at_ + c.bodySize) rest

def encode (b : Bitmap) : Bytes :=
  let n := b.containers.length
  let runs := hasRuns b
  let cookie :=
    if runs then Bytes.le 4 (runsCookie + (n - 1) * 65536) ++ packFlags (b.containers.map fun (_, c) => c.isRuns)
    else Bytes.le 4 plainCookie ++ Bytes.le 4 n
  let heads := b.containers.flatMap fun (key, c) => Bytes.ofWord16 key ++ Bytes.le 2 (c.card - 1)
  let starts := if storesOffsets runs n then (offsets (headerSize b) b.containers).flatMap (Bytes.le 4) else []
  cookie ++ heads ++ starts ++ b.containers.flatMap fun (_, c) => body c

/-! ## The header -/

structure Head where
  key : UInt16
  count : Nat
  runs : Bool

/-- A header that fits its bytes: the containers, the stored starts if there are any, and the bytes behind it. -/
structure Header where
  heads : List Head
  starts : Option (List Nat)
  bodies : Bytes

/-- The count of containers, the run flags and the bytes behind them, by the first word. -/
def readCookie? (bs : Bytes) : Option (Nat × Option Bytes × Bytes) := do
  let (first, rest) ← Bytes.split? 4 bs
  let cookie := Bytes.leNat first
  if cookie % 65536 = runsCookie then
    let n := cookie / 65536 + 1
    let (flags, rest) ← Bytes.split? ((n + 7) / 8) rest
    return (n, some flags, rest)
  else if cookie = plainCookie then
    let (count, rest) ← Bytes.split? 4 rest
    let n := Bytes.leNat count
    if n ≤ 65536 then return (n, none, rest) else none
  else none

/-- Reads key and count of each container off alternating words, in front of the heads read before (newest first);
`flags` has the run flag of the next container in its lowest bit. -/
def headsOnto : List UInt16 → Nat → List Head → List Head
  | key :: less :: rest, flags, read =>
    headsOnto rest (flags / 2) (⟨key, less.toNat + 1, flags % 2 == 1⟩ :: read)
  | _, _, read => read.reverse

def readHeader? (bs : Bytes) : Option Header := do
  let (n, flags, rest) ← readCookie? bs
  let (table, rest) ← Bytes.split? (4 * n) rest
  let heads := headsOnto (Bytes.words16 table) (Bytes.leNat (flags.getD [])) []
  if storesOffsets flags.isSome n then
    let (starts, rest) ← Bytes.split? (4 * n) rest
    return ⟨heads, some ((Bytes.words32 starts).map UInt32.toNat), rest⟩
  else return ⟨heads, none, rest⟩

def runsOnto : List UInt16 → List Run → List Run
  | start :: extra :: rest, read => runsOnto rest (⟨start, extra⟩ :: read)
  | _, read => read.reverse

/-! ## Reading in sequence -/

def readBody? (h : Head) (bs : Bytes) : Option (Container × Bytes) := do
  if h.runs then
    let (count, rest) ← Bytes.split? 2 bs
    let (table, rest) ← Bytes.split? (4 * Bytes.leNat count) rest
    return (.runs (runsOnto (Bytes.words16 table) []), rest)
  else if Container.arrayLimit < h.count then
    let (table, rest) ← Bytes.split? Container.bitsetBytes bs
    return (.bitset h.count (Bytes.leNat table), rest)
  else
    let (table, rest) ← Bytes.split? (2 * h.count) bs
    return (.array (Bytes.words16 table).toArray, rest)

def readBodies? : List Head → Bytes → Option (List (UInt16 × Container))
  | [], _ => some []
  | h :: hs, bs => do
    let (c, rest) ← readBody? h bs
    let cs ← readBodies? hs rest
    return (h.key, c) :: cs

/-- The bitmap that the bytes encode, if they do; bytes behind the last body are not looked at. -/
def decode? (bs : Bytes) : Option Bitmap := do
  let header ← readHeader? bs
  let containers ← readBodies? header.heads header.bodies
  if (Bitmap.mk containers).valid then return ⟨containers⟩ else none

/-! ## Reading in place -/

/-- The body that starts at the front, whatever the bytes are. -/
def bodyAt (h : Head) (bs : Bytes) : Container :=
  if h.runs then
    let count := Bytes.leNat (Bytes.takePadded 2 bs)
    .runs (runsOnto (Bytes.words16 (Bytes.takePadded (4 * count) (bs.drop 2))) [])
  else if Container.arrayLimit < h.count then
    .bitset h.count (Bytes.leNat (Bytes.takePadded Container.bitsetBytes bs))
  else .array (Bytes.words16 (Bytes.takePadded (2 * h.count) bs)).toArray

def bodiesFrom : List Head → Bytes → List (UInt16 × Container)
  | [], _ => []
  | h :: hs, bs =>
    let c := bodyAt h bs
    (h.key, c) :: bodiesFrom hs (bs.drop c.bodySize)

/-- The containers that the bytes hold in place: each at its stored start, or in sequence where no starts are stored. -/
def view? (bs : Bytes) : Option Bitmap := do
  let header ← readHeader? bs
  match header.starts with
  | some starts => return ⟨(header.heads.zip starts).map fun (h, start) => (h.key, bodyAt h (bs.drop start))⟩
  | none => return ⟨bodiesFrom header.heads header.bodies⟩

end Portable
end BitmapWorks
