import BitmapWorks.Bitmap
import BitmapWorks.Stream
/-!
# Scan — the numbers in a text

Every maximal run of decimal digits is a number, unless a minus sign stands right before it or it is `2 ^ 32` or more;
everything else in the text is skipped.  The scanner looks at one byte at a time, so it does not matter how the text is
cut into pieces.  What it finds is added to a bitmap in batches.
-/
namespace BitmapWorks
namespace Text

/-- A scanner between two bytes: the number so far, whether there is one, whether the byte before it is a minus sign,
the numbers of this batch, and the bitmap of the batches before. -/
structure Scanner where
  number : Nat
  inNumber : Bool
  negative : Bool
  batch : Array UInt32
  found : Bitmap

namespace Scanner

def batchSize : Nat := 4096

/-- The first number that is too large; larger ones count as this one. -/
def tooLarge : Nat := 1 <<< 32

def start : Scanner := ⟨0, false, false, #[], .empty⟩

def isDigit (b : UInt8) : Bool := decide (48 ≤ b) && decide (b ≤ 57)

def flush (s : Scanner) : Scanner := { s with batch := #[], found := s.found.addMany s.batch.toList }

def collect (s : Scanner) (v : UInt32) : Scanner :=
  let s := { s with batch := s.batch.push v }
  if s.batch.size = batchSize then s.flush else s

def terminate (s : Scanner) : Scanner :=
  let s' := if s.inNumber && !s.negative && decide (s.number < tooLarge) then s.collect (UInt32.ofNat s.number) else s
  { s' with number := 0, inNumber := false, negative := false }

def feed (s : Scanner) (b : UInt8) : Scanner :=
  if isDigit b then { s with number := min (s.number * 10 + (b.toNat - 48)) tooLarge, inNumber := true }
  else { s.terminate with negative := b == 45 }

def feedAll (s : Scanner) (bs : Bytes) : Scanner := bs.foldl feed s

def finish (s : Scanner) : Bitmap := s.terminate.flush.found

end Scanner

def scan (bs : Bytes) : Bitmap := (Scanner.start.feedAll bs).finish

/-- How many bytes are asked for at a time, less one. -/
def readRoom : Nat := 65535

/-- The numbers in a source from a scanner's state on, or the error number of the call that fails. -/
def scanOnward (s : Scanner) (source : Source) : Except Int Bitmap :=
  match _h : source.next readRoom with
  | (.error n, _) => .error n
  | (.ok [], _) => .ok s.finish
  | (.ok (b :: bs), rest) => scanOnward (s.feedAll (b :: bs)) rest
termination_by Source.weight source
decreasing_by exact Source.weight_next_lt readRoom source b bs rest _h

def scanSource (source : Source) : Except Int Bitmap := scanOnward .start source

end Text
end BitmapWorks
