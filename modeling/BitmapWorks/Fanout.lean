/-!
# Fanout — spreading numbered items over partitions

The partitions of a task draw item numbers from one cursor.  To draw is to look whether the cursor is past the end and
then to take its number and move it on in one move; the number counts only if it is below the end.  A count of
partitions that are not finished tells the last one.
-/
namespace BitmapWorks

structure Cursor where
  next : Nat
  length : Nat
  deriving DecidableEq, Repr

namespace Cursor

def ofLength (n : Nat) : Cursor := ⟨0, n⟩

def hasMore (c : Cursor) : Bool := decide (c.next < c.length)

/-- Takes the number of the cursor and moves it on; the number counts only below the end. -/
def fetch (c : Cursor) : Option Nat × Cursor :=
  (if c.next < c.length then some c.next else none, { c with next := c.next + 1 })

def draw (c : Cursor) : Option Nat × Cursor := if c.hasMore then c.fetch else (none, c)

end Cursor

/-- How many partitions a task is spread over: no more than are wanted, than there are workers or than there are items,
and at least one. -/
def partitionCount (wanted workers items : Nat) : Nat := max (min (min wanted workers) items) 1

/-- A cursor and the count of partitions that are not finished. -/
structure Fanout where
  cursor : Cursor
  pending : Int
  deriving DecidableEq, Repr

namespace Fanout

def start (items partitions : Nat) : Fanout := ⟨.ofLength items, partitions⟩

def finish (f : Fanout) : Bool × Fanout := (f.pending == 1, { f with pending := f.pending - 1 })

end Fanout
end BitmapWorks
