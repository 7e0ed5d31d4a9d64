/-!
# Drain — waiting until no task is left

A drain pumps completions, looks how many tasks are left and sleeps, longer and longer while nothing happens.  It ends
when no task is left, or when its time is up.  Time is counted in nanoseconds, and only sleeping takes any.
-/
namespace BitmapWorks

inductive DrainOutcome where
  | drained
  | timedOut (left : Int)
  deriving DecidableEq, Repr

/-- The first sleep, the longest sleep, and the time after which a drain gives up, if it ever does. -/
structure Backoff where
  initial : Nat
  longest : Nat
  timeout : Option Nat
  deriving DecidableEq, Repr

structure Drain where
  elapsed : Nat
  delay : Nat
  deriving DecidableEq, Repr

namespace Drain

def start (b : Backoff) : Drain := ⟨0, b.initial⟩

inductive Next where
  | done (outcome : DrainOutcome)
  | again (drain : Drain)
  deriving DecidableEq, Repr

def look (b : Backoff) (d : Drain) (handled : Nat) (left : Int) : Next :=
  if left = 0 then .done .drained
  else if b.timeout.any (· ≤ d.elapsed) then .done (.timedOut left)
  else if 0 < handled then .again { d with delay := b.initial }
  else .again ⟨d.elapsed + d.delay, min (d.delay * 2) b.longest⟩

/-- A drain whose pumps follow a script, in at most so many rounds: each pump handles some completions and lets some
tasks leave, and behind the script nothing happens any more.  Gives the outcome, the tasks that are left and the pumps
made. -/
def follow (b : Backoff) : Nat → Drain → List (Nat × Nat) → Int → Nat → DrainOutcome × Int × Nat
  | 0, _, _, left, pumps => (.timedOut left, left, pumps)
  | rounds + 1, d, script, left, pumps =>
    let (handled, leaves) := script.head?.getD (0, 0)
    let left := left - leaves
    match d.look b handled left with
    | .done outcome => (outcome, left, pumps + 1)
    | .again d => follow b rounds d script.tail left (pumps + 1)

end Drain
end BitmapWorks
