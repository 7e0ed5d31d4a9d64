import BitmapWorks.Fault
/-!
# Settlement — telling a caller how a task ended, once

The outcome of a task goes into its sink: a callback, or a promise that the caller asks later.  Whoever wins `claim` may
deliver or discard; delivering uses the sink up, so it is notified at most once.  A promise whose sink is gone without
an outcome answers that the task was shut down.

The caller's end of a promise remembers two things: whether the line to the sink is still open (it closes when an
outcome or the end of the sink has come through), and whether `take` has given an answer.
-/
namespace BitmapWorks

inductive Sink where
  /-- It is handed to the caller's function, which may unwind instead of returning. -/
  | callback (unwinds : Bool)
  /-- It waits for the caller to ask. -/
  | promise
  deriving DecidableEq, Repr

inductive Line (α : Type) where
  /-- Nothing yet, and the sink is there. -/
  | quiet
  /-- An outcome that nobody has taken. -/
  | holding (outcome : α)
  /-- Nothing more will come. -/
  | ended
  deriving Repr

structure Promise (α : Type) where
  line : Line α
  connected : Bool
  taken : Bool
  dropped : Bool
  deriving Repr

inductive Polled (α : Type) where
  | pending
  | ready (outcome : α)
  /-- It had finished before; asking again is a mistake of the caller. -/
  | misuse
  deriving Repr

namespace Promise

def fresh {α : Type} : Promise α := ⟨.quiet, true, false, false⟩

/-- What the line gives now: an outcome, or `closed` if there will be none; and the promise afterwards. -/
def receive {α : Type} (closed : α) (p : Promise α) : Option α × Promise α :=
  if !p.connected then (some closed, p)
  else match p.line with
    | .quiet => (none, p)
    | .holding outcome => (some outcome, { p with line := .ended, connected := false })
    | .ended => (some closed, { p with connected := false })

/-- Takes the outcome if there is one and `take` has not given one before. -/
def take {α : Type} (closed : α) (p : Promise α) : Option α × Promise α :=
  if p.taken || p.dropped then (none, p)
  else
    let (answer, p') := p.receive closed
    (answer, { p' with taken := answer.isSome })

def poll {α : Type} (closed : α) (p : Promise α) : Polled α × Promise α :=
  if !p.connected then (.misuse, p)
  else match p.receive closed with
    | (some outcome, p') => (.ready outcome, p')
    | (none, p') => (.pending, p')

def waiting {α : Type} (p : Promise α) : Option α :=
  match p.line with
  | .holding outcome => some outcome
  | _ => none

/-- The caller drops the promise: the outcome that is lost with it, if one waits, and the promise afterwards. -/
def drop {α : Type} (p : Promise α) : Option α × Promise α :=
  (p.waiting, { p with line := .ended, connected := false, dropped := true })

end Promise

/-- The ends of a sink: whether somebody has won the right to settle, the sink until it is used up, and the promise. -/
structure Settlement (α : Type) where
  claimed : Bool
  sink : Option Sink
  promise : Promise α
  deriving Repr

namespace Settlement

def fresh {α : Type} (sink : Sink) : Settlement α := ⟨false, some sink, .fresh⟩

def claim {α : Type} (s : Settlement α) : Bool × Settlement α := (!s.claimed, { s with claimed := true })

inductive Delivery (α : Type) where
  /-- With the caller's function. -/
  | called (outcome : α) (unwinds : Bool)
  /-- In the line of the promise. -/
  | kept
  /-- Nowhere: the promise is gone, or the sink is used up. -/
  | lost (outcome : α)
  deriving Repr

def deliver {α : Type} (s : Settlement α) (outcome : α) : Delivery α × Settlement α :=
  match s.sink with
  | none => (.lost outcome, s)
  | some (.callback unwinds) => (.called outcome unwinds, { s with sink := none })
  | some .promise =>
    if s.promise.dropped then (.lost outcome, { s with sink := none })
    else (.kept, { s with sink := none, promise := { s.promise with line := .holding outcome } })

def discard {α : Type} (s : Settlement α) : Settlement α :=
  match s.sink with
  | some .promise => { s with sink := none, promise := { s.promise with line := .ended } }
  | _ => { s with sink := none }

/-- Wins the right to settle and delivers; without effect if somebody else has won. -/
def complete {α : Type} (s : Settlement α) (outcome : α) : Bool × Option (Delivery α) × Settlement α :=
  match s.claim with
  | (true, s') =>
    let (delivery, s'') := s'.deliver outcome
    (true, some delivery, s'')
  | (false, s') => (false, none, s')

end Settlement
end BitmapWorks
