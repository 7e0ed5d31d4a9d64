import BitmapWorks.Behaviour
import BitmapWorks.Crew
import BitmapWorks.Drain
import BitmapWorks.Fanout
import BitmapWorks.Gate
import BitmapWorks.Ledger
import BitmapWorks.Settings
import BitmapWorks.Settlement
/-!
# Dispatcher — tasks between a caller and a crew

A dispatcher belongs to one caller.  It takes tasks in, hands their work to a crew, and completes them on the caller's
side when the caller pumps.  Every task has a cell, which goes through the stages of a task; the cells that are in are
registered, so that a shutdown can force those that no worker has begun.

The state here is moved one atomic move at a time, by the caller or by a worker, in any order.  What the caller still
has to do in the call that it is in is its agenda; what a worker still has to do for its job is its errand.  Everything
of note that happens goes into the history.
-/
namespace BitmapWorks

/-! ## Tasks -/

inductive Stage where
  | created
  | validating
  | rejected
  | queued
  | running
  | completing
  | done
  deriving DecidableEq, Repr

/-- A task: its stage, whether it counts as in, its body until that is used up, how its items are spread if it has
items, its tally, its first fault, whether a shutdown forced it, and where its outcome goes. -/
structure Cell (B V : Type) where
  stage : Stage
  entered : Bool
  body : Option B
  fanout : Option Fanout
  tally : Int
  fault : Option Fault
  forced : Bool
  settlement : Settlement (Except Fault V)

namespace Cell

variable {B V : Type}

def fresh (body : B) (sink : Sink) : Cell B V := ⟨.created, false, some body, none, 0, none, false, .fresh sink⟩

def record (c : Cell B V) (fault : Fault) : Cell B V := { c with fault := c.fault.or (some fault) }

def tryRecord (c : Cell B V) (fault : Fault) : Bool × Cell B V := (c.fault.isNone, c.record fault)

def shouldStop (c : Cell B V) : Bool := c.fault.isSome || c.forced

def takeUp (c : Cell B V) : Bool × Cell B V :=
  match c.stage with
  | .queued | .running => (true, { c with stage := .running })
  | _ => (false, c)

end Cell

/-! ## Errands -/

inductive SinglePhase where
  | takeUp
  | call
  /-- The call has started. -/
  | calling
  | record (outcome : Outcome)
  | post
  deriving DecidableEq, Repr

inductive PartPhase where
  /-- Takes hold of the body, if it is there. -/
  | hold
  | takeUp
  /-- Looks whether to stop. -/
  | look
  /-- Looks whether items are left. -/
  | load
  | fetch
  | call (item : Nat)
  /-- The call for an item has started. -/
  | calling (item : Nat)
  | record (outcome : Outcome)
  /-- Counts the partition as finished. -/
  | finish
  | post
  deriving DecidableEq, Repr

inductive Errand where
  | single (id : Nat) (phase : SinglePhase)
  | part (id : Nat) (phase : PartPhase)
  deriving DecidableEq, Repr

namespace Errand

def id : Errand → Nat
  | single id _ => id
  | part id _ => id

def holdsBody : Errand → Bool
  | single _ .calling | single _ (.record _) => true
  | single _ _ => false
  | part _ .hold | part _ .post => false
  | part _ _ => true

end Errand

/-! ## The caller's agenda -/

inductive Chore where
  /-- Hands in the work of a task that is one call. -/
  | submit (id : Nat)
  /-- Hands in the next partition of a task, of so many. -/
  | submitPart (id next count : Nat)
  /-- Counts partitions that never start as finished; the flag tells whether one of them was the last. -/
  | abandon (id left : Nat) (last : Bool)
  /-- Wins the right to settle a task and puts its tally into the ledger. -/
  | complete (id : Nat)
  /-- Takes the body, cleans up, and settles. -/
  | conclude (id : Nat)
  /-- Completes what has been posted, after so many that are done. -/
  | pump (handled : Nat)
  /-- Waits until no task is left. -/
  | awaitIdle
  /-- Looks how a drain stands. -/
  | drain (drain : Drain)
  /-- Goes on behind a drain. -/
  | drained
  /-- Forces the tasks that no worker has begun. -/
  | force (ids : List Nat)
  /-- Looks how many tasks are left behind the forcing. -/
  | recount
  /-- Closes the crew. -/
  | closeCrew
  /-- Waits for workers to leave, but not for ever. -/
  | join
  /-- Lets go of everything. -/
  | letGo
  deriving DecidableEq, Repr

/-! ## History -/

inductive Event (V : Type) where
  | prepared (id : Nat)
  /-- A call of a task's work starts. -/
  | called (id item : Nat)
  | flushed (id : Nat) (tally : Int)
  | cleanedUp (id : Nat)
  /-- The result of a task is asked for. -/
  | asked (id : Nat)
  | settled (id : Nat) (outcome : Except Fault V)
  | discarded (id : Nat)
  | checkpoint

/-! ## The state -/

structure Dispatcher (W B V : Type) where
  world : W
  cells : List (Cell B V)
  admission : Admission
  crew : Crew Errand
  /-- The tasks that are in. -/
  registry : List Nat
  /-- The tasks whose completion workers have posted, oldest first. -/
  inbox : List Nat
  agenda : List Chore
  parallelism : Nat
  processors : Nat
  backoff : Backoff
  /-- Whether the caller wants to be told at checkpoints. -/
  checkpoints : Bool
  stopped : Bool
  /-- Whether the caller has let the dispatcher go. -/
  gone : Bool
  /-- How many completions the last pump handled. -/
  handled : Nat
  /-- How the last drain ended. -/
  drainOutcome : DrainOutcome
  /-- What happened, the latest first. -/
  history : List (Event V)

namespace Dispatcher

variable {W B V : Type}

def start (world : W) (s : Settings) (processors : Nat) (admission : Admission) (checkpoints : Bool) :
    Except Refusal (Dispatcher W B V) :=
  match s.fault? with
  | some fault => .error (.badSettings fault)
  | none => .ok
    { world, cells := [], admission, crew := .start s.workers s.queueBound, registry := [], inbox := [], agenda := [],
      parallelism := s.parallelism, processors, backoff := s.backoff, checkpoints, stopped := false, gone := false,
      handled := 0, drainOutcome := .drained, history := [] }

def inFlight (d : Dispatcher W B V) : Int := d.admission.gate.inFlight

def modifyCell (d : Dispatcher W B V) (id : Nat) (f : Cell B V → Cell B V) : Dispatcher W B V :=
  { d with cells := d.cells.modify id f }

def log (d : Dispatcher W B V) (e : Event V) : Dispatcher W B V := { d with history := e :: d.history }

def plan (d : Dispatcher W B V) (chores : List Chore) : Dispatcher W B V := { d with agenda := chores ++ d.agenda }

def bodyIsFree (d : Dispatcher W B V) (id : Nat) : Bool :=
  d.crew.workers.all fun w => match w with
    | .running e => !(e.id == id && e.holdsBody)
    | _ => true

def isWanted (d : Dispatcher W B V) (id : Nat) : Bool := d.crew.jobs.any (·.id == id)

/-- Drops the cell of a task that nobody will complete any more: its body and its sink. -/
def dropCell (bh : Behaviour W B V) (d : Dispatcher W B V) (id : Nat) : Dispatcher W B V :=
  match d.cells[id]? with
  | none => d
  | some c =>
    let world := match c.body with
      | some b => bh.discard d.world b
      | none => d.world
    { d with world }.modifyCell id fun c => { c with body := none, settlement := c.settlement.discard }

end Dispatcher
end BitmapWorks
