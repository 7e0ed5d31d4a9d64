import BitmapWorks.Fault
/-!
# Crew — workers that take jobs from a bounded queue

A caller hands a job in move by move: it looks whether the crew is closed, counts the job as waiting and tries to put it
into the queue, which takes it unless it is full or nobody is left to take jobs out of it.  A worker takes the first job
of the queue, moves the counts on, runs the job, and moves the counts on again; a job that ends abnormally costs no
worker.  Once the crew is closed no more jobs are taken in, but those in the queue are still run, and a worker leaves
when it finds the queue empty.

What running a job means is left to whoever uses the crew: `Worker.running` shows the job, and `Crew.finish` ends it.
-/
namespace BitmapWorks

inductive Worker (J : Type) where
  /-- It waits for a job. -/
  | idle
  /-- It has a job that still counts as waiting. -/
  | received (job : J)
  /-- It has a job that counts nowhere. -/
  | between (job : J)
  /-- It runs a job. -/
  | running (job : J)
  /-- Its job has ended abnormally. -/
  | crashed
  /-- Its job has ended and still counts as active. -/
  | returned
  /-- Its job counts nowhere. -/
  | retired
  /-- It is gone. -/
  | left
  deriving DecidableEq, Repr

def Worker.isGone {J : Type} : Worker J → Bool
  | left => true
  | _ => false

inductive Handover (J : Type) where
  /-- The caller has not looked yet. -/
  | start (job : J)
  /-- The caller has seen no closing. -/
  | seen (job : J)
  /-- The job counts as waiting. -/
  | counted (job : J)
  /-- The job is in the queue. -/
  | queued
  /-- The queue is full, but the job still counts as waiting. -/
  | bounced
  /-- Every worker is gone, but the job still counts as waiting. -/
  | stranded
  /-- It is over, with the reason if the job was not taken. -/
  | over (refusal : Option Refusal)
  deriving DecidableEq, Repr

structure Counts where
  active : Int
  queued : Int
  completed : Int
  panicked : Int
  submitted : Int
  deriving DecidableEq, Repr

/-- Workers, the queue and its bound, the counts, and whether the crew is closed: `closing` stops callers, and workers
leave once `hungUp` holds too. -/
structure Crew (J : Type) where
  workers : List (Worker J)
  queue : List J
  bound : Nat
  counts : Counts
  closing : Bool
  hungUp : Bool
  deriving Repr

namespace Crew

variable {J : Type}

def start (size bound : Nat) : Crew J := ⟨List.replicate size .idle, [], bound, ⟨0, 0, 0, 0, 0⟩, false, false⟩

/-! ## Handing in -/

/-- Whether no worker is there who could take a job out of the queue. -/
def isDeserted (c : Crew J) : Bool := c.workers.all Worker.isGone

def handOver (c : Crew J) : Handover J → Crew J × Handover J
  | .start job => (c, if c.closing then .over (some .closed) else .seen job)
  | .seen job =>
    if c.hungUp then (c, .over (some .closed))
    else ({ c with counts := { c.counts with queued := c.counts.queued + 1 } }, .counted job)
  | .counted job =>
    if c.isDeserted then (c, .stranded)
    else if c.queue.length < c.bound then ({ c with queue := c.queue ++ [job] }, .queued)
    else (c, .bounced)
  | .queued => ({ c with counts := { c.counts with submitted := c.counts.submitted + 1 } }, .over none)
  | .bounced => ({ c with counts := { c.counts with queued := c.counts.queued - 1 } }, .over (some .queueFull))
  | .stranded => ({ c with counts := { c.counts with queued := c.counts.queued - 1 } }, .over (some .closed))
  | .over refusal => (c, .over refusal)

/-- Hands a job in without being disturbed: why it was not taken, if it was not, and the crew afterwards. -/
def submit (c : Crew J) (job : J) : Option Refusal × Crew J :=
  let (c, h) := c.handOver (.start job)
  let (c, h) := c.handOver h
  let (c, h) := c.handOver h
  let (c, h) := c.handOver h
  match h with
  | .over refusal => (refusal, c)
  | _ => (none, c)

/-! ## Working -/

def setWorker (c : Crew J) (i : Nat) (w : Worker J) : Crew J := { c with workers := c.workers.set i w }

/-- One move of a worker that is not running a job; `none` if it has to wait or is gone. -/
def advance? (c : Crew J) (i : Nat) : Option (Crew J) :=
  match c.workers[i]? with
  | some .idle =>
    match c.queue with
    | job :: rest => some ({ c with queue := rest }.setWorker i (.received job))
    | [] => if c.hungUp then some (c.setWorker i .left) else none
  | some (.received job) =>
    some ({ c with counts := { c.counts with queued := c.counts.queued - 1 } }.setWorker i (.between job))
  | some (.between job) =>
    some ({ c with counts := { c.counts with active := c.counts.active + 1 } }.setWorker i (.running job))
  | some .crashed =>
    some ({ c with counts := { c.counts with panicked := c.counts.panicked + 1 } }.setWorker i .returned)
  | some .returned =>
    some ({ c with counts := { c.counts with active := c.counts.active - 1 } }.setWorker i .retired)
  | some .retired =>
    some ({ c with counts := { c.counts with completed := c.counts.completed + 1 } }.setWorker i .idle)
  | _ => none

def running? (c : Crew J) (i : Nat) : Option J :=
  match c.workers[i]? with
  | some (.running job) => some job
  | _ => none

def keepRunning (c : Crew J) (i : Nat) (job : J) : Crew J := c.setWorker i (.running job)

def finish (c : Crew J) (i : Nat) (abnormally : Bool) : Crew J :=
  c.setWorker i (if abnormally then .crashed else .returned)

/-! ## Closing -/

def refuse (c : Crew J) : Crew J := { c with closing := true }

def hangUp (c : Crew J) : Crew J := { c with hungUp := true }

/-- The crew takes no more jobs in, and its workers leave when the queue is empty. -/
def close (c : Crew J) : Crew J := c.refuse.hangUp

def Worker.job? : Worker J → Option J
  | .received job | .between job | .running job => some job
  | _ => none

def jobs (c : Crew J) : List J := c.queue ++ c.workers.filterMap Worker.job?

/-! ## Jobs of one move -/

/-- A move of the first worker that need not wait, where a job that is ready ends in one move: the job that ended, if one
did, and the crew afterwards. -/
def stepFirst? (ready abnormal : J → Bool) (c : Crew J) : Option (Option J × Crew J) :=
  (List.range c.workers.length).findSome? fun i =>
    match c.running? i with
    | none => (c.advance? i).map fun c => (none, c)
    | some job => if ready job then some (some job, c.finish i (abnormal job)) else none

/-- Workers move until all wait, in at most so many moves; the jobs that end are put behind those before. -/
def settleWithin (ready abnormal : J → Bool) : Nat → Crew J → List J → Crew J × List J
  | 0, c, ran => (c, ran)
  | fuel + 1, c, ran =>
    match c.stepFirst? ready abnormal with
    | none => (c, ran)
    | some (job, c) => settleWithin ready abnormal fuel c (ran ++ job.toList)

def settle (ready abnormal : J → Bool) (c : Crew J) (ran : List J) : Crew J × List J :=
  settleWithin ready abnormal (8 * (c.jobs.length + c.workers.length) + 1) c ran

end Crew
end BitmapWorks
