import BitmapWorks.Dispatcher.Basic
/-!
# Caller — the moves of the caller

A call of the caller puts chores on the agenda, and each move does the first of them.  Completing a task has two moves.
The first wins the right to settle and puts the tally into the ledger; the second takes the body, cleans up, and either
notifies the sink or, if the task was in and a shutdown has begun, drops it.  The second has to wait while a worker keeps
hold of the body.

The caller's own code may unwind out of a completion; then the rest of the agenda is lost with the call it belongs to.
-/
namespace BitmapWorks
namespace Dispatcher

variable {W B V : Type} (bh : Behaviour W B V) (d : Dispatcher W B V)

/-! ## Taking tasks in -/

def reject (id : Nat) (fault : Fault) : Dispatcher W B V :=
  (d.modifyCell id fun c => { c.record fault with stage := .rejected }).plan [.complete id]

/-- Lets a task in whose preparation went well and plans the handing in of its work. -/
def letIn (id : Nat) (b : B) : Dispatcher W B V :=
  let (inside, admission) := d.admission.enter
  let d := { d with admission }
  if !inside then d.reject id .shuttingDown
  else
    let d := { d with registry := d.registry ++ [id] }
    match bh.items b with
    | none => (d.modifyCell id fun c => { c with entered := true, stage := .queued }).plan [.submit id]
    | some n =>
      let wanted := (bh.wanted b).getD d.parallelism
      let count := partitionCount wanted (min d.processors d.crew.workers.length) n
      (d.modifyCell id fun c => { c with entered := true, stage := .queued, fanout := some (.start n count) }).plan
        [.submitPart id 0 count]

/-- A new task: it is prepared, and then let in or rejected.  Its number is the count of tasks before it. -/
def spawn (b : B) (sink : Sink) : Dispatcher W B V :=
  let id := d.cells.length
  let (checked, world, b) := bh.prepare d.world b
  let cell : Cell B V := { Cell.fresh b sink with stage := .validating }
  let d := { d with world, cells := d.cells ++ [cell] }.log (.prepared id)
  match checked with
  | .error fault => d.reject id fault
  | .ok () => d.letIn bh id b

def submit (id : Nat) : Dispatcher W B V :=
  let (refusal, crew) := d.crew.submit (.single id .takeUp)
  let d := { d with crew }
  match refusal with
  | none => d
  | some r => (d.modifyCell id (·.record r.fault)).plan [.complete id]

/-- Hands in the next partition of a task; if it is refused, the rest never starts. -/
def submitPart (id next count : Nat) : Dispatcher W B V :=
  if count ≤ next then d
  else
    let (refusal, crew) := d.crew.submit (.part id .hold)
    let d := { d with crew }
    match refusal with
    | none => d.plan [.submitPart id (next + 1) count]
    | some r => (d.modifyCell id (·.record r.fault)).plan [.abandon id (count - next) false]

def abandon (id left : Nat) (last : Bool) : Dispatcher W B V :=
  match left with
  | 0 => if last then d.plan [.complete id] else d
  | left + 1 =>
    match (d.cells[id]?).bind (·.fanout) with
    | none => d
    | some f =>
      let (final, f) := f.finish
      (d.modifyCell id fun c => { c with fanout := some f }).plan [.abandon id left (last || final)]

/-! ## Completing tasks -/

/-- Wins the right to settle a task and puts its tally into the ledger; without effect if somebody else has won. -/
def complete (id : Nat) : Dispatcher W B V :=
  match d.cells[id]? with
  | none => d
  | some c =>
    match c.settlement.claim with
    | (false, _) => d
    | (true, settlement) =>
      let world := bh.credit d.world c.tally
      let d := { d with world }.log (.flushed id c.tally)
      (d.modifyCell id fun c => { c with settlement, stage := .completing, tally := 0 }).plan [.conclude id]

def dropLost (world : W) : Settlement.Delivery (Except Fault V) → W
  | .lost (.ok v) => bh.release world v
  | _ => world

def retire (id : Nat) (entered : Bool) : Dispatcher W B V :=
  let admission := if entered then d.admission.leave else d.admission
  { d with admission, registry := d.registry.filter (· ≠ id) }.modifyCell id fun c => { c with stage := .done }

def unwind : Dispatcher W B V := { d with agenda := [] }

/-- Notifies the sink of a task of its outcome, or drops the sink if the task was in and a shutdown has begun. -/
def settle (id : Nat) (outcome : Except Fault V) : Dispatcher W B V :=
  match d.cells[id]? with
  | none => d
  | some c =>
    let d := d.modifyCell id fun c => { c with entered := false }
    if c.entered && d.admission.gate.stopping then
      let d := (d.modifyCell id fun c => { c with settlement := c.settlement.discard }).log (.discarded id)
      let d := d.retire id c.entered
      { d with world := dropLost bh d.world (.lost outcome) }
    else
      let (delivery, settlement) := c.settlement.deliver outcome
      let d := (d.modifyCell id fun c => { c with settlement }).log (.settled id outcome)
      match delivery with
      | .called _ true => d.unwind
      | _ =>
        let d := { d with world := dropLost bh d.world delivery }
        (if d.checkpoints then d.log .checkpoint else d).retire id c.entered

def bodyMissing : Fault := .internal "task body missing"

/-- Takes the body of a task, cleans up, and settles; `none` while a worker keeps hold of the body. -/
def conclude? (id : Nat) : Option (Dispatcher W B V) :=
  match d.cells[id]? with
  | none => some d
  | some c =>
    if !d.bodyIsFree id then none
    else match c.body with
      | none => some (d.settle bh id (.error (c.fault.getD bodyMissing)))
      | some b =>
        let d := d.modifyCell id fun c => { c with body := none }
        let (unwinds, world, b) := bh.cleanUp d.world b
        let d := { d with world }.log (.cleanedUp id)
        if unwinds then some { d with world := bh.discard d.world b }.unwind
        else match c.fault with
          | some fault => some ({ d with world := bh.discard d.world b }.settle bh id (.error fault))
          | none =>
            let d := d.log (.asked id)
            match bh.result d.world b with
            | (none, world) => some { d with world }.unwind
            | (some outcome, world) => some ({ d with world }.settle bh id outcome)

/-! ## Pumping and shutting down -/

def pump (handled : Nat) : Dispatcher W B V :=
  match d.inbox with
  | id :: rest => { d with inbox := rest }.plan [.complete id, .pump (handled + 1)]
  | [] => { d with handled }

/-- Waits until no task is left; `none` while nothing is posted. -/
def awaitIdle? : Option (Dispatcher W B V) :=
  if d.inFlight = 0 then some d
  else match d.inbox with
    | id :: rest => some ({ d with inbox := rest }.plan [.complete id, .pump 0, .awaitIdle])
    | [] => none

def drain (t : Drain) : Dispatcher W B V :=
  match t.look d.backoff d.handled d.inFlight with
  | .done outcome => { d with drainOutcome := outcome }
  | .again t => d.plan [.pump 0, .drain t]

def drained : Dispatcher W B V :=
  match d.drainOutcome with
  | .drained => d
  | .timedOut _ => d.plan [.force d.registry, .pump 0, .recount]

/-- Forces the first task of a list if no worker has begun it. -/
def force : List Nat → Dispatcher W B V
  | [] => d
  | id :: ids =>
    match d.cells[id]? with
    | some { stage := .queued, .. } =>
      (d.modifyCell id fun c => { c.record .shuttingDown with stage := .completing, forced := true }).plan
        [.complete id, .force ids]
    | _ => d.plan [.force ids]

def recount : Dispatcher W B V :=
  { d with drainOutcome := if d.inFlight = 0 then .drained else .timedOut d.inFlight }

def pumpAll : Dispatcher W B V := d.plan [.pump 0]

def untilIdle : Dispatcher W B V := d.plan [.pump 0, .awaitIdle]

def shutdownChores : List Chore := [.pump 0, .drain (.start d.backoff), .drained, .closeCrew, .join, .pump 0]

/-- Takes no more tasks in, drains those that are in, and stops the crew.  A second shutdown does nothing. -/
def shutdown : Dispatcher W B V :=
  if d.stopped then { d with drainOutcome := .drained }
  else { d with stopped := true, admission := d.admission.beginShutdown }.plan d.shutdownChores

/-- Lets go of everything: what is registered or posted, and the cells that no worker needs. -/
def letGo : Dispatcher W B V :=
  let d := { d with gone := true, registry := [], inbox := [], crew := d.crew.close }
  (List.range d.cells.length).foldl (fun d id => if d.isWanted id then d else d.dropCell bh id) d

def drop : Dispatcher W B V :=
  let d := if d.stopped then d else d.shutdown
  { d with agenda := d.agenda ++ [.letGo] }

/-- The next move of the caller; `none` if it has to wait or has nothing to do. -/
def stepCaller? : Option (Dispatcher W B V) :=
  match d.agenda with
  | [] => none
  | chore :: rest =>
    let d := { d with agenda := rest }
    match chore with
    | .submit id => some (d.submit id)
    | .submitPart id next count => some (d.submitPart id next count)
    | .abandon id left last => some (d.abandon id left last)
    | .complete id => some (d.complete bh id)
    | .conclude id => d.conclude? bh id
    | .pump handled => some (d.pump handled)
    | .awaitIdle => d.awaitIdle?
    | .drain t => some (d.drain t)
    | .drained => some d.drained
    | .force ids => some (d.force ids)
    | .recount => some d.recount
    | .closeCrew => some { d with crew := d.crew.close }
    | .join => some d
    | .letGo => some (d.letGo bh)

/-! ## Promises -/

def take (id : Nat) : Option (Except Fault V) × Dispatcher W B V :=
  match d.cells[id]? with
  | none => (none, d)
  | some c =>
    let (answer, promise) := c.settlement.promise.take (.error .shuttingDown)
    (answer, d.modifyCell id fun c => { c with settlement := { c.settlement with promise } })

def poll (id : Nat) : Polled (Except Fault V) × Dispatcher W B V :=
  match d.cells[id]? with
  | none => (.misuse, d)
  | some c =>
    let (answer, promise) := c.settlement.promise.poll (.error .shuttingDown)
    (answer, d.modifyCell id fun c => { c with settlement := { c.settlement with promise } })

def dropPromise (id : Nat) : Dispatcher W B V :=
  match d.cells[id]? with
  | none => d
  | some c =>
    let (lost, promise) := c.settlement.promise.drop
    let world := match lost with
      | some (.ok v) => bh.release d.world v
      | _ => d.world
    { d with world }.modifyCell id fun c => { c with settlement := { c.settlement with promise } }

def releaseValue (v : V) : Dispatcher W B V := { d with world := bh.release d.world v }

end Dispatcher
end BitmapWorks
