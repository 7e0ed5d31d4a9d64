import BitmapWorks.Dispatcher.Basic
/-!
# Worker — the moves of the workers

A worker without a job makes the moves of its crew.  With a job it makes the moves of its errand: it takes the task up
unless a shutdown forced it, calls the work, records how the call ended, and posts the completion when there is nothing
left to do.  A partition does so for one item after the other, and looks before each whether to stop; only the partition
that finishes last posts.

A call starts and ends in separate moves; it cannot go on while its behaviour says that it is not ready.
-/
namespace BitmapWorks
namespace Dispatcher

variable {W B V : Type} (bh : Behaviour W B V) (d : Dispatcher W B V)

def keep (i : Nat) (e : Errand) : Dispatcher W B V := { d with crew := d.crew.keepRunning i e }

/-- The worker ends its job.  If the caller has let go and no other job is for the task, its cell is dropped. -/
def endJob (i id : Nat) : Dispatcher W B V :=
  let d := { d with crew := d.crew.finish i false }
  if d.gone && !d.isWanted id then d.dropCell bh id else d

/-- The worker posts the completion of a task, if there is still somebody to read it, and ends its job. -/
def post (i id : Nat) : Dispatcher W B V :=
  (if d.gone then d else { d with inbox := d.inbox ++ [id] }).endJob bh i id

def perform (id item : Nat) (c : Cell B V) (b : B) : Outcome × Dispatcher W B V :=
  let w := bh.work d.world b item
  (w.outcome, { d with world := w.world }.modifyCell id fun _ =>
    let c := { c with body := some w.body, tally := Ledger.wrap (c.tally + w.tally) }
    match w.recorded with
    | some fault => c.record fault
    | none => c)

def recordOutcome (id : Nat) (o : Outcome) : Dispatcher W B V :=
  match o.fault? with
  | some fault => d.modifyCell id (·.record fault)
  | none => d

def takeUp (id : Nat) (c : Cell B V) : Bool × Dispatcher W B V :=
  let (may, c) := c.takeUp
  (may, d.modifyCell id fun _ => c)

/-- The next move of a worker for a task whose work is one call; `none` if it has to wait. -/
def stepSingle? (i id : Nat) (c : Cell B V) : SinglePhase → Option (Dispatcher W B V)
  | .takeUp =>
    let (may, d) := d.takeUp id c
    some (d.keep i (.single id (if may then .call else .post)))
  | .call =>
    match c.body with
    | none => some (d.keep i (.single id .post))
    | some _ => some ((d.log (.called id 0)).keep i (.single id .calling))
  | .calling =>
    match c.body with
    | none => some (d.keep i (.single id .post))
    | some b =>
      if bh.ready d.world b 0 then
        let (outcome, d) := d.perform bh id 0 c b
        some (d.keep i (.single id (.record outcome)))
      else none
  | .record outcome => some ((d.recordOutcome id outcome).keep i (.single id .post))
  | .post => some (d.post bh i id)

def stepPart? (i id : Nat) (c : Cell B V) : PartPhase → Option (Dispatcher W B V)
  | .hold =>
    match c.body with
    | none => some (d.endJob bh i id)
    | some _ => some (d.keep i (.part id .takeUp))
  | .takeUp =>
    let (may, d) := d.takeUp id c
    some (d.keep i (.part id (if may then .look else .finish)))
  | .look => some (d.keep i (.part id (if c.shouldStop then .finish else .load)))
  | .load => some (d.keep i (.part id (if c.fanout.any (·.cursor.hasMore) then .fetch else .finish)))
  | .fetch =>
    match c.fanout with
    | none => some (d.keep i (.part id .finish))
    | some f =>
      let (item, cursor) := f.cursor.fetch
      let d := d.modifyCell id fun c => { c with fanout := some { f with cursor } }
      some (d.keep i (.part id (match item with
        | some item => .call item
        | none => .finish)))
  | .call item => some ((d.log (.called id item)).keep i (.part id (.calling item)))
  | .calling item =>
    match c.body with
    | none => some (d.keep i (.part id .finish))
    | some b =>
      if bh.ready d.world b item then
        let (outcome, d) := d.perform bh id item c b
        some (d.keep i (.part id (.record outcome)))
      else none
  | .record outcome => some ((d.recordOutcome id outcome).keep i (.part id .look))
  | .finish =>
    match c.fanout with
    | none => some (d.endJob bh i id)
    | some f =>
      let (last, f) := f.finish
      let d := d.modifyCell id fun c => { c with fanout := some f }
      some (if last then d.keep i (.part id .post) else d.endJob bh i id)
  | .post => some (d.post bh i id)

/-- The next move of a worker; `none` if it has to wait or is gone. -/
def stepWorker? (i : Nat) : Option (Dispatcher W B V) :=
  match d.crew.running? i with
  | none => (d.crew.advance? i).map fun crew => { d with crew }
  | some e =>
    match d.cells[e.id]? with
    | none => none
    | some c =>
      match e with
      | .single id phase => d.stepSingle? bh i id c phase
      | .part id phase => d.stepPart? bh i id c phase

end Dispatcher
end BitmapWorks
