import BitmapWorks.Dispatcher.Caller
import BitmapWorks.Dispatcher.Worker
/-!
# Schedule — who moves when

`step?` is one move of the caller or of a worker, and any order of such moves is a run of the dispatcher.  `settle` and
`run` are the run in which workers go first: they move as far as they can, the first of them before the others, and the
caller moves when they are all waiting.  Between its moves the caller's surroundings may react.
-/
namespace BitmapWorks

inductive Mover where
  | caller
  | worker (i : Nat)
  deriving DecidableEq, Repr

namespace Dispatcher

variable {W B V : Type} (bh : Behaviour W B V)

/-- One move; `none` if whoever is to move has to wait. -/
def step? (d : Dispatcher W B V) : Mover → Option (Dispatcher W B V)
  | .caller => d.stepCaller? bh
  | .worker i => d.stepWorker? bh i

def follow (d : Dispatcher W B V) : List Mover → Option (Dispatcher W B V)
  | [] => some d
  | m :: ms => (d.step? bh m).bind fun d => follow d ms

def stepFirst? (d : Dispatcher W B V) : Option (Dispatcher W B V) :=
  (List.range d.crew.workers.length).findSome? fun i => d.stepWorker? bh i

def settleWithin : Nat → Dispatcher W B V → Dispatcher W B V
  | 0, d => d
  | fuel + 1, d =>
    match d.stepFirst? bh with
    | none => d
    | some d => settleWithin fuel d

def errandMoves (d : Dispatcher W B V) (e : Errand) : Nat :=
  let items := match d.cells[e.id]? with
    | some c => (c.fanout.map (·.cursor.length)).getD 0
    | none => 0
  16 + 6 * (items + 1)

/-- At most so many moves are made before all workers wait. -/
def moves (d : Dispatcher W B V) : Nat :=
  (d.crew.jobs.map d.errandMoves).foldr (· + ·) 0 + 8 * d.crew.workers.length + 1

def settleWorkers (d : Dispatcher W B V) : Dispatcher W B V := settleWithin bh d.moves d

/-- The caller does its agenda in at most so many moves, workers going first and the surroundings reacting before each
move of the caller. -/
def runWithin (react : Dispatcher W B V → Dispatcher W B V) : Nat → Dispatcher W B V → Dispatcher W B V
  | 0, d => d
  | fuel + 1, d =>
    let d := (react (d.settleWorkers bh)).settleWorkers bh
    match d.stepCaller? bh with
    | none => d
    | some d => runWithin react fuel d

def mostMoves : Nat := 1000000

def runReacting (react : Dispatcher W B V → Dispatcher W B V) (d : Dispatcher W B V) : Dispatcher W B V :=
  (runWithin bh react mostMoves d).settleWorkers bh

/-- Reacts once a drain has slept, which it does when it has seen tasks that are in. -/
def duringDrain (react : Dispatcher W B V → Dispatcher W B V) (d : Dispatcher W B V) : Dispatcher W B V :=
  match d.agenda with
  | .pump _ :: .drain t :: _ => if 0 < t.elapsed then react d else d
  | _ => d

/-- Reacts when the crew is about to be closed, which is behind any forcing. -/
def beforeClosing (react : Dispatcher W B V → Dispatcher W B V) (d : Dispatcher W B V) : Dispatcher W B V :=
  match d.agenda with
  | .closeCrew :: _ => react d
  | _ => d

def run (d : Dispatcher W B V) : Dispatcher W B V := d.runReacting bh id

end Dispatcher
end BitmapWorks
