import BitmapWorks.Fault
/-!
# Behaviour — what tasks of a kind do

A task has a body, lives in a world that tasks share, and ends with a value.  Its caller prepares it, cleans up after it
and takes its result; workers do its work, which is one call or a call for each of its items.  A behaviour says what all
that means for bodies, worlds and values of given types.  `Behaviour.or` lets tasks of two kinds live side by side.
-/
namespace BitmapWorks

inductive Outcome where
  | done
  | failed (fault : Fault)
  /-- The call ends abnormally, perhaps with a message. -/
  | panicked (message : Option String)
  deriving DecidableEq, Repr

def Outcome.fault? : Outcome → Option Fault
  | done => none
  | failed fault => some fault
  | panicked message => some (.internal ("worker panicked: " ++ message.getD "unknown panic"))

/-- What a call of a task's work has done: the world and the body afterwards, what it does to the tally, the fault that
it recorded itself, and how it ended. -/
structure Work (W B : Type) where
  world : W
  body : B
  tally : Int
  recorded : Option Fault
  outcome : Outcome

/-- What tasks with bodies `B` and values `V` do in a world `W`. -/
structure Behaviour (W B V : Type) where
  /-- Checks and captures what is asked, before any work. -/
  prepare : W → B → Except Fault Unit × W × B
  /-- How many items the work has; `none` for work that is one call. -/
  items : B → Option Nat
  /-- How many partitions are wanted. -/
  wanted : B → Option Nat
  /-- Whether the call for an item can go on. -/
  ready : W → B → Nat → Bool
  /-- The call for an item. -/
  work : W → B → Nat → Work W B
  /-- Releases what was captured; the flag tells that it unwinds instead of returning. -/
  cleanUp : W → B → Bool × W × B
  /-- Turns the body into the result; `none` if it unwinds instead of returning. -/
  result : W → B → Option (Except Fault V) × W
  /-- Drops a body. -/
  discard : W → B → W
  /-- Drops a value. -/
  release : W → V → W
  /-- Puts a tally into the ledger of the world. -/
  credit : W → Int → W

namespace Behaviour

variable {W B₁ B₂ V₁ V₂ : Type}

def mapWork {B B' : Type} (f : B → B') (w : Work W B) : Work W B' :=
  ⟨w.world, f w.body, w.tally, w.recorded, w.outcome⟩

/-- Tasks of two kinds side by side; tallies go into the ledger as the first kind says. -/
def or (l : Behaviour W B₁ V₁) (r : Behaviour W B₂ V₂) : Behaviour W (B₁ ⊕ B₂) (V₁ ⊕ V₂) where
  prepare w
    | .inl b => let (e, w, b) := l.prepare w b; (e, w, .inl b)
    | .inr b => let (e, w, b) := r.prepare w b; (e, w, .inr b)
  items
    | .inl b => l.items b
    | .inr b => r.items b
  wanted
    | .inl b => l.wanted b
    | .inr b => r.wanted b
  ready w
    | .inl b => l.ready w b
    | .inr b => r.ready w b
  work w
    | .inl b => fun i => mapWork .inl (l.work w b i)
    | .inr b => fun i => mapWork .inr (r.work w b i)
  cleanUp w
    | .inl b => let (u, w, b) := l.cleanUp w b; (u, w, .inl b)
    | .inr b => let (u, w, b) := r.cleanUp w b; (u, w, .inr b)
  result w
    | .inl b => let (v, w) := l.result w b; (v.map (Except.map .inl), w)
    | .inr b => let (v, w) := r.result w b; (v.map (Except.map .inr), w)
  discard w
    | .inl b => l.discard w b
    | .inr b => r.discard w b
  release w
    | .inl v => l.release w v
    | .inr v => r.release w v
  credit := l.credit

end Behaviour
end BitmapWorks
