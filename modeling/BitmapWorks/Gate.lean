/-!
# Gate — letting tasks in until the shutdown begins

The gate counts the tasks that are in.  A visit looks whether the shutdown has begun, counts itself in, looks again and
steps back out if the shutdown began in between; so a count of zero that is read after the shutdown began stays final
for all visits that get in.  `Visit.step` is one such move, and `enter` is a visit that nobody disturbs.
-/
namespace BitmapWorks

structure Gate where
  inFlight : Int
  stopping : Bool
  deriving DecidableEq, Repr

inductive Visit where
  /-- It has not looked yet. -/
  | arriving
  /-- It has seen no shutdown. -/
  | welcome
  /-- It has counted itself in. -/
  | counted
  /-- It has seen the shutdown after counting itself in. -/
  | leaving
  /-- It is over; the flag tells whether it got in. -/
  | over (inside : Bool)
  deriving DecidableEq, Repr

namespace Gate

def fresh : Gate := ⟨0, false⟩

def visit (g : Gate) : Visit → Gate × Visit
  | .arriving => (g, if g.stopping then .over false else .welcome)
  | .welcome => ({ g with inFlight := g.inFlight + 1 }, .counted)
  | .counted => (g, if g.stopping then .leaving else .over true)
  | .leaving => ({ g with inFlight := g.inFlight - 1 }, .over false)
  | .over inside => (g, .over inside)

/-- A visit of which all moves follow each other: whether it got in, and the gate afterwards. -/
def enter (g : Gate) : Bool × Gate :=
  let (g, v) := g.visit .arriving
  let (g, v) := g.visit v
  let (g, v) := g.visit v
  let (g, v) := g.visit v
  (v == .over true, g)

def leave (g : Gate) : Gate := { g with inFlight := g.inFlight - 1 }

def beginShutdown (g : Gate) : Gate := { g with stopping := true }

theorem enter_eq (g : Gate) :
    g.enter = if g.stopping then (false, g) else (true, { g with inFlight := g.inFlight + 1 }) := by
  obtain ⟨n, s⟩ := g
  cases s <;> rfl

end Gate

/-- What a dispatcher asks before it takes a task: a gate, or a gate that first refuses by a list and may be deaf to the
shutdown. -/
structure Admission where
  gate : Gate
  refusals : List Bool
  deaf : Bool
  deriving DecidableEq, Repr

namespace Admission

def fresh : Admission := ⟨.fresh, [], false⟩

def enter (a : Admission) : Bool × Admission :=
  match a.refusals with
  | true :: rest => (false, { a with refusals := rest })
  | false :: rest =>
    let (inside, g) := a.gate.enter
    (inside, { a with gate := g, refusals := rest })
  | [] =>
    let (inside, g) := a.gate.enter
    (inside, { a with gate := g })

def leave (a : Admission) : Admission := { a with gate := a.gate.leave }

def beginShutdown (a : Admission) : Admission := if a.deaf then a else { a with gate := a.gate.beginShutdown }

end Admission
end BitmapWorks
