import BitmapWorks.Behaviour
import BitmapWorks.World
/-!
# Rehearsal — tasks that do what a script says

For trying out a dispatcher.  A solo is work of one call; it may wait at a door, add to the tally, and end in any way.  A
chorus has items; each stores the square of its number, unless the script says otherwise.
-/
namespace BitmapWorks

inductive Cue where
  | play
  | fail
  | panic (message : Option String)
  /-- Records a fault and goes on. -/
  | recordThenPlay
  | recordThenFail
  | recordThenPanic
  /-- Ends well but stores nothing. -/
  | rest
  deriving DecidableEq, Repr

namespace Cue

/-- The cue of a name; an unknown name is the plain cue. -/
def ofName : String → Cue
  | "error" => fail
  | "panic" => panic (some "boom")
  | "panic_string" => panic (some "boom 7")
  | "panic_other" => panic none
  | "set_error" => recordThenPlay
  | "set_then_error" => recordThenFail
  | "set_then_panic" => recordThenPanic
  | "skip" => rest
  | _ => play

def recorded : Cue → Option Fault
  | recordThenPlay => some .frozen
  | recordThenFail | recordThenPanic => some (.internal "first")
  | _ => none

def outcome : Cue → Outcome
  | fail => .failed (.corrupted "work failed")
  | panic message => .panicked message
  | recordThenFail => .failed (.corrupted "second")
  | recordThenPanic => .panicked (some "second")
  | _ => .done

def stores : Cue → Bool
  | play | recordThenPlay => true
  | _ => false

end Cue

structure Solo where
  input : Int
  refused : Bool
  /-- The door at which the call waits. -/
  door : Option String
  allocated : Nat
  released : Nat
  charge : Option Nat
  cue : Cue
  withheld : Bool
  deriving Repr

structure Chorus where
  length : Nat
  concurrency : Option Nat
  refused : Bool
  allocated : Nat
  cues : List (Nat × Cue)
  deriving Repr

inductive Rehearsal where
  | solo (script : Solo) (charge : Option Nat) (computed : Option Int)
  | chorus (script : Chorus) (slots : List (Option Nat))
  deriving Repr

inductive Recital where
  | number (n : Int) (charge : Option Nat)
  | numbers (ns : List Nat)
  deriving Repr

namespace Rehearsal

def ofSolo (s : Solo) : Rehearsal := solo s none none

def ofChorus (s : Chorus) : Rehearsal := chorus s (List.replicate s.length none)

def isRefused : Rehearsal → Bool
  | solo s _ _ => s.refused
  | chorus s _ => s.refused

def work (w : World) (item : Nat) : Rehearsal → Work World Rehearsal
  | solo s _ _ =>
    let tally := Ledger.allocated (Ledger.released (Ledger.allocated 0 s.allocated) s.released) (s.charge.getD 0)
    let computed := if s.cue.stores then some (2 * s.input) else none
    ⟨w, solo s s.charge computed, tally, s.cue.recorded, s.cue.outcome⟩
  | chorus s slots =>
    let cue := ((s.cues.find? (·.1 == item)).map Prod.snd).getD .play
    let slots := if cue.stores then slots.set item (some (item * item)) else slots
    ⟨w, chorus s slots, Ledger.entry s.allocated, cue.recorded, cue.outcome⟩

def dropCharge (w : World) : Option Nat → World
  | some bytes => w.discharge bytes
  | none => w

def discard (w : World) : Rehearsal → World
  | solo _ charge _ => dropCharge w charge
  | chorus _ _ => w

def result (w : World) : Rehearsal → Except Fault Recital × World
  | solo s charge computed =>
    match s.withheld, computed with
    | false, some n => (.ok (.number n charge), w)
    | _, _ => (.error (.internal "no output"), dropCharge w charge)
  | chorus _ slots =>
    match slots.mapM id with
    | some ns => (.ok (.numbers ns), w)
    | none => (.error (.internal "empty slot"), w)

def behaviour : Behaviour World Rehearsal Recital where
  prepare w t := (if t.isRefused then .error (.argument "bad input") else .ok (), w, t)
  items
    | solo _ _ _ => none
    | chorus s _ => some s.length
  wanted
    | solo _ _ _ => none
    | chorus s _ => s.concurrency
  ready
    | w, solo s _ _, _ => s.door.all w.openDoors.contains
    | _, chorus _ _, _ => true
  work w t item := work w item t
  cleanUp w t := (false, w, t)
  result w t := let (answer, w) := result w t; (some answer, w)
  discard := discard
  release
    | w, .number _ charge => dropCharge w charge
    | w, .numbers _ => w
  credit := World.credit

end Rehearsal
end BitmapWorks
