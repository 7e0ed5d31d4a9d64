import BitmapWorks.Dispatcher.Schedule
/-!
# Acts — everything that can happen to a dispatcher

A run of a dispatcher is a list of acts: moves of the caller and of the workers, calls of the caller, and changes around
the dispatcher, in any order (`run?`).  The note of an act for a task says which fault the act offers to the task,
whether it bars the task from its work, whether it runs or posts a completion because all partitions of the task are
finished, and whether it is a move for a partition; the notes of a run are what "the first fault" and "one completion"
are about.

Every act lets the history grow by events with their checkpoints, and lets the caller hold on to the dispatcher
(`Onward`).
-/
namespace BitmapWorks

variable {W B V : Type}

/-! ## Acts -/

/-- What can happen to a dispatcher. -/
inductive Act (W B V : Type) where
  | move (m : Mover)
  | spawn (body : B) (sink : Sink)
  | pumpAll
  | untilIdle
  | shutdown
  | take (id : Nat)
  | poll (id : Nat)
  | dropPromise (id : Nat)
  | releaseValue (v : V)
  /-- The world of the tasks changes by itself. -/
  | surround (world : W)
  /-- The admission changes by itself. -/
  | regate (admission : Admission)

def Act.returns : Act W B V → Bool
  | spawn _ sink => decide (sink ≠ .callback true)
  | _ => true

structure Behaviour.Returns (bh : Behaviour W B V) : Prop where
  cleanUp : ∀ w b, (bh.cleanUp w b).1 = false
  result : ∀ w b, (bh.result w b).1 ≠ none

namespace Dispatcher

variable (bh : Behaviour W B V)

def act? (d : Dispatcher W B V) : Act W B V → Option (Dispatcher W B V)
  | .move m => d.step? bh m
  | .spawn b sink => some (d.spawn bh b sink)
  | .pumpAll => some d.pumpAll
  | .untilIdle => some d.untilIdle
  | .shutdown => some d.shutdown
  | .take id => some (d.take id).2
  | .poll id => some (d.poll id).2
  | .dropPromise id => some (d.dropPromise bh id)
  | .releaseValue v => some (d.releaseValue bh v)
  | .surround world => some { d with world }
  | .regate admission => some { d with admission }

def run? (d : Dispatcher W B V) : List (Act W B V) → Option (Dispatcher W B V)
  | [] => some d
  | a :: as => (d.act? bh a).bind fun d => run? d as

theorem run?_append (d : Dispatcher W B V) (as bs : List (Act W B V)) :
    d.run? bh (as ++ bs) = (d.run? bh as).bind fun d => d.run? bh bs := by
  induction as generalizing d with
  | nil => rfl
  | cons a as ih =>
    rw [List.cons_append, run?, run?, Option.bind_assoc]
    exact congrArg _ (funext fun d => ih d)

def Along (p : Dispatcher W B V → Act W B V → Prop) (d : Dispatcher W B V) : List (Act W B V) → Prop
  | [] => True
  | a :: as => p d a ∧ match d.act? bh a with
    | none => True
    | some d => Along p d as

instance decidableAlong {p : Dispatcher W B V → Act W B V → Prop} [∀ d a, Decidable (p d a)] (d : Dispatcher W B V) :
    (as : List (Act W B V)) → Decidable (Along bh p d as)
  | [] => inferInstanceAs (Decidable True)
  | a :: as =>
    have : Decidable (match d.act? bh a with
        | none => True
        | some d => Along bh p d as) :=
      match d.act? bh a with
      | none => inferInstanceAs (Decidable True)
      | some d => decidableAlong d as
    inferInstanceAs (Decidable (p d a ∧ _))

theorem along_of_forall {p : Dispatcher W B V → Act W B V → Prop} {as : List (Act W B V)}
    (h : ∀ a ∈ as, ∀ d, p d a) (d : Dispatcher W B V) : Along bh p d as := by
  induction as generalizing d with
  | nil => trivial
  | cons a as ih =>
    refine ⟨h a (List.mem_cons_self ..) d, ?_⟩
    cases d.act? bh a with
    | none => trivial
    | some d' => exact ih (fun a ha => h a (List.mem_cons_of_mem _ ha)) d'

theorem along_mono {p q : Dispatcher W B V → Act W B V → Prop} (h : ∀ d a, p d a → q d a) {d : Dispatcher W B V}
    {as : List (Act W B V)} (hp : Along bh p d as) : Along bh q d as := by
  induction as generalizing d with
  | nil => trivial
  | cons a as ih =>
    obtain ⟨hfirst, hrest⟩ := hp
    refine ⟨h d a hfirst, ?_⟩
    cases hact : d.act? bh a with
    | none => trivial
    | some d' =>
      rw [hact] at hrest
      exact ih hrest

theorem along_and {p q : Dispatcher W B V → Act W B V → Prop} {d : Dispatcher W B V} {as : List (Act W B V)}
    (hp : Along bh p d as) (hq : Along bh q d as) : Along bh (fun d a => p d a ∧ q d a) d as := by
  induction as generalizing d with
  | nil => trivial
  | cons a as ih =>
    obtain ⟨hfirst, hrest⟩ := hp
    obtain ⟨hfirst', hrest'⟩ := hq
    refine ⟨⟨hfirst, hfirst'⟩, ?_⟩
    cases hact : d.act? bh a with
    | none => trivial
    | some d' =>
      rw [hact] at hrest hrest'
      exact ih hrest hrest'

end Dispatcher

/-! ## Histories -/

/-- The checkpoint behind an event, if the caller wants to be told: there is one behind an outcome that was settled. -/
def Event.echo (checkpoints : Bool) : Event V → List (Event V)
  | settled _ _ => if checkpoints then [.checkpoint] else []
  | _ => []

/-- Whether a checkpoint stands directly behind each outcome that was settled, if the caller wants to be told, and none
stands elsewhere; the latest event comes first. -/
inductive Echoed (checkpoints : Bool) : List (Event V) → Prop
  | nil : Echoed checkpoints []
  | cons {e es} : e ≠ .checkpoint → Echoed checkpoints es → Echoed checkpoints (e.echo checkpoints ++ e :: es)

theorem Echoed.append {checkpoints : Bool} {es es' : List (Event V)} (h : Echoed checkpoints es)
    (h' : Echoed checkpoints es') : Echoed checkpoints (es ++ es') := by
  induction h with
  | nil => exact h'
  | cons hne hes ih =>
    rw [List.append_assoc]
    exact .cons hne ih

namespace Dispatcher

variable {d d' : Dispatcher W B V}

structure Onward (d d' : Dispatcher W B V) : Prop where
  gone : d'.gone = d.gone
  agenda : Chore.letGo ∈ d'.agenda → Chore.letGo ∈ d.agenda
  checkpoints : d'.checkpoints = d.checkpoints
  history : ∃ events, Echoed d.checkpoints events ∧ d'.history = events ++ d.history

theorem Onward.plan (chores : List Chore) (hgone : d'.gone = d.gone) (hcheckpoints : d'.checkpoints = d.checkpoints)
    (hhistory : d'.history = d.history) (hagenda : d'.agenda = chores ++ d.agenda) (hchores : Chore.letGo ∉ chores) :
    Onward d d' := by
  refine ⟨hgone, fun hmem => ?_, hcheckpoints, [], .nil, hhistory⟩
  rw [hagenda] at hmem
  exact (List.mem_append.1 hmem).resolve_left hchores

theorem Onward.quiet (hgone : d'.gone = d.gone) (hcheckpoints : d'.checkpoints = d.checkpoints)
    (hhistory : d'.history = d.history) (hagenda : d'.agenda = d.agenda) : Onward d d' :=
  .plan [] hgone hcheckpoints hhistory hagenda (by simp)

theorem Onward.event (chores : List Chore) (e : Event V) (hgone : d'.gone = d.gone)
    (hcheckpoints : d'.checkpoints = d.checkpoints) (hhistory : d'.history = e :: d.history)
    (hagenda : d'.agenda = chores ++ d.agenda) (hchores : Chore.letGo ∉ chores) (hne : e ≠ .checkpoint)
    (hecho : e.echo d.checkpoints = []) : Onward d d' := by
  have hsilent : Onward d { d' with history := d.history } := .plan chores hgone hcheckpoints rfl hagenda hchores
  refine ⟨hgone, hsilent.agenda, hcheckpoints, e.echo d.checkpoints ++ [e], .cons hne .nil, ?_⟩
  rw [hecho]
  exact hhistory

theorem Onward.trans {d₁ d₂ : Dispatcher W B V} (h : Onward d d₁) (h' : Onward d₁ d₂) : Onward d d₂ := by
  obtain ⟨events, hechoed, hhistory⟩ := h.history
  obtain ⟨events', hechoed', hhistory'⟩ := h'.history
  refine ⟨h'.gone.trans h.gone, fun hmem => h.agenda (h'.agenda hmem), h'.checkpoints.trans h.checkpoints,
    events' ++ events, .append (h.checkpoints ▸ hechoed') hechoed, ?_⟩
  rw [hhistory', hhistory, List.append_assoc]

end Dispatcher

/-! ## Notes -/

/-- What an act does to a task of note: the fault that it offers, whether the caller bars the task from its work by it,
whether it runs or posts a completion because all partitions of the task are finished, and whether it is a move for a
partition. -/
structure Note where
  offered : Option Fault
  bars : Bool
  signals : Bool
  moves : Bool

namespace Note

def quiet : Note := ⟨none, false, false, false⟩

def offer (fault : Option Fault) : Note := ⟨fault, false, false, false⟩

def bar (fault : Option Fault) : Note := ⟨fault, fault.isSome, false, false⟩

def signal (signals : Bool) : Note := ⟨none, false, signals, false⟩

def part (n : Note) : Note := { n with moves := true }

@[simp] theorem moves_part (n : Note) : n.part.moves = true := rfl

end Note

def Errand.note (bh : Behaviour W B V) (world : W) (c : Cell B V) : Errand → Note
  | single _ .calling => .offer (c.body.bind fun b => (bh.work world b 0).recorded)
  | single _ (.record outcome) => .offer outcome.fault?
  | single _ _ => .quiet
  | part _ (.calling item) => .part (.offer (c.body.bind fun b => (bh.work world b item).recorded))
  | part _ (.record outcome) => .part (.offer outcome.fault?)
  | part _ .post => .part (.signal true)
  | part _ _ => .part .quiet

namespace Dispatcher

def note (bh : Behaviour W B V) (d : Dispatcher W B V) (id : Nat) : Act W B V → Note
  | .spawn b _ =>
    if id = d.cells.length then
      match (bh.prepare d.world b).1 with
      | .error fault => .bar (some fault)
      | .ok () => .bar (if d.admission.enter.1 then none else some .shuttingDown)
    else .quiet
  | .move .caller =>
    match d.agenda with
    | .submit id' :: _ => if id' = id then .bar ((d.crew.submit (.single id .takeUp)).1.map Refusal.fault) else .quiet
    | .submitPart id' next count :: _ =>
      if id' = id then
        .part (if next < count then .offer ((d.crew.submit (.part id .hold)).1.map Refusal.fault) else .quiet)
      else .quiet
    | .abandon id' 0 last :: _ => if id' = id then .part (.signal last) else .quiet
    | .abandon id' (_ + 1) _ :: _ => if id' = id then .part .quiet else .quiet
    | .force (id' :: _) :: _ =>
      if id' = id ∧ (d.cells[id]?).map Cell.stage = some .queued then .bar (some .shuttingDown) else .quiet
    | _ => .quiet
  | .move (.worker i) =>
    match d.crew.running? i, d.cells[id]? with
    | some e, some c => if e.id = id then e.note bh d.world c else .quiet
    | _, _ => .quiet
  | _ => .quiet

end Dispatcher

end BitmapWorks
