import BitmapWorks.Crew
import BitmapWorks.Proofs.Lists
/-!
# Workshop — a crew, those who hand jobs in, and those who close it

Any number of callers hand jobs in and any number of closers close the crew while its workers work, and their moves
follow each other in any order (`run?`).  Handing in and hanging up need the lock of the entrance: a caller that has seen
no closing waits for it and keeps it until its job is taken or refused.  The job of a caller is its number, and two books
say which worker has begun which job and which jobs have ended how.

`Step` says once what a move can do: `Turn` for a caller, `Shutting` for a closer, `Labour` for a worker.
-/
namespace BitmapWorks

inductive Caller where
  | outside (h : Handover Nat)
  | inside (h : Handover Nat)
  deriving DecidableEq, Repr

inductive Closer where
  | coming
  /-- It is the first, and waits for the lock. -/
  | first
  | holding
  /-- It has hung up, and still has the lock. -/
  | hung
  | gone
  deriving DecidableEq, Repr

namespace Caller

def handover : Caller → Handover Nat
  | outside h | inside h => h

def isInside : Caller → Bool
  | inside _ => true
  | _ => false

end Caller

def Worker.current? : Worker Nat → Option Nat
  | running job => some job
  | _ => none

def Closer.isInside : Closer → Bool
  | holding | hung => true
  | _ => false

/-- A crew with its callers and closers, and the books of the jobs that have begun and of those that have ended. -/
structure Workshop where
  crew : Crew Nat
  callers : List Caller
  closers : List Closer
  begun : List (Nat × Nat)
  ended : List (Nat × Bool)

namespace Workshop

def start (size bound : Nat) : Workshop := ⟨.start size bound, [], [], [], []⟩

def isFree (w : Workshop) : Bool := w.callers.all (!·.isInside) && w.closers.all (!·.isInside)

/-- What can happen: somebody comes to hand in a job or to close the crew; a caller, a closer or a worker makes its next
move; or the job that a worker runs ends. -/
inductive Move where
  | handIn
  | shutDown
  | caller (k : Nat)
  | closer (k : Nat)
  | worker (i : Nat)
  | finish (i : Nat) (abnormally : Bool)
  deriving DecidableEq, Repr

def Move.isStep : Move → Bool
  | handIn | shutDown => false
  | _ => true

/-- The next move of a caller: the crew and the caller afterwards; `none` if it has to wait or is done. -/
def callerMove (w : Workshop) : Caller → Option (Crew Nat × Caller)
  | .outside (.start job) =>
    let (crew, h) := w.crew.handOver (.start job)
    some (crew, .outside h)
  | .outside (.seen job) => if w.isFree then some (w.crew, .inside (.seen job)) else none
  | .outside _ => none
  | .inside (.start _) => none
  | .inside (.over refusal) => some (w.crew, .outside (.over refusal))
  | .inside h =>
    let (crew, h) := w.crew.handOver h
    some (crew, .inside h)

def closerMove (w : Workshop) : Closer → Option (Crew Nat × Closer)
  | .coming => some (if w.crew.closing then (w.crew, .gone) else (w.crew.refuse, .first))
  | .first => if w.isFree then some (w.crew, .holding) else none
  | .holding => some (w.crew.hangUp, .hung)
  | .hung => some (w.crew, .gone)
  | .gone => none

def move? (w : Workshop) : Move → Option Workshop
  | .handIn => some { w with callers := w.callers ++ [.outside (.start w.callers.length)] }
  | .shutDown => some { w with closers := w.closers ++ [.coming] }
  | .caller k => do
    let (crew, c) ← w.callerMove (← w.callers[k]?)
    return { w with crew, callers := w.callers.set k c }
  | .closer k => do
    let (crew, c) ← w.closerMove (← w.closers[k]?)
    return { w with crew, closers := w.closers.set k c }
  | .worker i => do
    let crew ← w.crew.advance? i
    return { w with crew, begun := w.begun ++ ((crew.running? i).map fun job => (i, job)).toList }
  | .finish i abnormally => do
    let job ← w.crew.running? i
    return { w with crew := w.crew.finish i abnormally, ended := w.ended ++ [(job, abnormally)] }

def run? (w : Workshop) : List Move → Option Workshop
  | [] => some w
  | m :: ms => (w.move? m).bind fun w => run? w ms

/-! ## What a move can do -/

/-- What a move of a caller does to the queue, to the counts and to the caller. -/
inductive Turn (w : Workshop) : Caller → List Nat → Counts → Caller → Prop
  | turnedAway {job} : w.crew.closing = true →
      Turn w (.outside (.start job)) w.crew.queue w.crew.counts (.outside (.over (some .closed)))
  | looked {job} : w.crew.closing = false →
      Turn w (.outside (.start job)) w.crew.queue w.crew.counts (.outside (.seen job))
  | entered {job} : w.isFree = true → Turn w (.outside (.seen job)) w.crew.queue w.crew.counts (.inside (.seen job))
  | tooLate {job} : w.crew.hungUp = true →
      Turn w (.inside (.seen job)) w.crew.queue w.crew.counts (.inside (.over (some .closed)))
  | counted {job} : w.crew.hungUp = false → Turn w (.inside (.seen job)) w.crew.queue
      { w.crew.counts with queued := w.crew.counts.queued + 1 } (.inside (.counted job))
  | stranded {job} : w.crew.isDeserted = true →
      Turn w (.inside (.counted job)) w.crew.queue w.crew.counts (.inside .stranded)
  | queued {job} : w.crew.isDeserted = false → w.crew.queue.length < w.crew.bound →
      Turn w (.inside (.counted job)) (w.crew.queue ++ [job]) w.crew.counts (.inside .queued)
  | bounced {job} : w.crew.bound ≤ w.crew.queue.length →
      Turn w (.inside (.counted job)) w.crew.queue w.crew.counts (.inside .bounced)
  | accepted : Turn w (.inside .queued) w.crew.queue
      { w.crew.counts with submitted := w.crew.counts.submitted + 1 } (.inside (.over none))
  | full : Turn w (.inside .bounced) w.crew.queue
      { w.crew.counts with queued := w.crew.counts.queued - 1 } (.inside (.over (some .queueFull)))
  | deserted : Turn w (.inside .stranded) w.crew.queue
      { w.crew.counts with queued := w.crew.counts.queued - 1 } (.inside (.over (some .closed)))
  | left {refusal} : Turn w (.inside (.over refusal)) w.crew.queue w.crew.counts (.outside (.over refusal))

inductive Shutting (w : Workshop) : Closer → Crew Nat → Closer → Prop
  | late : w.crew.closing = true → Shutting w .coming w.crew .gone
  | begun : w.crew.closing = false → Shutting w .coming w.crew.refuse .first
  | entered : w.isFree = true → Shutting w .first w.crew .holding
  | hungUp : Shutting w .holding w.crew.hangUp .hung
  | left : Shutting w .hung w.crew .gone

/-- What a move of a worker that runs no job does to the queue, to the counts and to the worker. -/
inductive Labour (w : Workshop) : Worker Nat → List Nat → Counts → Worker Nat → Prop
  | receives {job rest} : w.crew.queue = job :: rest → Labour w .idle rest w.crew.counts (.received job)
  | leaves : w.crew.queue = [] → w.crew.hungUp = true → Labour w .idle w.crew.queue w.crew.counts .left
  | uncounts {job} : Labour w (.received job) w.crew.queue
      { w.crew.counts with queued := w.crew.counts.queued - 1 } (.between job)
  | begins {job} : Labour w (.between job) w.crew.queue
      { w.crew.counts with active := w.crew.counts.active + 1 } (.running job)
  | notes : Labour w .crashed w.crew.queue { w.crew.counts with panicked := w.crew.counts.panicked + 1 } .returned
  | returns : Labour w .returned w.crew.queue { w.crew.counts with active := w.crew.counts.active - 1 } .retired
  | retires : Labour w .retired w.crew.queue { w.crew.counts with completed := w.crew.counts.completed + 1 } .idle

inductive Step (w : Workshop) : Move → Workshop → Prop
  | handIn : Step w .handIn { w with callers := w.callers ++ [.outside (.start w.callers.length)] }
  | shutDown : Step w .shutDown { w with closers := w.closers ++ [.coming] }
  | caller {k c queue counts c'} (hc : w.callers[k]? = some c) (hturn : w.Turn c queue counts c') :
      Step w (.caller k) { w with crew := { w.crew with queue, counts }, callers := w.callers.set k c' }
  | closer {k c crew c'} (hc : w.closers[k]? = some c) (hshutting : w.Shutting c crew c') :
      Step w (.closer k) { w with crew, closers := w.closers.set k c' }
  | worker {i v queue counts v'} (hv : w.crew.workers[i]? = some v) (hlabour : w.Labour v queue counts v') :
      Step w (.worker i) { w with
        crew := { w.crew with workers := w.crew.workers.set i v', queue, counts }
        begun := w.begun ++ (v'.current?.map fun job => (i, job)).toList }
  | finish {i job abnormally} (hv : w.crew.workers[i]? = some (.running job)) :
      Step w (.finish i abnormally) { w with
        crew := { w.crew with workers := w.crew.workers.set i (if abnormally then .crashed else .returned) }
        ended := w.ended ++ [(job, abnormally)] }

variable {w w' : Workshop} {m : Move}

theorem turn_of_callerMove {c c' : Caller} {crew : Crew Nat} (h : w.callerMove c = some (crew, c')) :
    ∃ queue counts, crew = { w.crew with queue, counts } ∧ w.Turn c queue counts c' := by
  cases c with
  | outside handover =>
    cases handover with
    | start job =>
      cases hclosing : w.crew.closing with
      | true =>
        simp only [callerMove, Crew.handOver, hclosing, if_true, Option.some.injEq, Prod.mk.injEq] at h
        obtain ⟨rfl, rfl⟩ := h
        exact ⟨_, _, rfl, .turnedAway hclosing⟩
      | false =>
        simp only [callerMove, Crew.handOver, hclosing, Bool.false_eq_true, if_false, Option.some.injEq,
          Prod.mk.injEq] at h
        obtain ⟨rfl, rfl⟩ := h
        exact ⟨_, _, rfl, .looked hclosing⟩
    | seen job =>
      cases hfree : w.isFree with
      | true =>
        simp only [callerMove, hfree, if_true, Option.some.injEq, Prod.mk.injEq] at h
        obtain ⟨rfl, rfl⟩ := h
        exact ⟨_, _, rfl, .entered hfree⟩
      | false => simp [callerMove, hfree] at h
    | _ => cases h
  | inside handover =>
    cases handover with
    | start job => cases h
    | seen job =>
      by_cases hhung : w.crew.hungUp = true
      · simp only [callerMove, Crew.handOver, if_pos hhung, Option.some.injEq, Prod.mk.injEq] at h
        obtain ⟨rfl, rfl⟩ := h
        exact ⟨_, _, rfl, .tooLate hhung⟩
      · simp only [callerMove, Crew.handOver, if_neg hhung, Option.some.injEq, Prod.mk.injEq] at h
        obtain ⟨rfl, rfl⟩ := h
        exact ⟨_, _, rfl, .counted (Bool.eq_false_iff.2 hhung)⟩
    | counted job =>
      cases hdeserted : w.crew.isDeserted with
      | true =>
        simp only [callerMove, Crew.handOver, hdeserted, if_true, Option.some.injEq, Prod.mk.injEq] at h
        obtain ⟨rfl, rfl⟩ := h
        exact ⟨_, _, rfl, .stranded hdeserted⟩
      | false =>
        by_cases hroom : w.crew.queue.length < w.crew.bound
        · simp only [callerMove, Crew.handOver, hdeserted, Bool.false_eq_true, if_false, if_pos hroom,
            Option.some.injEq, Prod.mk.injEq] at h
          obtain ⟨rfl, rfl⟩ := h
          exact ⟨_, _, rfl, .queued hdeserted hroom⟩
        · simp only [callerMove, Crew.handOver, hdeserted, Bool.false_eq_true, if_false, if_neg hroom,
            Option.some.injEq, Prod.mk.injEq] at h
          obtain ⟨rfl, rfl⟩ := h
          exact ⟨_, _, rfl, .bounced (Nat.not_lt.1 hroom)⟩
    | queued =>
      obtain ⟨rfl, rfl⟩ := Prod.mk.inj (Option.some.inj h)
      exact ⟨_, _, rfl, .accepted⟩
    | bounced =>
      obtain ⟨rfl, rfl⟩ := Prod.mk.inj (Option.some.inj h)
      exact ⟨_, _, rfl, .full⟩
    | stranded =>
      obtain ⟨rfl, rfl⟩ := Prod.mk.inj (Option.some.inj h)
      exact ⟨_, _, rfl, .deserted⟩
    | «over» refusal =>
      obtain ⟨rfl, rfl⟩ := Prod.mk.inj (Option.some.inj h)
      exact ⟨_, _, rfl, .left⟩

theorem shutting_of_closerMove {c c' : Closer} {crew : Crew Nat} (h : w.closerMove c = some (crew, c')) :
    w.Shutting c crew c' := by
  cases c with
  | coming =>
    cases hclosing : w.crew.closing with
    | true =>
      simp only [closerMove, hclosing, if_true, Option.some.injEq, Prod.mk.injEq] at h
      obtain ⟨rfl, rfl⟩ := h
      exact .late hclosing
    | false =>
      simp only [closerMove, hclosing, Bool.false_eq_true, if_false, Option.some.injEq, Prod.mk.injEq] at h
      obtain ⟨rfl, rfl⟩ := h
      exact .begun hclosing
  | first =>
    cases hfree : w.isFree with
    | true =>
      simp only [closerMove, hfree, if_true, Option.some.injEq, Prod.mk.injEq] at h
      obtain ⟨rfl, rfl⟩ := h
      exact .entered hfree
    | false => simp [closerMove, hfree] at h
  | holding =>
    obtain ⟨rfl, rfl⟩ := Prod.mk.inj (Option.some.inj h)
    exact .hungUp
  | hung =>
    obtain ⟨rfl, rfl⟩ := Prod.mk.inj (Option.some.inj h)
    exact .left
  | gone => cases h

theorem labour_of_advance? {i : Nat} {crew : Crew Nat} (h : w.crew.advance? i = some crew) :
    ∃ v queue counts v', w.crew.workers[i]? = some v ∧ w.Labour v queue counts v' ∧
      crew = { w.crew with workers := w.crew.workers.set i v', queue, counts } := by
  unfold Crew.advance? at h
  split at h
  · rename_i hv
    split at h
    · rename_i job rest hqueue
      exact ⟨_, _, _, _, hv, .receives hqueue, (Option.some.inj h).symm⟩
    · rename_i hqueue
      split at h
      · rename_i hhung
        exact ⟨_, _, _, _, hv, .leaves hqueue hhung, (Option.some.inj h).symm⟩
      · cases h
  · rename_i job hv
    exact ⟨_, _, _, _, hv, .uncounts, (Option.some.inj h).symm⟩
  · rename_i job hv
    exact ⟨_, _, _, _, hv, .begins, (Option.some.inj h).symm⟩
  · rename_i hv
    exact ⟨_, _, _, _, hv, .notes, (Option.some.inj h).symm⟩
  · rename_i hv
    exact ⟨_, _, _, _, hv, .returns, (Option.some.inj h).symm⟩
  · rename_i hv
    exact ⟨_, _, _, _, hv, .retires, (Option.some.inj h).symm⟩
  · cases h

theorem running?_eq (c : Crew Nat) (i : Nat) : c.running? i = (c.workers[i]?).bind Worker.current? := by
  unfold Crew.running?
  rcases c.workers[i]? with _ | v
  · rfl
  · cases v <;> rfl

/-- **Every move is one of the steps.** -/
theorem step_of_move? (h : w.move? m = some w') : w.Step m w' := by
  cases m with
  | handIn =>
    obtain rfl := Option.some.inj h
    exact .handIn
  | shutDown =>
    obtain rfl := Option.some.inj h
    exact .shutDown
  | caller k =>
    obtain ⟨c, hc, h⟩ := Option.bind_eq_some_iff.1 h
    obtain ⟨⟨crew, c'⟩, hmove, h⟩ := Option.bind_eq_some_iff.1 h
    obtain ⟨queue, counts, rfl, hturn⟩ := turn_of_callerMove hmove
    obtain rfl := Option.some.inj h
    exact .caller hc hturn
  | closer k =>
    obtain ⟨c, hc, h⟩ := Option.bind_eq_some_iff.1 h
    obtain ⟨⟨crew, c'⟩, hmove, h⟩ := Option.bind_eq_some_iff.1 h
    obtain rfl := Option.some.inj h
    exact .closer hc (shutting_of_closerMove hmove)
  | worker i =>
    obtain ⟨crew, hadvance, h⟩ := Option.bind_eq_some_iff.1 h
    obtain ⟨v, queue, counts, v', hv, hlabour, rfl⟩ := labour_of_advance? hadvance
    obtain rfl := Option.some.inj h
    rw [running?_eq, List.getElem?_set_self (List.getElem?_eq_some_iff.1 hv).1]
    exact .worker hv hlabour
  | finish i abnormally =>
    obtain ⟨job, hrunning, h⟩ := Option.bind_eq_some_iff.1 h
    obtain rfl := Option.some.inj h
    rw [running?_eq] at hrunning
    obtain ⟨v, hv, hcurrent⟩ := Option.bind_eq_some_iff.1 hrunning
    cases v with
    | running job' =>
      obtain rfl := Option.some.inj hcurrent
      exact .finish hv
    | _ => cases hcurrent

end Workshop
end BitmapWorks
