import BitmapWorks.Proofs.Dispatcher.Acts
import BitmapWorks.Proofs.Dispatcher.Strand
/-!
# Steps — what an act can do to the strand of a task

`Step` says once what an act can do to a strand, and `Turn` what a worker's move for an errand does.  Both carry the note
of the act.  That acts do no more than this to any strand is shown in `Weave`; everything about one task then follows
from its steps alone.
-/
namespace BitmapWorks

variable {W B V : Type}

namespace Cell

def offer (c : Cell B V) (fault : Option Fault) : Cell B V := { c with fault := c.fault.or fault }

def afterWork (c : Cell B V) (w : Work W B) : Cell B V :=
  ({ c with body := some w.body, tally := Ledger.wrap (c.tally + w.tally) }).offer w.recorded

def claim (c : Cell B V) : Cell B V :=
  { c with settlement := { c.settlement with claimed := true }, stage := .completing, tally := 0 }

def close (c : Cell B V) (settlement : Settlement (Except Fault V)) : Cell B V :=
  { c with body := none, entered := false, settlement, stage := .done }

end Cell

/-- What a worker's move for an errand does to the cell, what it leaves of the errand, how many completions it posts,
and what happens. -/
inductive Turn (bh : Behaviour W B V) (id : Nat) :
    Note → Cell B V → Errand → Cell B V → Multiset Errand → Nat → List (Event V) → Prop
  | takeUp {c} : c.stage = .queued ∨ c.stage = .running →
    Turn bh id .quiet c (.single id .takeUp) { c with stage := .running } {.single id .call} 0 []
  | tooLate {c} : c.stage ≠ .queued → c.stage ≠ .running →
    Turn bh id .quiet c (.single id .takeUp) c {.single id .post} 0 []
  | call {c b} : c.body = some b →
    Turn bh id .quiet c (.single id .call) c {.single id .calling} 0 [.called id 0]
  | bodyless {c phase} : c.body = none → phase = .call ∨ phase = .calling →
    Turn bh id .quiet c (.single id phase) c {.single id .post} 0 []
  | return {c b} (world : W) : c.body = some b →
    Turn bh id (.offer (bh.work world b 0).recorded) c (.single id .calling) (c.afterWork (bh.work world b 0))
      {.single id (.record (bh.work world b 0).outcome)} 0 []
  | record {c} (outcome : Outcome) :
    Turn bh id (.offer outcome.fault?) c (.single id (.record outcome)) (c.offer outcome.fault?) {.single id .post} 0 []
  | post {c} : Turn bh id .quiet c (.single id .post) c 0 1 []
  | hold {c b} : c.body = some b → Turn bh id (.part .quiet) c (.part id .hold) c {.part id .takeUp} 0 []
  | nothingToHold {c} : c.body = none → Turn bh id (.part .quiet) c (.part id .hold) c 0 0 []
  | partTakeUp {c} : c.stage = .queued ∨ c.stage = .running →
    Turn bh id (.part .quiet) c (.part id .takeUp) { c with stage := .running } {.part id .look} 0 []
  | partTooLate {c} : c.stage ≠ .queued → c.stage ≠ .running →
    Turn bh id (.part .quiet) c (.part id .takeUp) c {.part id .finish} 0 []
  | look {c} : c.shouldStop = false → Turn bh id (.part .quiet) c (.part id .look) c {.part id .load} 0 []
  | stop {c} : c.shouldStop = true → Turn bh id (.part .quiet) c (.part id .look) c {.part id .finish} 0 []
  | load {c f} : c.fanout = some f → f.cursor.next < f.cursor.length →
    Turn bh id (.part .quiet) c (.part id .load) c {.part id .fetch} 0 []
  | exhausted {c} : (∀ f, c.fanout = some f → f.cursor.length ≤ f.cursor.next) →
    Turn bh id (.part .quiet) c (.part id .load) c {.part id .finish} 0 []
  | fetch {c f} : c.fanout = some f → f.cursor.next < f.cursor.length →
    Turn bh id (.part .quiet) c (.part id .fetch) { c with fanout := some { f with cursor := f.cursor.fetch.2 } }
      {.part id (.call f.cursor.next)} 0 []
  | overrun {c f} : c.fanout = some f → f.cursor.length ≤ f.cursor.next →
    Turn bh id (.part .quiet) c (.part id .fetch) { c with fanout := some { f with cursor := f.cursor.fetch.2 } }
      {.part id .finish} 0 []
  | unspread {c} : c.fanout = none → Turn bh id (.part .quiet) c (.part id .fetch) c {.part id .finish} 0 []
  | partCall {c item} :
    Turn bh id (.part .quiet) c (.part id (.call item)) c {.part id (.calling item)} 0 [.called id item]
  | partBodyless {c item} : c.body = none →
    Turn bh id (.part .quiet) c (.part id (.calling item)) c {.part id .finish} 0 []
  | partReturn {c b item} (world : W) : c.body = some b →
    Turn bh id (.part (.offer (bh.work world b item).recorded)) c (.part id (.calling item))
      (c.afterWork (bh.work world b item)) {.part id (.record (bh.work world b item).outcome)} 0 []
  | partRecord {c} (outcome : Outcome) :
    Turn bh id (.part (.offer outcome.fault?)) c (.part id (.record outcome)) (c.offer outcome.fault?) {.part id .look} 0 []
  | finish {c f} : c.fanout = some f → f.pending ≠ 1 →
    Turn bh id (.part .quiet) c (.part id .finish) { c with fanout := some f.finish.2 } 0 0 []
  | finishLast {c f} : c.fanout = some f → f.pending = 1 →
    Turn bh id (.part .quiet) c (.part id .finish) { c with fanout := some f.finish.2 } {.part id .post} 0 []
  | nothingToFinish {c} : c.fanout = none → Turn bh id (.part .quiet) c (.part id .finish) c 0 0 []
  | partPost {c} : Turn bh id (.part (.signal true)) c (.part id .post) c 0 1 []

/-- How a task ends that was cleaned up: with its fault, or with a result that it is asked for. -/
inductive Ending (id : Nat) (c : Cell B V) : Except Fault V → List (Event V) → Prop
  | fault {fault} : c.fault = some fault → Ending id c (.error fault) []
  | result {outcome} : c.fault = none → Ending id c outcome [.asked id]

/-- What becomes of an outcome: it goes into the sink, or the sink is dropped. -/
inductive Notice (id : Nat) (s : Settlement (Except Fault V)) (outcome : Except Fault V) :
    Settlement (Except Fault V) → Event V → Prop
  | settled : Notice id s outcome (s.deliver outcome).2 (.settled id outcome)
  | discarded : Notice id s outcome s.discard (.discarded id)

/-- What an act can do to the strand of a task. -/
inductive Strand.Step (bh : Behaviour W B V) (id : Nat) : Note → Strand B V → Strand B V → Prop
  | reject {cs p es st} (b : B) (sink : Sink) (fault : Fault) : sink ≠ .callback true →
    Step bh id (.bar (some fault)) ⟨none, cs, p, es, st⟩
      ⟨some { Cell.fresh b sink with stage := .rejected, fault := some fault }, .complete id :: cs, p, es,
        .prepared id :: st⟩
  | letIn {cs p es st} (b : B) (sink : Sink) : sink ≠ .callback true → bh.items b = none →
    Step bh id (.bar none) ⟨none, cs, p, es, st⟩
      ⟨some { Cell.fresh b sink with stage := .queued, entered := true }, .submit id :: cs, p, es, .prepared id :: st⟩
  | spread {cs p es st} (b : B) (sink : Sink) (n count : Nat) : sink ≠ .callback true → bh.items b = some n → 0 < count →
    Step bh id (.bar none) ⟨none, cs, p, es, st⟩
      ⟨some { Cell.fresh b sink with stage := .queued, entered := true, fanout := some (.start n count) },
        .submitPart id 0 count :: cs, p, es, .prepared id :: st⟩
  | submit {c cs p es st} :
    Step bh id (.bar none) ⟨some c, .submit id :: cs, p, es, st⟩ ⟨some c, cs, p, .single id .takeUp ::ₘ es, st⟩
  | refuse {c cs p es st} (fault : Fault) :
    Step bh id (.bar (some fault)) ⟨some c, .submit id :: cs, p, es, st⟩
      ⟨some (c.offer (some fault)), .complete id :: cs, p, es, st⟩
  | submitted {c cs p es st next count} : count ≤ next →
    Step bh id (.part .quiet) ⟨some c, .submitPart id next count :: cs, p, es, st⟩ ⟨some c, cs, p, es, st⟩
  | submitPart {c cs p es st next count} : next < count →
    Step bh id (.part (.offer none)) ⟨some c, .submitPart id next count :: cs, p, es, st⟩
      ⟨some c, .submitPart id (next + 1) count :: cs, p, .part id .hold ::ₘ es, st⟩
  | refusePart {c cs p es st next count} (fault : Fault) : next < count →
    Step bh id (.part (.offer (some fault))) ⟨some c, .submitPart id next count :: cs, p, es, st⟩
      ⟨some (c.offer (some fault)), .abandon id (count - next) false :: cs, p, es, st⟩
  | abandoned {c cs p es st last} :
    Step bh id (.part (.signal last)) ⟨some c, .abandon id 0 last :: cs, p, es, st⟩
      ⟨some c, if last then .complete id :: cs else cs, p, es, st⟩
  | abandon {c cs p es st left last f} : c.fanout = some f →
    Step bh id (.part .quiet) ⟨some c, .abandon id (left + 1) last :: cs, p, es, st⟩
      ⟨some { c with fanout := some f.finish.2 }, .abandon id left (last || f.finish.1) :: cs, p, es, st⟩
  | unspread {c cs p es st left last} : c.fanout = none →
    Step bh id (.part .quiet) ⟨some c, .abandon id (left + 1) last :: cs, p, es, st⟩ ⟨some c, cs, p, es, st⟩
  | late {c cs p es st} : c.settlement.claimed = true →
    Step bh id .quiet ⟨some c, .complete id :: cs, p, es, st⟩ ⟨some c, cs, p, es, st⟩
  | claim {c cs p es st} : c.settlement.claimed = false →
    Step bh id .quiet ⟨some c, .complete id :: cs, p, es, st⟩
      ⟨some c.claim, .conclude id :: cs, p, es, .flushed id c.tally :: st⟩
  | conclude {c cs p es st b outcome asked settlement event} : c.body = some b → Ending id c outcome asked →
    Notice id c.settlement outcome settlement event →
    Step bh id .quiet ⟨some c, .conclude id :: cs, p, es, st⟩
      ⟨some (c.close settlement), cs, p, es, event :: (asked ++ .cleanedUp id :: st)⟩
  | bodyless {c cs p es st outcome settlement event} : c.body = none → Notice id c.settlement outcome settlement event →
    Step bh id .quiet ⟨some c, .conclude id :: cs, p, es, st⟩ ⟨some (c.close settlement), cs, p, es, event :: st⟩
  | receive {c cs p es st} :
    Step bh id .quiet ⟨c, cs, p + 1, es, st⟩ ⟨c, .complete id :: cs, p, es, st⟩
  | force {c cs p es st} : c.stage = .queued →
    Step bh id (.bar (some .shuttingDown)) ⟨some c, cs, p, es, st⟩
      ⟨some { c.offer (some .shuttingDown) with stage := .completing, forced := true }, .complete id :: cs, p, es, st⟩
  | promise {c cs p es st} (promise : Promise (Except Fault V)) :
    Step bh id .quiet ⟨some c, cs, p, es, st⟩
      ⟨some { c with settlement := { c.settlement with promise } }, cs, p, es, st⟩
  | turn {n c e c' next posted events cs p st} (es : Multiset Errand) : Turn bh id n c e c' next posted events →
    Step bh id n ⟨some c, cs, p, e ::ₘ es, st⟩ ⟨some c', cs, p + posted, next + es, events ++ st⟩

theorem Strand.Step.cast {bh : Behaviour W B V} {id : Nat} {n : Note} {s s' t t' : Strand B V}
    (h : Strand.Step bh id n s s') (hs : t = s) (hs' : t' = s') : Strand.Step bh id n t t' := by
  subst hs hs'
  exact h

def Strand.Rooted (s : Strand B V) : Prop := s.cell = none → s.chores = [] ∧ s.posted = 0 ∧ s.errands = 0 ∧ s.story = []

def Strand.Calm (s : Strand B V) : Prop := ∀ c, s.cell = some c → c.settlement.sink ≠ some (.callback true)

/-- What an act does to a strand: nothing of note, or a step. -/
def Strand.Leads (bh : Behaviour W B V) (id : Nat) (n : Note) (s s' : Strand B V) : Prop :=
  (n = .quiet ∧ s' = s) ∨ Strand.Step bh id n s s'

end BitmapWorks
