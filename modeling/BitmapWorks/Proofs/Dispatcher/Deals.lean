import BitmapWorks.Proofs.Dispatcher.Tokens
/-!
# Deals — what an act does to a dispatcher as a whole

An act changes the cell of one task at most, or adds the cell of a new one, and beside that only the world of the tasks,
the register of those that are in, and what tasks were settled with (`Deal`).  Every act is such a deal (`deal_of_act`),
so what all tasks add up to is preserved if each deal preserves it.
-/
namespace BitmapWorks

variable {W B V : Type}

def Event.outcome? : Event V → Option (Nat × Except Fault V)
  | settled id outcome => some (id, outcome)
  | _ => none

def Behaviour.lose (bh : Behaviour W B V) (w : W) : Except Fault V → W
  | .ok v => bh.release w v
  | .error _ => w

/-- What a body is used up for: it is dropped if the task has a fault, and gives the result otherwise. -/
inductive Closes (bh : Behaviour W B V) : Option Fault → W → B → Except Fault V → W → Prop
  | failed {fault w b} :
    Closes bh (some fault) w b (.error fault) (bh.discard (bh.cleanUp w b).2.1 (bh.cleanUp w b).2.2)
  | asked {w b outcome} : (bh.result (bh.cleanUp w b).2.1 (bh.cleanUp w b).2.2).1 = some outcome →
    Closes bh none w b outcome (bh.result (bh.cleanUp w b).2.1 (bh.cleanUp w b).2.2).2

/-- Where an outcome goes, and whether the task is settled with it; the flag tells that the sink is to be dropped. -/
inductive Puts (bh : Behaviour W B V) (skips : Bool) (w : W) (s : Settlement (Except Fault V)) (outcome : Except Fault V) :
    W → Settlement (Except Fault V) → Option (Except Fault V) → Prop
  | kept : skips = false → s.sink = some .promise → s.promise.dropped = false →
    Puts bh skips w s outcome w { s with sink := none, promise := { s.promise with line := .holding outcome } }
      (some outcome)
  | called : skips = false → s.sink = some (.callback false) →
    Puts bh skips w s outcome w { s with sink := none } (some outcome)
  | lost : skips = false → s.sink = some .promise → s.promise.dropped = true →
    Puts bh skips w s outcome (bh.lose w outcome) { s with sink := none } (some outcome)
  | discarded : skips = true → Puts bh skips w s outcome (bh.lose w outcome) s.discard none

theorem Puts.told_eq {bh : Behaviour W B V} {skips : Bool} {w w' : W} {s s' : Settlement (Except Fault V)}
    {outcome : Except Fault V} {told : Option (Except Fault V)} (h : Puts bh skips w s outcome w' s' told) :
    told = if skips then none else some outcome := by
  cases h with
  | kept hskips | called hskips | lost hskips | discarded hskips => rw [hskips]; rfl

structure Cell.Alike (c c' : Cell B V) : Prop where
  entered : c'.entered = c.entered
  body : c'.body = c.body
  tally : c'.tally = c.tally
  settlement : c'.settlement = c.settlement

def Act.idles : Act W B V → Bool
  | move _ | pumpAll | untilIdle | shutdown | take _ | poll _ | dropPromise _ => true
  | _ => false

def Act.visits : Act W B V → Bool
  | take _ | poll _ | dropPromise _ | releaseValue _ => true
  | _ => false

def Act.asked? : Act W B V → Option Nat
  | take id | poll id => some id
  | _ => none

namespace Dispatcher

/-- What tasks were settled with, the latest first. -/
def outcomes (d : Dispatcher W B V) : List (Nat × Except Fault V) := d.history.filterMap Event.outcome?

structure Level (d d' : Dispatcher W B V) : Prop where
  registry : d'.registry = d.registry
  admission : d'.admission = d.admission
  outcomes : d'.outcomes = d.outcomes

def newcomer (bh : Behaviour W B V) (d : Dispatcher W B V) (b : B) (sink : Sink) : Cell B V :=
  Cell.fresh (bh.prepare d.world b).2.2 sink

/-- What a chore does that is about no body: nothing that an owner would see. -/
inductive Stirs (d d' : Dispatcher W B V) : Prop
  | idle : d'.cells = d.cells → d'.world = d.world → Level d d' → Stirs d d'
  | stir {id c c'} : d.cells[id]? = some c → c.Alike c' → d'.cells = d.cells.set id c' → d'.world = d.world →
    Level d d' → Stirs d d'

/-- What an act does to a dispatcher as a whole. -/
inductive Deal (bh : Behaviour W B V) (d d' : Dispatcher W B V) : Act W B V → Prop
  | idle {a} : a.idles = true → (∀ id, a.asked? = some id → d.cells[id]? = none) → d'.world = d.world →
    d'.cells = d.cells → Level d d' → Deal bh d d' a
  | stir {m id c c'} : d.cells[id]? = some c → c.Alike c' → d'.cells = d.cells.set id c' → d'.world = d.world →
    Level d d' → Deal bh d d' (.move m)
  | work {i id c b item} : d.cells[id]? = some c → c.body = some b →
    d.crew.running? i = some (.single id .calling) ∧ item = 0 ∨ d.crew.running? i = some (.part id (.calling item)) →
    d'.cells = d.cells.set id (c.afterWork (bh.work d.world b item)) → d'.world = (bh.work d.world b item).world →
    Level d d' → Deal bh d d' (.move (.worker i))
  | credit {id c} : d.cells[id]? = some c → c.settlement.claimed = false → d'.cells = d.cells.set id c.claim →
    d'.world = bh.credit d.world c.tally → Level d d' → Deal bh d d' (.move .caller)
  | conclude {id c b outcome w settlement told} : d.cells[id]? = some c → c.body = some b →
    c.settlement.claimed = true → d.agenda.head? = some (.conclude id) → Closes bh c.fault d.world b outcome w →
    Puts bh (c.entered && d.admission.gate.stopping) w c.settlement outcome d'.world settlement told →
    d'.cells = d.cells.set id (c.close settlement) → d'.registry = d.registry.filter (· ≠ id) →
    d'.admission = (if c.entered then d.admission.leave else d.admission) →
    d'.outcomes = (told.map (id, ·)).toList ++ d.outcomes → Deal bh d d' (.move .caller)
  | take {id c} : d.cells[id]? = some c → d'.cells = d.cells.set id
      { c with settlement := { c.settlement with promise := (c.settlement.promise.take (.error .shuttingDown)).2 } } →
    d'.world = d.world → Level d d' → Deal bh d d' (.take id)
  | poll {id c} : d.cells[id]? = some c → d'.cells = d.cells.set id
      { c with settlement := { c.settlement with promise := (c.settlement.promise.poll (.error .shuttingDown)).2 } } →
    d'.world = d.world → Level d d' → Deal bh d d' (.poll id)
  | forget {id c} : d.cells[id]? = some c → d'.cells = d.cells.set id
      { c with settlement := { c.settlement with promise := c.settlement.promise.drop.2 } } →
    d'.world = c.settlement.promise.waiting.elim d.world (bh.lose d.world) → Level d d' → Deal bh d d' (.dropPromise id)
  | reject {b sink fault} :
    (bh.prepare d.world b).1 = .error fault ∧ d'.admission = d.admission ∨
      (bh.prepare d.world b).1 = .ok () ∧ d.admission.enter.1 = false ∧ fault = .shuttingDown ∧
        d'.admission = d.admission.enter.2 →
    d'.cells = d.cells ++ [{ newcomer bh d b sink with stage := .rejected, fault := some fault }] →
    d'.world = (bh.prepare d.world b).2.1 → d'.registry = d.registry → d'.outcomes = d.outcomes →
    Deal bh d d' (.spawn b sink)
  | letIn {b sink fanout} : (bh.prepare d.world b).1 = .ok () → d.admission.enter.1 = true →
    d'.cells = d.cells ++ [{ newcomer bh d b sink with stage := .queued, entered := true, fanout }] →
    d'.world = (bh.prepare d.world b).2.1 → d'.registry = d.registry ++ [d.cells.length] →
    d'.admission = d.admission.enter.2 → d'.outcomes = d.outcomes → Deal bh d d' (.spawn b sink)
  | shutdown : d'.world = d.world → d'.cells = d.cells → d'.registry = d.registry →
    d'.admission = d.admission.beginShutdown → d'.outcomes = d.outcomes → Deal bh d d' .shutdown
  | releaseValue {v} : d'.world = bh.release d.world v → d'.cells = d.cells → Level d d' → Deal bh d d' (.releaseValue v)
  | surround {w} : d'.world = w → d'.cells = d.cells → Level d d' → Deal bh d d' (.surround w)
  | regate {admission} : d'.world = d.world → d'.cells = d.cells → d'.registry = d.registry →
    d'.admission = admission → d'.outcomes = d.outcomes → Deal bh d d' (.regate admission)

variable {bh : Behaviour W B V} {d d' : Dispatcher W B V} {id i : Nat} {c : Cell B V}

theorem mem_outcomes {outcome : Except Fault V} : (id, outcome) ∈ d.outcomes ↔ .settled id outcome ∈ d.history := by
  unfold outcomes
  rw [List.mem_filterMap]
  constructor
  · rintro ⟨e, he, hsome⟩
    cases e with
    | settled id' outcome' =>
      obtain ⟨rfl, rfl⟩ := Prod.mk.inj (Option.some.inj hsome)
      exact he
    | _ => cases hsome
  · exact fun h => ⟨_, h, rfl⟩

/-! ## Changed cells -/

theorem cells_set_self (hc : d.cells[id]? = some c) : d.cells = d.cells.set id c := by
  obtain ⟨hid, rfl⟩ := List.getElem?_eq_some_iff.1 hc
  exact (List.set_getElem_self hid).symm

theorem cells_modifyCell_set (hc : d.cells[id]? = some c) (f : Cell B V → Cell B V) :
    (d.modifyCell id f).cells = d.cells.set id (f c) := by
  refine List.ext_getElem? fun j => ?_
  by_cases hj : id = j
  · subst hj
    rw [cells_modifyCell hc f, List.getElem?_set_self (List.getElem?_eq_some_iff.1 hc).1]
  · rw [cells_modifyCell_of_ne hj f, List.getElem?_set_ne hj]

theorem cells_modifyCell_set_set {cells : List (Cell B V)} (hid : id < cells.length) (hd : d.cells = cells.set id c)
    (f : Cell B V → Cell B V) : (d.modifyCell id f).cells = cells.set id (f c) := by
  have hc : d.cells[id]? = some c := by rw [hd, List.getElem?_set_self hid]
  rw [cells_modifyCell_set hc, hd, List.set_set]

namespace Deal

theorem stirred {m : Mover} (f : Cell B V → Cell B V) (hc : d.cells[id]? = some c) (hf : c.Alike (f c))
    (hcells : d'.cells = (d.modifyCell id f).cells) (hworld : d'.world = d.world) (hlevel : Level d d') :
    Deal bh d d' (.move m) := .stir hc hf (hcells.trans (cells_modifyCell_set hc f)) hworld hlevel

theorem idled {m : Mover} (hcells : d'.cells = d.cells) (hworld : d'.world = d.world) (hlevel : Level d d') :
    Deal bh d d' (.move m) := .idle rfl (fun _ h => by cases h) hworld hcells hlevel

end Deal

/-! ## Workers -/

theorem deal_perform (hc : d.cells[id]? = some c) {b : B} (hbody : c.body = some b) (item : Nat) (e : Errand)
    (hrun : d.crew.running? i = some (.single id .calling) ∧ item = 0 ∨
      d.crew.running? i = some (.part id (.calling item))) :
    Deal bh d ((d.perform bh id item c b).2.keep i e) (.move (.worker i)) := by
  rw [perform_eq]
  refine .work hc hbody hrun ?_ rfl ⟨rfl, rfl, rfl⟩
  exact cells_modifyCell_set (d := { d with world := (bh.work d.world b item).world }) hc _

theorem deal_takeUp {m : Mover} (hc : d.cells[id]? = some c) (e : Errand) :
    Deal bh d ((d.takeUp id c).2.keep i e) (.move m) := by
  rcases takeUp_cases d id c with ⟨-, htake⟩ | ⟨-, -, htake⟩
  · rw [htake]
    exact .stirred (fun _ => { c with stage := .running }) hc ⟨rfl, rfl, rfl, rfl⟩ rfl rfl ⟨rfl, rfl, rfl⟩
  · rw [htake]
    exact .stirred (fun _ => c) hc ⟨rfl, rfl, rfl, rfl⟩ rfl rfl ⟨rfl, rfl, rfl⟩

theorem deal_recordOutcome {m : Mover} (hc : d.cells[id]? = some c) (outcome : Outcome) (e : Errand) :
    Deal bh d ((d.recordOutcome id outcome).keep i e) (.move m) := by
  unfold recordOutcome
  cases outcome.fault? with
  | none => exact .idled rfl rfl ⟨rfl, rfl, rfl⟩
  | some fault => exact .stirred (·.record fault) hc ⟨rfl, rfl, rfl, rfl⟩ rfl rfl ⟨rfl, rfl, rfl⟩

theorem deal_stepSingle {phase : SinglePhase} (hgone : d.gone = false) (hrun : d.crew.running? i = some (.single id phase))
    (hc : d.cells[id]? = some c) (h : d.stepSingle? bh i id c phase = some d') :
    Deal bh d d' (.move (.worker i)) := by
  cases phase with
  | takeUp =>
    obtain rfl := Option.some.inj h
    exact deal_takeUp hc _
  | call =>
    cases hbody : c.body <;> rw [stepSingle?, hbody] at h <;> obtain rfl := Option.some.inj h
    all_goals exact .idled rfl rfl ⟨rfl, rfl, rfl⟩
  | calling =>
    cases hbody : c.body with
    | none =>
      rw [stepSingle?, hbody] at h
      obtain rfl := Option.some.inj h
      exact .idled rfl rfl ⟨rfl, rfl, rfl⟩
    | some b =>
      rw [stepSingle?, hbody] at h
      dsimp only at h
      split at h
      · obtain rfl := Option.some.inj h
        exact deal_perform hc hbody 0 _ (.inl ⟨hrun, rfl⟩)
      · cases h
  | record outcome =>
    obtain rfl := Option.some.inj h
    exact deal_recordOutcome hc outcome _
  | post =>
    obtain rfl := Option.some.inj h
    rw [post_eq hgone]
    exact .idled rfl rfl ⟨rfl, rfl, rfl⟩

theorem deal_hold (hgone : d.gone = false) (h : d.stepPart? bh i id c .hold = some d') :
    Deal bh d d' (.move (.worker i)) := by
  cases hbody : c.body with
  | none =>
    rw [stepPart?, hbody] at h
    obtain rfl := Option.some.inj h
    rw [endJob_eq hgone]
    exact .idled rfl rfl ⟨rfl, rfl, rfl⟩
  | some b =>
    rw [stepPart?, hbody] at h
    obtain rfl := Option.some.inj h
    exact .idled rfl rfl ⟨rfl, rfl, rfl⟩

theorem deal_fetch (hc : d.cells[id]? = some c) (h : d.stepPart? bh i id c .fetch = some d') :
    Deal bh d d' (.move (.worker i)) := by
  cases hf : c.fanout with
  | none =>
    rw [stepPart?, hf] at h
    obtain rfl := Option.some.inj h
    exact .idled rfl rfl ⟨rfl, rfl, rfl⟩
  | some f =>
    rw [stepPart?, hf] at h
    obtain rfl := Option.some.inj h
    exact .stirred (fun c => { c with fanout := some { f with cursor := f.cursor.fetch.2 } }) hc ⟨rfl, rfl, rfl, rfl⟩
      rfl rfl ⟨rfl, rfl, rfl⟩

theorem deal_partCalling {item : Nat} (hrun : d.crew.running? i = some (.part id (.calling item)))
    (hc : d.cells[id]? = some c) (h : d.stepPart? bh i id c (.calling item) = some d') :
    Deal bh d d' (.move (.worker i)) := by
  cases hbody : c.body with
  | none =>
    rw [stepPart?, hbody] at h
    obtain rfl := Option.some.inj h
    exact .idled rfl rfl ⟨rfl, rfl, rfl⟩
  | some b =>
    rw [stepPart?, hbody] at h
    dsimp only at h
    split at h
    · obtain rfl := Option.some.inj h
      exact deal_perform hc hbody item _ (.inr hrun)
    · cases h

theorem deal_finish (hgone : d.gone = false) (hc : d.cells[id]? = some c)
    (h : d.stepPart? bh i id c .finish = some d') : Deal bh d d' (.move (.worker i)) := by
  cases hf : c.fanout with
  | none =>
    rw [stepPart?, hf] at h
    obtain rfl := Option.some.inj h
    rw [endJob_eq hgone]
    exact .idled rfl rfl ⟨rfl, rfl, rfl⟩
  | some f =>
    rw [stepPart?, hf] at h
    obtain rfl := Option.some.inj h
    have hstir : ∀ crew : Crew Errand,
        Deal bh d { d.modifyCell id fun c => { c with fanout := some f.finish.2 } with crew } (.move (.worker i)) :=
      fun crew => .stirred (fun c => { c with fanout := some f.finish.2 }) hc ⟨rfl, rfl, rfl, rfl⟩ rfl rfl ⟨rfl, rfl, rfl⟩
    split
    · exact hstir _
    · rw [endJob_eq]
      · exact hstir _
      · exact hgone

theorem deal_stepPart {phase : PartPhase} (hgone : d.gone = false) (hrun : d.crew.running? i = some (.part id phase))
    (hc : d.cells[id]? = some c) (h : d.stepPart? bh i id c phase = some d') : Deal bh d d' (.move (.worker i)) := by
  cases phase with
  | hold => exact deal_hold hgone h
  | takeUp =>
    obtain rfl := Option.some.inj h
    exact deal_takeUp hc _
  | fetch => exact deal_fetch hc h
  | calling item => exact deal_partCalling hrun hc h
  | record outcome =>
    obtain rfl := Option.some.inj h
    exact deal_recordOutcome hc outcome _
  | finish => exact deal_finish hgone hc h
  | post =>
    obtain rfl := Option.some.inj h
    rw [post_eq hgone]
    exact .idled rfl rfl ⟨rfl, rfl, rfl⟩
  | look | load =>
    obtain rfl := Option.some.inj h
    exact .idled rfl rfl ⟨rfl, rfl, rfl⟩
  | call item =>
    obtain rfl := Option.some.inj h
    exact .idled rfl rfl ⟨rfl, rfl, rfl⟩

theorem deal_stepWorker (hgone : d.gone = false) (h : d.stepWorker? bh i = some d') :
    Deal bh d d' (.move (.worker i)) := by
  unfold stepWorker? at h
  cases hrun : d.crew.running? i with
  | none =>
    rw [hrun] at h
    obtain ⟨crew, -, rfl⟩ := Option.map_eq_some_iff.1 h
    exact .idled rfl rfl ⟨rfl, rfl, rfl⟩
  | some e =>
    rw [hrun] at h
    dsimp only at h
    cases hc : d.cells[e.id]? with
    | none =>
      rw [hc] at h
      cases h
    | some c =>
      rw [hc] at h
      cases e with
      | single id phase => exact deal_stepSingle hgone hrun hc h
      | part id phase => exact deal_stepPart hgone hrun hc h

/-! ## Concluding -/

theorem dropLost_lost (w : W) (outcome : Except Fault V) : dropLost bh w (.lost outcome) = bh.lose w outcome := by
  cases outcome <;> rfl

theorem puts_deliver (bh : Behaviour W B V) (w : W) {s : Settlement (Except Fault V)} (hsink : s.sink ≠ none)
    (hcalm : s.sink ≠ some (.callback true)) (outcome : Except Fault V) :
    Puts bh false w s outcome (dropLost bh w (s.deliver outcome).1) (s.deliver outcome).2 (some outcome) := by
  unfold Settlement.deliver
  cases hs : s.sink with
  | none => exact absurd hs hsink
  | some sink =>
    cases sink with
    | callback unwinds =>
      cases unwinds with
      | true => exact absurd hs hcalm
      | false => exact .called rfl hs
    | promise =>
      cases hdropped : s.promise.dropped with
      | false => exact .kept rfl hs hdropped
      | true =>
        show Puts _ _ _ _ _ (dropLost bh w (.lost outcome)) _ _
        rw [dropLost_lost]
        exact .lost rfl hs hdropped

/-- **Settling puts the outcome somewhere, once, and the task goes out.** -/
theorem puts_settle (bh : Behaviour W B V) (hc : d.cells[id]? = some c)
    (hcalm : c.settlement.sink ≠ some (.callback true)) (hsink : c.settlement.sink ≠ none) (outcome : Except Fault V) :
    ∃ settlement told, Puts bh (c.entered && d.admission.gate.stopping) d.world c.settlement outcome
        (d.settle bh id outcome).world settlement told ∧
      (d.settle bh id outcome).cells = d.cells.set id { c with entered := false, settlement, stage := .done } ∧
      (d.settle bh id outcome).registry = d.registry.filter (· ≠ id) ∧
      (d.settle bh id outcome).admission = (if c.entered then d.admission.leave else d.admission) ∧
      (d.settle bh id outcome).outcomes = (told.map (id, ·)).toList ++ d.outcomes := by
  have hid := (List.getElem?_eq_some_iff.1 hc).1
  have hentered := cells_modifyCell_set hc fun c => { c with entered := false }
  unfold settle
  rw [hc]
  dsimp only
  split
  · rename_i hstopping
    have hskips : (c.entered && d.admission.gate.stopping) = true := hstopping
    have hdrop := cells_modifyCell_set_set hid hentered fun c => { c with settlement := c.settlement.discard }
    rw [hskips]
    refine ⟨_, none, ?_, cells_modifyCell_set_set (d := { d with registry := _, admission := _, cells := _, history := _ })
      hid hdrop fun c => { c with stage := .done }, rfl, rfl, rfl⟩
    show Puts _ _ _ _ _ (dropLost bh d.world (.lost outcome)) _ _
    rw [dropLost_lost]
    exact .discarded rfl
  · rename_i hstopping
    have hskips : (c.entered && d.admission.gate.stopping) = false := Bool.eq_false_of_not_eq_true hstopping
    have hput := cells_modifyCell_set_set hid hentered fun c' => { c' with settlement := (c.settlement.deliver outcome).2 }
    have hreturns := deliver_returns hcalm outcome
    have hputs := puts_deliver bh d.world hsink hcalm outcome
    rw [hskips]
    revert hput hreturns hputs
    generalize c.settlement.deliver outcome = put
    obtain ⟨delivery, settlement⟩ := put
    intro hput hreturns hputs
    dsimp only at hput hreturns hputs ⊢
    split
    · rename_i o
      exact absurd rfl (hreturns o)
    split
    all_goals
      refine ⟨_, some outcome, hputs, ?_, rfl, rfl, rfl⟩
      exact cells_modifyCell_set_set (d := { d with registry := _, admission := _, cells := _, history := _, world := _ })
        hid hput fun c => { c with stage := .done }

/-- How the caller concludes a task: its own body is used up in the world as it is, and the outcome is put somewhere. -/
structure Concludes (bh : Behaviour W B V) (d d' : Dispatcher W B V) (id : Nat) (c : Cell B V) (b : B)
    (outcome : Except Fault V) (told : Option (Except Fault V)) : Prop where
  cell : d.cells[id]? = some c
  body : c.body = some b
  claimed : c.settlement.claimed = true
  ends : ∃ w settlement, Closes bh c.fault d.world b outcome w ∧
    Puts bh (c.entered && d.admission.gate.stopping) w c.settlement outcome d'.world settlement told ∧
    d'.cells = d.cells.set id (c.close settlement)
  registry : d'.registry = d.registry.filter (· ≠ id)
  admission : d'.admission = if c.entered then d.admission.leave else d.admission
  outcomes : d'.outcomes = (told.map (id, ·)).toList ++ d.outcomes

theorem concludes_of_conclude (hbh : bh.Returns) {rest : List Chore} (hc : d.cells[id]? = some c)
    (hcalm : c.settlement.sink ≠ some (.callback true)) (hclaimed : c.settlement.claimed = true) (hbody : c.body ≠ none)
    (hsink : c.settlement.sink ≠ none)
    (h : ({ d with agenda := rest } : Dispatcher W B V).conclude? bh id = some d') :
    ∃ b outcome told, Concludes bh d d' id c b outcome told := by
  obtain ⟨b, hbody⟩ := Option.ne_none_iff_exists'.1 hbody
  have hfree := bodyIsFree_of_conclude (d := { d with agenda := rest }) hc h
  have hclean : bh.cleanUp d.world b = (false, (bh.cleanUp d.world b).2) := Prod.ext (hbh.cleanUp d.world b) rfl
  have htaken := cells_modifyCell hc fun c => { c with body := none }
  have hcells := cells_modifyCell_set hc fun c => { c with body := none }
  have hclose : ∀ settlement : Settlement (Except Fault V),
      (d.modifyCell id fun c => { c with body := none }).cells.set id
        { c with body := none, entered := false, settlement, stage := .done } = d.cells.set id (c.close settlement) :=
    fun settlement => by rw [hcells, List.set_set]; rfl
  cases hfault : c.fault with
  | some fault =>
    rw [conclude?_fault (d := { d with agenda := rest }) hc hfree hbody hclean hfault] at h
    obtain rfl := Option.some.inj h
    obtain ⟨settlement, told, hputs, hcells', hregistry, hadmission, houtcomes⟩ := puts_settle bh
      (d := { ({ d with agenda := rest } : Dispatcher W B V).cleaned id _ with
        world := bh.discard (bh.cleanUp d.world b).2.1 (bh.cleanUp d.world b).2.2 })
      htaken hcalm hsink (.error fault)
    exact ⟨b, .error fault, told, hc, hbody, hclaimed,
      ⟨_, settlement, hfault ▸ .failed, hputs, hcells'.trans (hclose settlement)⟩, hregistry, hadmission, houtcomes⟩
  | none =>
    obtain ⟨outcome, hresult⟩ :=
      Option.ne_none_iff_exists'.1 (hbh.result (bh.cleanUp d.world b).2.1 (bh.cleanUp d.world b).2.2)
    rw [conclude?_result (d := { d with agenda := rest }) hc hfree hbody hclean hfault hresult] at h
    obtain rfl := Option.some.inj h
    obtain ⟨settlement, told, hputs, hcells', hregistry, hadmission, houtcomes⟩ := puts_settle bh
      (d := { (({ d with agenda := rest } : Dispatcher W B V).cleaned id _).log (.asked id) with
        world := (bh.result (bh.cleanUp d.world b).2.1 (bh.cleanUp d.world b).2.2).2 })
      htaken hcalm hsink outcome
    exact ⟨b, outcome, told, hc, hbody, hclaimed,
      ⟨_, settlement, hfault ▸ .asked hresult, hputs, hcells'.trans (hclose settlement)⟩, hregistry, hadmission, houtcomes⟩

/-- **A move of the caller that concludes a task uses up the body of that task.** -/
theorem concludes_of_stepCaller (hbh : bh.Returns) (hheld : d.Held) (hsound : ∀ id, (d.strand id).Sound)
    {rest : List Chore} (hagenda : d.agenda = .conclude id :: rest) (h : d.stepCaller? bh = some d') :
    ∃ c b outcome told, Concludes bh d d' id c b outcome told := by
  rw [stepCaller?, hagenda] at h
  cases hc : d.cells[id]? with
  | none =>
    have hblank := (hheld.rooted id hc).1
    rw [strand_of_agenda hagenda rfl] at hblank
    cases hblank
  | some c =>
    have hstaged := (hsound id).staged c hc
    rw [strand_of_agenda hagenda rfl] at hstaged
    obtain ⟨hclaimed, hdone, -⟩ := hstaged.of_conclude
    exact ⟨c, concludes_of_conclude hbh hc (hheld.calm id c hc) hclaimed (mt hstaged.body.1 hdone)
      (mt hstaged.sink.1 hdone) h⟩

theorem Concludes.deal {b : B} {outcome : Except Fault V} {told : Option (Except Fault V)}
    (h : Concludes bh d d' id c b outcome told) (hhead : d.agenda.head? = some (.conclude id)) :
    Deal bh d d' (.move .caller) := by
  obtain ⟨w, settlement, hcloses, hputs, hcells⟩ := h.ends
  exact .conclude h.cell h.body h.claimed hhead hcloses hputs hcells h.registry h.admission h.outcomes

/-! ## The caller -/

theorem Stirs.deal {rest : List Chore} {m : Mover} (h : Stirs ({ d with agenda := rest } : Dispatcher W B V) d') :
    Deal bh d d' (.move m) := by
  cases h with
  | idle hcells hworld hlevel => exact .idled hcells hworld ⟨hlevel.registry, hlevel.admission, hlevel.outcomes⟩
  | stir hc halike hcells hworld hlevel =>
    exact .stir hc halike hcells hworld ⟨hlevel.registry, hlevel.admission, hlevel.outcomes⟩

theorem stirs_modifyCell (f : Cell B V → Cell B V) (hf : ∀ c : Cell B V, c.Alike (f c)) (id : Nat)
    (hcells : d'.cells = (d.modifyCell id f).cells) (hworld : d'.world = d.world) (hlevel : Level d d') : Stirs d d' := by
  cases hc : d.cells[id]? with
  | none =>
    have hsame : (d.modifyCell id f).cells = d.cells := List.modify_eq_self (List.getElem?_eq_none_iff.1 hc)
    exact .idle (hcells.trans hsame) hworld hlevel
  | some c => exact .stir hc (hf c) (hcells.trans (cells_modifyCell_set hc f)) hworld hlevel

theorem stirs_submit (id : Nat) : Stirs d (d.submit id) := by
  rw [submit_eq]
  cases (d.crew.submit (.single id .takeUp)).1 with
  | none => exact .idle rfl rfl ⟨rfl, rfl, rfl⟩
  | some r => exact stirs_modifyCell (·.record r.fault) (fun _ => ⟨rfl, rfl, rfl, rfl⟩) id rfl rfl ⟨rfl, rfl, rfl⟩

theorem stirs_submitPart (id next count : Nat) : Stirs d (d.submitPart id next count) := by
  by_cases hnext : next < count
  · rw [submitPart_eq hnext]
    cases (d.crew.submit (.part id .hold)).1 with
    | none => exact .idle rfl rfl ⟨rfl, rfl, rfl⟩
    | some r => exact stirs_modifyCell (·.record r.fault) (fun _ => ⟨rfl, rfl, rfl, rfl⟩) id rfl rfl ⟨rfl, rfl, rfl⟩
  · unfold submitPart
    rw [if_pos (Nat.not_lt.1 hnext)]
    exact .idle rfl rfl ⟨rfl, rfl, rfl⟩

theorem stirs_abandon (id left : Nat) (last : Bool) : Stirs d (d.abandon id left last) := by
  unfold abandon
  cases left with
  | zero => cases last <;> exact .idle rfl rfl ⟨rfl, rfl, rfl⟩
  | succ left =>
    dsimp only
    split
    · exact .idle rfl rfl ⟨rfl, rfl, rfl⟩
    · rename_i f hf
      exact stirs_modifyCell (fun c => { c with fanout := some f.finish.2 }) (fun _ => ⟨rfl, rfl, rfl, rfl⟩) id rfl rfl
        ⟨rfl, rfl, rfl⟩

theorem stirs_force (ids : List Nat) : Stirs d (d.force ids) := by
  cases ids with
  | nil => exact .idle rfl rfl ⟨rfl, rfl, rfl⟩
  | cons id ids =>
    by_cases hstage : (d.cells[id]?).map Cell.stage = some .queued
    · obtain ⟨c, hc, hqueued⟩ := Option.map_eq_some_iff.1 hstage
      rw [force_eq hc hqueued]
      exact stirs_modifyCell (fun c => { c.record .shuttingDown with stage := .completing, forced := true })
        (fun _ => ⟨rfl, rfl, rfl, rfl⟩) id rfl rfl ⟨rfl, rfl, rfl⟩
    · rw [force_eq_plan hstage]
      exact .idle rfl rfl ⟨rfl, rfl, rfl⟩

theorem stirs_awaitIdle (h : d.awaitIdle? = some d') : Stirs d d' := by
  unfold awaitIdle? at h
  split at h
  · cases h
    exact .idle rfl rfl ⟨rfl, rfl, rfl⟩
  · split at h
    · cases h
      exact .idle rfl rfl ⟨rfl, rfl, rfl⟩
    · cases h

theorem deal_complete {rest : List Chore} (id : Nat) :
    Deal bh d (({ d with agenda := rest } : Dispatcher W B V).complete bh id) (.move .caller) := by
  cases hc : d.cells[id]? with
  | none =>
    unfold complete
    dsimp only
    rw [hc]
    exact .idled rfl rfl ⟨rfl, rfl, rfl⟩
  | some c =>
    cases hclaim : c.settlement.claimed with
    | true =>
      rw [complete_eq_self (d := { d with agenda := rest }) hc hclaim]
      exact .idled rfl rfl ⟨rfl, rfl, rfl⟩
    | false =>
      rw [complete_eq (d := { d with agenda := rest }) hc hclaim]
      refine .credit hc hclaim ?_ rfl ⟨rfl, rfl, rfl⟩
      exact cells_modifyCell_set (d := { d with world := _, history := _, agenda := _ }) hc _

theorem stirs_of_chore {chore : Chore} {rest : List Chore} (hagenda : d.agenda = chore :: rest)
    (hcomplete : ∀ id, chore ≠ .complete id) (hconclude : ∀ id, chore ≠ .conclude id) (hletGo : chore ≠ .letGo)
    (h : d.stepCaller? bh = some d') : Stirs ({ d with agenda := rest } : Dispatcher W B V) d' := by
  rw [stepCaller?, hagenda] at h
  cases chore with
  | submit id => obtain rfl := Option.some.inj h; exact stirs_submit id
  | submitPart id next count => obtain rfl := Option.some.inj h; exact stirs_submitPart id next count
  | abandon id left last => obtain rfl := Option.some.inj h; exact stirs_abandon id left last
  | complete id => exact absurd rfl (hcomplete id)
  | conclude id => exact absurd rfl (hconclude id)
  | pump handled =>
    obtain rfl := Option.some.inj h
    unfold pump
    split <;> exact .idle rfl rfl ⟨rfl, rfl, rfl⟩
  | awaitIdle => exact stirs_awaitIdle h
  | drain t =>
    obtain rfl := Option.some.inj h
    unfold drain
    split <;> exact .idle rfl rfl ⟨rfl, rfl, rfl⟩
  | drained =>
    obtain rfl := Option.some.inj h
    unfold drained
    split <;> exact .idle rfl rfl ⟨rfl, rfl, rfl⟩
  | force ids => obtain rfl := Option.some.inj h; exact stirs_force ids
  | recount | closeCrew | join => obtain rfl := Option.some.inj h; exact .idle rfl rfl ⟨rfl, rfl, rfl⟩
  | letGo => exact absurd rfl hletGo

theorem deal_stepCaller (hbh : bh.Returns) (hheld : d.Held) (hsound : ∀ id, (d.strand id).Sound)
    (h : d.stepCaller? bh = some d') : Deal bh d d' (.move .caller) := by
  cases hagenda : d.agenda with
  | nil =>
    rw [stepCaller?, hagenda] at h
    cases h
  | cons chore rest =>
    have hletGo : chore ≠ .letGo := by
      rintro rfl
      exact hheld.steady.agenda (hagenda ▸ List.mem_cons_self ..)
    cases chore with
    | complete id =>
      rw [stepCaller?, hagenda] at h
      obtain rfl := Option.some.inj h
      exact deal_complete id
    | conclude id =>
      obtain ⟨c, b, outcome, told, hconcludes⟩ := concludes_of_stepCaller hbh hheld hsound hagenda h
      exact hconcludes.deal (congrArg List.head? hagenda)
    | _ => exact (stirs_of_chore hagenda (by simp) (by simp) hletGo h).deal

/-! ## Calls -/

theorem deal_spawn (b : B) (sink : Sink) : Deal bh d (d.spawn bh b sink) (.spawn b sink) := by
  have hcells : (d.prepared bh b sink).cells = d.cells ++ [{ newcomer bh d b sink with stage := .validating }] := rfl
  have hadd : ∀ f : Cell B V → Cell B V, ((d.prepared bh b sink).modifyCell d.cells.length f).cells
      = d.cells ++ [f { newcomer bh d b sink with stage := .validating }] := fun f => by
    have hc : (d.prepared bh b sink).cells[d.cells.length]? = some { newcomer bh d b sink with stage := .validating } := by
      rw [hcells, List.getElem?_concat_length]
    rw [cells_modifyCell_set hc, hcells, List.set_append_right _ _ (Nat.le_refl _), Nat.sub_self, List.set_cons_zero]
  rw [spawn_eq]
  cases hprepare : (bh.prepare d.world b).1 with
  | error fault => exact .reject (.inl ⟨hprepare, rfl⟩) (hadd _) rfl rfl rfl
  | ok =>
    dsimp only
    rcases letIn_cases bh (d := d.prepared bh b sink) d.cells.length (bh.prepare d.world b).2.2 with
      ⟨hclosed, heq⟩ | ⟨hopen, -, heq⟩ | ⟨hopen, n, count, -, -, heq⟩
    · rw [heq]
      exact .reject (.inr ⟨hprepare, hclosed, rfl, rfl⟩) (hadd _) rfl rfl rfl
    all_goals
      rw [heq]
      exact .letIn hprepare hopen (hadd _) rfl rfl rfl rfl

theorem dropPromise_eq (bh : Behaviour W B V) (hc : d.cells[id]? = some c) : d.dropPromise bh id =
    { d.modifyCell id fun c' =>
        { c' with settlement := { c'.settlement with promise := c.settlement.promise.drop.2 } } with
      world := c.settlement.promise.waiting.elim d.world (bh.lose d.world) } := by
  unfold dropPromise
  rw [hc]
  dsimp only [Promise.drop]
  rcases c.settlement.promise.waiting with _ | (fault | v) <;> rfl

structure Visited (d d' : Dispatcher W B V) : Prop where
  agenda : d'.agenda = d.agenda
  crew : d'.crew = d.crew
  gone : d'.gone = d.gone
  registry : d'.registry = d.registry
  admission : d'.admission = d.admission
  cells : d'.cells = d.cells ∨ ∃ id c promise, d.cells[id]? = some c ∧
    d'.cells = d.cells.set id { c with settlement := { c.settlement with promise } }

theorem visited_of_act {a : Act W B V} (ha : a.visits = true) (hact : d.act? bh a = some d') : Visited d d' := by
  cases a with
  | take id =>
    obtain rfl := Option.some.inj hact
    unfold take
    cases hc : d.cells[id]? with
    | none => exact ⟨rfl, rfl, rfl, rfl, rfl, .inl rfl⟩
    | some c => exact ⟨rfl, rfl, rfl, rfl, rfl, .inr ⟨id, c, _, hc, cells_modifyCell_set hc _⟩⟩
  | poll id =>
    obtain rfl := Option.some.inj hact
    unfold poll
    cases hc : d.cells[id]? with
    | none => exact ⟨rfl, rfl, rfl, rfl, rfl, .inl rfl⟩
    | some c => exact ⟨rfl, rfl, rfl, rfl, rfl, .inr ⟨id, c, _, hc, cells_modifyCell_set hc _⟩⟩
  | dropPromise id =>
    obtain rfl := Option.some.inj hact
    cases hc : d.cells[id]? with
    | none =>
      unfold dropPromise
      rw [hc]
      exact ⟨rfl, rfl, rfl, rfl, rfl, .inl rfl⟩
    | some c =>
      rw [dropPromise_eq bh hc]
      exact ⟨rfl, rfl, rfl, rfl, rfl, .inr ⟨id, c, _, hc, cells_modifyCell_set hc _⟩⟩
  | releaseValue v =>
    obtain rfl := Option.some.inj hact
    exact ⟨rfl, rfl, rfl, rfl, rfl, .inl rfl⟩
  | _ => cases ha

/-- **A visit is a deal**, also if the caller has let the dispatcher go. -/
theorem deal_of_visit {a : Act W B V} (ha : a.visits = true) (hact : d.act? bh a = some d') : Deal bh d d' a := by
  have hnone : ∀ {id₀ : Nat}, d.cells[id₀]? = none → ∀ id, some id₀ = some id → d.cells[id]? = none := by
    intro id₀ hc id heq
    rw [← Option.some.inj heq]
    exact hc
  cases a with
  | take id =>
    obtain rfl := Option.some.inj hact
    unfold take
    cases hc : d.cells[id]? with
    | none => exact .idle rfl (hnone hc) rfl rfl ⟨rfl, rfl, rfl⟩
    | some c => exact .take hc (cells_modifyCell_set hc _) rfl ⟨rfl, rfl, rfl⟩
  | poll id =>
    obtain rfl := Option.some.inj hact
    unfold poll
    cases hc : d.cells[id]? with
    | none => exact .idle rfl (hnone hc) rfl rfl ⟨rfl, rfl, rfl⟩
    | some c => exact .poll hc (cells_modifyCell_set hc _) rfl ⟨rfl, rfl, rfl⟩
  | dropPromise id =>
    obtain rfl := Option.some.inj hact
    cases hc : d.cells[id]? with
    | none =>
      unfold dropPromise
      rw [hc]
      exact .idle rfl nofun rfl rfl ⟨rfl, rfl, rfl⟩
    | some c =>
      rw [dropPromise_eq bh hc]
      exact .forget hc (cells_modifyCell_set hc _) rfl ⟨rfl, rfl, rfl⟩
  | releaseValue v => obtain rfl := Option.some.inj hact; exact .releaseValue rfl rfl ⟨rfl, rfl, rfl⟩
  | _ => cases ha

theorem deal_of_act (hbh : bh.Returns) (hheld : d.Held) (hsound : ∀ id, (d.strand id).Sound) {a : Act W B V}
    (hact : d.act? bh a = some d') : Deal bh d d' a := by
  cases a with
  | move m =>
    cases m with
    | caller => exact deal_stepCaller hbh hheld hsound hact
    | worker i => exact deal_stepWorker hheld.steady.gone hact
  | spawn b sink => obtain rfl := Option.some.inj hact; exact deal_spawn b sink
  | pumpAll | untilIdle => obtain rfl := Option.some.inj hact; exact .idle rfl nofun rfl rfl ⟨rfl, rfl, rfl⟩
  | shutdown =>
    obtain rfl := Option.some.inj hact
    unfold shutdown
    split
    · exact .idle rfl nofun rfl rfl ⟨rfl, rfl, rfl⟩
    · exact .shutdown rfl rfl rfl rfl rfl
  | take | poll | dropPromise | releaseValue => exact deal_of_visit rfl hact
  | surround world => obtain rfl := Option.some.inj hact; exact .surround rfl rfl ⟨rfl, rfl, rfl⟩
  | regate admission => obtain rfl := Option.some.inj hact; exact .regate rfl rfl rfl rfl rfl

end Dispatcher
end BitmapWorks
