import BitmapWorks.Proofs.Dispatcher.Caller
/-!
# Worker — the workers' moves as turns

A worker's move for its errand changes one cell at most and leaves the agenda alone (`Touched`); then it keeps its job,
posts, or ends the job.  So for the task of the errand it is a turn, and for all others nothing (`leads_stepWorker`).
-/
namespace BitmapWorks

variable {W B V : Type}

theorem Turn.echoed {bh : Behaviour W B V} {id : Nat} {n : Note} {c c' : Cell B V} {e : Errand} {next : Multiset Errand}
    {posted : Nat} {events : List (Event V)} (h : Turn bh id n c e c' next posted events) (checkpoints : Bool) :
    Echoed checkpoints events := by
  cases h with
  | call => exact .cons (e := .called id 0) nofun .nil
  | @partCall c item => exact .cons (e := .called id item) nofun .nil
  | _ => exact .nil

namespace Dispatcher

variable {bh : Behaviour W B V} {d d₁ d' : Dispatcher W B V} {i id : Nat} {c c' : Cell B V} {e : Errand}

/-! ## What a move touches -/

/-- Whether a dispatcher has changed in the cell of one task and in what happened to that task only. -/
structure Touched (d d₁ : Dispatcher W B V) (id : Nat) (c' : Cell B V) (events : List (Event V)) : Prop where
  same : Same d d₁
  cell : d₁.cells[id]? = some c'
  cells : ∀ id', id ≠ id' → d₁.cells[id']? = d.cells[id']?
  history : d₁.history = events ++ d.history
  about : ∀ event ∈ events, event.task? = some id

theorem Touched.refl (hc : d.cells[id]? = some c) : Touched d d id c [] :=
  ⟨⟨rfl, rfl, rfl, rfl, rfl⟩, hc, fun _ _ => rfl, rfl, by simp⟩

theorem Touched.modify (hc : d.cells[id]? = some c) (world : W) (f : Cell B V → Cell B V) :
    Touched d (({ d with world } : Dispatcher W B V).modifyCell id f) id (f c) [] :=
  ⟨⟨rfl, rfl, rfl, rfl, rfl⟩, cells_modifyCell hc f, fun _ h => cells_modifyCell_of_ne h f, rfl, by simp⟩

theorem Touched.log (hc : d.cells[id]? = some c) {event : Event V} (h : event.task? = some id) :
    Touched d (d.log event) id c [event] :=
  ⟨⟨rfl, rfl, rfl, rfl, rfl⟩, hc, fun _ _ => rfl, rfl, by simpa using h⟩

/-- A worker has moved for its errand: the cell of the task and what happened to it are touched, some completions are
posted, and other errands have taken the place of this one. -/
structure Moved (d d' : Dispatcher W B V) (i id : Nat) (c' : Cell B V) (next : Multiset Errand) (posted : Nat)
    (events : List (Event V)) : Prop where
  agenda : d'.agenda = d.agenda
  gone : d'.gone = d.gone
  checkpoints : d'.checkpoints = d.checkpoints
  inbox : d'.inbox = d.inbox ++ List.replicate posted id
  hand : d'.crew.hand = next + (d.crew.finish i false).hand
  next : ∀ e ∈ next, e.id = id
  cell : d'.cells[id]? = some c'
  cells : ∀ id', id ≠ id' → d'.cells[id']? = d.cells[id']?
  history : d'.history = events ++ d.history
  about : ∀ event ∈ events, event.task? = some id

theorem Touched.keep {events : List (Event V)} (h : Touched d d₁ id c' events) (hrun : d.crew.running? i = some e)
    {e' : Errand} (he' : e'.id = id) : Moved d (d₁.keep i e') i id c' {e'} 0 events := by
  refine ⟨h.same.agenda, h.same.gone, h.same.checkpoints, ?_, ?_, by simpa using he', h.cell, h.cells, h.history, h.about⟩
  · exact h.same.inbox.trans (List.append_nil _).symm
  · show (d₁.crew.keepRunning i e').hand = _
    rw [h.same.crew, (Crew.hand_of_running? hrun false).2 e']
    rfl

/-- While the caller holds on to the dispatcher, to end a job is no more than that. -/
theorem endJob_eq (hgone : d.gone = false) (i id : Nat) : d.endJob bh i id = { d with crew := d.crew.finish i false } := by
  unfold Dispatcher.endJob
  dsimp only
  rw [hgone]
  rfl

theorem post_eq (hgone : d.gone = false) (i id : Nat) :
    d.post bh i id = { d with inbox := d.inbox ++ [id], crew := d.crew.finish i false } := by
  unfold Dispatcher.post
  rw [if_neg (by rw [hgone]; exact Bool.false_ne_true)]
  exact endJob_eq (d := { d with inbox := d.inbox ++ [id] }) hgone i id

theorem Touched.endJob {events : List (Event V)} (h : Touched d d₁ id c' events) (hgone : d.gone = false) :
    Moved d (d₁.endJob bh i id) i id c' 0 0 events := by
  rw [endJob_eq (h.same.gone.trans hgone)]
  refine ⟨h.same.agenda, h.same.gone, h.same.checkpoints, ?_, ?_, by simp, h.cell, h.cells, h.history, h.about⟩
  · exact h.same.inbox.trans (List.append_nil _).symm
  · show (d₁.crew.finish i false).hand = _
    rw [h.same.crew, zero_add]

theorem moved_post (hc : d.cells[id]? = some c) (hgone : d.gone = false) : Moved d (d.post bh i id) i id c 0 1 [] := by
  rw [post_eq hgone]
  exact ⟨rfl, rfl, rfl, rfl, (zero_add _).symm, by simp, hc, fun _ _ => rfl, rfl, by simp⟩

/-! ## Turns -/

namespace Moved

variable {next : Multiset Errand} {posted : Nat} {events : List (Event V)}

/-- The errands for the task of the errand, before and after the move. -/
theorem errands (h : Moved d d' i id c' next posted events) (hrun : d.crew.running? i = some e) (he : e.id = id) :
    ∃ es, (d.strand id).errands = e ::ₘ es ∧ (d'.strand id).errands = next + es := by
  refine ⟨(d.crew.finish i false).hand.filter (·.id = id), ?_, ?_⟩
  · show d.crew.hand.filter _ = _
    rw [(Crew.hand_of_running? hrun false).1, filter_errand e he]
  · show d'.crew.hand.filter _ = _
    rw [h.hand, Multiset.filter_add, Multiset.filter_eq_self.2 h.next]

theorem strand_of_ne (h : Moved d d' i id c' next posted events) (hrun : d.crew.running? i = some e) (he : e.id = id)
    {id' : Nat} (hid : id ≠ id') : d'.strand id' = d.strand id' := by
  refine Strand.ext (h.cells id' hid) ?_ ?_ ?_ ?_
  · exact congrArg (List.filter _) h.agenda
  · show d'.inbox.count id' = d.inbox.count id'
    rw [h.inbox, List.count_append, List.count_replicate, if_neg (by simpa using hid), Nat.add_zero]
  · have hnext : next.filter (·.id = id') = 0 := Multiset.filter_eq_nil.2 fun e' he' => by rw [h.next e' he']; exact hid
    show d'.crew.hand.filter _ = d.crew.hand.filter _
    rw [h.hand, (Crew.hand_of_running? hrun false).1, Multiset.filter_add, hnext, zero_add,
      filter_errand_of_ne e (by rw [he]; exact hid)]
  · have hevents : events.filter (·.task? = some id') = [] := List.filter_eq_nil_iff.2 fun event hevent => by
      rw [h.about event hevent]
      simpa using hid
    show d'.history.filter _ = d.history.filter _
    rw [h.history, List.filter_append, hevents, List.nil_append]

theorem strands (h : Moved d d' i id c' next posted events) (hrun : d.crew.running? i = some e) (he : e.id = id)
    (hc : d.cells[id]? = some c) :
    ∃ es, d.strand id = ⟨some c, (d.strand id).chores, (d.strand id).posted, e ::ₘ es, (d.strand id).story⟩ ∧
      d'.strand id = ⟨some c', (d.strand id).chores, (d.strand id).posted + posted, next + es,
        events ++ (d.strand id).story⟩ := by
  obtain ⟨es, hbefore, hafter⟩ := h.errands hrun he
  refine ⟨es, Strand.ext hc rfl rfl hbefore rfl, Strand.ext h.cell (congrArg (List.filter _) h.agenda) ?_ hafter ?_⟩
  · show d'.inbox.count id = d.inbox.count id + posted
    rw [h.inbox, List.count_append, List.count_replicate_self]
  · show d'.history.filter _ = events ++ d.history.filter _
    rw [h.history, List.filter_append, List.filter_eq_self.2 fun event hevent => by simpa using h.about event hevent]

/-- **A move that is a turn for the task of its errand is nothing for the others.** -/
theorem leads {n : Note} (h : Moved d d' i id c' next posted events) (hrun : d.crew.running? i = some e)
    (he : e.id = id) (hc : d.cells[id]? = some c) (hturn : Turn bh id n c e c' next posted events) (id' : Nat) :
    Strand.Leads bh id' (if id = id' then n else .quiet) (d.strand id') (d'.strand id') := by
  by_cases hid : id = id'
  · subst hid
    obtain ⟨es, hbefore, hafter⟩ := h.strands hrun he hc
    rw [if_pos rfl]
    exact .inr ((Strand.Step.turn es hturn).cast hbefore hafter)
  · rw [if_neg hid]
    exact .inl ⟨rfl, h.strand_of_ne hrun he hid⟩

end Moved

def Turns (bh : Behaviour W B V) (d d' : Dispatcher W B V) (i id : Nat) (c : Cell B V) (e : Errand) : Prop :=
  ∃ c' next posted events, Turn bh id (e.note bh d.world c) c e c' next posted events ∧
    Moved d d' i id c' next posted events

theorem takeUp_cases (d : Dispatcher W B V) (id : Nat) (c : Cell B V) :
    ((c.stage = .queued ∨ c.stage = .running) ∧
      d.takeUp id c = (true, d.modifyCell id fun _ => { c with stage := .running })) ∨
    (c.stage ≠ .queued ∧ c.stage ≠ .running ∧ d.takeUp id c = (false, d.modifyCell id fun _ => c)) := by
  obtain ⟨stage, entered, body, fanout, tally, fault, forced, settlement⟩ := c
  cases stage with
  | queued => exact .inl ⟨.inl rfl, rfl⟩
  | running => exact .inl ⟨.inr rfl, rfl⟩
  | _ => exact .inr ⟨by simp, by simp, rfl⟩

theorem perform_eq (item : Nat) (b : B) : d.perform bh id item c b = ((bh.work d.world b item).outcome,
    ({ d with world := (bh.work d.world b item).world } : Dispatcher W B V).modifyCell id fun _ =>
      c.afterWork (bh.work d.world b item)) := by
  unfold perform Cell.afterWork Cell.offer
  cases hrecorded : (bh.work d.world b item).recorded with
  | none =>
    dsimp only
    rw [hrecorded, Option.or_none]
  | some fault =>
    dsimp only
    rw [hrecorded]
    rfl

theorem touched_recordOutcome (hc : d.cells[id]? = some c) (outcome : Outcome) :
    Touched d (d.recordOutcome id outcome) id (c.offer outcome.fault?) [] := by
  unfold recordOutcome Cell.offer
  cases outcome.fault? with
  | none =>
    rw [Option.or_none]
    exact .refl hc
  | some fault => exact .modify hc d.world _

theorem turns_single {phase : SinglePhase} (hgone : d.gone = false) (hrun : d.crew.running? i = some (.single id phase))
    (hc : d.cells[id]? = some c) (h : d.stepSingle? bh i id c phase = some d') :
    Turns bh d d' i id c (.single id phase) := by
  cases phase with
  | takeUp =>
    rcases takeUp_cases d id c with ⟨hstage, htake⟩ | ⟨hqueued, hrunning, htake⟩
    · rw [stepSingle?, htake] at h
      obtain rfl := Option.some.inj h
      exact ⟨_, _, _, _, .takeUp hstage, (Touched.modify hc d.world _).keep hrun rfl⟩
    · rw [stepSingle?, htake] at h
      obtain rfl := Option.some.inj h
      exact ⟨_, _, _, _, .tooLate hqueued hrunning, (Touched.modify hc d.world fun _ => c).keep hrun rfl⟩
  | call =>
    cases hbody : c.body with
    | none =>
      rw [stepSingle?, hbody] at h
      obtain rfl := Option.some.inj h
      exact ⟨_, _, _, _, .bodyless hbody (.inl rfl), (Touched.refl hc).keep hrun rfl⟩
    | some b =>
      rw [stepSingle?, hbody] at h
      obtain rfl := Option.some.inj h
      exact ⟨_, _, _, _, .call hbody, (Touched.log hc rfl).keep hrun rfl⟩
  | calling =>
    cases hbody : c.body with
    | none =>
      rw [stepSingle?, hbody] at h
      obtain rfl := Option.some.inj h
      refine ⟨_, _, _, _, ?_, (Touched.refl hc).keep hrun rfl⟩
      rw [Errand.note, hbody]
      exact .bodyless hbody (.inr rfl)
    | some b =>
      rw [stepSingle?, hbody] at h
      dsimp only at h
      split at h
      · rw [perform_eq] at h
        obtain rfl := Option.some.inj h
        refine ⟨_, _, _, _, ?_, (Touched.modify hc _ _).keep hrun rfl⟩
        rw [Errand.note, hbody]
        exact .return d.world hbody
      · cases h
  | record outcome =>
    obtain rfl := Option.some.inj h
    exact ⟨_, _, _, _, .record outcome, (touched_recordOutcome hc outcome).keep hrun rfl⟩
  | post =>
    obtain rfl := Option.some.inj h
    exact ⟨_, _, _, _, .post, moved_post hc hgone⟩

theorem turns_hold (hgone : d.gone = false) (hrun : d.crew.running? i = some (.part id .hold))
    (hc : d.cells[id]? = some c) (h : d.stepPart? bh i id c .hold = some d') : Turns bh d d' i id c (.part id .hold) := by
  cases hbody : c.body with
  | none =>
    rw [stepPart?, hbody] at h
    obtain rfl := Option.some.inj h
    exact ⟨_, _, _, _, .nothingToHold hbody, (Touched.refl hc).endJob hgone⟩
  | some b =>
    rw [stepPart?, hbody] at h
    obtain rfl := Option.some.inj h
    exact ⟨_, _, _, _, .hold hbody, (Touched.refl hc).keep hrun rfl⟩

theorem turns_partTakeUp (hrun : d.crew.running? i = some (.part id .takeUp)) (hc : d.cells[id]? = some c)
    (h : d.stepPart? bh i id c .takeUp = some d') : Turns bh d d' i id c (.part id .takeUp) := by
  rcases takeUp_cases d id c with ⟨hstage, htake⟩ | ⟨hqueued, hrunning, htake⟩
  · rw [stepPart?, htake] at h
    obtain rfl := Option.some.inj h
    exact ⟨_, _, _, _, .partTakeUp hstage, (Touched.modify hc d.world _).keep hrun rfl⟩
  · rw [stepPart?, htake] at h
    obtain rfl := Option.some.inj h
    exact ⟨_, _, _, _, .partTooLate hqueued hrunning, (Touched.modify hc d.world fun _ => c).keep hrun rfl⟩

theorem turns_look (hrun : d.crew.running? i = some (.part id .look)) (hc : d.cells[id]? = some c)
    (h : d.stepPart? bh i id c .look = some d') : Turns bh d d' i id c (.part id .look) := by
  obtain rfl := Option.some.inj h
  cases hstop : c.shouldStop with
  | true => exact ⟨_, _, _, _, .stop hstop, (Touched.refl hc).keep hrun rfl⟩
  | false => exact ⟨_, _, _, _, .look hstop, (Touched.refl hc).keep hrun rfl⟩

theorem turns_load (hrun : d.crew.running? i = some (.part id .load)) (hc : d.cells[id]? = some c)
    (h : d.stepPart? bh i id c .load = some d') : Turns bh d d' i id c (.part id .load) := by
  obtain rfl := Option.some.inj h
  cases hmore : c.fanout.any (·.cursor.hasMore) with
  | true =>
    obtain ⟨f, hf, hnext⟩ := (Option.any_eq_true _ _).1 hmore
    exact ⟨_, _, _, _, .load hf (of_decide_eq_true hnext), (Touched.refl hc).keep hrun rfl⟩
  | false =>
    refine ⟨_, _, _, _, .exhausted fun f hf => ?_, (Touched.refl hc).keep hrun rfl⟩
    rw [hf] at hmore
    exact Nat.not_lt.1 (of_decide_eq_false hmore)

theorem turns_fetch (hrun : d.crew.running? i = some (.part id .fetch)) (hc : d.cells[id]? = some c)
    (h : d.stepPart? bh i id c .fetch = some d') : Turns bh d d' i id c (.part id .fetch) := by
  cases hf : c.fanout with
  | none =>
    rw [stepPart?, hf] at h
    obtain rfl := Option.some.inj h
    exact ⟨_, _, _, _, .unspread hf, (Touched.refl hc).keep hrun rfl⟩
  | some f =>
    rw [stepPart?, hf] at h
    obtain rfl := Option.some.inj h
    have htouched := Touched.modify hc d.world fun c => { c with fanout := some { f with cursor := f.cursor.fetch.2 } }
    by_cases hnext : f.cursor.next < f.cursor.length
    · rw [if_pos hnext]
      exact ⟨_, _, _, _, .fetch hf hnext, htouched.keep hrun rfl⟩
    · rw [if_neg hnext]
      exact ⟨_, _, _, _, .overrun hf (Nat.not_lt.1 hnext), htouched.keep hrun rfl⟩

theorem turns_partCalling {item : Nat} (hrun : d.crew.running? i = some (.part id (.calling item)))
    (hc : d.cells[id]? = some c) (h : d.stepPart? bh i id c (.calling item) = some d') :
    Turns bh d d' i id c (.part id (.calling item)) := by
  cases hbody : c.body with
  | none =>
    rw [stepPart?, hbody] at h
    obtain rfl := Option.some.inj h
    refine ⟨_, _, _, _, ?_, (Touched.refl hc).keep hrun rfl⟩
    rw [Errand.note, hbody]
    exact .partBodyless hbody
  | some b =>
    rw [stepPart?, hbody] at h
    dsimp only at h
    split at h
    · rw [perform_eq] at h
      obtain rfl := Option.some.inj h
      refine ⟨_, _, _, _, ?_, (Touched.modify hc _ _).keep hrun rfl⟩
      rw [Errand.note, hbody]
      exact .partReturn d.world hbody
    · cases h

theorem turns_finish (hgone : d.gone = false) (hrun : d.crew.running? i = some (.part id .finish))
    (hc : d.cells[id]? = some c) (h : d.stepPart? bh i id c .finish = some d') :
    Turns bh d d' i id c (.part id .finish) := by
  cases hf : c.fanout with
  | none =>
    rw [stepPart?, hf] at h
    obtain rfl := Option.some.inj h
    exact ⟨_, _, _, _, .nothingToFinish hf, (Touched.refl hc).endJob hgone⟩
  | some f =>
    rw [stepPart?, hf] at h
    obtain rfl := Option.some.inj h
    have htouched := Touched.modify hc d.world fun c => { c with fanout := some f.finish.2 }
    by_cases hlast : f.pending = 1
    · rw [if_pos (by simpa using hlast)]
      exact ⟨_, _, _, _, .finishLast hf hlast, htouched.keep hrun rfl⟩
    · rw [if_neg (by simpa using hlast)]
      exact ⟨_, _, _, _, .finish hf hlast, htouched.endJob hgone⟩

theorem turns_part {phase : PartPhase} (hgone : d.gone = false) (hrun : d.crew.running? i = some (.part id phase))
    (hc : d.cells[id]? = some c) (h : d.stepPart? bh i id c phase = some d') :
    Turns bh d d' i id c (.part id phase) := by
  cases phase with
  | hold => exact turns_hold hgone hrun hc h
  | takeUp => exact turns_partTakeUp hrun hc h
  | look => exact turns_look hrun hc h
  | load => exact turns_load hrun hc h
  | fetch => exact turns_fetch hrun hc h
  | call item =>
    obtain rfl := Option.some.inj h
    exact ⟨_, _, _, _, .partCall, (Touched.log hc rfl).keep hrun rfl⟩
  | calling item => exact turns_partCalling hrun hc h
  | record outcome =>
    obtain rfl := Option.some.inj h
    exact ⟨_, _, _, _, .partRecord outcome, (touched_recordOutcome hc outcome).keep hrun rfl⟩
  | finish => exact turns_finish hgone hrun hc h
  | post =>
    obtain rfl := Option.some.inj h
    exact ⟨_, _, _, _, .partPost, moved_post hc hgone⟩

/-! ## A move of a worker -/

/-- **A move of a worker that has an errand is a turn**, while the caller holds on to the dispatcher. -/
theorem turns_stepWorker (hgone : d.gone = false) (hrun : d.crew.running? i = some e) (hc : d.cells[e.id]? = some c)
    (h : d.stepWorker? bh i = some d') : Turns bh d d' i e.id c e := by
  unfold stepWorker? at h
  rw [hrun] at h
  dsimp only at h
  rw [hc] at h
  cases e with
  | single id phase => exact turns_single hgone hrun hc h
  | part id phase => exact turns_part hgone hrun hc h

/-- **A move of a worker is a turn for the task of its errand, and nothing for the others**, while the caller holds on to
the dispatcher. -/
theorem leads_stepWorker (hgone : d.gone = false) (h : d.stepWorker? bh i = some d') :
    Onward d d' ∧ ∀ id, Strand.Leads bh id (d.note bh id (.move (.worker i))) (d.strand id) (d'.strand id) := by
  cases hrun : d.crew.running? i with
  | none =>
    unfold stepWorker? at h
    rw [hrun] at h
    obtain ⟨crew, hcrew, rfl⟩ := Option.map_eq_some_iff.1 h
    refine ⟨.quiet rfl rfl rfl rfl, fun id => .inl ⟨?_, strand_crew (by rw [Crew.hand_advance? hcrew])⟩⟩
    rw [note, hrun]
  | some e =>
    cases hc : d.cells[e.id]? with
    | none =>
      unfold stepWorker? at h
      rw [hrun] at h
      dsimp only at h
      rw [hc] at h
      cases h
    | some c =>
      obtain ⟨c', next, posted, events, hturn, hmoved⟩ := turns_stepWorker hgone hrun hc h
      refine ⟨⟨hmoved.gone, fun hmem => hmoved.agenda ▸ hmem, hmoved.checkpoints, events, hturn.echoed d.checkpoints,
        hmoved.history⟩, fun id => ?_⟩
      have hlead := hmoved.leads hrun rfl hc hturn id
      rw [note, hrun]
      by_cases hid : e.id = id
      · subst hid
        rw [hc]
        exact hlead
      · rw [if_neg hid] at hlead
        cases d.cells[id]? with
        | none => exact hlead
        | some _ =>
          dsimp only
          rw [if_neg hid]
          exact hlead

end Dispatcher
end BitmapWorks
