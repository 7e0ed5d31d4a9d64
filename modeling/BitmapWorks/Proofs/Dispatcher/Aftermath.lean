import BitmapWorks.Proofs.Dispatcher.Craft
import BitmapWorks.Proofs.Dispatcher.Deeds
import BitmapWorks.Proofs.Lists
/-!
# Aftermath — workers behind a dispatcher that was let go

A caller that lets its dispatcher go leaves workers behind that still have jobs.  They go on, but nobody reads what they
post, and whoever ends the last job for a task drops its cell: such a move is the one that the worker would have made
before, without the post, and behind it the cell is dropped if it is not wanted any more (`stepWorker_of_gone`).

As long as a task has a job left, nothing about it tells that the caller is gone (`Cell.Tended`): so what workers find
when they call its work is what they would have found before.  Nobody claims a task any more, though, so a task that had
not been claimed by then keeps its tally for good (`Bereft`).
-/
namespace BitmapWorks

variable {W B V : Type} {bh : Behaviour W B V} {id : Nat} {p : B → Prop}

/-! ## Tasks that are left -/

/-- Whether workers with these errands can go on with a task as if the caller were still there. -/
def Cell.Tended (bh : Behaviour W B V) (p : B → Prop) (id : Nat) (c : Cell B V) (es : Multiset Errand) : Prop :=
  ∃ s : Strand B V, s.Credible bh p id c ∧ s.errands = es

/-- A task that is left: nothing waits in its promise while its sink is there, it was claimed just if it was done when the
caller went, and only then its tally is in the total. -/
structure Cell.Left (done : Prop) (c : Cell B V) : Prop where
  quiet : c.settlement.sink ≠ none → c.settlement.promise.waiting = none
  claimed : c.settlement.claimed = true ↔ done
  flushed : c.settlement.claimed = true → c.tally = 0

def Cell.dropped (c : Cell B V) : Cell B V := { c with body := none, settlement := c.settlement.discard }

theorem Settlement.claimed_discard {α : Type} (s : Settlement α) : s.discard.claimed = s.claimed := by
  unfold Settlement.discard
  split <;> rfl

theorem Settlement.sink_discard {α : Type} (s : Settlement α) : s.discard.sink = none := by
  unfold Settlement.discard
  split <;> rfl

namespace Cell

variable {c c' : Cell B V} {n : Note} {e : Errand} {es next : Multiset Errand} {posted : Nat} {events : List (Event V)}
variable {done : Prop}

theorem Tended.turn (h : c.Tended bh p id (e ::ₘ es)) (hturn : Turn bh id n c e c' next posted events) :
    c'.Tended bh p id (next + es) := by
  obtain ⟨⟨cell, cs, waiting, errands, st⟩, hcredible, rfl⟩ := h
  obtain rfl : cell = some c := hcredible.cell
  obtain ⟨c'', hcredible'⟩ := hcredible.step (.turn es hturn)
  obtain rfl : c' = c'' := Option.some.inj hcredible'.cell
  exact ⟨_, hcredible', rfl⟩

theorem Tended.promise (h : c.Tended bh p id es) (promise : Promise (Except Fault V)) :
    ({ c with settlement := { c.settlement with promise } } : Cell B V).Tended bh p id es := by
  obtain ⟨⟨cell, cs, waiting, errands, st⟩, hcredible, rfl⟩ := h
  obtain rfl : cell = some c := hcredible.cell
  obtain ⟨c', hcredible'⟩ := hcredible.step (.promise promise)
  obtain rfl := Option.some.inj hcredible'.cell
  exact ⟨_, hcredible', rfl⟩

/-- **Whoever is called for a task that is left works on an item that nobody has worked on.** -/
theorem Tended.call (h : c.Tended bh p id es) (he : e ∈ es) {item : Nat} (hitem : e.inCall = {item}) {b : B}
    (hbody : c.body = some b) : c.settlement.claimed = false ∧ ∃ b₀, p b₀ ∧ ∃ items, Wrought bh b₀ items b ∧
      item ∉ items ∧ (items = [] ∧ item = 0 ∨ ∃ n, bh.items b₀ = some n ∧ item < n) := by
  obtain ⟨s, hcredible, rfl⟩ := h
  obtain ⟨hrunning, hcall⟩ := hcredible.call he hitem hbody
  have hstaged := hcredible.sound.staged c hcredible.cell
  exact ⟨(hstaged.of_isOpen (Staged.isOpen_of_queued (.inr hrunning))).1, hcall⟩

theorem Left.turn (h : c.Left done) (htended : c.Tended bh p id (e ::ₘ es))
    (hturn : Turn bh id n c e c' next posted events) : c'.Left done := by
  have hsettlement := hturn.settlement_eq
  refine ⟨hsettlement ▸ h.quiet, hsettlement ▸ h.claimed, fun hclaimed => ?_⟩
  rw [hsettlement] at hclaimed
  have hcall : ∀ {item : Nat} {b : B}, e.inCall = {item} → c.body = some b → c'.tally = 0 := fun hitem hbody => by
    cases hclaimed.symm.trans (htended.call (Multiset.mem_cons_self e es) hitem hbody).1
  cases hturn with
  | «return» world hbody | partReturn world hbody => exact hcall rfl hbody
  | _ => exact h.flushed hclaimed

theorem Left.promise (h : c.Left done) {promise : Promise (Except Fault V)}
    (hwaiting : promise.waiting = c.settlement.promise.waiting ∨ promise.waiting = none) :
    ({ c with settlement := { c.settlement with promise } } : Cell B V).Left done :=
  ⟨fun hsink => hwaiting.elim (fun hsame => hsame.trans (h.quiet hsink)) fun hnone => hnone, h.claimed, h.flushed⟩

theorem Left.dropped (h : c.Left done) : c.dropped.Left done where
  quiet hsink := absurd c.settlement.sink_discard hsink
  claimed := (congrArg (· = true) c.settlement.claimed_discard).to_iff.trans h.claimed
  flushed hclaimed := h.flushed (c.settlement.claimed_discard.symm.trans hclaimed)

end Cell

namespace Dispatcher

variable {d d' d₁ : Dispatcher W B V} {c c' : Cell B V} {e e' : Errand} {i : Nat}

/-! ## Dropping cells -/

def tidy (bh : Behaviour W B V) (d : Dispatcher W B V) (id : Nat) : Dispatcher W B V :=
  if d.isWanted id then d else d.dropCell bh id

/-- What is left in the first moment: nothing is registered or posted, and the crew is closed. -/
def forsaken (d : Dispatcher W B V) : Dispatcher W B V :=
  { d with gone := true, registry := [], inbox := [], crew := d.crew.close }

theorem letGo_eq (bh : Behaviour W B V) (d : Dispatcher W B V) :
    d.letGo bh = (List.range d.cells.length).foldl (tidy bh) d.forsaken := rfl

theorem isWanted_iff : d.isWanted id = true ↔ (d.strand id).errands ≠ 0 := by
  have herrands : (d.strand id).errands = ↑(d.crew.jobs.filter (·.id = id)) := Multiset.filter_coe ..
  rw [herrands, Ne, Multiset.coe_eq_zero, List.filter_eq_nil_iff, isWanted, List.any_eq_true]
  simp

theorem dropCell_eq (bh : Behaviour W B V) (hc : d.cells[id]? = some c) : d.dropCell bh id =
    { d.modifyCell id Cell.dropped with world := c.body.elim d.world (bh.discard d.world) } := by
  unfold dropCell
  rw [hc]
  cases hbody : c.body with
  | none => simp only [hbody, Option.elim_none]; rfl
  | some b => simp only [hbody, Option.elim_some]; rfl

theorem dropCell_of_none (hc : d.cells[id]? = none) : d.dropCell bh id = d := by
  unfold dropCell
  rw [hc]

theorem tidy_keeps (bh : Behaviour W B V) (d : Dispatcher W B V) (id : Nat) : (d.tidy bh id).gone = d.gone ∧
    (d.tidy bh id).agenda = d.agenda ∧ (d.tidy bh id).crew = d.crew ∧ (d.tidy bh id).history = d.history := by
  unfold tidy
  split
  · exact ⟨rfl, rfl, rfl, rfl⟩
  · cases hc : d.cells[id]? with
    | none =>
      rw [dropCell_of_none hc]
      exact ⟨rfl, rfl, rfl, rfl⟩
    | some c =>
      rw [dropCell_eq bh hc]
      exact ⟨rfl, rfl, rfl, rfl⟩

theorem errands_of_hand (h : d'.crew.hand = d.crew.hand) (id : Nat) :
    (d'.strand id).errands = (d.strand id).errands := by
  show d'.crew.hand.filter _ = d.crew.hand.filter _
  rw [h]

theorem isWanted_of_errands (h : (d'.strand id).errands = (d.strand id).errands) : d'.isWanted id = d.isWanted id :=
  Bool.eq_iff_iff.2 (by rw [isWanted_iff, isWanted_iff, h])

theorem cells_tidy_of_ne {id' : Nat} (h : id ≠ id') : (d.tidy bh id).cells[id']? = d.cells[id']? := by
  unfold tidy
  split
  · rfl
  · cases hc : d.cells[id]? with
    | none => rw [dropCell_of_none hc]
    | some c =>
      rw [dropCell_eq bh hc]
      exact cells_modifyCell_of_ne h Cell.dropped

theorem cells_tidy (bh : Behaviour W B V) (hc : d.cells[id]? = some c) :
    (d.tidy bh id).cells[id]? = some (if d.isWanted id then c else c.dropped) := by
  unfold tidy
  split
  · exact hc
  · rw [dropCell_eq bh hc]
    exact cells_modifyCell hc Cell.dropped

/-! ## Moves of workers -/

theorem endJob_of_gone (hgone : d.gone = true) (i id : Nat) :
    d.endJob bh i id = ({ d with crew := d.crew.finish i false } : Dispatcher W B V).tidy bh id := by
  unfold endJob tidy
  dsimp only
  rw [hgone, Bool.true_and]
  generalize isWanted _ id = wanted
  cases wanted <;> rfl

theorem post_of_gone (hgone : d.gone = true) (i id : Nat) : d.post bh i id = d.endJob bh i id := by
  unfold post
  rw [if_pos hgone]

def attended (d : Dispatcher W B V) : Dispatcher W B V := { d with gone := false }

def unheard (d l : Dispatcher W B V) : Dispatcher W B V := { l with gone := true, inbox := d.inbox }

theorem keep_of_gone (bh : Behaviour W B V) (d₁ : Dispatcher W B V) (hgone : d₁.gone = true) (hcrew : d₁.crew = d.crew)
    (hinbox : d₁.inbox = d.inbox) (hrun : d.crew.running? i = some e) (he' : e'.id = id) :
    d₁.keep i e' = (d.unheard (d₁.attended.keep i e')).tidy bh id := by
  have hsame : d.unheard (d₁.attended.keep i e') = d₁.keep i e' := by
    obtain ⟨⟩ := d₁
    cases hgone
    cases hinbox
    rfl
  -- the worker itself still has a job for the task, so the cell is not dropped
  have hwanted : (d₁.keep i e').isWanted id = true := by
    have hhand : (d₁.keep i e').crew.hand = e' ::ₘ (d.crew.finish i false).hand := by
      show (d₁.crew.keepRunning i e').hand = _
      rw [hcrew]
      exact (Crew.hand_of_running? hrun false).2 e'
    rw [isWanted_iff]
    show (d₁.keep i e').crew.hand.filter _ ≠ 0
    rw [hhand, filter_errand e' he']
    exact Multiset.cons_ne_zero
  rw [hsame, tidy, if_pos hwanted]

theorem endJob_unheard (bh : Behaviour W B V) (d₁ : Dispatcher W B V) (hgone : d₁.gone = true)
    (hinbox : d₁.inbox = d.inbox) (i id : Nat) :
    d₁.endJob bh i id = (d.unheard (d₁.attended.endJob bh i id)).tidy bh id := by
  rw [endJob_of_gone hgone, endJob_eq rfl]
  obtain ⟨⟩ := d₁
  cases hgone
  cases hinbox
  rfl

theorem post_unheard (bh : Behaviour W B V) (hgone : d.gone = true) (i id : Nat) :
    d.post bh i id = (d.unheard (d.attended.post bh i id)).tidy bh id := by
  rw [post_of_gone hgone, endJob_of_gone hgone, post_eq rfl]
  obtain ⟨⟩ := d
  cases hgone
  rfl

theorem recordOutcome_unheard (bh : Behaviour W B V) (hgone : d.gone = true) (hrun : d.crew.running? i = some e)
    (e' : Errand) (he' : e'.id = id) (outcome : Outcome) :
    (d.recordOutcome id outcome).keep i e' =
      (d.unheard ((d.attended.recordOutcome id outcome).keep i e')).tidy bh id := by
  unfold recordOutcome
  cases outcome.fault? with
  | none => exact keep_of_gone bh d hgone rfl rfl hrun he'
  | some fault => exact keep_of_gone bh (d.modifyCell id _) hgone rfl rfl hrun he'

/-- Whether a move of a worker is one that it would have made before, without the post, and then the cell is dropped if
it is not wanted any more. -/
def GoesOn (bh : Behaviour W B V) (d : Dispatcher W B V) (id : Nat) (before : Option (Dispatcher W B V))
    (d' : Dispatcher W B V) : Prop := ∃ l, before = some l ∧ d' = (d.unheard l).tidy bh id

theorem goesOn_single {phase : SinglePhase} (hgone : d.gone = true) (hrun : d.crew.running? i = some (.single id phase))
    (h : d.stepSingle? bh i id c phase = some d') :
    d.GoesOn bh id (d.attended.stepSingle? bh i id c phase) d' := by
  have hkeep : ∀ (d₁ : Dispatcher W B V) (phase' : SinglePhase), d₁.gone = d.gone → d₁.crew = d.crew →
      d₁.inbox = d.inbox → d₁.keep i (.single id phase') =
        (d.unheard (d₁.attended.keep i (.single id phase'))).tidy bh id :=
    fun d₁ _ hsame hcrew hinbox => keep_of_gone bh d₁ (hsame.trans hgone) hcrew hinbox hrun rfl
  cases phase with
  | takeUp =>
    obtain rfl := Option.some.inj h
    exact ⟨_, rfl, hkeep (d.takeUp id c).2 _ rfl rfl rfl⟩
  | call =>
    cases hbody : c.body <;> rw [stepSingle?, hbody] at h <;> obtain rfl := Option.some.inj h
    · exact ⟨_, by rw [stepSingle?, hbody], hkeep d _ rfl rfl rfl⟩
    · exact ⟨_, by rw [stepSingle?, hbody]; rfl, hkeep (d.log _) _ rfl rfl rfl⟩
  | calling =>
    cases hbody : c.body with
    | none =>
      rw [stepSingle?, hbody] at h
      obtain rfl := Option.some.inj h
      exact ⟨_, by rw [stepSingle?, hbody], hkeep d _ rfl rfl rfl⟩
    | some b =>
      rw [stepSingle?, hbody] at h
      dsimp only at h
      split at h
      · rename_i hready
        obtain rfl := Option.some.inj h
        refine ⟨_, ?_, hkeep (d.perform bh id 0 c b).2 _ rfl rfl rfl⟩
        rw [stepSingle?, hbody]
        exact if_pos hready
      · cases h
  | record outcome =>
    obtain rfl := Option.some.inj h
    exact ⟨_, rfl, recordOutcome_unheard bh hgone hrun (.single id .post) rfl outcome⟩
  | post =>
    obtain rfl := Option.some.inj h
    exact ⟨_, rfl, post_unheard bh hgone i id⟩

theorem goesOn_hold (hgone : d.gone = true) (hrun : d.crew.running? i = some (.part id .hold))
    (h : d.stepPart? bh i id c .hold = some d') : d.GoesOn bh id (d.attended.stepPart? bh i id c .hold) d' := by
  cases hbody : c.body <;> rw [stepPart?, hbody] at h <;> obtain rfl := Option.some.inj h
  · exact ⟨_, by rw [stepPart?, hbody], endJob_unheard bh d hgone rfl i id⟩
  · exact ⟨_, by rw [stepPart?, hbody], keep_of_gone bh d hgone rfl rfl hrun rfl⟩

theorem goesOn_fetch (hgone : d.gone = true) (hrun : d.crew.running? i = some (.part id .fetch))
    (h : d.stepPart? bh i id c .fetch = some d') : d.GoesOn bh id (d.attended.stepPart? bh i id c .fetch) d' := by
  cases hf : c.fanout with
  | none =>
    rw [stepPart?, hf] at h
    obtain rfl := Option.some.inj h
    exact ⟨_, by rw [stepPart?, hf], keep_of_gone bh d hgone rfl rfl hrun rfl⟩
  | some f =>
    rw [stepPart?, hf] at h
    obtain rfl := Option.some.inj h
    refine ⟨_, ?_, keep_of_gone bh (d.modifyCell id _) hgone rfl rfl hrun rfl⟩
    rw [stepPart?, hf]
    rfl

theorem goesOn_partCalling {item : Nat} (hgone : d.gone = true) (hrun : d.crew.running? i = some (.part id (.calling item)))
    (h : d.stepPart? bh i id c (.calling item) = some d') :
    d.GoesOn bh id (d.attended.stepPart? bh i id c (.calling item)) d' := by
  cases hbody : c.body with
  | none =>
    rw [stepPart?, hbody] at h
    obtain rfl := Option.some.inj h
    exact ⟨_, by rw [stepPart?, hbody], keep_of_gone bh d hgone rfl rfl hrun rfl⟩
  | some b =>
    rw [stepPart?, hbody] at h
    dsimp only at h
    split at h
    · rename_i hready
      obtain rfl := Option.some.inj h
      refine ⟨_, ?_, keep_of_gone bh (d.perform bh id item c b).2 hgone rfl rfl hrun rfl⟩
      rw [stepPart?, hbody]
      exact if_pos hready
    · cases h

theorem goesOn_finish (hgone : d.gone = true) (hrun : d.crew.running? i = some (.part id .finish))
    (h : d.stepPart? bh i id c .finish = some d') : d.GoesOn bh id (d.attended.stepPart? bh i id c .finish) d' := by
  cases hf : c.fanout with
  | none =>
    rw [stepPart?, hf] at h
    obtain rfl := Option.some.inj h
    exact ⟨_, by rw [stepPart?, hf], endJob_unheard bh d hgone rfl i id⟩
  | some f =>
    rw [stepPart?, hf] at h
    have hmoved := Option.some.inj h
    by_cases hlast : f.finish.1 = true
    · obtain rfl := (if_pos hlast).symm.trans hmoved
      refine ⟨_, ?_, keep_of_gone bh (d.modifyCell id _) hgone rfl rfl hrun rfl⟩
      rw [stepPart?, hf]
      exact congrArg some (if_pos hlast)
    · obtain rfl := (if_neg hlast).symm.trans hmoved
      refine ⟨_, ?_, endJob_unheard bh (d.modifyCell id _) hgone rfl i id⟩
      rw [stepPart?, hf]
      exact congrArg some (if_neg hlast)

theorem goesOn_part {phase : PartPhase} (hgone : d.gone = true) (hrun : d.crew.running? i = some (.part id phase))
    (h : d.stepPart? bh i id c phase = some d') :
    d.GoesOn bh id (d.attended.stepPart? bh i id c phase) d' := by
  cases phase with
  | hold => exact goesOn_hold hgone hrun h
  | takeUp =>
    obtain rfl := Option.some.inj h
    exact ⟨_, rfl, keep_of_gone bh (d.takeUp id c).2 hgone rfl rfl hrun rfl⟩
  | look | load =>
    obtain rfl := Option.some.inj h
    exact ⟨_, rfl, keep_of_gone bh d hgone rfl rfl hrun rfl⟩
  | fetch => exact goesOn_fetch hgone hrun h
  | call item =>
    obtain rfl := Option.some.inj h
    exact ⟨_, rfl, keep_of_gone bh (d.log _) hgone rfl rfl hrun rfl⟩
  | calling item => exact goesOn_partCalling hgone hrun h
  | record outcome =>
    obtain rfl := Option.some.inj h
    exact ⟨_, rfl, recordOutcome_unheard bh hgone hrun (.part id .look) rfl outcome⟩
  | finish => exact goesOn_finish hgone hrun h
  | post =>
    obtain rfl := Option.some.inj h
    exact ⟨_, rfl, post_unheard bh hgone i id⟩

theorem cell_of_stepWorker (hrun : d.crew.running? i = some e) (h : d.stepWorker? bh i = some d') :
    ∃ c, d.cells[e.id]? = some c := by
  cases hc : d.cells[e.id]? with
  | none =>
    unfold stepWorker? at h
    rw [hrun] at h
    dsimp only at h
    rw [hc] at h
    cases h
  | some c => exact ⟨c, rfl⟩

/-- **A worker goes on when the caller is gone**, but nobody hears of it, and what is not wanted any more is dropped. -/
theorem stepWorker_of_gone (hgone : d.gone = true) (hrun : d.crew.running? i = some e)
    (h : d.stepWorker? bh i = some d') :
    d.GoesOn bh e.id (d.attended.stepWorker? bh i) d' := by
  obtain ⟨c, hc⟩ := cell_of_stepWorker hrun h
  unfold stepWorker? at h
  rw [hrun] at h
  dsimp only at h
  rw [hc] at h
  cases e with
  | single id phase =>
    have hbefore : d.attended.stepWorker? bh i = d.attended.stepSingle? bh i id c phase := by
      unfold stepWorker?
      rw [show d.attended.crew.running? i = _ from hrun]
      dsimp only
      rw [show d.attended.cells[(Errand.single id phase).id]? = _ from hc]
    rw [hbefore]
    exact goesOn_single hgone hrun h
  | part id phase =>
    have hbefore : d.attended.stepWorker? bh i = d.attended.stepPart? bh i id c phase := by
      unfold stepWorker?
      rw [show d.attended.crew.running? i = _ from hrun]
      dsimp only
      rw [show d.attended.cells[(Errand.part id phase).id]? = _ from hc]
    rw [hbefore]
    exact goesOn_part hgone hrun h

/-! ## Dispatchers that were let go -/

/-- A dispatcher that the caller has let go: workers can go on with every task that they have a job for, and whatever no
job is for is dropped, but for the tasks whose turn is yet to come. -/
structure Bereft (bh : Behaviour W B V) (p : B → Prop) (done : Nat → Prop) (ids : List Nat) (d : Dispatcher W B V) :
    Prop where
  gone : d.gone = true
  agenda : d.agenda = []
  left : ∀ (id : Nat) (c : Cell B V), d.cells[id]? = some c → c.Left (done id)
  tended : ∀ (id : Nat) (c : Cell B V), d.cells[id]? = some c → (d.strand id).errands ≠ 0 →
    c.Tended bh p id (d.strand id).errands
  wanted : ∀ (id : Nat) (c : Cell B V), d.cells[id]? = some c → c.body ≠ none → d.isWanted id = true ∨ id ∈ ids

variable {done : Nat → Prop} {ids : List Nat}

theorem drop_eq (hidle : d.agenda = []) (hstopped : d.stopped = true) : d.drop = { d with agenda := [.letGo] } := by
  unfold drop
  rw [if_pos hstopped]
  dsimp only
  rw [hidle]
  rfl

theorem letGo_of_drop (bh : Behaviour W B V) (hidle : d.agenda = []) (hstopped : d.stopped = true) :
    d.drop.stepCaller? bh = some (d.letGo bh) := by
  rw [drop_eq hidle hstopped]
  obtain ⟨⟩ := d
  cases hidle
  rfl

namespace Bereft

theorem around (h : d.Bereft bh p done ids) (hcells : d'.cells = d.cells) (hhand : d'.crew.hand = d.crew.hand)
    (hgone : d'.gone = d.gone) (hagenda : d'.agenda = d.agenda) : d'.Bereft bh p done ids := by
  have herrands := errands_of_hand hhand
  refine ⟨hgone.trans h.gone, hagenda.trans h.agenda, fun id c hc => h.left id c (hcells ▸ hc), fun id c hc => ?_,
    fun id c hc hbody => ?_⟩
  · rw [herrands]
    exact h.tended id c (hcells ▸ hc)
  · rw [isWanted_of_errands (herrands id)]
    exact h.wanted id c (hcells ▸ hc) hbody

/-- What becomes of a cell when one cell is dropped unless a job is for it. -/
theorem cells_of_tidy {id' : Nat} (hc' : (d.tidy bh id).cells[id']? = some c') :
    (d.cells[id']? = some c' ∧ (id = id' → d.isWanted id = true)) ∨
      (id = id' ∧ d.isWanted id = false ∧ ∃ c, d.cells[id']? = some c ∧ c' = c.dropped) := by
  by_cases hid : id = id'
  · subst hid
    cases hc : d.cells[id]? with
    | none =>
      unfold tidy at hc'
      rw [dropCell_of_none hc, ite_self, hc] at hc'
      cases hc'
    | some c =>
      rw [cells_tidy bh hc] at hc'
      cases hwanted : d.isWanted id with
      | true =>
        rw [hwanted, if_pos rfl] at hc'
        exact .inl ⟨hc', fun _ => rfl⟩
      | false =>
        rw [hwanted, if_neg Bool.false_ne_true] at hc'
        exact .inr ⟨rfl, rfl, c, rfl, (Option.some.inj hc').symm⟩
  · rw [cells_tidy_of_ne hid] at hc'
    exact .inl ⟨hc', fun heq => absurd heq hid⟩

/-- **A task whose turn has come is dropped unless a job is for it.** -/
theorem tidy (h : d.Bereft bh p done (id :: ids)) : (d.tidy bh id).Bereft bh p done ids := by
  obtain ⟨hgone, hagenda, hcrew, -⟩ := tidy_keeps bh d id
  have herrands := errands_of_hand (congrArg Crew.hand hcrew)
  refine ⟨hgone.trans h.gone, hagenda.trans h.agenda, fun id' c' hc' => ?_, fun id' c' hc' hsome => ?_,
    fun id' c' hc' hbody => ?_⟩
  · rcases cells_of_tidy hc' with ⟨hc, -⟩ | ⟨-, -, c, hc, rfl⟩
    · exact h.left id' c' hc
    · exact (h.left id' c hc).dropped
  · rw [herrands] at hsome ⊢
    rcases cells_of_tidy hc' with ⟨hc, -⟩ | ⟨rfl, hunwanted, -⟩
    · exact h.tended id' c' hc hsome
    · rw [isWanted_iff.2 hsome] at hunwanted
      cases hunwanted
  · rw [isWanted_of_errands (herrands id')]
    rcases cells_of_tidy hc' with ⟨hc, hself⟩ | ⟨-, -, c, -, rfl⟩
    · by_cases hid : id = id'
      · exact .inl (hid ▸ hself hid)
      · refine (h.wanted id' c' hc hbody).imp_right fun hmem => ?_
        exact (List.mem_cons.1 hmem).resolve_left fun heq => hid heq.symm
    · exact absurd rfl hbody

theorem foldl (h : d.Bereft bh p done ids) : (ids.foldl (Dispatcher.tidy bh) d).Bereft bh p done [] := by
  induction ids generalizing d with
  | nil => exact h
  | cons id ids ih => exact ih h.tidy

/-- **What a worker does in a turn leaves tasks that can be gone on with**; it is yet to be seen whether its own task is
wanted any more. -/
theorem turn (h : d.Bereft bh p done []) (hrun : d.crew.running? i = some e) (hc : d.cells[e.id]? = some c)
    {l : Dispatcher W B V} (hl : d.attended.stepWorker? bh i = some l) : (d.unheard l).Bereft bh p done [e.id] := by
  obtain ⟨c', next, posted, events, hturn, hmoved⟩ := turns_stepWorker (d := d.attended) rfl hrun hc hl
  obtain ⟨es, hbefore, hafter⟩ := hmoved.errands hrun rfl
  have htended : c.Tended bh p e.id (e ::ₘ es) := by
    have hsome := h.tended e.id c hc
    rw [show (d.strand e.id).errands = e ::ₘ es from hbefore] at hsome
    exact hsome Multiset.cons_ne_zero
  have hothers : ∀ id', e.id ≠ id' → ((d.unheard l).strand id').errands = (d.strand id').errands := fun id' hid =>
    show (l.strand id').errands = (d.attended.strand id').errands by rw [hmoved.strand_of_ne hrun rfl hid]
  have hself : ∀ c'', (d.unheard l).cells[e.id]? = some c'' → c'' = c' := fun c'' hc'' =>
    Option.some.inj (hc''.symm.trans hmoved.cell)
  have hcells : ∀ id' c'', e.id ≠ id' → (d.unheard l).cells[id']? = some c'' → d.cells[id']? = some c'' :=
    fun id' c'' hid hc'' => (hmoved.cells id' hid).symm.trans hc''
  refine ⟨rfl, hmoved.agenda.trans h.agenda, fun id' c'' hc'' => ?_, fun id' c'' hc'' hsome => ?_,
    fun id' c'' hc'' hbody => ?_⟩
  -- the turn is of one task; the cells and the jobs of all others are as before
  all_goals by_cases hid : e.id = id'
  · subst hid
    rw [hself c'' hc'']
    exact (h.left e.id c hc).turn htended hturn
  · exact h.left id' c'' (hcells id' c'' hid hc'')
  · subst hid
    rw [hself c'' hc'', show ((d.unheard l).strand e.id).errands = next + es from hafter]
    exact htended.turn hturn
  · rw [hothers id' hid] at hsome ⊢
    exact h.tended id' c'' (hcells id' c'' hid hc'') hsome
  · exact .inr (List.mem_singleton.2 hid.symm)
  · rw [isWanted_of_errands (hothers id' hid)]
    exact .inl ((h.wanted id' c'' (hcells id' c'' hid hc'') hbody).resolve_right List.not_mem_nil)

/-- **A worker that goes on leaves tasks that can be gone on with.** -/
theorem worker (h : d.Bereft bh p done []) (hstep : d.stepWorker? bh i = some d') : d'.Bereft bh p done [] := by
  cases hrun : d.crew.running? i with
  | none =>
    unfold stepWorker? at hstep
    rw [hrun] at hstep
    obtain ⟨crew, hcrew, rfl⟩ := Option.map_eq_some_iff.1 hstep
    exact h.around rfl (Crew.hand_advance? hcrew) rfl rfl
  | some e =>
    obtain ⟨c, hc⟩ := cell_of_stepWorker hrun hstep
    obtain ⟨l, hl, rfl⟩ := stepWorker_of_gone h.gone hrun hstep
    exact (h.turn hrun hc hl).tidy

theorem promise (h : d.Bereft bh p done ids) (hc : d.cells[id]? = some c) {promise : Promise (Except Fault V)}
    (hwaiting : promise.waiting = c.settlement.promise.waiting ∨ promise.waiting = none)
    (hcells : d'.cells = d.cells.set id { c with settlement := { c.settlement with promise } })
    (hhand : d'.crew.hand = d.crew.hand) (hgone : d'.gone = d.gone) (hagenda : d'.agenda = d.agenda) :
    d'.Bereft bh p done ids := by
  have herrands := errands_of_hand hhand
  have hcases : ∀ id' c', d'.cells[id']? = some c' →
      (id' = id ∧ c' = { c with settlement := { c.settlement with promise } }) ∨ d.cells[id']? = some c' :=
    fun id' c' hc' => by
    rw [hcells, getElem?_set_of_eq_some hc] at hc'
    split at hc'
    · next heq => exact .inl ⟨heq.symm, (Option.some.inj hc').symm⟩
    · exact .inr hc'
  refine ⟨hgone.trans h.gone, hagenda.trans h.agenda, fun id' c' hc' => ?_, fun id' c' hc' hsome => ?_,
    fun id' c' hc' hbody => ?_⟩
  · rcases hcases id' c' hc' with ⟨rfl, rfl⟩ | hold
    · exact (h.left id' c hc).promise hwaiting
    · exact h.left id' c' hold
  · rw [herrands] at hsome ⊢
    rcases hcases id' c' hc' with ⟨rfl, rfl⟩ | hold
    · exact (h.tended id' c hc hsome).promise promise
    · exact h.tended id' c' hold hsome
  · rw [isWanted_of_errands (herrands id')]
    rcases hcases id' c' hc' with ⟨rfl, rfl⟩ | hold
    · exact h.wanted id' c hc hbody
    · exact h.wanted id' c' hold hbody

theorem visit (h : d.Bereft bh p done ids) {a : Act W B V} (ha : a.visits = true) (hact : d.act? bh a = some d') :
    d'.Bereft bh p done ids := by
  obtain ⟨hagenda, hcrew, hgone, -, -, -⟩ := visited_of_act ha hact
  have hhand : d'.crew.hand = d.crew.hand := congrArg Crew.hand hcrew
  cases deal_of_visit ha hact with
  | idle _ _ _ hcells | releaseValue _ hcells => exact h.around hcells hhand hgone hagenda
  | take hc hcells => exact h.promise hc (waiting_take _ _) hcells hhand hgone hagenda
  | poll hc hcells => exact h.promise hc (waiting_poll _ _) hcells hhand hgone hagenda
  | forget hc hcells => exact h.promise hc (.inr rfl) hcells hhand hgone hagenda
  | _ => cases ha

end Bereft

/-- **A dispatcher that is let go while the caller has nothing to do in it leaves tasks that can be gone on with.** -/
theorem Making.bereft (h : d.Making bh p) (hidle : d.agenda = [])
    (hquiet : ∀ (id : Nat) (c : Cell B V), d.cells[id]? = some c → c.settlement.sink ≠ none →
      c.settlement.promise.waiting = none)
    (hflushed : ∀ (id : Nat) (c : Cell B V), d.cells[id]? = some c → c.settlement.claimed = true → c.tally = 0) :
    d.forsaken.Bereft bh p (fun id => ∃ c, d.cells[id]? = some c ∧ c.stage = .done) (List.range d.cells.length) := by
  refine ⟨rfl, hidle, fun id c hc => ⟨hquiet id c hc, ?_, hflushed id c hc⟩, fun id c hc _ => ?_,
    fun id c hc _ => ?_⟩
  · have hnone : ((d.strand id).chores.map Chore.concludes).sum = 0 := by
      show ((d.agenda.filter _).map Chore.concludes).sum = 0
      rw [hidle]
      rfl
    rw [((h.regular.sound id).staged c hc).claimed_iff hnone]
    refine ⟨fun hdone => ⟨c, hc, hdone⟩, fun ⟨c', hc', hdone⟩ => ?_⟩
    obtain rfl := Option.some.inj (hc.symm.trans hc')
    exact hdone
  · exact ⟨d.strand id, h.credible hc, rfl⟩
  · exact .inr (List.mem_range.2 (List.getElem?_eq_some_iff.1 hc).1)

end Dispatcher
end BitmapWorks
