import BitmapWorks.Proofs.Operation.Delivery
/-!
# Many — decoding many inputs at a time

A task that decodes many inputs delivers a bitmap for each of them, in their order, if all can be decoded, and otherwise
the fault of one that cannot (`decodeMany_of_run`), whatever else a dispatcher has to do and however the partitions of
the task, its other tasks and the caller take turns.
-/
namespace BitmapWorks
namespace Dispatcher

variable {d d' : Dispatcher World Operation Product} {a : Act World Operation Product}
variable {as : List (Act World Operation Product)}

def decodeMany (d : Dispatcher World Operation Product) (inputs : List (Bytes × Selector)) (concurrency : Option Nat)
    (sink : Sink) : Dispatcher World Operation Product :=
  d.spawn Operation.behaviour (.ofRequest (.deserializeMany inputs concurrency)) sink

theorem operation_returns : Operation.behaviour.Returns := ⟨fun _ _ => rfl, fun _ _ => nofun⟩

/-! ## Every task -/

structure Orderly (d : Dispatcher World Operation Product) : Prop where
  held : d.Held
  sound : ∀ id, (d.strand id).Sound
  apart : d.Apart

theorem orderly_start {world : World} {s : Settings} {processors : Nat} {admission : Admission} {checkpoints : Bool}
    (h : start world s processors admission checkpoints = .ok d) : d.Orderly := by
  obtain ⟨hheld, -, -, hblank⟩ := start_spec h
  have hcell : ∀ id, d.cells[id]? = none := fun id => congrArg Strand.cell (hblank id)
  have hholding : ∀ id, d.holding id = none := fun id => by
    rw [holding, hcell id]
    rfl
  refine ⟨hheld, fun id => Strand.sound_of_none (hheld.rooted id) (hcell id), fun id hd hhd => ?_,
    fun id id' hd hd' _ hhd => ?_⟩
  · cases (hholding id).symm.trans hhd
  · cases (hholding id).symm.trans hhd

theorem Orderly.act (h : d.Orderly) (ha : a.returns = true) (hdiscreet : d.Discreet a)
    (hact : d.act? Operation.behaviour a = some d') : d'.Orderly := by
  obtain ⟨hheld, -, hleads⟩ := weave operation_returns h.held ha hact
  exact ⟨hheld, fun id => (hleads id).sound (h.sound id),
    (does_of_act operation_returns h.held h.sound hact).apart h.apart hdiscreet⟩

theorem Orderly.run (h : d.Orderly) (has : ∀ a ∈ as, a.returns = true)
    (hdiscreet : Along Operation.behaviour Discreet d as) (hrun : d.run? Operation.behaviour as = some d') :
    d'.Orderly := by
  induction as generalizing d with
  | nil =>
    obtain rfl := Option.some.inj hrun
    exact h
  | cons a as ih =>
    obtain ⟨d₁, hact, hrun⟩ := Option.bind_eq_some_iff.1 hrun
    obtain ⟨hfirst, hrest⟩ := hdiscreet
    rw [hact] at hrest
    exact ih (h.act (has a (List.mem_cons_self ..)) hfirst hact) (fun a ha => has a (List.mem_cons_of_mem _ ha)) hrest
      hrun

theorem Orderly.not_settled (h : d.Orderly) (outcome : Except Fault Product) :
    (d.cells.length, outcome) ∉ d.outcomes := by
  intro hmem
  have hnone : (d.strand d.cells.length).cell = none := List.getElem?_eq_none (Nat.le_refl _)
  have hstory : (d.strand d.cells.length).story = [] := (h.held.rooted _ hnone).2.2.2
  have hmem' : .settled d.cells.length outcome ∈ (d.strand d.cells.length).story :=
    List.mem_filter.2 ⟨mem_outcomes.1 hmem, by simp [Event.task?]⟩
  rw [hstory] at hmem'
  cases hmem'

/-! ## A task that decodes -/

/-- Whether nothing hinders a task where an act happens: the caller's move finds no shutdown, and neither that a
partition of the task is refused nor that the task is to be forced. -/
def Unhindered (id : Nat) (d : Dispatcher World Operation Product) : Act World Operation Product → Prop
  | .move .caller => d.admission.gate.stopping = false ∧
      (d.note Operation.behaviour id (.move .caller)).offered = none
  | _ => True

instance decidableUnhindered (id : Nat) (d : Dispatcher World Operation Product) :
    (a : Act World Operation Product) → Decidable (Unhindered id d a)
  | .move .caller => inferInstanceAs (Decidable (_ ∧ _))
  | .move (.worker _) | .spawn .. | .pumpAll | .untilIdle | .shutdown | .take _ | .poll _ | .dropPromise _
  | .releaseValue _ | .surround _ | .regate _ => inferInstanceAs (Decidable True)

theorem mem_errands {id : Nat} {e : Errand} : e ∈ (d.strand id).errands ↔ e ∈ d.crew.hand ∧ e.id = id := by
  show e ∈ d.crew.hand.filter _ ↔ _
  rw [Multiset.mem_filter]

/-- An act that does not hinder a task offers it no fault but that of an errand of the task. -/
theorem Unhindered.offered {id : Nat} {c : Cell Operation Product} (h : d.Unhindered id a) (hc : d.cells[id]? = some c)
    {fault : Fault} (hoffered : (d.note Operation.behaviour id a).offered = some fault) :
    ∃ e ∈ (d.strand id).errands, (e.note Operation.behaviour d.world c).offered = some fault := by
  cases a with
  | move m =>
    cases m with
    | caller =>
      rw [h.2] at hoffered
      cases hoffered
    | worker i =>
      cases hrun : d.crew.running? i with
      | none =>
        simp only [note, hrun] at hoffered
        cases hoffered
      | some e =>
        simp only [note, hrun, hc] at hoffered
        by_cases hid : e.id = id
        · rw [if_pos hid] at hoffered
          have hhand : e ∈ d.crew.hand := by
            rw [(Crew.hand_of_running? hrun false).1]
            exact Multiset.mem_cons_self _ _
          exact ⟨e, mem_errands.2 ⟨hhand, hid⟩, hoffered⟩
        · rw [if_neg hid] at hoffered
          cases hoffered
  | spawn b sink =>
    have hid : id ≠ d.cells.length := Nat.ne_of_lt (List.getElem?_eq_some_iff.1 hc).1
    rw [note, if_neg hid] at hoffered
    cases hoffered
  | _ => cases hoffered

/-- How a task stands that decodes items on so many partitions. -/
structure Underway (items : List (Bytes × Format)) (partitions id : Nat) (d : Dispatcher World Operation Product)
    (c : Cell Operation Product) : Prop where
  orderly : d.Orderly
  cell : d.cells[id]? = some c
  spread : ∃ f, Spread items.length partitions c (d.strand id) f
  progress : Progress items id c (d.strand id)
  kept : Kept items d.world.shelf c.holding
  settled : c.body = none → ∃ outcome, (id, outcome) ∈ d.outcomes

namespace Underway

variable {items : List (Bytes × Format)} {partitions id : Nat} {c : Cell Operation Product}

/-- An act by which nothing hinders the task offers it no fault but one of decoding an item. -/
theorem offered (h : Underway items partitions id d c) (hfree : d.Unhindered id a) {fault : Fault}
    (hoffered : (d.note Operation.behaviour id a).offered = some fault) : FaultOf items fault := by
  obtain ⟨e, hmem, hoffered⟩ := hfree.offered h.cell hoffered
  cases e with
  | single id' phase =>
    -- a task that is spread has no errand but those of its partitions
    obtain ⟨f, hspread⟩ := h.spread
    have hkinds := ((h.orderly.sound id).kinds c h.cell).parts (by simp [hspread.fanout])
    have hsum : ((d.strand id).errands.map Errand.isSingle).sum = 0 := (Nat.add_eq_zero_iff.1 hkinds).2
    cases Multiset.sum_eq_zero_iff.1 hsum _ (Multiset.mem_map_of_mem Errand.isSingle hmem)
  | part id' phase =>
    obtain rfl : id' = id := (mem_errands.1 hmem).2
    cases phase with
    | calling item =>
      have hrecorded : c.body.bind (fun b => (Operation.work d.world b item).recorded) = some fault := hoffered
      obtain ⟨b, -, hrecorded⟩ := Option.bind_eq_some_iff.1 hrecorded
      rw [Operation.recorded_work] at hrecorded
      cases hrecorded
    | record outcome => exact h.progress.ended outcome fault hmem hoffered
    | _ => cases hoffered

/-- **Every act that does not hinder the task keeps it under way**, and what the task is settled with is delivered. -/
theorem act (h : Underway items partitions id d c) (ha : a.returns = true) (hdiscreet : d.Discreet a)
    (hfree : d.Unhindered id a) (hact : d.act? Operation.behaviour a = some d') :
    ∃ c', Underway items partitions id d' c' ∧
      ∀ outcome, (id, outcome) ∈ d'.outcomes → (id, outcome) ∈ d.outcomes ∨
        (Delivered items d.world.shelf outcome ∧
          (c.settlement.promise.dropped = false → Delivered items d'.world.shelf outcome)) := by
  obtain ⟨f, hspread⟩ := h.spread
  obtain ⟨-, -, hleads⟩ := weave operation_returns h.orderly.held ha hact
  have hstrand : ∃ c' f', d'.cells[id]? = some c' ∧ Spread items.length partitions c' (d'.strand id) f' ∧
      Progress items id c' (d'.strand id) := by
    rcases hleads id with ⟨-, heq⟩ | hstep
    · exact ⟨c, f, (congrArg Strand.cell heq).trans h.cell, by rw [heq]; exact hspread, by rw [heq]; exact h.progress⟩
    · obtain ⟨c', f', hc', hspread'⟩ := hstep.spread_items (h.orderly.sound id) h.cell hspread
      exact ⟨c', f', hc', hspread', h.progress.step hstep (h.orderly.sound id) h.cell hc'
        ⟨f, hspread.fanout, hspread.length⟩ fun fault hoffered => h.offered hfree hoffered⟩
  obtain ⟨c', f', hc', hspread', hprogress'⟩ := hstrand
  obtain ⟨hkept, hsettled, houtcomes⟩ := (does_of_act operation_returns h.orderly.held h.orderly.sound hact).keeps
    h.orderly.apart hdiscreet h.cell hc' h.kept.congr
    (fun hd told hdeed => h.kept.deed h.progress (h.orderly.sound id) hspread h.cell hdeed)
  have hopen : a = .move .caller → d.admission.gate.stopping = false := by
    rintro rfl
    exact hfree.1
  exact ⟨c', ⟨h.orderly.act ha hdiscreet hact, hc', ⟨f', hspread'⟩, hprogress', hkept, hsettled hopen h.settled⟩,
    houtcomes⟩

end Underway

/-! ## The beginning -/

theorem mapM_resolve {inputs : List (Bytes × Selector)} {items : List (Bytes × Format)}
    (hitems : List.Forall₂ (fun input item => item.1 = input.1 ∧ input.2.resolve = .ok item.2) inputs items) :
    inputs.mapM (fun (bytes, selector) => return (bytes, ← selector.resolve)) = (.ok items : Except Fault _) := by
  induction hitems with
  | nil => rfl
  | @cons input item inputs items hitem hitems ih =>
    obtain ⟨bytes, selector⟩ := input
    obtain ⟨bytes', f⟩ := item
    obtain ⟨rfl, hformat⟩ := hitem
    dsimp only at hformat
    rw [List.mapM_cons, ih]
    dsimp only
    rw [hformat]
    rfl

/-- Inputs whose selectors resolve, and at least one partition if any number is wanted, are taken as items. -/
theorem resolve_deserializeMany {inputs : List (Bytes × Selector)} {items : List (Bytes × Format)}
    {concurrency : Option Nat} (hconcurrency : concurrency ≠ some 0)
    (hitems : List.Forall₂ (fun input item => item.1 = input.1 ∧ input.2.resolve = .ok item.2) inputs items) :
    (Request.deserializeMany inputs concurrency).resolve = .ok (.decodeMany items) := by
  unfold Request.resolve
  dsimp only
  rw [if_neg hconcurrency, mapM_resolve hitems]
  rfl

theorem progress_start {items : List (Bytes × Format)} {id : Nat} {n : Note} {s s' : Strand Operation Product}
    {c : Cell Operation Product} (h : Strand.Step Operation.behaviour id n s s') (hrooted : s.Rooted)
    (hnone : s.cell = none) (hc : s'.cell = some c) (hfault : c.fault = none)
    (hbody : ∀ b, c.body = some b → b.Decodes items) : Progress items id c s' := by
  cases h with
  | reject =>
    obtain rfl := Option.some.inj hc
    cases hfault
  | letIn | spread =>
    obtain ⟨-, -, rfl, rfl⟩ := hrooted rfl
    obtain rfl := Option.some.inj hc
    refine ⟨hbody, fun fault hsome => ?_, by simp, by simp, by simp [Event.item?]⟩
    cases hfault.symm.trans hsome
  | receive => cases hnone.symm.trans hc
  | _ => cases hnone

/-- **A task that decodes many inputs is under way once it is let in.** -/
theorem underway_spawn {inputs : List (Bytes × Selector)} {items : List (Bytes × Format)} {concurrency : Option Nat}
    (h : d.Orderly) (hconcurrency : concurrency ≠ some 0)
    (hitems : List.Forall₂ (fun input item => item.1 = input.1 ∧ input.2.resolve = .ok item.2) inputs items)
    {sink : Sink} (hsink : sink ≠ .callback true) (hopen : d.admission.enter.1 = true) :
    ∃ partitions c, Underway items partitions d.cells.length
      (d.decodeMany inputs concurrency sink) c ∧
      ∀ outcome, (d.cells.length, outcome) ∉ (d.decodeMany inputs concurrency sink).outcomes := by
  have hresolve := resolve_deserializeMany hconcurrency hitems
  have hprepare : Operation.behaviour.prepare d.world (.ofRequest (.deserializeMany inputs concurrency)) = (.ok (),
      d.world, ⟨.deserializeMany inputs concurrency, some (.decodeMany items), none, List.replicate items.length none⟩) :=
    Operation.prepare_ofRequest_ok hresolve d.world
  have hnone : (d.strand d.cells.length).cell = none := List.getElem?_eq_none (Nat.le_refl _)
  have horderly := h.act (a := .spawn (.ofRequest (.deserializeMany inputs concurrency)) sink) (decide_eq_true hsink)
    ⟨_, rfl, by simp [Request.bitmap?]⟩ rfl
  unfold decodeMany
  have hspread : Operation.behaviour.items ⟨.deserializeMany inputs concurrency, some (.decodeMany items), none,
      List.replicate items.length none⟩ = some items.length := congrArg some hitems.length_eq
  obtain ⟨partitions, hcell, houtcomes⟩ := cells_spawn hprepare hopen sink
  rw [hspread] at hcell
  have hstep := step_spawn (Operation.ofRequest (.deserializeMany inputs concurrency)) hsink hcell
  obtain ⟨c, hc, hspread, -⟩ := hstep.spread_start (h.held.rooted _) hnone (congrArg (·.bind Cell.fanout) hcell)
  obtain rfl := Option.some.inj (hc.symm.trans hcell)
  have hdecodes : (Operation.mk (.deserializeMany inputs concurrency) (some (.decodeMany items)) none
      (List.replicate items.length none)).Decodes items :=
    ⟨⟨inputs, concurrency, rfl⟩, rfl, rfl, List.length_replicate,
      fun product hslot => by cases List.eq_of_mem_replicate hslot⟩
  refine ⟨partitions, _, ⟨horderly, hcell, ⟨_, hspread⟩, ?_, ?_, nofun⟩, fun outcome hmem => ?_⟩
  · refine progress_start hstep (h.held.rooted _) hnone hcell rfl fun b hb => ?_
    obtain rfl := Option.some.inj hb
    exact hdecodes
  · refine ⟨fun b hb item n hslot => ?_, nofun, fun _ => rfl⟩
    obtain rfl := Option.some.inj hb
    cases List.eq_of_mem_replicate (List.mem_of_getElem? hslot)
  · rw [houtcomes] at hmem
    exact h.not_settled outcome hmem

/-! ## The end -/

/-- What happens where a task is settled with an outcome: the outcome is right, and if it has bitmaps, they are on the
shelf when the caller gets it, and are lost only with a promise that was dropped. -/
structure Handed (items : List (Bytes × Format)) (id : Nat) (d d' : Dispatcher World Operation Product)
    (outcome : Except Fault Product) : Prop where
  before : .settled id outcome ∉ d.history
  settled : .settled id outcome ∈ d'.history
  delivered : Delivered items d.world.shelf outcome
  kept : ∀ c, d.cells[id]? = some c → c.settlement.promise.dropped = false → Delivered items d'.world.shelf outcome

theorem Underway.run {items : List (Bytes × Format)} {partitions id : Nat} {c : Cell Operation Product}
    (h : Underway items partitions id d c) (has : ∀ a ∈ as, a.returns = true)
    (hdiscreet : Along Operation.behaviour Discreet d as) (hfree : Along Operation.behaviour (Unhindered id) d as)
    (hrun : d.run? Operation.behaviour as = some d') :
    (∃ c', Underway items partitions id d' c') ∧
    ∀ outcome, .settled id outcome ∈ d'.history → .settled id outcome ∈ d.history ∨
      ∃ before a after d₁ d₂, as = before ++ a :: after ∧ d.run? Operation.behaviour before = some d₁ ∧
        d₁.act? Operation.behaviour a = some d₂ ∧ Handed items id d₁ d₂ outcome := by
  have hallowed := along_and _ (along_of_forall _ (fun a ha _ => has a ha) d) (along_and _ hdiscreet hfree)
  obtain ⟨hends, houtcomes⟩ := handed_of_run (fun h => h.cell)
    (fun h ⟨ha, hdiscreet, hfree⟩ hact => h.act ha hdiscreet hfree hact) h hallowed hrun
  refine ⟨hends, fun outcome hmem => (houtcomes outcome hmem).imp_right ?_⟩
  rintro ⟨before, a, after, d₁, d₂, hsplit, hbefore, hact, hpresented⟩
  exact ⟨before, a, after, d₁, d₂, hsplit, hbefore, hact, hpresented.before, hpresented.settled,
    hpresented.delivered, hpresented.kept⟩

/-- **A task that decodes many inputs delivers all of their bitmaps in order, or the fault of one of them**
(`delivered_iff`).  Take any run up to the call that takes the task in, and any run behind that in which nothing hinders
the task, where callers are discreet about the bitmaps of all tasks.  Once the task is done it was settled, and whatever
it was settled with was right when it was handed over, and is so as long as it waits in the promise.  It is never the
fault of a rule that is broken. -/
theorem decodeMany_of_run {world : World} {s : Settings} {processors : Nat} {admission : Admission} {checkpoints : Bool}
    {d₀ d₁ : Dispatcher World Operation Product} (hstart : start world s processors admission checkpoints = .ok d₀)
    {as₁ : List (Act World Operation Product)} (has₁ : ∀ a ∈ as₁, a.returns = true)
    (hdiscreet₁ : Along Operation.behaviour Discreet d₀ as₁) (hrun₁ : d₀.run? Operation.behaviour as₁ = some d₁)
    {inputs : List (Bytes × Selector)} {items : List (Bytes × Format)} {concurrency : Option Nat}
    (hitems : List.Forall₂ (fun input item => item.1 = input.1 ∧ input.2.resolve = .ok item.2) inputs items)
    (hconcurrency : concurrency ≠ some 0) {sink : Sink} (hsink : sink ≠ .callback true)
    (hopen : d₁.admission.enter.1 = true) {as₂ : List (Act World Operation Product)}
    (has₂ : ∀ a ∈ as₂, a.returns = true)
    (hdiscreet₂ : Along Operation.behaviour Discreet (d₁.decodeMany inputs concurrency sink) as₂)
    (hfree : Along Operation.behaviour (Unhindered d₁.cells.length) (d₁.decodeMany inputs concurrency sink) as₂)
    (hrun₂ : (d₁.decodeMany inputs concurrency sink).run? Operation.behaviour as₂ = some d) :
    ∃ c, d.cells[d₁.cells.length]? = some c ∧
      (c.stage = .done → ∃ outcome, .settled d₁.cells.length outcome ∈ d.history) ∧
      (∀ outcome, .settled d₁.cells.length outcome ∈ d.history →
        (∀ what, outcome ≠ .error (.internal what)) ∧
        ∃ before a after d₂ d₃, as₂ = before ++ a :: after ∧
          (d₁.decodeMany inputs concurrency sink).run? Operation.behaviour before = some d₂ ∧
          d₂.act? Operation.behaviour a = some d₃ ∧ Handed items d₁.cells.length d₂ d₃ outcome) ∧
      ∀ outcome, c.settlement.promise.waiting = some outcome → Delivered items d.world.shelf outcome := by
  have horderly := (orderly_start hstart).run has₁ hdiscreet₁ hrun₁
  obtain ⟨partitions, c₀, hunderway, hnew⟩ := underway_spawn horderly hconcurrency hitems hsink hopen
  obtain ⟨⟨c, hends⟩, hhanded⟩ := hunderway.run has₂ hdiscreet₂ hfree hrun₂
  refine ⟨c, hends.cell, fun hdone => ?_, fun outcome hmem => ?_, hends.kept.waiting⟩
  · obtain ⟨outcome, hmem⟩ := hends.settled (((hends.orderly.sound _).staged c hends.cell).body.2 hdone)
    exact ⟨outcome, mem_outcomes.1 hmem⟩
  · obtain ⟨before, a, after, d₂, d₃, hsplit, hbefore, hact, hhanded⟩ :=
      (hhanded outcome hmem).resolve_left fun h => hnew outcome (mem_outcomes.2 h)
    exact ⟨hhanded.delivered.ne_internal, before, a, after, d₂, d₃, hsplit, hbefore, hact, hhanded⟩

def pairRoom : Except Refusal (Dispatcher World Operation Product) :=
  start World.empty ⟨2, 2, 65536, 2, 1, 1, none⟩ 2 .fresh true

/-- A plain list of the value 7, and the portable layout of no values. -/
def pairInputs : List (Bytes × Selector) :=
  [([1, 1, 0, 0, 0, 7, 0, 0, 0], .format .tagged), ([58, 48, 0, 0, 0, 0, 0, 0], .flag true)]

def pairItems : List (Bytes × Format) :=
  [([1, 1, 0, 0, 0, 7, 0, 0, 0], .tagged), ([58, 48, 0, 0, 0, 0, 0, 0], .portable)]

/-- Two workers decode by turns, and the caller completes the task. -/
def pairActs : List (Act World Operation Product) :=
  List.replicate 3 (.move .caller) ++ (List.replicate 15 [.move (.worker 0), .move (.worker 1)]).flatten ++
    .pumpAll :: List.replicate 3 (.move .caller)

theorem pairActs_moves : ∀ a ∈ pairActs, a = .pumpAll ∨ ∃ m, a = .move m := by
  simp [pairActs, or_imp, forall_and]

theorem pairItems_decode : ∀ item ∈ pairItems, ∃ content, Decoding.decode 0 item.1 item.2 = .ok content := by
  have hall : ∀ item ∈ pairItems, (Decoding.decode 0 item.1 item.2).toOption.isSome = true := by decide +kernel
  intro item hitem
  cases hdecode : Decoding.decode 0 item.1 item.2 with
  | ok content => exact ⟨content, rfl⟩
  | error fault =>
    have hsome := hall item hitem
    rw [hdecode] at hsome
    cases hsome

theorem decodeMany_of_run_pair : ∃ d₀ d c ns, pairRoom = .ok d₀ ∧
    (d₀.decodeMany pairInputs none .promise).run? Operation.behaviour pairActs = some d ∧
    d.cells[d₀.cells.length]? = some c ∧ c.stage = .done ∧
    c.settlement.promise.waiting = some (.ok (.bitmaps ns)) ∧ List.Forall₂ d.world.shelf.ShowsItem pairItems ns := by
  have hends : (pairRoom.toOption.bind fun d₀ =>
      ((d₀.decodeMany pairInputs none .promise).run? Operation.behaviour pairActs).bind fun d =>
        (d.cells[d₀.cells.length]?).map fun c => (c.stage, c.settlement.promise.waiting.isSome, d₀.admission.enter.1,
          decide (Along Operation.behaviour (Unhindered d₀.cells.length)
            (d₀.decodeMany pairInputs none .promise) pairActs))) = some (.done, true, true, true) := by decide +kernel
  obtain ⟨d₀, hroom, hends⟩ := Option.bind_eq_some_iff.1 hends
  obtain ⟨d, hrun, hends⟩ := Option.bind_eq_some_iff.1 hends
  obtain ⟨c, hc, hends⟩ := Option.map_eq_some_iff.1 hends
  obtain ⟨hstage, hends⟩ := Prod.mk.inj hends
  obtain ⟨hwaiting, hends⟩ := Prod.mk.inj hends
  obtain ⟨hopen, hfree⟩ := Prod.mk.inj hends
  obtain ⟨outcome, hwaiting⟩ := Option.isSome_iff_exists.1 hwaiting
  have hstart := eq_ok_of_toOption hroom
  have hreturns : ∀ a ∈ pairActs, a.returns = true := fun a ha => by
    rcases pairActs_moves a ha with rfl | ⟨m, rfl⟩ <;> rfl
  have hdiscreet : ∀ a ∈ pairActs, ∀ d, Discreet d a := fun a ha d => by
    rcases pairActs_moves a ha with rfl | ⟨m, rfl⟩ <;> trivial
  have hitems : List.Forall₂ (fun input item => item.1 = input.1 ∧ input.2.resolve = .ok item.2) pairInputs pairItems :=
    .cons ⟨rfl, rfl⟩ (.cons ⟨rfl, rfl⟩ .nil)
  have hbefore : ∀ a ∈ ([] : List (Act World Operation Product)), a.returns = true := by simp
  have hconcurrency : (none : Option Nat) ≠ some 0 := nofun
  have hsink : Sink.promise ≠ .callback true := nofun
  obtain ⟨c', hc', -, -, hdelivered⟩ := decodeMany_of_run hstart hbefore trivial rfl hitems hconcurrency hsink hopen
    hreturns (along_of_forall _ hdiscreet _) (of_decide_eq_true hfree) hrun
  obtain rfl := Option.some.inj (hc.symm.trans hc')
  obtain ⟨ns, rfl, hshows⟩ := (delivered_iff.1 (hdelivered _ hwaiting)).1 pairItems_decode
  exact ⟨d₀, d, c, ns, hstart, hrun, hc, hstage, hwaiting, hshows⟩

end Dispatcher
end BitmapWorks
