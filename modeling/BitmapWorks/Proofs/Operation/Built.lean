import BitmapWorks.Proofs.Bitmap.Kinds
import BitmapWorks.Proofs.Decoding.RoundTrip
import BitmapWorks.Proofs.Operation.Many
/-!
# Built — the bitmap of some values

A task that builds a bitmap calls its work once, and whoever concludes it without a fault finds the bitmap in the slot
(`Building.filled`).  That bitmap depends only on which values there are.  So two tasks that build the same values, in
whatever order and however often each comes, deliver bitmaps that every format encodes alike (`built_of_runs`), whatever
else their dispatchers have to do.
-/
namespace BitmapWorks

variable {values : List UInt32} {hindered : Prop} {id : Nat}

def Bitmap.built (values : List UInt32) : Bitmap := (ofList values).optimize

/-- What building a bitmap may give: the bitmap, or a fault if something hinders the task. -/
inductive Built (b : Bitmap) (hindered : Prop) (s : Shelf) : Except Fault Product → Prop
  | given {n} : s.Shows n (.owned b) → Built b hindered s (.ok (.bitmap n))
  | failed {fault} : hindered → Built b hindered s (.error fault)

theorem Built.congr {b : Bitmap} {s s' : Shelf} {outcome : Except Fault Product} (h : Built b hindered s outcome)
    (hsame : ∀ n ∈ Product.namesOf outcome, s'.get? n = s.get? n) : Built b hindered s' outcome := by
  cases h with
  | failed hhindered => exact .failed hhindered
  | @given n hshows =>
    refine .given ?_
    rwa [Shelf.Shows, hsame n (List.mem_singleton_self n)]

/-! ## Bodies -/

namespace Operation

/-- Whether an operation builds the bitmap of values in its one slot. -/
structure Builds (values : List UInt32) (o : Operation) : Prop where
  request : o.request = .fromValues values
  assignment : o.assignment = some (.build values)
  guarded : o.guarded = none
  length : o.slots.length = 1

/-- Whether the bitmap in the slot, if there is one, is that of the values. -/
def ShowsBuilt (values : List UInt32) (s : Shelf) (o : Operation) : Prop :=
  ∀ n, o.slots[0]? = some (some (Product.bitmap n)) → s.Shows n (.owned (.built values))

theorem ShowsBuilt.congr {s s' : Shelf} {o : Operation} (h : ShowsBuilt values s o)
    (hsame : ∀ n ∈ o.made, s'.get? n = s.get? n) : ShowsBuilt values s' o := by
  intro n hslot
  have hmade : n ∈ o.made := mem_made.2 ⟨.bitmap n, List.mem_of_getElem? hslot, List.mem_singleton_self n⟩
  rw [Shelf.Shows, hsame n hmade]
  exact h n hslot

theorem Builds.work_eq {o : Operation} (h : o.Builds values) (w : World) (item : Nat) : work w o item =
    ⟨{ w with shelf := (w.shelf.put (.owned (.built values)) (some (Content.owned (.built values)).footprint)).2 },
      { o with slots := o.slots.set item (some (.bitmap w.shelf.numbers)) },
      Ledger.entry (Content.owned (.built values)).footprint, none, .done⟩ := by
  have hspent : o.request.spent = o.request := by
    rw [h.request]
    rfl
  rw [Operation.work_eq h.assignment, hspent]
  rfl

/-- **A call never fails**, and the one that a task makes fills the slot. -/
theorem Builds.work {o : Operation} (h : o.Builds values) (w : World) (item : Nat) :
    (Operation.work w o item).body.Builds values ∧ (Operation.work w o item).outcome = .done ∧
      (item = 0 → (Operation.work w o item).body.Filled 0) := by
  rw [h.work_eq]
  refine ⟨⟨h.request, h.assignment, h.guarded, List.length_set.trans h.length⟩, rfl, ?_⟩
  rintro rfl
  exact ⟨w.shelf.numbers, List.getElem?_set_self (by rw [h.length]; exact Nat.one_pos)⟩

theorem Builds.shows {o : Operation} (h : o.Builds values) (w : World) (item : Nat)
    (hshows : ShowsBuilt values w.shelf o) :
    ShowsBuilt values (Operation.work w o item).world.shelf (Operation.work w o item).body := by
  rw [h.work_eq]
  obtain ⟨-, -, hframe, hnew⟩ :=
    w.shelf.put_spec (.owned (.built values)) (some (Content.owned (.built values)).footprint)
  intro n hslot
  by_cases hitem : item = 0
  · subst hitem
    obtain rfl : w.shelf.numbers = n := Product.bitmap.inj (Option.some.inj (Option.some.inj
      ((List.getElem?_set_self (by rw [h.length]; exact Nat.one_pos)).symm.trans hslot)))
    show (Shelf.get? _ w.shelf.numbers).map Slot.content = _
    rw [hnew]
    rfl
  · have hold := hshows n ((List.getElem?_set_ne hitem).symm.trans hslot)
    obtain ⟨slot, hslot, -⟩ := Option.map_eq_some_iff.1 hold
    show (Shelf.get? _ n).map Slot.content = _
    rw [hframe.same n (Shelf.lt_numbers hslot) List.not_mem_nil]
    exact hold

/-- **A body whose slot is filled gives the bitmap**, and nothing changes. -/
theorem Builds.closes {o : Operation} (h : o.Builds values) (hfilled : o.Filled 0) {w w' : World}
    {outcome : Except Fault Product} (hcloses : Closes behaviour none w o outcome w') :
    (∃ n, outcome = .ok (.bitmap n) ∧ o.slots[0]? = some (some (.bitmap n))) ∧ w' = w := by
  obtain ⟨n, hslot⟩ := hfilled
  obtain ⟨slot, hslots⟩ := List.length_eq_one_iff.1 h.length
  obtain rfl : slot = some (.bitmap n) := by
    rw [hslots] at hslot
    exact Option.some.inj hslot
  have hclean : cleanUp w o = (w, { o with guarded := none }) := by rw [cleanUp, h.guarded]
  have hresult : result w { o with guarded := none } = (.ok (.bitmap n), w) := by
    unfold result dropRequest
    dsimp only
    rw [h.request, hslots]
    rfl
  cases hcloses with
  | asked hasked =>
    have hasked' : some (result (cleanUp w o).1 (cleanUp w o).2).1 = some outcome := hasked
    rw [hclean, hresult] at hasked'
    refine ⟨⟨n, (Option.some.inj hasked').symm, hslot⟩, ?_⟩
    show (result (cleanUp w o).1 (cleanUp w o).2).2 = w
    rw [hclean, hresult]

end Operation

/-! ## Progress -/

def Errand.ahead : Errand → Nat
  | single _ .takeUp | single _ .call | single _ .calling => 1
  | _ => 0

theorem Strand.ahead_le_work {B V : Type} (s : Strand B V) : s.weigh Chore.single Errand.ahead ≤ s.work := by
  have hchores : ∀ cs : List Chore, (cs.map Chore.single).sum ≤ (cs.map Chore.work).sum := fun cs => by
    refine List.sum_le_sum fun chore _ => ?_
    cases chore <;> simp [Chore.single, Chore.work]
  have herrands : (s.errands.map Errand.ahead).sum ≤ (s.errands.map Errand.work).sum := by
    refine Multiset.sum_map_le_sum_map _ _ fun e _ => ?_
    cases e with
    | single id phase => cases phase <;> simp [Errand.ahead, Errand.work]
    | part id phase => exact Nat.zero_le _
  exact Nat.add_le_add (hchores s.chores) herrands

structure Building (values : List UInt32) (hindered : Prop) (id : Nat) (c : Cell Operation Product)
    (s : Strand Operation Product) : Prop where
  body : ∀ b, c.body = some b → b.Builds values
  fault : c.fault ≠ none → hindered
  fanout : c.fanout = none
  recorded : ∀ outcome, .single id (.record outcome) ∈ s.errands → outcome = .done
  /-- The call is still to return, or has filled the slot, or there is a fault. -/
  called : c.fault = none → s.weigh Chore.single Errand.ahead ≠ 0 ∨ ∀ b, c.body = some b → b.Filled 0

namespace Building

variable {c c' : Cell Operation Product} {s s' : Strand Operation Product}

theorem congr (h : Building values hindered id c s) (hbody : ∀ b, c'.body = some b → c.body = some b)
    (hfault : c'.fault ≠ none → hindered) (hnone : c'.fault = none → c.fault = none) (hfanout : c'.fanout = none)
    (hrecorded : ∀ outcome, .single id (.record outcome) ∈ s'.errands → .single id (.record outcome) ∈ s.errands)
    (hahead : c'.fault = none → s'.weigh Chore.single Errand.ahead = s.weigh Chore.single Errand.ahead) :
    Building values hindered id c' s' := by
  refine ⟨fun b hb => h.body b (hbody b hb), hfault, hfanout,
    fun outcome hmem => h.recorded outcome (hrecorded outcome hmem), fun hnone' => ?_⟩
  rw [hahead hnone']
  exact (h.called (hnone hnone')).imp_right fun hfilled b hb => hfilled b (hbody b hb)

theorem turn {n : Note} {e : Errand} {next : Multiset Errand} {posted p : Nat} {events st : List (Event Product)}
    {cs : List Chore} {es : Multiset Errand} (h : Building values hindered id c ⟨some c, cs, p, e ::ₘ es, st⟩)
    (hs : Strand.Sound ⟨some c, cs, p, e ::ₘ es, st⟩) (hturn : Turn Operation.behaviour id n c e c' next posted events)
    (hfault : c'.fault ≠ none → hindered) :
    Building values hindered id c' ⟨some c', cs, p + posted, next + es, events ++ st⟩ := by
  have hsingle : e.isPart = 0 := by
    have hkinds := (hs.kinds c rfl).single h.fanout
    simp only [Strand.weigh, Multiset.map_cons, Multiset.sum_cons] at hkinds
    omega
  have hfanout : c'.fanout = none := hturn.fanout_eq_none.2 h.fanout
  have hnone : c'.fault = none → c.fault = none := fun hnone => by
    rw [hturn.fault.1] at hnone
    exact (Option.or_eq_none_iff.1 hnone).1
  cases hturn with
  | takeUp | call | record | post =>
    refine h.congr (fun b hb => hb) hfault hnone hfanout (fun outcome hmem => ?_) fun _ => ?_
    · exact Multiset.mem_cons_of_mem (by simpa using hmem)
    · simp [Strand.weigh, Errand.ahead]
  | tooLate hqueued hrunning =>
    refine h.congr (fun b hb => hb) hfault hnone hfanout (fun outcome hmem => by simpa using hmem) fun hnone => ?_
    have hwork : Strand.work ⟨some c, cs, p, .single id .takeUp ::ₘ es, st⟩ ≠ 0 := by
      simp [Strand.work, Strand.weigh, Errand.work]
    rcases (hs.busy rfl (hs.not_forced rfl hnone) hwork).2 with hstage | hstage
    · exact absurd hstage hqueued
    · exact absurd hstage hrunning
  | bodyless hbody =>
    refine ⟨h.body, hfault, hfanout, fun outcome hmem => ?_, fun _ => .inr fun b hb => ?_⟩
    · exact h.recorded outcome (Multiset.mem_cons_of_mem (by simpa using hmem))
    · cases hbody.symm.trans hb
  | @«return» _ b world hbody =>
    obtain ⟨hbuilds, hdone, hfilled⟩ := (h.body b hbody).work world 0
    refine ⟨fun b' hb' => ?_, hfault, hfanout, fun outcome hmem => ?_, fun _ => .inr fun b' hb' => ?_⟩
    · obtain rfl := Option.some.inj hb'
      exact hbuilds
    · rcases Multiset.mem_add.1 hmem with hmem | hmem
      · obtain rfl := SinglePhase.record.inj (Errand.single.inj (Multiset.mem_singleton.1 hmem)).2
        exact hdone
      · exact h.recorded outcome (Multiset.mem_cons_of_mem hmem)
    · obtain rfl := Option.some.inj hb'
      exact hfilled rfl
  | _ => cases hsingle

/-- **Every step keeps track of the building**, if it offers a fault only where something hinders the task. -/
theorem step {n : Note} (h : Building values hindered id c s) (hstep : Strand.Step Operation.behaviour id n s s')
    (hs : s.Sound) (hc : s.cell = some c) (hc' : s'.cell = some c') (hoffered : n.offered ≠ none → hindered) :
    Building values hindered id c' s' := by
  have hor : c'.fault = c.fault.or n.offered := by simpa [hc, hc'] using hstep.fault
  have hfault : c'.fault ≠ none → hindered := fun hne => by
    rw [hor, ne_eq, Option.or_eq_none_iff, not_and_or] at hne
    exact hne.elim h.fault hoffered
  have hnone : c'.fault = none → c.fault = none := fun hnone => by
    rw [hor] at hnone
    exact (Option.or_eq_none_iff.1 hnone).1
  have hkinds := (hs.kinds c hc).single h.fanout
  cases hstep with
  | reject | letIn | spread => cases hc
  | turn es hturn =>
    obtain rfl := Option.some.inj hc
    obtain rfl := Option.some.inj hc'
    exact h.turn hs hturn hfault
  | submitted | submitPart | refusePart | abandoned | abandon | unspread =>
    -- a task of one call has no partitions to hand in or to count off
    simp [Strand.weigh, Chore.parts] at hkinds
  | receive =>
    obtain rfl := Option.some.inj (hc.symm.trans hc')
    refine h.congr (fun _ hb => hb) hfault hnone h.fanout (fun _ hmem => hmem) fun _ => ?_
    simp [Strand.weigh, Chore.single]
  | submit =>
    obtain rfl := Option.some.inj hc
    obtain rfl := Option.some.inj hc'
    refine h.congr (fun _ hb => hb) hfault hnone h.fanout (fun _ hmem => by simpa using hmem) fun _ => ?_
    simp [Strand.weigh, Chore.single, Errand.ahead]
    omega
  | refuse fault =>
    obtain rfl := Option.some.inj hc
    obtain rfl := Option.some.inj hc'
    refine h.congr (fun _ hb => hb) hfault hnone h.fanout (fun _ hmem => hmem) fun hnone' => ?_
    rw [hor] at hnone'
    cases (Option.or_eq_none_iff.1 hnone').2
  | conclude hbody | bodyless hbody =>
    obtain rfl := Option.some.inj hc
    obtain rfl := Option.some.inj hc'
    refine h.congr (fun _ hb => absurd hb (Option.some_ne_none _).symm) hfault hnone h.fanout (fun _ hmem => hmem)
      fun _ => ?_
    simp [Strand.weigh, Chore.single]
  | _ =>
    obtain rfl := Option.some.inj hc
    obtain rfl := Option.some.inj hc'
    refine h.congr (fun _ hb => hb) hfault hnone h.fanout (fun _ hmem => hmem) fun _ => ?_
    simp [Strand.weigh, Chore.single]

/-- **Who concludes the task without a fault finds the slot filled.** -/
theorem filled (h : Building values hindered id c s) (hs : s.Sound) (hc : s.cell = some c)
    (hclaimed : c.settlement.claimed = true) (hnone : c.fault = none) {b : Operation} (hbody : c.body = some b) :
    b.Filled 0 := by
  -- the claim is made when no work is left, so the call has returned
  have hwork := (hs.tokens c hc (hs.not_forced hc hnone)).work_eq_zero hclaimed
  rcases h.called hnone with hahead | hfilled
  · exact absurd (Nat.le_zero.1 (hwork ▸ s.ahead_le_work)) hahead
  · exact hfilled b hbody

end Building

/-! ## A task that builds -/

namespace Dispatcher

variable {d d' d₁ : Dispatcher World Operation Product} {a : Act World Operation Product}
variable {as : List (Act World Operation Product)} {c : Cell Operation Product} {sink : Sink}

def build (d : Dispatcher World Operation Product) (values : List UInt32) (sink : Sink) :
    Dispatcher World Operation Product :=
  d.spawn Operation.behaviour (.ofRequest (.fromValues values)) sink

/-- How a task stands that builds the bitmap of values. -/
structure Assembling (values : List UInt32) (hindered : Prop) (id : Nat) (d : Dispatcher World Operation Product)
    (c : Cell Operation Product) : Prop where
  orderly : d.Orderly
  cell : d.cells[id]? = some c
  building : Building values hindered id c (d.strand id)
  keeps : Keeps (Operation.ShowsBuilt values) (Built (.built values) hindered) d.world.shelf c.holding
  settled : ¬ hindered → c.body = none → ∃ outcome, (id, outcome) ∈ d.outcomes

namespace Assembling

theorem offered (h : Assembling values hindered id d c) (hfree : hindered ∨ d.Unhindered id a)
    (hoffered : (d.note Operation.behaviour id a).offered ≠ none) : hindered := by
  refine hfree.resolve_right fun hfree => ?_
  obtain ⟨fault, hoffered⟩ := Option.ne_none_iff_exists'.1 hoffered
  obtain ⟨e, hmem, hoffered⟩ := hfree.offered h.cell hoffered
  cases e with
  | single id' phase =>
    obtain rfl : id' = id := (mem_errands.1 hmem).2
    cases phase with
    | calling =>
      have hrecorded : c.body.bind (fun b => (Operation.work d.world b 0).recorded) = some fault := hoffered
      obtain ⟨b, -, hrecorded⟩ := Option.bind_eq_some_iff.1 hrecorded
      rw [Operation.recorded_work] at hrecorded
      cases hrecorded
    | record outcome =>
      rw [h.building.recorded outcome hmem] at hoffered
      cases hoffered
    | _ => cases hoffered
  | part id' phase =>
    have hkinds := ((h.orderly.sound id).kinds c h.cell).single h.building.fanout
    have hsum : ((d.strand id).errands.map Errand.isPart).sum = 0 := (Nat.add_eq_zero_iff.1 hkinds).2
    cases Multiset.sum_eq_zero_iff.1 hsum _ (Multiset.mem_map_of_mem Errand.isPart hmem)

/-- **A task that builds ends with its bitmap**, unless something hinders it. -/
theorem closes (h : Assembling values hindered id d c) {b : Operation} {outcome : Except Fault Product} {w : World}
    (hbody : c.body = some b) (hclaimed : c.settlement.claimed = true)
    (hcloses : Closes Operation.behaviour c.fault d.world b outcome w) :
    Built (.built values) hindered d.world.shelf outcome ∧ Built (.built values) hindered w.shelf outcome := by
  cases hfault : c.fault with
  | some fault =>
    have hhindered := h.building.fault (by simp [hfault])
    rw [hfault] at hcloses
    cases hcloses with
    | failed => exact ⟨.failed hhindered, .failed hhindered⟩
  | none =>
    have hfilled := h.building.filled (h.orderly.sound id) h.cell hclaimed hfault hbody
    rw [hfault] at hcloses
    obtain ⟨⟨n, rfl, hslot⟩, rfl⟩ := (h.building.body b hbody).closes hfilled hcloses
    have hshows := h.keeps.body b hbody n hslot
    exact ⟨.given hshows, .given hshows⟩

/-- **Every act keeps the task on its way**, and what the task is settled with is its bitmap, unless something hinders
it. -/
theorem act (h : Assembling values hindered id d c) (ha : a.returns = true) (hdiscreet : d.Discreet a)
    (hfree : hindered ∨ d.Unhindered id a) (hact : d.act? Operation.behaviour a = some d') :
    ∃ c', Assembling values hindered id d' c' ∧
      ∀ outcome, (id, outcome) ∈ d'.outcomes → (id, outcome) ∈ d.outcomes ∨
        (Built (.built values) hindered d.world.shelf outcome ∧
          (c.settlement.promise.dropped = false → Built (.built values) hindered d'.world.shelf outcome)) := by
  obtain ⟨-, -, hleads⟩ := weave operation_returns h.orderly.held ha hact
  have hsound := h.orderly.sound id
  have hstrand : ∃ c', d'.cells[id]? = some c' ∧ Building values hindered id c' (d'.strand id) := by
    rcases hleads id with ⟨-, heq⟩ | hstep
    · exact ⟨c, (congrArg Strand.cell heq).trans h.cell, by rw [heq]; exact h.building⟩
    · obtain ⟨c', hc'⟩ := hstep.cell_ne_none h.cell
      exact ⟨c', hc', h.building.step hstep hsound h.cell hc' (h.offered hfree)⟩
  obtain ⟨c', hc', hbuilding⟩ := hstrand
  obtain ⟨hkeeps, hsettled, houtcomes⟩ := (does_of_act operation_returns h.orderly.held h.orderly.sound hact).keeps
    h.orderly.apart hdiscreet h.cell hc'
    (h.keeps.congr (fun b hmade hshows => hshows.congr hmade) fun outcome hnames hbuilt => hbuilt.congr hnames)
    (fun hd told hdeed => h.keeps.deed (fun b k hbody hshows => (h.building.body b hbody).shows d.world k hshows)
      (fun b outcome w hbody hclaimed hcloses => h.closes hbody hclaimed hcloses) hdeed)
  refine ⟨c', ⟨h.orderly.act ha hdiscreet hact, hc', hbuilding, hkeeps, fun hclear => ?_⟩, houtcomes⟩
  refine hsettled ?_ (h.settled hclear)
  rintro rfl
  exact (hfree.resolve_left hclear).1

end Assembling

/-! ## The beginning -/

theorem building_start {n : Note} {s s' : Strand Operation Product} (h : Strand.Step Operation.behaviour id n s s')
    (hrooted : s.Rooted) (hnone : s.cell = none) (hc : s'.cell = some c) (hfault : c.fault = none)
    (hfanout : c.fanout = none) (hbody : ∀ b, c.body = some b → b.Builds values) : Building values hindered id c s' := by
  cases h with
  | reject =>
    obtain rfl := Option.some.inj hc
    cases hfault
  | spread =>
    obtain rfl := Option.some.inj hc
    cases hfanout
  | letIn =>
    obtain ⟨-, -, rfl, -⟩ := hrooted rfl
    obtain rfl := Option.some.inj hc
    refine ⟨hbody, fun hne => absurd hfault hne, hfanout, fun outcome hmem => ?_, fun _ => .inl ?_⟩
    · cases Multiset.notMem_zero _ hmem
    · simp [Strand.weigh, Chore.single]
  | receive => cases hnone.symm.trans hc
  | _ => cases hnone

/-- **A task that builds is on its way once it is let in.** -/
theorem assembling_spawn (values : List UInt32) (hindered : Prop) (h : d.Orderly) (hsink : sink ≠ .callback true)
    (hopen : d.admission.enter.1 = true) :
    ∃ c, Assembling values hindered d.cells.length (d.build values sink) c ∧
      ∀ outcome, (d.cells.length, outcome) ∉ (d.build values sink).outcomes := by
  have hresolve : (Request.fromValues values).resolve = .ok (.build values) := rfl
  have hprepare : Operation.behaviour.prepare d.world (.ofRequest (.fromValues values)) =
      (.ok (), d.world, ⟨.fromValues values, some (.build values), none, [none]⟩) :=
    Operation.prepare_ofRequest_ok hresolve d.world
  have hnone : (d.strand d.cells.length).cell = none := List.getElem?_eq_none (Nat.le_refl _)
  have horderly := h.act (a := .spawn (.ofRequest (.fromValues values)) sink) (decide_eq_true hsink)
    ⟨_, rfl, by simp [Request.bitmap?]⟩ rfl
  unfold build
  obtain ⟨_, hcell, houtcomes⟩ := cells_spawn hprepare hopen sink
  have hstep := step_spawn (Operation.ofRequest (.fromValues values)) hsink hcell
  have hbuilds : (Operation.mk (.fromValues values) (some (.build values)) none [none]).Builds values :=
    ⟨rfl, rfl, rfl, rfl⟩
  refine ⟨_, ⟨horderly, hcell, building_start hstep (h.held.rooted _) hnone hcell rfl rfl fun b hb => ?_, ?_,
    fun _ hbody => absurd hbody (Option.some_ne_none _)⟩, fun outcome hmem => ?_⟩
  · obtain rfl := Option.some.inj hb
    exact hbuilds
  · refine ⟨fun b hb n hslot => ?_, fun settlement hsettled => ?_, fun _ => rfl⟩
    · obtain rfl := Option.some.inj hb
      cases hslot
    · cases hsettled
  · rw [houtcomes] at hmem
    exact h.not_settled outcome hmem

/-! ## The end -/

/-- What a run behind the call for a bitmap comes to.  A task that nothing hinders is settled once it is done, and
whatever it is settled with is the bitmap where it is handed over, and is so as long as it waits in the promise. -/
structure Supplied (b : Bitmap) (id : Nat) (d : Dispatcher World Operation Product)
    (as : List (Act World Operation Product)) (d' : Dispatcher World Operation Product) : Prop where
  done : ∃ c, d'.cells[id]? = some c ∧ (Along Operation.behaviour (Unhindered id) d as → c.stage = .done →
    ∃ outcome, .settled id outcome ∈ d'.history)
  handed : ∀ outcome, .settled id outcome ∈ d'.history →
    ∃ before a after d₁ d₂, as = before ++ a :: after ∧ d.run? Operation.behaviour before = some d₁ ∧
      d₁.act? Operation.behaviour a = some d₂ ∧
      Presented (Built b (¬ Along Operation.behaviour (Unhindered id) d as)) id d₁ d₂ outcome
  waiting : ∀ c, d'.cells[id]? = some c → ∀ outcome, c.settlement.promise.waiting = some outcome →
    Built b (¬ Along Operation.behaviour (Unhindered id) d as) d'.world.shelf outcome

/-- A run in which a caller asks for the bitmap of values: any run up to the call that takes the task in, and any run
behind that, where callers are discreet about the bitmaps of all tasks. -/
structure BuildRun (values : List UInt32) (sink : Sink) (d : Dispatcher World Operation Product)
    (as : List (Act World Operation Product)) (d' : Dispatcher World Operation Product) : Prop where
  reached : ∃ world settings processors admission checkpoints d₀ as₀,
    start world settings processors admission checkpoints = .ok d₀ ∧ (∀ a ∈ as₀, a.returns = true) ∧
      Along Operation.behaviour Discreet d₀ as₀ ∧ d₀.run? Operation.behaviour as₀ = some d
  calm : sink ≠ .callback true
  inside : d.admission.enter.1 = true
  returns : ∀ a ∈ as, a.returns = true
  discreet : Along Operation.behaviour Discreet (d.build values sink) as
  run : (d.build values sink).run? Operation.behaviour as = some d'

/-- **A run supplies the bitmap that is asked for.** -/
theorem BuildRun.supplied (h : BuildRun values sink d₁ as d) :
    Supplied (.built values) d₁.cells.length (d₁.build values sink) as d := by
  obtain ⟨world, settings, processors, admission, checkpoints, d₀, as₀, hstart, has₀, hdiscreet₀, hrun₀⟩ := h.reached
  have horderly := (orderly_start hstart).run has₀ hdiscreet₀ hrun₀
  -- with the hindrance as a parameter one induction serves the runs that are hindered and those that are not
  generalize hhindered : (¬ Along Operation.behaviour (Unhindered d₁.cells.length) (d₁.build values sink) as) = hindered
  have hfree : Along Operation.behaviour (fun d a => hindered ∨ d.Unhindered d₁.cells.length a) (d₁.build values sink)
      as := by
    by_cases hclear : Along Operation.behaviour (Unhindered d₁.cells.length) (d₁.build values sink) as
    · exact along_mono _ (fun _ _ hfree => .inr hfree) hclear
    · exact along_of_forall _ (fun _ _ _ => .inl (hhindered ▸ hclear)) _
  obtain ⟨c₀, hassembling, hnew⟩ := assembling_spawn values hindered horderly h.calm h.inside
  have hallowed :=
    along_and _ (along_of_forall _ (fun a ha _ => h.returns a ha) _) (along_and _ h.discreet hfree)
  obtain ⟨⟨c, hends⟩, houtcomes⟩ := handed_of_run (fun h => h.cell)
    (fun h ⟨ha, hdiscreet, hfree⟩ hact => h.act ha hdiscreet hfree hact) hassembling hallowed h.run
  have hclear : Along Operation.behaviour (Unhindered d₁.cells.length) (d₁.build values sink) as → ¬ hindered :=
    fun hfree hstopped => (hhindered ▸ hstopped) hfree
  refine ⟨⟨c, hends.cell, fun hfree hdone => ?_⟩, fun outcome hmem => ?_, fun c' hc' outcome hwaiting => ?_⟩
  · have hbody := ((hends.orderly.sound _).staged c hends.cell).body.2 hdone
    obtain ⟨outcome, hmem⟩ := hends.settled (hclear hfree) hbody
    exact ⟨outcome, mem_outcomes.1 hmem⟩
  · rw [hhindered]
    exact (houtcomes outcome hmem).resolve_left fun h => hnew outcome (mem_outcomes.2 h)
  · obtain rfl := Option.some.inj (hends.cell.symm.trans hc')
    rw [hhindered]
    exact hends.keeps.waiting outcome hwaiting

/-- **What is built depends only on which values there are, down to the bytes of each format.**  Take two lists of the
same values, in whatever order and however often each comes, and a run for each.  There is one bitmap that both tasks
supply; it lists just these values, in ascending order, and each format encodes it as the same bytes in whatever
memory. -/
theorem built_of_runs {values values' : List UInt32} (hsame : ∀ v, v ∈ values ↔ v ∈ values')
    {d₁ d d₁' d' : Dispatcher World Operation Product} {as as' : List (Act World Operation Product)} {sink sink' : Sink}
    (h : BuildRun values sink d₁ as d) (h' : BuildRun values' sink' d₁' as' d') :
    ∃ b : Bitmap, b.values.Pairwise (· < ·) ∧ (∀ v, v ∈ b.values ↔ v ∈ values) ∧
      (∀ f, ∃ bytes, ∀ base, ∃ w, Encoding.serialize base b f = .ok w ∧ w.visible = bytes) ∧
      Supplied b d₁.cells.length (d₁.build values sink) as d ∧
      Supplied b d₁'.cells.length (d₁'.build values' sink') as' d' := by
  have hbuilt : Bitmap.built values' = .built values := by
    rw [Bitmap.built, Bitmap.built, Bitmap.ofList_congr fun v => (hsame v).symm]
  have hvalid : (Bitmap.built values).valid = true := Bitmap.valid_optimize (Bitmap.valid_ofList values)
  have hvalues : (Bitmap.built values).values = (Bitmap.ofList values).values :=
    Bitmap.values_optimize (Bitmap.valid_ofList values)
  refine ⟨.built values, Bitmap.pairwise_values hvalid, fun v => ?_, fun f => ?_, h.supplied, hbuilt ▸ h'.supplied⟩
  · rw [hvalues]
    exact Bitmap.mem_values_ofList
  · refine ⟨Encoding.encode (.built values) f, fun base => ?_⟩
    obtain ⟨w, hserialize, hvisible, -⟩ := Encoding.serialize_spec hvalid f base
    exact ⟨w, hserialize, hvisible⟩

theorem Supplied.given {b : Bitmap} (h : Supplied b id d as d') (hfree : Along Operation.behaviour (Unhindered id) d as)
    (hc : d'.cells[id]? = some c) {outcome : Except Fault Product}
    (hwaiting : c.settlement.promise.waiting = some outcome) :
    ∃ n, outcome = .ok (.bitmap n) ∧ d'.world.shelf.Shows n (.owned b) := by
  cases h.waiting c hc outcome hwaiting with
  | @given n hshows => exact ⟨n, rfl, hshows⟩
  | failed hhindered => exact absurd hfree hhindered

def buildActs : List (Act World Operation Product) :=
  .move .caller :: List.replicate 8 (.move (.worker 0)) ++ .pumpAll :: List.replicate 3 (.move .caller)

theorem buildActs_moves : ∀ a ∈ buildActs, a = .pumpAll ∨ ∃ m, a = .move m := by
  simp [buildActs, or_imp, forall_and]

theorem buildRun_of_run {d₀ : Dispatcher World Operation Product} (hstart : pairRoom = .ok d₀)
    (hopen : d₀.admission.enter.1 = true)
    (hrun : (d₀.build values .promise).run? Operation.behaviour buildActs = some d) :
    BuildRun values .promise d₀ buildActs d := by
  refine ⟨⟨_, _, _, _, _, d₀, [], hstart, by simp, trivial, rfl⟩, nofun, hopen, fun a ha => ?_,
    along_of_forall _ (fun a ha d => ?_) _, hrun⟩
  · rcases buildActs_moves a ha with rfl | ⟨m, rfl⟩ <;> rfl
  · rcases buildActs_moves a ha with rfl | ⟨m, rfl⟩ <;> trivial

theorem built_of_runs_pair : ∃ d₀ d d' c c' b n n', pairRoom = .ok d₀ ∧
    (d₀.build [3, 1, 1] .promise).run? Operation.behaviour buildActs = some d ∧
    (d₀.build [1, 3] .promise).run? Operation.behaviour buildActs = some d' ∧
    d.cells[d₀.cells.length]? = some c ∧ c.stage = .done ∧
    d'.cells[d₀.cells.length]? = some c' ∧ c'.stage = .done ∧ (∀ v, v ∈ b.values ↔ v ∈ [3, 1, 1]) ∧
    c.settlement.promise.waiting = some (.ok (.bitmap n)) ∧ d.world.shelf.Shows n (.owned b) ∧
    c'.settlement.promise.waiting = some (.ok (.bitmap n')) ∧ d'.world.shelf.Shows n' (.owned b) := by
  have hends : (pairRoom.toOption.bind fun d₀ =>
      ((d₀.build [3, 1, 1] .promise).run? Operation.behaviour buildActs).bind fun d =>
        ((d₀.build [1, 3] .promise).run? Operation.behaviour buildActs).bind fun d' =>
          (d.cells[d₀.cells.length]?).bind fun c => (d'.cells[d₀.cells.length]?).map fun c' => (d₀.admission.enter.1,
            (c.stage, c.settlement.promise.waiting.isSome,
              decide (Along Operation.behaviour (Unhindered d₀.cells.length) (d₀.build [3, 1, 1] .promise) buildActs)),
            c'.stage, c'.settlement.promise.waiting.isSome,
              decide (Along Operation.behaviour (Unhindered d₀.cells.length) (d₀.build [1, 3] .promise) buildActs))) =
      some (true, (.done, true, true), .done, true, true) := by decide +kernel
  obtain ⟨d₀, hroom, hends⟩ := Option.bind_eq_some_iff.1 hends
  obtain ⟨d, hrun, hends⟩ := Option.bind_eq_some_iff.1 hends
  obtain ⟨d', hrun', hends⟩ := Option.bind_eq_some_iff.1 hends
  obtain ⟨c, hc, hends⟩ := Option.bind_eq_some_iff.1 hends
  obtain ⟨c', hc', hends⟩ := Option.map_eq_some_iff.1 hends
  obtain ⟨hopen, hends⟩ := Prod.mk.inj hends
  obtain ⟨hfirst, hsecond⟩ := Prod.mk.inj hends
  obtain ⟨hstage, hfirst⟩ := Prod.mk.inj hfirst
  obtain ⟨hwaiting, hfree⟩ := Prod.mk.inj hfirst
  obtain ⟨hstage', hsecond⟩ := Prod.mk.inj hsecond
  obtain ⟨hwaiting', hfree'⟩ := Prod.mk.inj hsecond
  obtain ⟨outcome, hwaiting⟩ := Option.isSome_iff_exists.1 hwaiting
  obtain ⟨outcome', hwaiting'⟩ := Option.isSome_iff_exists.1 hwaiting'
  have hstart := eq_ok_of_toOption hroom
  have hsame : ∀ v : UInt32, v ∈ [3, 1, 1] ↔ v ∈ [1, 3] := fun v => by
    simp only [List.mem_cons, List.not_mem_nil, or_false, or_self]
    exact or_comm
  obtain ⟨b, -, hvalues, -, hsupplied, hsupplied'⟩ :=
    built_of_runs hsame (buildRun_of_run hstart hopen hrun) (buildRun_of_run hstart hopen hrun')
  obtain ⟨n, rfl, hshows⟩ := hsupplied.given (of_decide_eq_true hfree) hc hwaiting
  obtain ⟨n', rfl, hshows'⟩ := hsupplied'.given (of_decide_eq_true hfree') hc' hwaiting'
  exact ⟨d₀, d, d', c, c', b, n, n', hstart, hrun, hrun', hc, hstage, hc', hstage', hvalues, hwaiting, hshows, hwaiting',
    hshows'⟩

end Dispatcher
end BitmapWorks
