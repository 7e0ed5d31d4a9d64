import BitmapWorks.Proofs.Dispatcher.Aftermath
import BitmapWorks.Proofs.Operation.Dues
/-!
# Abandoned — what the total lacks when a dispatcher is dropped with tasks under way

A task charges what it makes at once, and its tally goes into the total when the task is claimed.  If the caller drops its
dispatcher while workers still have tasks, as it can behind a shutdown whose time was up, then nobody claims these tasks
any more.  The workers go on and finish them, and then the bodies are dropped with the charges of all that they made;
but the tallies are dropped, too, without ever going into the total.

So the books stay in order with tallies that nobody will ever put in (`Severed`), and when all has been dropped that there
is, the total is short by just these tallies (`total_of_drop`): it does not come back to what it was before the tasks.
-/
namespace BitmapWorks

variable {trips : World → Operation → Nat → Option (Option String)}

/-! ## Dropped cells -/

theorem waiting_discard_eq {s : Settlement (Except Fault Product)} (hquiet : s.sink ≠ none → s.promise.waiting = none) :
    s.discard.promise.waiting = s.promise.waiting := by
  by_cases hsink : s.sink = none
  · unfold Settlement.discard
    rw [hsink]
  · rw [hquiet hsink]
    exact waiting_discard (hquiet hsink)

namespace Dispatcher

variable {d d' : Dispatcher World Operation Product} {done : Nat → Prop} {id i : Nat} {ids : List Nat}
variable {c : Cell Operation Product}

/-- **A cell is dropped with all that its task owns**, and its tally stays where it is. -/
theorem trade_of_dropCell (hc : d.cells[id]? = some c)
    (hquiet : c.settlement.sink ≠ none → c.settlement.promise.waiting = none) :
    Trade d.world (d.dropCell (Operation.faltering trips) id).world (0 + d.assets)
      (0 + (d.dropCell (Operation.faltering trips) id).assets)
      ((d.dropCell (Operation.faltering trips) id).pending - d.pending) := by
  rw [dropCell_eq _ hc]
  refine trade_set_of_tally hc (cells_modifyCell_set hc Cell.dropped) rfl ?_
  rw [zero_add, zero_add, Cell.assets, Cell.assets]
  show Trade _ _ _ (0 + c.settlement.discard.promise.waiting.elim 0 Product.assetsOf) 0
  rw [waiting_discard_eq hquiet]
  refine Trade.frame ?_ _
  show Trade d.world (c.body.elim d.world (Operation.discard d.world)) (c.body.elim 0 Operation.assets) 0 0
  cases c.body with
  | none => exact .refl _ 0
  | some o => exact Operation.trade_discard d.world o

theorem trade_of_tidy (hquiet : ∀ c, d.cells[id]? = some c → c.settlement.sink ≠ none →
      c.settlement.promise.waiting = none) :
    Trade d.world (d.tidy (Operation.faltering trips) id).world (0 + d.assets)
      (0 + (d.tidy (Operation.faltering trips) id).assets)
      ((d.tidy (Operation.faltering trips) id).pending - d.pending) := by
  unfold tidy
  split
  · exact trade_same rfl (.refl _ 0)
  · cases hc : d.cells[id]? with
    | none =>
      rw [dropCell_of_none hc]
      exact trade_same rfl (.refl _ 0)
    | some c => exact trade_of_dropCell hc (hquiet c hc)

/-- One trade behind another, with the tallies that are pending before and behind both. -/
theorem trade_trans {d₁ : Dispatcher World Operation Product}
    (h : Trade d.world d₁.world (0 + d.assets) (0 + d₁.assets) (d₁.pending - d.pending))
    (h' : Trade d₁.world d'.world (0 + d₁.assets) (0 + d'.assets) (d'.pending - d₁.pending)) :
    Trade d.world d'.world (0 + d.assets) (0 + d'.assets) (d'.pending - d.pending) :=
  (h.trans h').cast rfl rfl (by omega)

namespace Bereft

variable {p : Operation → Prop}

/-- **To let go of a dispatcher is to drop what no job is for.** -/
theorem trade_foldl (h : d.Bereft (Operation.faltering trips) p done ids) :
    Trade d.world (ids.foldl (Dispatcher.tidy (Operation.faltering trips)) d).world (0 + d.assets)
      (0 + (ids.foldl (Dispatcher.tidy (Operation.faltering trips)) d).assets)
      ((ids.foldl (Dispatcher.tidy (Operation.faltering trips)) d).pending - d.pending) ∧
    (ids.foldl (Dispatcher.tidy (Operation.faltering trips)) d).outcomes = d.outcomes := by
  induction ids generalizing d with
  | nil => exact ⟨trade_same rfl (.refl _ 0), rfl⟩
  | cons id ids ih =>
    obtain ⟨htrade, houtcomes⟩ := ih h.tidy
    refine ⟨trade_trans (trade_of_tidy fun c hc => (h.left id c hc).quiet) htrade, houtcomes.trans ?_⟩
    obtain ⟨-, -, -, hhistory⟩ := tidy_keeps (Operation.faltering trips) d id
    exact congrArg (List.filterMap _) hhistory

/-- **What workers make behind the caller's back is paid for like before**, and dropped when nobody wants it. -/
theorem trade_worker (h : d.Bereft (Operation.faltering trips) (fun o => ∃ r, Operation.Started r o) done [])
    (hstep : d.stepWorker? (Operation.faltering trips) i = some d') :
    Trade d.world d'.world (0 + d.assets) (0 + d'.assets) (d'.pending - d.pending) ∧ d'.outcomes = d.outcomes := by
  cases hrun : d.crew.running? i with
  | none =>
    unfold stepWorker? at hstep
    rw [hrun] at hstep
    obtain ⟨crew, -, rfl⟩ := Option.map_eq_some_iff.1 hstep
    exact ⟨trade_same rfl (.refl _ 0), rfl⟩
  | some e =>
    obtain ⟨c, hc⟩ := cell_of_stepWorker hrun hstep
    obtain ⟨l, hl, rfl⟩ := stepWorker_of_gone h.gone hrun hstep
    -- the turn itself is the one that the worker would have made before, and is paid for like that
    have hturn : Trade d.world l.world (0 + d.assets) (0 + l.assets) (l.pending - d.pending) ∧
        l.outcomes = d.outcomes := by
      cases deal_stepWorker (d := d.attended) rfl hl with
      | idle _ _ hworld hcells hlevel =>
        refine ⟨trade_same hcells ?_, hlevel.outcomes⟩
        rw [show l.world = d.world from hworld]
        exact .refl _ 0
      | stir hc halike hcells hworld hlevel =>
        exact ⟨trade_of_stir (d := d) hc halike hcells hworld, hlevel.outcomes⟩
      | @work _ id c o item hc hbody hrun hcells hworld hlevel =>
        obtain ⟨e, he, hitem⟩ := mem_errands_of_call (d := d) hrun
        have hsome : (d.strand id).errands ≠ 0 := fun hnone => Multiset.notMem_zero e (hnone ▸ he)
        obtain ⟨-, o₀, ⟨r, hstart⟩, items, hwrought, hnot, hitems⟩ := (h.tended id c hc hsome).call he hitem hbody
        exact ⟨trade_of_work (d := d) hc hbody (Operation.vacant_of_wrought hstart hwrought hnot hitems) hcells hworld,
          hlevel.outcomes⟩
    obtain ⟨-, -, -, hhistory⟩ := tidy_keeps (Operation.faltering trips) (d.unheard l) e.id
    refine ⟨trade_trans hturn.1 ?_, (congrArg (List.filterMap _) hhistory).trans hturn.2⟩
    exact trade_of_tidy (d := d.unheard l) fun c' hc' => ((h.turn hrun hc hl).left e.id c' hc').quiet

end Bereft

/-- The tallies that nobody has put into the total, of tasks that nobody has claimed. -/
def forfeited (d : Dispatcher World Operation Product) : Int :=
  (d.cells.map fun c => if c.settlement.claimed then 0 else c.tally).sum

theorem Bereft.pending_eq {p : Operation → Prop} (h : d.Bereft (Operation.faltering trips) p done ids) :
    d.pending = d.forfeited := by
  unfold pending forfeited
  refine congrArg List.sum (List.map_congr_left fun c hc => ?_)
  obtain ⟨id, hid⟩ := List.getElem?_of_mem hc
  split
  · rename_i hclaimed
    exact (h.left id c hid).flushed hclaimed
  · rfl

end Dispatcher

/-! ## Scenes behind a drop -/

def Gesture.outlives : Gesture → Bool
  | move _ => true
  | g => g.aside

namespace Scene

variable {s s' : Scene} {g : Gesture} {gs hs : List Gesture} {done : Nat → Prop}

def drop (s : Scene) : Scene := ⟨s.estate, s.dispatcher.drop⟩

/-- A scene whose dispatcher is gone: the tasks that are left can be gone on with, and the world answers for what the
caller and they own. -/
structure Severed (trips : World → Operation → Nat → Option (Option String)) (done : Nat → Prop) (s : Scene) : Prop where
  bereft : s.dispatcher.Bereft (Operation.faltering trips) (fun o => ∃ r, Operation.Started r o) done []
  books : s.Books

/-- **Whatever happens behind a drop, the books stay in order.** -/
theorem Severed.step (h : s.Severed trips done) (hg : g.outlives = true)
    (hstep : s.step? (Operation.faltering trips) g = some s') : s'.Severed trips done := by
  obtain ⟨-, -, hact, -⟩ := step_spec hstep
  by_cases hmove : ∃ m, g = .move m
  · obtain ⟨m, rfl⟩ := hmove
    cases m with
    | caller =>
      -- a caller that is gone has nothing planned
      have hnone : s.dispatcher.stepCaller? (Operation.faltering trips) = none := by
        unfold Dispatcher.stepCaller?
        rw [h.bereft.agenda]
      cases hnone.symm.trans hact
    | worker i =>
      obtain ⟨htrade, houtcomes⟩ := h.bereft.trade_worker hact
      refine ⟨h.bereft.worker hact, h.books.trade hstep ?_⟩
      show Trade _ _ (0 + _) (s.dispatcher.called s'.dispatcher + _) _
      rw [Dispatcher.called_of_same houtcomes]
      exact htrade
  · have haside : g.aside = true := by
      cases g with
      | move m => exact absurd ⟨m, rfl⟩ hmove
      | _ => exact hg
    refine ⟨?_, ?_⟩
    · cases g with
      | take | poll | dropPromise | release => exact h.bereft.visit rfl hact
      | clone | freeze | unfreeze | change | bring | arrange | regate =>
        rw [← Option.some.inj hact]
        exact h.bereft.around rfl rfl rfl rfl
      | _ => cases haside
    · by_cases hchange : ∃ n c, g = .change n c
      · obtain ⟨n, c, rfl⟩ := hchange
        exact h.books.change hstep
      · exact h.books.trade hstep (Gesture.trade_aside haside (fun n c heq => hchange ⟨n, c, heq⟩) hact)

theorem Severed.tour (h : s.Severed trips done) (hgs : ∀ g ∈ gs, g.outlives = true)
    (htour : s.tour? (Operation.faltering trips) gs = some s') : s'.Severed trips done := by
  induction gs generalizing s with
  | nil => exact Option.some.inj htour ▸ h
  | cons g gs ih =>
    obtain ⟨t, hstep, htour⟩ := Option.bind_eq_some_iff.1 htour
    exact ih (h.step (hgs g (List.mem_cons_self ..)) hstep) (fun g hg => hgs g (List.mem_cons_of_mem _ hg)) htour

/-- **A caller that has nothing more to do in its dispatcher and drops it leaves its books in order.** -/
theorem Tracked.severed (h : s.Tracked trips) (hidle : s.dispatcher.agenda = []) (hstopped : s.dispatcher.stopped = true)
    (hstep : s.drop.step? (Operation.faltering trips) (.move .caller) = some s') :
    s'.Severed trips fun id => ∃ c, s.dispatcher.cells[id]? = some c ∧ c.stage = .done := by
  obtain ⟨-, -, hact, -⟩ := step_spec hstep
  have hgone : (List.range s.dispatcher.cells.length).foldl (Dispatcher.tidy (Operation.faltering trips))
      s.dispatcher.forsaken = s'.dispatcher := by
    rw [← Dispatcher.letGo_eq]
    exact Option.some.inj ((Dispatcher.letGo_of_drop _ hidle hstopped).symm.trans hact)
  have hmaking := h.solvent.trading.making
  have hquiet : ∀ (id : Nat) (c : Cell Operation Product), s.dispatcher.cells[id]? = some c →
      c.settlement.sink ≠ none → c.settlement.promise.waiting = none := fun id c hc hsink => by
    have hstaged := (hmaking.regular.sound id).staged c hc
    exact h.solvent.trading.quiet id _ (Dispatcher.holding_of_cells hc rfl) fun hbody =>
      hsink (hstaged.sink.2 (hstaged.body.1 hbody))
  have hbereft := hmaking.bereft hidle hquiet fun id c hc => (h.tallied id c hc).flushed
  have hleft := hbereft.foldl
  obtain ⟨htrade, houtcomes⟩ := hbereft.trade_foldl
  rw [hgone] at hleft htrade houtcomes
  have hdrop : s.drop = ⟨s.estate, { s.dispatcher with agenda := [.letGo] }⟩ :=
    congrArg (Scene.mk s.estate) (Dispatcher.drop_eq hidle hstopped)
  rw [hdrop] at hstep
  have hbooks : (⟨s.estate, { s.dispatcher with agenda := [.letGo] }⟩ : Scene).Books := h.solvent.books
  have hnobody : Dispatcher.called { s.dispatcher with agenda := [.letGo] } s'.dispatcher = 0 :=
    Dispatcher.called_of_same houtcomes
  refine ⟨hleft, hbooks.trade hstep ?_⟩
  show Trade s.dispatcher.world s'.dispatcher.world (0 + s.dispatcher.assets)
    (Dispatcher.called { s.dispatcher with agenda := [.letGo] } s'.dispatcher + s'.dispatcher.assets)
    (s'.dispatcher.pending - s.dispatcher.pending)
  rw [hnobody]
  exact htrade

/-- **When the last job has ended, nobody has a body any more.** -/
theorem Severed.bodyless (h : s.Severed trips done) (hjobs : s.dispatcher.crew.jobs = []) :
    ∀ c ∈ s.dispatcher.cells, c.body = none := fun c hc => by
  obtain ⟨id, hid⟩ := List.getElem?_of_mem hc
  by_contra hbody
  have hwanted := (h.bereft.wanted id c hid hbody).resolve_right List.not_mem_nil
  rw [Dispatcher.isWanted, hjobs] at hwanted
  cases hwanted

end Scene

theorem Shelf.charged_eq_zero {s : Shelf} (h : ∀ n, s.get? n = none) : s.charged = 0 := by
  rw [charged_eq_range]
  refine List.sum_eq_zero fun bytes hbytes => ?_
  obtain ⟨n, -, rfl⟩ := List.mem_map.1 hbytes
  rw [Shelf.bytes, h n]
  rfl

theorem Ledger.wrap_neg_eq_zero (n : Int) : Ledger.wrap (-n) = 0 ↔ Ledger.wrap n = 0 := by
  unfold Ledger.wrap
  rw [← Int.dvd_iff_bmod_eq_zero, ← Int.dvd_iff_bmod_eq_zero, Int.dvd_neg]

/-- **What tasks had charged that were under way when a dispatcher was dropped never comes back.**  Suppose that a caller
drops its dispatcher behind a shutdown, whatever went on before.  The workers go on, and the caller goes on with the
promises and values that it has.  At any time the total is what all charges add up to that somebody still has, less the
tallies of the tasks that nobody had settled by the drop: they are forfeited.  So when the workers have ended their jobs
and everything has been dropped, the total is short by just these tallies, and is zero again only if they make up
nothing. -/
theorem total_of_drop {files : FileSystem} {doors : List String} {settings : Settings} {processors : Nat}
    {admission : Admission} {checkpoints : Bool} {d : Dispatcher World Operation Product}
    (hstart : Dispatcher.start ⟨0, .empty, files, doors⟩ settings processors admission checkpoints = .ok d)
    {gs hs : List Gesture} {s s' : Scene} (htour : Scene.tour? (Operation.faltering trips) ⟨0, d⟩ gs = some s)
    (hidle : s.dispatcher.agenda = []) (hstopped : s.dispatcher.stopped = true)
    (houtlive : ∀ g ∈ hs, g.outlives = true)
    (hafter : s.drop.tour? (Operation.faltering trips) (.move .caller :: hs) = some s') :
    s'.dispatcher.world.total = Ledger.wrap (Asset.total (s'.estate + s'.dispatcher.assets) +
      s'.dispatcher.world.shelf.charged - s'.dispatcher.forfeited) ∧
    (∀ (id : Nat) (c c' : Cell Operation Product), s.dispatcher.cells[id]? = some c →
      s'.dispatcher.cells[id]? = some c' → (c'.settlement.claimed = true ↔ c.stage = .done)) ∧
    (s'.dispatcher.crew.jobs = [] → s'.estate = 0 →
      (∀ c ∈ s'.dispatcher.cells, c.settlement.promise.waiting = none) →
      s'.dispatcher.world.total = Ledger.wrap (-s'.dispatcher.forfeited) ∧
      (s'.dispatcher.world.total = 0 ↔ Ledger.wrap s'.dispatcher.forfeited = 0)) := by
  have htracked : s.Tracked trips := Scene.tour_induction (fun _ _ _ hstep h => h.step hstep) htour
    (Scene.tracked_start hstart)
  obtain ⟨s₁, hdrop, hafter⟩ := Option.bind_eq_some_iff.1 hafter
  have hsevered := (htracked.severed hidle hstopped hdrop).tour houtlive hafter
  have htotal := hsevered.books.total
  rw [hsevered.bereft.pending_eq] at htotal
  refine ⟨htotal, fun id c c' hc hc' => ?_, fun hjobs hestate hwaiting => ?_⟩
  · rw [(hsevered.bereft.left id c' hc').claimed]
    exact ⟨fun ⟨c₀, hc₀, hdone⟩ => Option.some.inj (hc₀.symm.trans hc) ▸ hdone, fun hdone => ⟨c, hc, hdone⟩⟩
  · have hassets : s'.dispatcher.assets = 0 :=
      Dispatcher.assets_eq_zero fun c hc => ⟨hsevered.bodyless hjobs c hc, hwaiting c hc⟩
    have hbooks := hsevered.books
    unfold Scene.Books at hbooks
    rw [hestate, hassets, add_zero] at hbooks
    have hshort : s'.dispatcher.world.total = Ledger.wrap (-s'.dispatcher.forfeited) := by
      rw [htotal, hestate, hassets, Shelf.charged_eq_zero hbooks.get?_eq_none]
      congr 1
      show 0 + 0 - _ = _
      omega
    refine ⟨hshort, ?_⟩
    rw [hshort, Ledger.wrap_neg_eq_zero]

def hurriedRoom : Except Refusal (Dispatcher World Operation Product) :=
  Dispatcher.start World.empty ⟨1, 2, 65536, 2, 1, 1, some 0⟩ 2 .fresh false

/-- A caller has a bitmap made, and shuts its dispatcher down when the worker has begun. -/
def hurriedGestures : List Gesture :=
  [.spawn (.fromValues [5, 3]) .promise, .move .caller] ++ List.replicate 5 (.move (.worker 0)) ++
    .shutdown :: List.replicate 10 (.move .caller)

def orphanedGestures : List Gesture := .dropPromise 0 :: List.replicate 3 (.move (.worker 0))

theorem orphanedGestures_outlive : ∀ g ∈ orphanedGestures, g.outlives = true := by
  simp [orphanedGestures, Gesture.outlives, Gesture.aside]

theorem hurriedRoom_runs : ∃ d s s', hurriedRoom = .ok d ∧
    Scene.tour? (Operation.faltering fun _ _ _ => none) ⟨0, d⟩ hurriedGestures = some s ∧
    s.drop.tour? (Operation.faltering fun _ _ _ => none) (.move .caller :: orphanedGestures) = some s' ∧
    (s.dispatcher.agenda.length = 0 ∧ s.dispatcher.stopped = true ∧ s.dispatcher.drainOutcome = .timedOut 1 ∧
      s.dispatcher.cells.map Cell.stage = [.running]) ∧
    s'.dispatcher.crew.jobs = [] ∧ s'.estate = 0 ∧ s'.dispatcher.assets = 0 ∧
    (∀ c ∈ s'.dispatcher.cells, c.settlement.promise.waiting.isNone = true) ∧ s'.dispatcher.forfeited = 20 ∧
    d.world.total = 0 ∧ s'.dispatcher.world.total = -20 := by
  have hends : (hurriedRoom.toOption.bind fun d =>
      (Scene.tour? (Operation.faltering fun _ _ _ => none) ⟨0, d⟩ hurriedGestures).bind fun s =>
        (s.drop.tour? (Operation.faltering fun _ _ _ => none) (.move .caller :: orphanedGestures)).map fun s' =>
          decide ((s.dispatcher.agenda.length = 0 ∧ s.dispatcher.stopped = true ∧
            s.dispatcher.drainOutcome = .timedOut 1 ∧ s.dispatcher.cells.map Cell.stage = [.running]) ∧
            s'.dispatcher.crew.jobs = [] ∧ s'.estate = 0 ∧ s'.dispatcher.assets = 0 ∧
            (∀ c ∈ s'.dispatcher.cells, c.settlement.promise.waiting.isNone = true) ∧ s'.dispatcher.forfeited = 20 ∧
            d.world.total = 0 ∧ s'.dispatcher.world.total = -20)) = some true := by
    decide +kernel
  obtain ⟨d, hroom, hends⟩ := Option.bind_eq_some_iff.1 hends
  obtain ⟨s, htour, hends⟩ := Option.bind_eq_some_iff.1 hends
  obtain ⟨s', hafter, hends⟩ := Option.map_eq_some_iff.1 hends
  exact ⟨d, s, s', Dispatcher.eq_ok_of_toOption hroom, htour, hafter, of_decide_eq_true hends⟩

/-- The bitmap takes twenty bytes, which the total is short of when it is dropped. -/
theorem total_of_drop_hurried : ∃ d s s', hurriedRoom = .ok d ∧
    Scene.tour? (Operation.faltering fun _ _ _ => none) ⟨0, d⟩ hurriedGestures = some s ∧
    s.dispatcher.agenda = [] ∧ s.dispatcher.stopped = true ∧ (∀ g ∈ orphanedGestures, g.outlives = true) ∧
    s.drop.tour? (Operation.faltering fun _ _ _ => none) (.move .caller :: orphanedGestures) = some s' ∧
    s'.dispatcher.crew.jobs = [] ∧ s'.estate = 0 ∧ s'.dispatcher.forfeited = 20 ∧
    s'.dispatcher.world.total = Ledger.wrap (-20) := by
  obtain ⟨d, s, s', hstart, htour, hafter, ⟨hidle, hstopped, -⟩, hjobs, hestate, -, hwaiting, hforfeited, -⟩ :=
    hurriedRoom_runs
  have hagenda := List.length_eq_zero_iff.1 hidle
  obtain ⟨-, -, hdropped⟩ := total_of_drop hstart htour hagenda hstopped orphanedGestures_outlive hafter
  obtain ⟨hshort, -⟩ := hdropped hjobs hestate fun c hc => Option.isNone_iff_eq_none.1 (hwaiting c hc)
  rw [hforfeited] at hshort
  exact ⟨d, s, s', hstart, htour, hagenda, hstopped, orphanedGestures_outlive, hafter, hjobs, hestate, hforfeited, hshort⟩

/-- **The total need not come back to what it was before a task** if the dispatcher is dropped while a worker has it: the
time of a shutdown is up while the only task runs, the caller drops the dispatcher and the promise, the worker ends its
job, and nobody owns anything any more. -/
theorem total_lost_by_drop : ∃ d s s', hurriedRoom = .ok d ∧
    Scene.tour? (Operation.faltering fun _ _ _ => none) ⟨0, d⟩ hurriedGestures = some s ∧
    s.dispatcher.drainOutcome = .timedOut 1 ∧ s.dispatcher.cells.map Cell.stage = [.running] ∧
    s.drop.tour? (Operation.faltering fun _ _ _ => none) (.move .caller :: orphanedGestures) = some s' ∧
    s'.dispatcher.crew.jobs = [] ∧ s'.estate = 0 ∧ s'.dispatcher.assets = 0 ∧
    d.world.total = 0 ∧ s'.dispatcher.world.total = -20 := by
  obtain ⟨d, s, s', hstart, htour, hafter, ⟨-, -, houtcome, hstages⟩, hjobs, hestate, hassets, -, -, htotals⟩ :=
    hurriedRoom_runs
  exact ⟨d, s, s', hstart, htour, houtcome, hstages, hafter, hjobs, hestate, hassets, htotals⟩

end BitmapWorks
