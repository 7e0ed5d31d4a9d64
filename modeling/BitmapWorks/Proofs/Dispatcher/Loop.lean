import BitmapWorks.Proofs.Dispatcher.Deals
import BitmapWorks.Proofs.Dispatcher.Halting
import BitmapWorks.Proofs.Dispatcher.Lifecycle
/-!
# Loop — a task on one partition

A partition that has a task for itself calls it like a plain loop: for one item after the other, until a call leaves a
fault or no item is left.  The calls that a run ends, each with the fault that it left, are its log (`ended`), and the
log of a task on one partition is that of such a loop at all times (`Looped`), as long as the caller offers the task no
fault of its own (`Unopposed`).
-/
namespace BitmapWorks

variable {W B V : Type} {bh : Behaviour W B V} {id : Nat}

/-! ## Who ends a call -/

theorem Crew.hand_le_submit {J : Type} (c : Crew J) (job : J) : c.hand ≤ (c.submit job).2.hand := by
  cases hsubmit : (c.submit job).1 with
  | none =>
    rw [hand_submit hsubmit]
    exact Multiset.le_cons_self _ _
  | some r => exact (hand_submit_refused hsubmit).ge

theorem Turn.errand_notMem {n : Note} {c c' : Cell B V} {e : Errand} {next : Multiset Errand} {posted : Nat}
    {events : List (Event V)} (h : Turn bh id n c e c' next posted events) : e ∉ next := by
  cases h with
  | bodyless _ hphase => rcases hphase with rfl | rfl <;> simp
  | _ => simp

namespace Dispatcher

variable {d d' : Dispatcher W B V} {i : Nat} {c : Cell B V}

theorem hand_le_submit (id : Nat) : d.crew.hand ≤ (d.submit id).crew.hand := by
  have hle := d.crew.hand_le_submit (.single id .takeUp)
  rw [submit_eq]
  cases (d.crew.submit (.single id .takeUp)).1 <;> exact hle

theorem hand_le_submitPart (id next count : Nat) : d.crew.hand ≤ (d.submitPart id next count).crew.hand := by
  by_cases hnext : next < count
  · have hle := d.crew.hand_le_submit (.part id .hold)
    rw [submitPart_eq hnext]
    cases (d.crew.submit (.part id .hold)).1 <;> exact hle
  · unfold submitPart
    rw [if_pos (Nat.not_lt.1 hnext)]

theorem crew_complete (id : Nat) : (d.complete bh id).crew = d.crew := by
  unfold complete
  cases d.cells[id]? with
  | none => rfl
  | some c =>
    dsimp only
    split <;> rfl

theorem crew_abandon (id left : Nat) (last : Bool) : (d.abandon id left last).crew = d.crew := by
  unfold abandon
  cases left with
  | zero => cases last <;> rfl
  | succ left =>
    dsimp only
    split <;> rfl

theorem crew_conclude (hbh : bh.Returns) (hcalm : (d.strand id).Calm) (h : d.conclude? bh id = some d') :
    d'.crew = d.crew := by
  cases hc : d.cells[id]? with
  | none =>
    unfold conclude? at h
    rw [hc] at h
    obtain rfl := Option.some.inj h
    rfl
  | some c => exact (conclude_spec hbh hc (hcalm c hc) h).1.crew

theorem crew_awaitIdle (h : d.awaitIdle? = some d') : d'.crew = d.crew := by
  unfold awaitIdle? at h
  split at h
  · cases h
    rfl
  · split at h
    · cases h
      rfl
    · cases h

theorem crew_force (ids : List Nat) : (d.force ids).crew = d.crew := by
  unfold force
  split
  · rfl
  · split <;> rfl

theorem hand_le_stepCaller (hbh : bh.Returns) (hheld : d.Held) (h : d.stepCaller? bh = some d') :
    d.crew.hand ≤ d'.crew.hand := by
  cases hagenda : d.agenda with
  | nil =>
    rw [stepCaller?, hagenda] at h
    cases h
  | cons chore rest =>
    rw [stepCaller?, hagenda] at h
    cases chore with
    | submit id => obtain rfl := Option.some.inj h; exact hand_le_submit (d := { d with agenda := rest }) id
    | submitPart id next count =>
      obtain rfl := Option.some.inj h
      exact hand_le_submitPart (d := { d with agenda := rest }) id next count
    | abandon id left last => obtain rfl := Option.some.inj h; rw [crew_abandon]
    | complete id => obtain rfl := Option.some.inj h; rw [crew_complete]
    | conclude id =>
      exact (congrArg Crew.hand (crew_conclude (d := { d with agenda := rest }) hbh (hheld.calm id) h)).ge
    | pump handled => obtain rfl := Option.some.inj h; unfold pump; split <;> exact le_rfl
    | awaitIdle => exact (congrArg Crew.hand (crew_awaitIdle h)).ge
    | drain t => obtain rfl := Option.some.inj h; unfold drain; split <;> exact le_rfl
    | drained => obtain rfl := Option.some.inj h; unfold drained; split <;> exact le_rfl
    | force ids => obtain rfl := Option.some.inj h; rw [crew_force]
    | letGo => exact absurd (hagenda ▸ List.mem_cons_self ..) hheld.steady.agenda
    | _ => obtain rfl := Option.some.inj h; exact le_rfl

theorem crew_spawn (b : B) (sink : Sink) : (d.spawn bh b sink).crew = d.crew := by
  rw [spawn_eq]
  cases (bh.prepare d.world b).1 with
  | error fault => rfl
  | ok =>
    dsimp only
    rcases letIn_cases bh (d := d.prepared bh b sink) d.cells.length (bh.prepare d.world b).2.2 with
      ⟨-, heq⟩ | ⟨-, -, heq⟩ | ⟨-, n, count, -, -, heq⟩
    all_goals
      rw [heq]
      rfl

/-- **Only workers take errands out of the hand of a crew.** -/
theorem hand_le_of_act (hbh : bh.Returns) (hheld : d.Held) {a : Act W B V} (hact : d.act? bh a = some d')
    (hcaller : ∀ i, a ≠ .move (.worker i)) : d.crew.hand ≤ d'.crew.hand := by
  cases a with
  | move m =>
    cases m with
    | caller => exact hand_le_stepCaller hbh hheld hact
    | worker i => exact absurd rfl (hcaller i)
  | spawn b sink => obtain rfl := Option.some.inj hact; rw [crew_spawn]
  | shutdown => obtain rfl := Option.some.inj hact; unfold shutdown; split <;> exact le_rfl
  | take id | poll id | dropPromise id | releaseValue v => exact (congrArg Crew.hand (visited_of_act rfl hact).crew).ge
  | _ => obtain rfl := Option.some.inj hact; exact le_rfl

/-- **What a worker's move does to one task**: nothing, or a turn for an errand of the task that the worker has. -/
theorem turns_or_strand_eq (hgone : d.gone = false) (h : d.stepWorker? bh i = some d') (id : Nat) :
    (d'.strand id = d.strand id ∧ ∀ e, d.crew.running? i = some e → e.id ≠ id) ∨
    ∃ e c, d.crew.running? i = some e ∧ e.id = id ∧ d.cells[id]? = some c ∧ Turns bh d d' i id c e := by
  cases hrun : d.crew.running? i with
  | none =>
    unfold stepWorker? at h
    rw [hrun] at h
    obtain ⟨crew, hcrew, rfl⟩ := Option.map_eq_some_iff.1 h
    exact .inl ⟨strand_crew (by rw [Crew.hand_advance? hcrew]), nofun⟩
  | some e =>
    cases hc : d.cells[e.id]? with
    | none =>
      unfold stepWorker? at h
      rw [hrun] at h
      dsimp only at h
      rw [hc] at h
      cases h
    | some c =>
      have hturns := turns_stepWorker hgone hrun hc h
      by_cases hid : e.id = id
      · subst hid
        exact .inr ⟨e, c, rfl, rfl, hc, hturns⟩
      · obtain ⟨c', next, posted, events, -, hmoved⟩ := hturns
        refine .inl ⟨hmoved.strand_of_ne hrun rfl hid, fun e' he' => ?_⟩
        obtain rfl := Option.some.inj he'
        exact hid

theorem moved_calling {item : Nat} {b : B} (hrun : d.crew.running? i = some (.part id (.calling item)))
    (hc : d.cells[id]? = some c) (hbody : c.body = some b) (h : d.stepWorker? bh i = some d') :
    Moved d d' i id (c.afterWork (bh.work d.world b item)) {.part id (.record (bh.work d.world b item).outcome)} 0 [] := by
  unfold stepWorker? at h
  rw [hrun] at h
  dsimp only [Errand.id] at h
  rw [hc] at h
  dsimp only [stepPart?] at h
  rw [hbody] at h
  dsimp only at h
  split at h
  · rw [perform_eq] at h
    obtain rfl := Option.some.inj h
    exact (Touched.modify hc _ _).keep hrun rfl
  · cases h

end Dispatcher

/-! ## Logs -/

/-- The fault that a call leaves: the one that it recorded itself, or else the one that its end stands for. -/
def Work.fault? (w : Work W B) : Option Fault := w.recorded.or w.outcome.fault?

/-- The call that the next move for an errand of a partition ends: its item, and the fault that it leaves. -/
def Errand.ended? (bh : Behaviour W B V) (world : W) (c : Cell B V) : Errand → Option (Nat × Option Fault)
  | part _ (.calling item) => c.body.map fun b => (item, (bh.work world b item).fault?)
  | _ => none

namespace Dispatcher

variable {d d' : Dispatcher W B V}

def ended? (bh : Behaviour W B V) (d : Dispatcher W B V) (id : Nat) : Act W B V → Option (Nat × Option Fault)
  | .move (.worker i) =>
    match d.crew.running? i, d.cells[id]? with
    | some e, some c => if e.id = id then e.ended? bh d.world c else none
    | _, _ => none
  | _ => none

/-- The log of a task: the calls that the acts of a run end, in their order. -/
def ended (bh : Behaviour W B V) (d : Dispatcher W B V) (id : Nat) : List (Act W B V) → List (Nat × Option Fault)
  | [] => []
  | a :: as => (d.ended? bh id a).toList ++ match d.act? bh a with
    | none => []
    | some d => d.ended bh id as

end Dispatcher

/-- The log of so many calls for the items one after the other, and the fault that is left: only the last may leave one. -/
inductive Row : Nat → Option Fault → List (Nat × Option Fault) → Prop
  | clean (k : Nat) : Row k none ((List.range k).map (·, none))
  | failed (k : Nat) (fault : Fault) : Row (k + 1) (some fault) ((List.range k).map (·, none) ++ [(k, some fault)])

theorem Row.call {k : Nat} {log : List (Nat × Option Fault)} (h : Row k none log) (fault : Option Fault) :
    Row (k + 1) fault (log ++ [(k, fault)]) := by
  cases h with
  | clean =>
    cases fault with
    | some fault => exact .failed k fault
    | none =>
      have hrow := Row.clean (k + 1)
      rw [List.range_succ, List.map_append] at hrow
      exact hrow

/-! ## One partition -/

/-- How a log stands to the errand of the only partition of a task with a fault, when so many of its calls have started. -/
def Errand.Goes (k : Nat) (fault : Option Fault) (log : List (Nat × Option Fault)) : Errand → Prop
  | part _ (.calling item) => k = item + 1 ∧ fault = none ∧ Row item none log
  | part _ (.record outcome) => Row k (fault.or outcome.fault?) log
  | _ => Row k fault log

/-- How a task on one partition stands, with so many calls that have started and the log of those that have ended. -/
structure Serial (c : Cell B V) (s : Strand B V) (k : Nat) (log : List (Nat × Option Fault)) : Prop where
  forced : c.forced = false
  order : s.calls = List.range k
  goes : ∀ e ∈ s.errands, e.draws = 1 → e.Goes k c.fault log
  finished : (∀ e ∈ s.errands, e.draws = 0) → Row k c.fault log

namespace Serial

variable {n k : Nat} {c c' : Cell B V} {f : Fanout} {cs : List Chore} {p posted : Nat} {e : Errand}
variable {es next : Multiset Errand} {events st : List (Event V)} {log : List (Nat × Option Fault)}

theorem draws_eq_zero (hspread : Spread n 1 c ⟨some c, cs, p, e ::ₘ es, st⟩ f) (he : e.draws = 1) :
    ∀ e' ∈ es, e'.draws = 0 := by
  have hroom := hspread.room
  simp only [Strand.draws, Strand.weigh, Multiset.map_cons, Multiset.sum_cons] at hroom
  have hzero : (es.map Errand.draws).sum = 0 := by omega
  exact fun e' he' => Multiset.sum_eq_zero_iff.1 hzero _ (Multiset.mem_map_of_mem _ he')

/-- **The item that is called next is the one behind the calls so far.** -/
theorem item_eq {item : Nat} (hspread : Spread n 1 c ⟨some c, cs, p, .part id (.call item) ::ₘ es, st⟩ f)
    (horder : (st.filterMap Event.item?).reverse = List.range k) : item = k := by
  have hpassed : (↑(st.filterMap Event.item?) : Multiset Nat) = Multiset.range k := by
    rw [← Multiset.coe_reverse, horder]
    rfl
  have hheld : (es.map Errand.held).sum = 0 := Multiset.sum_eq_zero fun x hx => by
    obtain ⟨e, he, rfl⟩ := Multiset.mem_map.1 hx
    have hidle := draws_eq_zero hspread rfl e he
    cases e with
    | single id phase => rfl
    | part id phase =>
      cases phase with
      | call item => cases hidle
      | _ => rfl
  have hdrawn := hspread.drawn
  simp only [Strand.items, Multiset.map_cons, Multiset.sum_cons, hheld, add_zero, hpassed, Errand.held] at hdrawn
  have hcount : k + 1 = min f.cursor.next n := by simpa using congrArg Multiset.card hdrawn
  rw [← hcount, Multiset.range_succ, ← Multiset.singleton_add, add_comm] at hdrawn
  exact Multiset.singleton_inj.1 (add_right_cancel hdrawn)

/-- A turn for the errand that draws: what it leaves goes with the log, or the log is in a row if it leaves none. -/
theorem of_next (hzero : ∀ e ∈ es, e.draws = 0) (hforced : c'.forced = false)
    (horder : Strand.calls ⟨some c', cs, p + posted, next + es, events ++ st⟩ = List.range k)
    (hnext : ∀ e ∈ next, e.draws = 1 → e.Goes k c'.fault log) (hover : (∀ e ∈ next, e.draws = 0) → Row k c'.fault log) :
    Serial c' ⟨some c', cs, p + posted, next + es, events ++ st⟩ k log := by
  refine ⟨hforced, horder, fun e he hdraws => ?_, fun hall => hover fun e he => hall e (Multiset.mem_add.2 (.inl he))⟩
  rcases Multiset.mem_add.1 he with he | he
  · exact hnext e he hdraws
  · rw [hzero e he] at hdraws
    cases hdraws

theorem of_idle (h : Serial c ⟨some c, cs, p, e ::ₘ es, st⟩ k log) (he : e.draws = 0) (hforced : c'.forced = c.forced)
    (hfault : c'.fault = c.fault) (hnext : ∀ e ∈ next, e.draws = 0) :
    Serial c' ⟨some c', cs, p + posted, next + es, st⟩ k log := by
  refine ⟨hforced.trans h.forced, h.order, fun e' he' hdraws => ?_, fun hall => ?_⟩
  · rcases Multiset.mem_add.1 he' with he' | he'
    · rw [hnext e' he'] at hdraws
      cases hdraws
    · rw [hfault]
      exact h.goes e' (Multiset.mem_cons_of_mem he') hdraws
  · rw [hfault]
    refine h.finished fun e' he' => ?_
    rcases Multiset.mem_cons.1 he' with rfl | he'
    · exact he
    · exact hall e' (Multiset.mem_add.2 (.inr he'))

/-- The call that is under way returns: the log gets its item and the fault that it left. -/
theorem of_return {item : Nat} (h : Serial c ⟨some c, cs, p, .part id (.calling item) ::ₘ es, st⟩ k log)
    (hspread : Spread n 1 c ⟨some c, cs, p, .part id (.calling item) ::ₘ es, st⟩ f) (w : Work W B) :
    Serial (c.afterWork w) ⟨some (c.afterWork w), cs, p, {.part id (.record w.outcome)} + es, st⟩ k
      (log ++ [(item, w.fault?)]) := by
  obtain ⟨rfl, hfault, hrow⟩ : k = item + 1 ∧ c.fault = none ∧ Row item none log :=
    h.goes _ (Multiset.mem_cons_self _ _) rfl
  have hrecorded : (c.afterWork w).fault = w.recorded := by
    show c.fault.or w.recorded = w.recorded
    rw [hfault, Option.none_or]
  show Serial (c.afterWork w) ⟨some (c.afterWork w), cs, p + 0, {.part id (.record w.outcome)} + es, [] ++ st⟩ _ _
  refine of_next (draws_eq_zero hspread rfl) h.forced h.order (fun e he _ => ?_) fun hall => ?_
  · obtain rfl := Multiset.mem_singleton.1 he
    show Row (item + 1) ((c.afterWork w).fault.or w.outcome.fault?) _
    rw [hrecorded]
    exact hrow.call w.fault?
  · cases hall _ (Multiset.mem_singleton_self _)

/-- **Every other turn keeps the log in a row**: the partition calls the item behind the calls so far, and only if no
call has left a fault. -/
theorem turn {note : Note} (h : Serial c ⟨some c, cs, p, e ::ₘ es, st⟩ k log)
    (hturn : Turn bh id note c e c' next posted events) (hs : Strand.Sound ⟨some c, cs, p, e ::ₘ es, st⟩)
    (hspread : Spread n 1 c ⟨some c, cs, p, e ::ₘ es, st⟩ f)
    (harmed : c.fault ≠ none → Strand.armed ⟨some c, cs, p, e ::ₘ es, st⟩ = 0)
    (hcalling : ∀ item, e = .part id (.calling item) → c.body = none) :
    ∃ k', Serial c' ⟨some c', cs, p + posted, next + es, events ++ st⟩ k' log := by
  have hpart := (hs.kinds _ rfl).isSingle_eq_zero (by simp [hspread.fanout])
  have hmem : e ∈ e ::ₘ es := Multiset.mem_cons_self e es
  cases hturn with
  | takeUp | tooLate | call | bodyless | «return» | record | post => cases hpart
  | finish | nothingToFinish | partPost => exact ⟨k, h.of_idle rfl rfl rfl fun e he => absurd he (Multiset.notMem_zero e)⟩
  | finishLast =>
    refine ⟨k, h.of_idle rfl rfl rfl fun e he => ?_⟩
    obtain rfl := Multiset.mem_singleton.1 he
    rfl
  | @partCall _ item =>
    have hfault : c.fault = none := by
      by_contra hfault
      have hzero := harmed hfault
      simp [Strand.armed, Errand.armed] at hzero
    obtain rfl := item_eq hspread h.order
    have hrow : Row item c.fault log := h.goes _ hmem rfl
    rw [hfault] at hrow
    refine ⟨item + 1, of_next (draws_eq_zero hspread rfl) h.forced ?_ (fun e he _ => ?_) fun hall => ?_⟩
    · have horder : (st.filterMap Event.item?).reverse = List.range item := h.order
      show (item :: st.filterMap Event.item?).reverse = _
      rw [List.reverse_cons, horder, List.range_succ]
    · obtain rfl := Multiset.mem_singleton.1 he
      exact ⟨rfl, hfault, hrow⟩
    · cases hall _ (Multiset.mem_singleton_self _)
  | partReturn world hbody =>
    rw [hcalling _ rfl] at hbody
    cases hbody
  | partBodyless hbody =>
    -- a call that has started is one of a task that runs, and such a task has its body
    have hrunning := hs.running_of_active rfl (by simp [Strand.active, Strand.weigh, Errand.active])
    have hdone := (hs.staged _ rfl).body.1 hbody
    rw [hrunning] at hdone
    cases hdone
  | partRecord outcome =>
    have hrow : Row k (c.fault.or outcome.fault?) log := h.goes _ hmem rfl
    refine ⟨k, of_next (draws_eq_zero hspread rfl) h.forced h.order (fun e he _ => ?_) fun _ => hrow⟩
    obtain rfl := Multiset.mem_singleton.1 he
    exact hrow
  | nothingToHold =>
    have hrow : Row k c.fault log := h.goes _ hmem rfl
    refine ⟨k, of_next (draws_eq_zero hspread rfl) h.forced h.order (fun e he _ => ?_) fun _ => hrow⟩
    exact absurd he (Multiset.notMem_zero e)
  | _ =>
    have hrow : Row k c.fault log := h.goes _ hmem rfl
    refine ⟨k, of_next (draws_eq_zero hspread rfl) h.forced h.order (fun e he _ => ?_) fun _ => hrow⟩
    obtain rfl := Multiset.mem_singleton.1 he
    exact hrow

theorem congr {s s' : Strand B V} (h : Serial c s k log) (hforced : c'.forced = c.forced) (hfault : c'.fault = c.fault)
    (hcalls : s'.calls = s.calls) (herrands : s'.errands = s.errands) : Serial c' s' k log := by
  refine ⟨hforced.trans h.forced, hcalls.trans h.order, ?_, ?_⟩
  · rw [hfault, herrands]
    exact h.goes
  · rw [hfault, herrands]
    exact h.finished

/-- **A step that takes no errand away and offers no fault calls nobody.** -/
theorem step {note : Note} {s s' : Strand B V} (h : Serial c s k log) (hstep : Strand.Step bh id note s s')
    (hs : s.Sound) (hc : s.cell = some c) (hspread : Spread n 1 c s f) (hhand : s.errands ≤ s'.errands)
    (hoffered : note.offered = none) {c' : Cell B V} (hc' : s'.cell = some c') : Serial c' s' k log := by
  cases hstep with
  | reject | letIn | spread => cases hc
  | turn es hturn =>
    refine absurd ?_ hturn.errand_notMem
    rw [← Multiset.singleton_add] at hhand
    exact Multiset.singleton_le.1 (Multiset.le_of_add_le_add_right hhand)
  | submit =>
    obtain rfl := Option.some.inj hc
    have hzero := (hs.kinds _ rfl).parts (by simp [hspread.fanout])
    simp [Strand.weigh, Chore.single] at hzero
  | refuse | refusePart | force => cases hoffered
  | receive =>
    obtain rfl := Option.some.inj (hc.symm.trans hc')
    exact h.congr rfl rfl rfl rfl
  | @submitPart c cs p es st next count hnext =>
    obtain rfl := Option.some.inj hc
    obtain rfl := Option.some.inj hc'
    -- the partition is the only one, so none has begun
    have hroom := hspread.room
    simp only [Strand.draws, Strand.weigh, List.map_cons, List.sum_cons, Chore.work] at hroom
    have hzero : (es.map Errand.draws).sum = 0 := by omega
    have hidle : ∀ e ∈ es, e.draws = 0 := fun e he =>
      Multiset.sum_eq_zero_iff.1 hzero _ (Multiset.mem_map_of_mem _ he)
    refine ⟨h.forced, h.order, fun e he hdraws => ?_, fun hall => ?_⟩
    · rcases Multiset.mem_cons.1 he with rfl | he
      · exact h.finished hidle
      · rw [hidle e he] at hdraws
        cases hdraws
    · cases hall _ (Multiset.mem_cons_self _ _)
  | conclude hbody hending hnotice =>
    obtain rfl := Option.some.inj hc
    obtain rfl := Option.some.inj hc'
    refine h.congr rfl rfl ?_ rfl
    cases hnotice <;> cases hending <;> rfl
  | bodyless hbody hnotice =>
    obtain rfl := Option.some.inj hc
    obtain rfl := Option.some.inj hc'
    refine h.congr rfl rfl ?_ rfl
    cases hnotice <;> rfl
  | _ =>
    obtain rfl := Option.some.inj hc
    obtain rfl := Option.some.inj hc'
    exact h.congr rfl rfl rfl rfl

end Serial

/-! ## Runs -/

namespace Dispatcher

variable {d d' : Dispatcher W B V} {a : Act W B V} {n k : Nat} {c : Cell B V} {log : List (Nat × Option Fault)}

/-- Whether the caller offers a task no fault in an act: the crew refuses no partition of it, and no shutdown forces it. -/
def Unopposed (bh : Behaviour W B V) (id : Nat) (d : Dispatcher W B V) : Act W B V → Prop
  | .move .caller => (d.note bh id (.move .caller)).offered = none
  | _ => True

instance decidableUnopposed (id : Nat) (d : Dispatcher W B V) : (a : Act W B V) → Decidable (Unopposed bh id d a)
  | .move .caller => inferInstanceAs (Decidable (_ = _))
  | .move (.worker _) | .spawn .. | .pumpAll | .untilIdle | .shutdown | .take _ | .poll _ | .dropPromise _
  | .releaseValue _ | .surround _ | .regate _ => inferInstanceAs (Decidable True)

structure Alone (n id : Nat) (d : Dispatcher W B V) (c : Cell B V) (k : Nat) (log : List (Nat × Option Fault)) : Prop where
  held : d.Held
  sound : (d.strand id).Sound
  cell : d.cells[id]? = some c
  spread : ∃ f, Spread n 1 c (d.strand id) f
  armed : c.fault ≠ none → (d.strand id).armed = 0
  serial : Serial c (d.strand id) k log

namespace Alone

theorem offered_eq_none (h : Alone n id d c k log) (hfree : Unopposed bh id d a) (hcaller : ∀ i, a ≠ .move (.worker i)) :
    (d.note bh id a).offered = none := by
  cases a with
  | move m =>
    cases m with
    | caller => exact hfree
    | worker i => exact absurd rfl (hcaller i)
  | spawn b sink => rw [note, if_neg (Nat.ne_of_lt (List.getElem?_eq_some_iff.1 h.cell).1)]; rfl
  | _ => rfl

/-- **A worker's move takes the loop on.** -/
theorem worker {i : Nat} (h : Alone n id d c k log) (hstep : d.stepWorker? bh i = some d')
    {c' : Cell B V} (hc' : d'.cells[id]? = some c') :
    ∃ k', Serial c' (d'.strand id) k' (log ++ (d.ended? bh id (.move (.worker i))).toList) := by
  rcases turns_or_strand_eq h.held.steady.gone hstep id with ⟨heq, hother⟩ | ⟨e, c₁, hrun, hid, hc, hturns⟩
  · have hended : d.ended? bh id (.move (.worker i)) = none := by
      rw [ended?, h.cell]
      cases hrun : d.crew.running? i with
      | none => rfl
      | some e => exact if_neg (hother e hrun)
    obtain rfl := Option.some.inj (hc'.symm.trans ((congrArg Strand.cell heq).trans h.cell))
    rw [hended, heq, Option.toList_none, List.append_nil]
    exact ⟨k, h.serial⟩
  · obtain rfl := Option.some.inj (h.cell.symm.trans hc)
    obtain ⟨f, hspread⟩ := h.spread
    have hended : d.ended? bh id (.move (.worker i)) = e.ended? bh d.world c := by
      rw [ended?, hrun, hc]
      exact if_pos hid
    rw [hended]
    have hsound := h.sound
    have harmed := h.armed
    have hserial := h.serial
    by_cases hreturn : ∃ item b, e = .part id (.calling item) ∧ c.body = some b
    · obtain ⟨item, b, rfl, hbody⟩ := hreturn
      have hmoved := moved_calling hrun hc hbody hstep
      obtain ⟨es, hbefore, hafter⟩ := hmoved.strands hrun rfl hc
      obtain rfl := Option.some.inj (hc'.symm.trans hmoved.cell)
      rw [hbefore] at hserial hspread
      rw [hafter, Errand.ended?, hbody]
      exact ⟨k, hserial.of_return hspread _⟩
    · obtain ⟨c₂, next, posted, events, hturn, hmoved⟩ := hturns
      obtain ⟨es, hbefore, hafter⟩ := hmoved.strands hrun hid hc
      obtain rfl := Option.some.inj (hc'.symm.trans hmoved.cell)
      have hcalling : ∀ item, e = .part id (.calling item) → c.body = none := fun item he => by
        by_contra hbody
        obtain ⟨b, hbody⟩ := Option.ne_none_iff_exists'.1 hbody
        exact hreturn ⟨item, b, he, hbody⟩
      have hnone : e.ended? bh d.world c = none := by
        cases e with
        | single id' phase => rfl
        | part id' phase =>
          obtain rfl : id' = id := hid
          cases phase with
          | calling item => rw [Errand.ended?, hcalling item rfl]; rfl
          | _ => rfl
      rw [hbefore] at hserial hspread hsound harmed
      rw [hnone, hafter, Option.toList_none, List.append_nil]
      exact hserial.turn hturn hsound hspread harmed hcalling

/-- **Every act that opposes the task in nothing takes the loop on.** -/
theorem act (hbh : bh.Returns) (h : Alone n id d c k log) (ha : a.returns = true) (hfree : Unopposed bh id d a)
    (hact : d.act? bh a = some d') : ∃ c' k', Alone n id d' c' k' (log ++ (d.ended? bh id a).toList) := by
  obtain ⟨hheld', -, hleads⟩ := weave hbh h.held ha hact
  obtain ⟨f, hspread⟩ := h.spread
  obtain ⟨c', f', hc', hspread', harmed'⟩ :=
    (hleads id).halts h.sound h.cell hspread fun hfault => (h.armed hfault).le
  have hserial : ∃ k', Serial c' (d'.strand id) k' (log ++ (d.ended? bh id a).toList) := by
    by_cases hworker : ∃ i, a = .move (.worker i)
    · obtain ⟨i, rfl⟩ := hworker
      exact h.worker hact hc'
    · have hcaller : ∀ i, a ≠ .move (.worker i) := fun i heq => hworker ⟨i, heq⟩
      have hnone : d.ended? bh id a = none := by
        cases a with
        | move m =>
          cases m with
          | caller => rfl
          | worker i => exact absurd rfl (hcaller i)
        | _ => rfl
      rw [hnone, Option.toList_none, List.append_nil]
      refine ⟨k, ?_⟩
      rcases hleads id with ⟨-, heq⟩ | hstep
      · rw [heq] at hc' ⊢
        obtain rfl := Option.some.inj (h.cell.symm.trans hc')
        exact h.serial
      · exact h.serial.step hstep h.sound h.cell hspread
          (Multiset.filter_le_filter _ (hand_le_of_act hbh h.held hact hcaller)) (h.offered_eq_none hfree hcaller) hc'
  obtain ⟨k', hserial'⟩ := hserial
  exact ⟨c', k', hheld', (hleads id).sound h.sound, hc', ⟨f', hspread'⟩, fun hfault => Nat.le_zero.1 (harmed' hfault),
    hserial'⟩

theorem run (hbh : bh.Returns) {as : List (Act W B V)} (h : Alone n id d c k log) (has : ∀ a ∈ as, a.returns = true)
    (hfree : Along bh (Unopposed bh id) d as) (hrun : d.run? bh as = some d') :
    ∃ c' k', Alone n id d' c' k' (log ++ d.ended bh id as) := by
  induction as generalizing d c k log with
  | nil =>
    obtain rfl := Option.some.inj hrun
    rw [ended, List.append_nil]
    exact ⟨c, k, h⟩
  | cons a as ih =>
    obtain ⟨d₁, hact, hrun⟩ := Option.bind_eq_some_iff.1 hrun
    obtain ⟨hfirst, hrest⟩ := hfree
    rw [hact] at hrest
    obtain ⟨c₁, k₁, h₁⟩ := h.act hbh (has a (List.mem_cons_self ..)) hfirst hact
    rw [ended, hact, ← List.append_assoc]
    exact ih h₁ (fun a ha => has a (List.mem_cons_of_mem _ ha)) hrest hrun

end Alone

end Dispatcher

/-! ## Loops -/

/-- The calls of a plain loop over so many items, and the log of those that have ended: the loop is between two calls,
or within one, or the last call has left a fault. -/
inductive Looped (n : Nat) : List Nat → List (Nat × Option Fault) → Prop
  | between {k} : k ≤ n → Looped n (List.range k) ((List.range k).map (·, none))
  | within {k} : k < n → Looped n (List.range (k + 1)) ((List.range k).map (·, none))
  | failed {k fault} : k < n → Looped n (List.range (k + 1)) ((List.range k).map (·, none) ++ [(k, some fault)])

/-- How a plain loop over so many items ends: no call has left a fault, or the last is the first that has. -/
inductive LoopEnds (n : Nat) : List Nat → List (Nat × Option Fault) → Option Fault → Prop
  | done : LoopEnds n (List.range n) ((List.range n).map (·, none)) none
  | failed {k fault} : k < n →
    LoopEnds n (List.range (k + 1)) ((List.range k).map (·, none) ++ [(k, some fault)]) (some fault)

namespace Serial

variable {n k : Nat} {c : Cell B V} {s : Strand B V} {f : Fanout} {log : List (Nat × Option Fault)}

theorem row (h : Serial c s k log) : (∃ fault, Row k fault log) ∨ ∃ item, k = item + 1 ∧ Row item none log := by
  by_cases hover : ∀ e ∈ s.errands, e.draws = 0
  · exact .inl ⟨_, h.finished hover⟩
  · obtain ⟨e, he⟩ := not_forall.1 hover
    obtain ⟨he, hdraws⟩ := Classical.not_imp.1 he
    have hgoes := h.goes e he
    cases e with
    | single id phase => exact absurd rfl hdraws
    | part id phase =>
      cases phase with
      | calling item =>
        obtain ⟨hk, -, hrow⟩ := hgoes rfl
        exact .inr ⟨item, hk, hrow⟩
      | finish | post => exact absurd rfl hdraws
      | _ => exact .inl ⟨_, hgoes rfl⟩

theorem le_length (h : Serial c s k log) (hspread : Spread n 1 c s f) : k ≤ n := by
  have hle : (↑(s.story.filterMap Event.item?) : Multiset Nat) ≤ Multiset.range (min f.cursor.next n) := by
    rw [← hspread.drawn]
    exact Multiset.le_add_right _ _
  rw [← Multiset.coe_reverse] at hle
  have hcard := Multiset.card_le_card hle
  have horder : (s.story.filterMap Event.item?).reverse = List.range k := h.order
  rw [horder, Multiset.coe_card, List.length_range, Multiset.card_range] at hcard
  omega

theorem looped (h : Serial c s k log) (hspread : Spread n 1 c s f) : Looped n s.calls log := by
  have hle := h.le_length hspread
  rw [h.order]
  rcases h.row with ⟨fault, hrow⟩ | ⟨item, rfl, hrow⟩
  · cases hrow with
    | clean => exact .between hle
    | failed k fault => exact .failed hle
  · cases hrow with
    | clean => exact .within hle

theorem ends (h : Serial c s k log) (hspread : Spread n 1 c s f) (hwork : s.work = 0) :
    LoopEnds n s.calls log c.fault := by
  have hle := h.le_length hspread
  have hrow : Row k c.fault log := h.finished fun e he => by
    have hover := Strand.work_of_mem hwork he
    cases e with
    | single id phase => rfl
    | part id phase =>
      cases phase with
      | post => rfl
      | _ => cases hover
  have hperm := hspread.perm hwork
  have horder := h.order
  rw [Strand.calls] at horder
  cases hfault : c.fault with
  | none =>
    rw [hfault] at hrow
    have hlength := (hperm hfault h.forced).length_eq
    rw [← List.length_reverse, horder, List.length_range, List.length_range] at hlength
    subst hlength
    rw [h.order]
    cases hrow with
    | clean => exact .done
  | some fault =>
    rw [hfault] at hrow
    rw [h.order]
    cases hrow with
    | failed k => exact .failed hle

end Serial

theorem Strand.Step.serial_start {note : Note} {s s' : Strand B V} (h : Strand.Step bh id note s s')
    (hrooted : s.Rooted) (hnone : s.cell = none) {c : Cell B V} (hc : s'.cell = some c) (hfanout : c.fanout ≠ none) :
    c.fault = none ∧ Serial c s' 0 [] := by
  cases h with
  | reject | letIn =>
    obtain rfl := Option.some.inj hc
    exact absurd rfl hfanout
  | spread =>
    obtain ⟨-, -, rfl, rfl⟩ := hrooted rfl
    obtain rfl := Option.some.inj hc
    exact ⟨rfl, rfl, rfl, nofun, fun _ => .clean 0⟩
  | receive => cases hnone.symm.trans hc
  | _ => cases hnone

theorem Told.delivers {c : Cell B V} {ending : List (Event V)} (h : Told id c ending) {cs : List Chore}
    (hstaged : Staged c cs) {fault : Fault} (hfault : c.fault = some fault) :
    (∀ outcome, .settled id outcome ∈ ending → outcome = .error fault) ∧
      (c.stage = .done → .settled id (.error fault) ∈ ending ∨ .discarded id ∈ ending) := by
  refine ⟨fun outcome hmem => ?_, fun hdone => ?_⟩
  · rcases h.settled hmem with ⟨fault', hfault', rfl⟩ | ⟨hnone, -⟩
    · rw [Option.some.inj (hfault.symm.trans hfault')]
    · cases hfault.symm.trans hnone
  · cases h with
    | working hopen => cases hopen.symm.trans (hstaged.done hdone)
    | flushed tally _ hnot => exact absurd hdone hnot
    | closed tally _ hending hevent =>
      cases hending with
      | result hnone => cases hfault.symm.trans hnone
      | fault hfault' =>
        obtain rfl := Option.some.inj (hfault.symm.trans hfault')
        rcases hevent with rfl | rfl
        · exact .inl (List.mem_cons_self ..)
        · exact .inr (List.mem_cons_self ..)

namespace Dispatcher

variable {d₀ d₁ d : Dispatcher W B V}

def calls (d : Dispatcher W B V) (id : Nat) : List Nat := (d.strand id).calls

/-- How a task ends is told in the history of a dispatcher as it is in its tale. -/
theorem mem_history_iff {c : Cell B V} {calls : List Nat} {ending : List (Event V)}
    (h : Tale id c (d.strand id) calls ending) {event : Event V} (htask : event.task? = some id)
    (hcalled : ∀ item, event ≠ .called id item) (hprepared : event ≠ .prepared id) :
    event ∈ d.history ↔ event ∈ ending := by
  have hstory : event ∈ d.history ↔ event ∈ (d.strand id).story := by
    show _ ↔ event ∈ d.history.filter _
    rw [List.mem_filter, htask, decide_eq_true rfl, and_iff_left rfl]
  rw [hstory, h.story, List.mem_append, List.mem_append, List.mem_map, List.mem_singleton]
  refine ⟨fun hmem => hmem.resolve_right ?_, .inl⟩
  rintro (⟨item, -, rfl⟩ | rfl)
  · exact hcalled item rfl
  · exact hprepared rfl

/-- In a run from the start a task with a fault is settled with that fault, or not at all. -/
theorem delivers_of_run (hbh : bh.Returns) {world : W} {s : Settings} {processors : Nat} {admission : Admission}
    {checkpoints : Bool} (hstart : start world s processors admission checkpoints = .ok d₀) {as : List (Act W B V)}
    (has : ∀ a ∈ as, a.returns = true) (hrun : d₀.run? bh as = some d) {c : Cell B V} (hc : d.cells[id]? = some c)
    {fault : Fault} (hfault : c.fault = some fault) :
    (∀ outcome, .settled id outcome ∈ d.history → outcome = .error fault) ∧
      (c.stage = .done → .settled id (.error fault) ∈ d.history ∨ .discarded id ∈ d.history) := by
  obtain ⟨hheld₀, -, -, hblank⟩ := start_spec hstart
  obtain ⟨-, -, hruns⟩ := weave_run hbh hheld₀ has hrun
  have hnone : (d₀.strand id).cell = none := by rw [hblank]
  have hsound₀ : (d₀.strand id).Sound := Strand.sound_of_none (hheld₀.rooted id) hnone
  obtain ⟨calls, ending, htale⟩ := (hruns id).tale hsound₀ hnone c hc
  obtain ⟨hsettled, hdone⟩ := htale.told.delivers (((hruns id).sound hsound₀).staged c hc) hfault
  refine ⟨fun outcome hmem => hsettled outcome ?_, fun hstage => ?_⟩
  · exact (mem_history_iff htale rfl (by simp) (by simp)).1 hmem
  · exact (hdone hstage).imp (mem_history_iff htale rfl (by simp) (by simp)).2
      (mem_history_iff htale rfl (by simp) (by simp)).2

/-- **Few calls start behind the first fault, and a task on one partition is called like a plain loop.**  Take any run up
to the call that takes the task in and plans its partitions, and any run behind that.  Whatever left the fault of the task
and however the run goes on, fewer calls than partitions start from there.  If there is one partition and the caller
offers the task no fault of its own, the calls are at all times those of a plain loop over the items.  Once the task is
completed that loop has ended, and the fault of its last call is what the task is settled with. -/
theorem calls_of_run (hbh : bh.Returns) {world : W} {s : Settings} {processors : Nat} {admission : Admission}
    {checkpoints : Bool} (hstart : start world s processors admission checkpoints = .ok d₀) {as₁ : List (Act W B V)}
    (has₁ : ∀ a ∈ as₁, a.returns = true) (hrun₁ : d₀.run? bh as₁ = some d₁) {b : B} {sink : Sink}
    (hsink : sink ≠ .callback true) {n partitions : Nat}
    (hplan : ((d₁.spawn bh b sink).cells[d₁.cells.length]?).bind Cell.fanout = some (.start n partitions))
    {as₂ : List (Act W B V)} (has₂ : ∀ a ∈ as₂, a.returns = true) (hrun₂ : (d₁.spawn bh b sink).run? bh as₂ = some d) :
    ∃ c, d.cells[d₁.cells.length]? = some c ∧
      (c.fault ≠ none → ∀ (as₃ : List (Act W B V)) (d' : Dispatcher W B V), (∀ a ∈ as₃, a.returns = true) →
        d.run? bh as₃ = some d' →
        ∃ later, d'.calls d₁.cells.length = d.calls d₁.cells.length ++ later ∧ later.length ≤ partitions - 1) ∧
      (partitions = 1 → Along bh (Unopposed bh d₁.cells.length) (d₁.spawn bh b sink) as₂ →
        Looped n (d.calls d₁.cells.length) ((d₁.spawn bh b sink).ended bh d₁.cells.length as₂) ∧
        (((d₁.spawn bh b sink).notes bh d₁.cells.length as₂).countP Note.signals ≠ 0 ∨ c.stage = .done →
          LoopEnds n (d.calls d₁.cells.length) ((d₁.spawn bh b sink).ended bh d₁.cells.length as₂) c.fault) ∧
        ∀ fault, c.fault = some fault →
          (∀ outcome, .settled d₁.cells.length outcome ∈ d.history → outcome = .error fault) ∧
          (c.stage = .done →
            .settled d₁.cells.length (.error fault) ∈ d.history ∨ .discarded d₁.cells.length ∈ d.history)) := by
  obtain ⟨hheld₀, -⟩ := start_spec hstart
  obtain ⟨hheld₁, -⟩ := weave_run hbh hheld₀ has₁ hrun₁
  have hrooted := hheld₁.rooted d₁.cells.length
  have hnone : (d₁.strand d₁.cells.length).cell = none := List.getElem?_eq_none (Nat.le_refl _)
  obtain ⟨c₁, hc₁, -⟩ := Option.bind_eq_some_iff.1 hplan
  have hstep := step_spawn b hsink hc₁
  obtain ⟨hheld, -⟩ := weave hbh hheld₁ (a := .spawn b sink) (decide_eq_true hsink) rfl
  obtain ⟨hheld₂, -, hruns⟩ := weave_run hbh hheld has₂ hrun₂
  have hsound₀ := hstep.sound (Strand.sound_of_none hrooted hnone)
  have hsound := (hruns _).sound hsound₀
  obtain ⟨c₀, hc₀, hspread₀, hopen, -⟩ := hstep.spread_start hrooted hnone hplan
  obtain ⟨hfault₀, hserial₀⟩ := hstep.serial_start hrooted hnone hc₀ (by simp [hspread₀.fanout])
  obtain ⟨c, f, hc, hspread, hcount⟩ := (hruns _).spread hsound₀ hc₀ hspread₀ hopen
  refine ⟨c, hc, fun hfault as₃ d' has₃ hrun₃ => ?_, fun hone hfree => ?_⟩
  · obtain ⟨c', f', hc', -, harmed⟩ := (hruns _).halts hsound₀ hc₀ hspread₀ hfault₀
    obtain rfl := Option.some.inj (hc.symm.trans hc')
    obtain ⟨-, -, hruns₃⟩ := weave_run hbh hheld₂ has₃ hrun₃
    obtain ⟨-, -, -, -, -, later, hcalls, hlater⟩ := (hruns₃ _).calls_of_fault hsound hc hspread hfault
    have hbound := harmed hfault
    exact ⟨later, hcalls, by omega⟩
  · subst hone
    have halone : Alone n d₁.cells.length (d₁.spawn bh b sink) c₀ 0 [] :=
      ⟨hheld, hsound₀, hc₀, ⟨_, hspread₀⟩, fun hfault => absurd hfault₀ hfault, hserial₀⟩
    obtain ⟨c', k, hends⟩ := halone.run hbh has₂ hfree hrun₂
    rw [List.nil_append] at hends
    obtain rfl := Option.some.inj (hc.symm.trans hends.cell)
    have hforced := hends.serial.forced
    refine ⟨hends.serial.looped hspread, fun hover => hends.serial.ends hspread ?_, fun fault hfault => ?_⟩
    · rcases hover with hsignals | hdone
      · exact hsound.work_eq_zero hc hforced (hcount hforced ▸ hsignals)
      · exact (hsound.tokens c hc hforced).work_eq_zero ((hsound.staged c hc).done hdone)
    · have hwhole : d₀.run? bh (as₁ ++ .spawn b sink :: as₂) = some d := by
        rw [run?_append, hrun₁]
        exact hrun₂
      have hreturns : ∀ a ∈ as₁ ++ .spawn b sink :: as₂, a.returns = true :=
        List.forall_mem_append.2 ⟨has₁, List.forall_mem_cons.2 ⟨decide_eq_true hsink, has₂⟩⟩
      exact delivers_of_run hbh hstart hreturns hwhole hc hfault

def trio : Rehearsal := .ofChorus ⟨3, some 1, false, 0, [(1, .fail)]⟩

/-- One worker sings the trio, and the caller completes it. -/
def trioActs : List (Act World Rehearsal Recital) :=
  List.replicate 2 (.move .caller) ++ List.replicate 20 (.move (.worker 0)) ++ .pumpAll :: List.replicate 3 (.move .caller)

def rushed : Rehearsal := .ofChorus ⟨3, none, false, 0, [(0, .fail)]⟩

/-- The first worker fails when the second has just looked. -/
def rushedActs : List (Act World Rehearsal Recital) :=
  List.replicate 3 (.move .caller) ++ List.replicate 10 (.move (.worker 0)) ++ List.replicate 7 (.move (.worker 1)) ++
    [.move (.worker 0)]

theorem trioActs_returns : ∀ a ∈ trioActs, a.returns = true := by
  simp [trioActs, Act.returns, or_imp, forall_and]

theorem rushedActs_returns : ∀ a ∈ rushedActs, a.returns = true := by
  simp [rushedActs, Act.returns, or_imp, forall_and]

theorem calls_of_run_rehearsals : ∃ d₀, rehearsalRoom = .ok d₀ ∧
    (∃ d c, (d₀.spawn Rehearsal.behaviour rushed .promise).run? Rehearsal.behaviour rushedActs = some d ∧
      d.cells[d₀.cells.length]? = some c ∧ c.fault = some (.corrupted "work failed") ∧
      ∃ d', d.run? Rehearsal.behaviour (List.replicate 2 (.move (.worker 1))) = some d' ∧
        ∃ later, d'.calls d₀.cells.length = d.calls d₀.cells.length ++ later ∧ later.length ≤ 1 ∧ later ≠ []) ∧
    ∃ d c, (d₀.spawn Rehearsal.behaviour trio .promise).run? Rehearsal.behaviour trioActs = some d ∧
      d.cells[d₀.cells.length]? = some c ∧ c.stage = .done ∧ c.fault = some (.corrupted "work failed") ∧
      LoopEnds 3 (d.calls d₀.cells.length)
        ((d₀.spawn Rehearsal.behaviour trio .promise).ended Rehearsal.behaviour d₀.cells.length trioActs) c.fault ∧
      ∀ outcome, .settled d₀.cells.length outcome ∈ d.history → outcome = .error (.corrupted "work failed") := by
  have hrushed : (rehearsalRoom.toOption.bind fun d₀ =>
      ((d₀.spawn Rehearsal.behaviour rushed .promise).run? Rehearsal.behaviour rushedActs).bind fun d =>
        (d.cells[d₀.cells.length]?).bind fun c =>
          (d.run? Rehearsal.behaviour (List.replicate 2 (.move (.worker 1)))).map fun d' => (c.fault,
            ((d₀.spawn Rehearsal.behaviour rushed .promise).cells[d₀.cells.length]?).bind Cell.fanout,
            d.calls d₀.cells.length, d'.calls d₀.cells.length)) =
      some (some (.corrupted "work failed"), some (.start 3 2), [0], [0, 1]) := by decide +kernel
  have htrio : (rehearsalRoom.toOption.bind fun d₀ =>
      ((d₀.spawn Rehearsal.behaviour trio .promise).run? Rehearsal.behaviour trioActs).bind fun d =>
        (d.cells[d₀.cells.length]?).map fun c => (c.fault,
          ((d₀.spawn Rehearsal.behaviour trio .promise).cells[d₀.cells.length]?).bind Cell.fanout, c.stage,
          decide (Along Rehearsal.behaviour (Unopposed Rehearsal.behaviour d₀.cells.length)
            (d₀.spawn Rehearsal.behaviour trio .promise) trioActs))) =
      some (some (.corrupted "work failed"), some (.start 3 1), .done, true) := by decide +kernel
  obtain ⟨d₀, hroom, hrushed⟩ := Option.bind_eq_some_iff.1 hrushed
  obtain ⟨d₀', hroom', htrio⟩ := Option.bind_eq_some_iff.1 htrio
  obtain rfl := Option.some.inj (hroom.symm.trans hroom')
  have hstart := eq_ok_of_toOption hroom
  have hbefore : ∀ a ∈ ([] : List (Act World Rehearsal Recital)), a.returns = true := by simp
  refine ⟨d₀, hstart, ?_, ?_⟩
  · obtain ⟨d, hrun, hrushed⟩ := Option.bind_eq_some_iff.1 hrushed
    obtain ⟨c, hc, hrushed⟩ := Option.bind_eq_some_iff.1 hrushed
    obtain ⟨d', hrun', hrushed⟩ := Option.map_eq_some_iff.1 hrushed
    obtain ⟨hfault, hrushed⟩ := Prod.mk.inj hrushed
    obtain ⟨hplan, hrushed⟩ := Prod.mk.inj hrushed
    obtain ⟨hcalls, hcalls'⟩ := Prod.mk.inj hrushed
    obtain ⟨c', hc', hfew, -⟩ :=
      calls_of_run rehearsal_returns hstart hbefore rfl (by simp) hplan rushedActs_returns hrun
    obtain rfl := Option.some.inj (hc.symm.trans hc')
    obtain ⟨later, hlater, hlength⟩ := hfew (by rw [hfault]; nofun) _ d' (by simp [Act.returns]) hrun'
    refine ⟨d, c, hrun, hc, hfault, d', hrun', later, hlater, hlength, fun hnil => ?_⟩
    rw [hcalls, hcalls', hnil] at hlater
    cases hlater
  · obtain ⟨d, hrun, htrio⟩ := Option.bind_eq_some_iff.1 htrio
    obtain ⟨c, hc, htrio⟩ := Option.map_eq_some_iff.1 htrio
    obtain ⟨hfault, htrio⟩ := Prod.mk.inj htrio
    obtain ⟨hplan, htrio⟩ := Prod.mk.inj htrio
    obtain ⟨hstage, hfree⟩ := Prod.mk.inj htrio
    obtain ⟨c', hc', -, hloop⟩ :=
      calls_of_run rehearsal_returns hstart hbefore rfl (by simp) hplan trioActs_returns hrun
    obtain rfl := Option.some.inj (hc.symm.trans hc')
    obtain ⟨-, hends, hsettled⟩ := hloop rfl (of_decide_eq_true hfree)
    exact ⟨d, c, hrun, hc, hstage, hfault, hends (.inr hstage), (hsettled _ hfault).1⟩

end Dispatcher
end BitmapWorks
