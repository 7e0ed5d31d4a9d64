import BitmapWorks.Proofs.Dispatcher.Results
import BitmapWorks.Rehearsal
/-!
# Lifecycle — what a run does to every task

However the moves of a caller and its workers, the refusals of the crew, shutdowns and forcings interleave, every task
goes through its stages in order, is called and cleaned up as often as it should be, and is settled at most once, with
the first fault that was offered to it or else with the result that its own body gave (`lifecycle_of_run`).
-/
namespace BitmapWorks

variable {W B V : Type} {bh : Behaviour W B V} {id : Nat}

/-! ## Events by kind -/

namespace Event

def isCall : Event V → Bool
  | called _ _ => true
  | _ => false

def isCleanUp : Event V → Bool
  | cleanedUp _ => true
  | _ => false

def isSettled : Event V → Bool
  | settled _ _ => true
  | _ => false

end Event

/-- How the stage of a task changes in one act: a new task has been checked and is rejected or queued. -/
inductive Stage.Moves : Option Stage → Option Stage → Prop
  | absent : Moves none none
  | spawn {stage} : Stage.Next .created .validating → Stage.Next .validating stage → Moves none (some stage)
  | stay {stage} : Moves (some stage) (some stage)
  | next {stage stage'} : Stage.Next stage stage' → Moves (some stage) (some stage')

def Dispatcher.historyOf (d : Dispatcher W B V) (id : Nat) : List (Event V) := d.history.filter (·.task? = some id)

/-! ## The life of a task -/

/-- The life of a task so far, from the notes of its run, the results that it was asked for, its history and the errands
that are in hand. -/
structure Lifecycle (id : Nat) (c : Cell B V) (notes : List Note) (results : List (Except Fault V))
    (history : List (Event V)) (errands : Multiset Errand) : Prop where
  /-- Prepared, called, flushed, cleaned up, asked, and settled or discarded, as far as its flags tell. -/
  order : ∃ (calls : List Nat) (ending : List (Event V)),
    history = ending ++ (calls.map (Event.called id) ++ [.prepared id]) ∧ Told id c ending
  /-- Once its tally is flushed, no errand for it is at work. -/
  quiet : ∀ tally, .flushed id tally ∈ history → ∀ e ∈ errands, e.active = 0
  cleanedUp : history.countP Event.isCleanUp = if c.stage = .done then 1 else 0
  called : c.fanout = none → history.countP Event.isCall ≤ 1
  barred : (∃ n ∈ notes, n.bars = true) → history.countP Event.isCall = 0
  asked : .asked id ∈ history → notes.findSome? Note.offered = none
  askedOnce : results.length ≤ 1
  settledOnce : history.countP Event.isSettled ≤ 1
  /-- The outcome is the first fault that was offered, or the one result that the task was asked for. -/
  settled : ∀ outcome, .settled id outcome ∈ history →
    (∃ fault, notes.findSome? Note.offered = some fault ∧ outcome = .error fault) ∨
    (notes.findSome? Note.offered = none ∧ .asked id ∈ history ∧ results = [outcome])

/-- The history of a task that was barred from the start and ended with a fault. -/
theorem Lifecycle.of_barred {c : Cell B V} {ns : List Note} {results : List (Except Fault V)} {history : List (Event V)}
    {errands : Multiset Errand} (h : Lifecycle id c ns results history errands) (hbars : ∃ n ∈ ns, n.bars = true)
    (hdone : c.stage = .done) (hclaimed : c.settlement.claimed = true) {fault : Fault} (hfault : c.fault = some fault)
    {outcome : Except Fault V} (hsettled : .settled id outcome ∈ history) :
    ∃ tally, history = [.settled id (.error fault), .cleanedUp id, .flushed id tally, .prepared id] := by
  obtain ⟨calls, ending, hstory, htold⟩ := h.order
  have huncalled : calls = [] := by
    have hcount := h.barred hbars
    cases calls with
    | nil => rfl
    | cons item calls =>
      rw [hstory] at hcount
      simp [Event.isCall] at hcount
  subst huncalled
  cases htold with
  | working hopen =>
    rw [hclaimed] at hopen
    cases hopen
  | flushed tally _ hnot => exact absurd hdone hnot
  | @closed outcome' asked event tally _ hending hevent =>
    cases hending with
    | result hclean =>
      rw [hfault] at hclean
      cases hclean
    | fault hoffered =>
      obtain rfl := Option.some.inj (hfault.symm.trans hoffered)
      refine ⟨tally, hstory.trans ?_⟩
      rw [hstory] at hsettled
      rcases hevent with rfl | rfl
      · rfl
      · simp at hsettled

theorem Strand.Run.tale {ns : List Note} {s₀ s : Strand B V} (h : Strand.Run bh id s₀ ns s) (hs : s₀.Sound)
    (hnone : s₀.cell = none) : ∀ c, s.cell = some c → ∃ calls ending, Tale id c s calls ending := by
  induction h with
  | refl =>
    intro c hc
    rw [hnone] at hc
    cases hc
  | snoc hrun hlead ih =>
    rcases hlead with ⟨-, rfl⟩ | hstep
    · exact ih
    · exact hstep.tale (hrun.sound hs) ih

theorem Strand.Run.barred {ns : List Note} {s₀ s : Strand B V} (h : Strand.Run bh id s₀ ns s) (hs : s₀.Sound)
    (hnone : s₀.cell = none) (hbars : ∃ n ∈ ns, n.bars = true) : ∃ c, s.cell = some c ∧ Barred id c s := by
  induction h with
  | refl => simp at hbars
  | @snoc ns n s s' hrun hlead ih =>
    obtain ⟨n', hn', hbars'⟩ := hbars
    rcases List.mem_append.1 hn' with hn' | hn'
    · obtain ⟨c, hc, hbarred⟩ := ih ⟨n', hn', hbars'⟩
      rcases hlead with ⟨-, rfl⟩ | hstep
      · exact ⟨c, hc, hbarred⟩
      · exact hstep.barred (hrun.sound hs) hc hbarred
    · obtain rfl := List.mem_singleton.1 hn'
      rcases hlead with ⟨rfl, -⟩ | hstep
      · cases hbars'
      · exact hstep.bars (hrun.sound hs) (hrun.tale hs hnone) hbars'

section

variable {c : Cell B V} {ending : List (Event V)} {cs : List Chore}

theorem Told.countP_cleanUp (h : Told id c ending) (hstaged : Staged c cs) :
    ending.countP Event.isCleanUp = if c.stage = .done then 1 else 0 := by
  cases h with
  | working hopen =>
    rw [if_neg fun hdone => by simp [hstaged.done hdone] at hopen]
    rfl
  | flushed tally hwon hnot => rw [if_neg hnot]; rfl
  | closed tally hdone hending hevent =>
    rw [if_pos hdone]
    rcases hevent with rfl | rfl <;> cases hending <;> rfl

theorem Told.countP_settled (h : Told id c ending) : ending.countP Event.isSettled ≤ 1 := by
  cases h with
  | working => simp
  | flushed => simp [Event.isSettled]
  | closed tally hdone hending hevent =>
    rcases hevent with rfl | rfl <;> cases hending <;> simp [List.countP_cons, Event.isSettled]

theorem Told.countP_call (h : Told id c ending) : ending.countP Event.isCall = 0 := by
  cases h with
  | working => rfl
  | flushed => rfl
  | closed tally hdone hending hevent => rcases hevent with rfl | rfl <;> cases hending <;> rfl

theorem Told.claimed_of_flushed (h : Told id c ending) (hstaged : Staged c cs) {tally : Int}
    (hmem : .flushed id tally ∈ ending) : c.settlement.claimed = true := by
  cases h with
  | working => simp at hmem
  | flushed tally hwon => exact hwon
  | closed tally hdone => exact hstaged.done hdone

theorem Told.asked (h : Told id c ending) (hmem : .asked id ∈ ending) : c.fault = none := by
  cases h with
  | working => simp at hmem
  | flushed => simp at hmem
  | closed tally hdone hending hevent =>
    cases hending with
    | fault hfault => rcases hevent with rfl | rfl <;> simp at hmem
    | result hfault => exact hfault

theorem Told.settled (h : Told id c ending) {outcome : Except Fault V} (hmem : .settled id outcome ∈ ending) :
    (∃ fault, c.fault = some fault ∧ outcome = .error fault) ∨ (c.fault = none ∧ .asked id ∈ ending) := by
  cases h with
  | working => simp at hmem
  | flushed => simp at hmem
  | closed tally hdone hending hevent =>
    cases hending with
    | fault hfault =>
      rcases hevent with rfl | rfl
      · obtain rfl : outcome = _ := by simpa using hmem
        exact .inl ⟨_, hfault, rfl⟩
      · simp at hmem
    | result hfault =>
      rcases hevent with rfl | rfl
      · exact .inr ⟨hfault, by simp⟩
      · simp at hmem

/-! ## Counting in a story -/

variable {calls : List Nat}

/-- Whatever is not about the calls and the preparation is counted in the ending. -/
theorem countP_story (ending : List (Event V)) (p : Event V → Bool) (hcalled : ∀ item, p (.called id item) = false)
    (hprepared : p (.prepared id) = false) :
    (ending ++ (calls.map (Event.called id) ++ [Event.prepared id])).countP p = ending.countP p := by
  have hnot : (calls.map (Event.called (V := V) id)).countP p = 0 := by
    rw [List.countP_map, List.countP_eq_zero]
    intro item _
    simp [hcalled]
  rw [List.countP_append, List.countP_append, hnot]
  simp [hprepared]

theorem mem_ending {e : Event V} (he : e ∈ ending ++ (calls.map (Event.called id) ++ [Event.prepared id]))
    (hcall : e.isCall = false) (hne : e ≠ .prepared id) : e ∈ ending := by
  rcases List.mem_append.1 he with he | he
  · exact he
  · rcases List.mem_append.1 he with he | he
    · obtain ⟨item, -, rfl⟩ := List.mem_map.1 he
      cases hcall
    · exact absurd (List.mem_singleton.1 he) hne

theorem Told.countP_calls (h : Told id c ending) :
    (ending ++ (calls.map (Event.called id) ++ [Event.prepared id])).countP Event.isCall = calls.length := by
  have hall : (calls.map (Event.called (V := V) id)).countP Event.isCall = calls.length := by
    rw [List.countP_map, List.countP_eq_length]
    exact fun _ _ => rfl
  rw [List.countP_append, List.countP_append, h.countP_call, hall]
  simp [Event.isCall]

end

/-- **The life of a task follows from the run of its strand.** -/
theorem Strand.Run.lifecycle {ns : List Note} {s₀ s : Strand B V} (h : Strand.Run bh id s₀ ns s) (hs : s₀.Sound)
    (hnone : s₀.cell = none) {c : Cell B V} (hc : s.cell = some c) {results : List (Except Fault V)}
    (honce : results.length ≤ 1)
    (hanswered : c.fault = none → ∀ outcome, .settled id outcome ∈ s.story → results = [outcome]) :
    Lifecycle id c ns results s.story s.errands := by
  have hsound := h.sound hs
  have hstaged := hsound.staged c hc
  obtain ⟨calls, ending, hstory, htold, hbegun, hroom⟩ := h.tale hs hnone c hc
  have hfault : c.fault = ns.findSome? Note.offered := by
    have hrun := h.fault
    rw [hc, hnone] at hrun
    simpa using hrun
  have hending : ∀ e : Event V, e ∈ s.story → e.isCall = false → e ≠ .prepared id → e ∈ ending := fun e he =>
    mem_ending (hstory ▸ he)
  refine ⟨⟨calls, ending, hstory, htold⟩, fun tally hmem e he => ?_, ?_, fun hsingle => ?_, fun hbars => ?_,
    fun hmem => ?_, honce, ?_, fun outcome hmem => ?_⟩
  · have hwon := htold.claimed_of_flushed hstaged (hending _ hmem rfl (by simp))
    have hidle := hsound.active c hc fun hrunning => by
      rcases hstaged.claimed hwon with hstage | hstage <;> rw [hrunning] at hstage <;> cases hstage
    exact Strand.active_eq_zero hidle he
  · rw [hstory, countP_story ending Event.isCleanUp (fun _ => rfl) rfl]
    exact htold.countP_cleanUp hstaged
  · have hcalled := hroom hsingle
    rw [hstory, htold.countP_calls]
    omega
  · obtain ⟨c', hc', hbarred⟩ := h.barred hs hnone hbars
    rw [hstory, htold.countP_calls]
    cases calls with
    | nil => rfl
    | cons item calls =>
      refine absurd ?_ (hbarred.uncalled item)
      rw [hstory]
      simp
  · rw [← hfault]
    exact htold.asked (hending _ hmem rfl (by simp))
  · rw [hstory, countP_story ending Event.isSettled (fun _ => rfl) rfl]
    exact htold.countP_settled
  · rw [← hfault]
    rcases htold.settled (hending _ hmem rfl (by simp)) with hfailed | ⟨hnone', hasked⟩
    · exact .inl hfailed
    · refine .inr ⟨hnone', ?_, hanswered hnone' outcome hmem⟩
      rw [hstory]
      exact List.mem_append_left _ hasked

namespace Dispatcher

variable {d₀ d : Dispatcher W B V}

theorem Leads.moves {n : Note} {s s' : Strand B V} (h : Strand.Leads bh id n s s') (hs : s.Sound) :
    Stage.Moves (s.cell.map Cell.stage) (s'.cell.map Cell.stage) := by
  rcases h with ⟨-, rfl⟩ | hstep
  · cases s'.cell with
    | none => exact .absent
    | some c => exact .stay
  · cases hc : s.cell with
    | none =>
      cases hc' : s'.cell with
      | none => exact .absent
      | some c' => exact .spawn .check (hstep.stage_of_new hc hc')
    | some c =>
      obtain ⟨c', hc'⟩ := hstep.cell_ne_none hc
      rw [hc']
      rcases hstep.stage_next hs.staged hc hc' with hsame | hnext
      · simp only [Option.map_some, hsame]
        exact .stay
      · exact .next hnext

theorem lives_of_run (hbh : bh.Returns) (hheld : d₀.Held) (hsound : ∀ id, (d₀.strand id).Sound)
    (hnone : d₀.cells[id]? = none) {as : List (Act W B V)} (has : ∀ a ∈ as, a.returns = true)
    (hrun : d₀.run? bh as = some d) {c : Cell B V} (hc : d.cells[id]? = some c) :
    Lifecycle id c (d₀.notes bh id as) (d₀.results bh id as) (d.historyOf id) (d.crew.hand.filter (·.id = id)) := by
  obtain ⟨-, -, hruns⟩ := weave_run hbh hheld has hrun
  have hanswered := (Answered.fresh hheld hnone).run hbh hheld hsound has hrun
  rw [List.nil_append] at hanswered
  refine (hruns id).lifecycle (hsound id) hnone hc hanswered.once fun hfault outcome hmem => ?_
  exact hanswered.settled c hc hfault outcome (mem_outcomes.2 (List.mem_filter.1 hmem).1)

/-- **What a run does to every task.**  Take any order of moves of the caller and of the workers, calls of the caller and
changes around the dispatcher, in which the caller's hooks return.  Then every task has led an orderly life, every outcome
that was settled has its checkpoint directly behind it, and whatever is done next changes stages along their order.  A task
that has no fault is settled with what its own body gave, cleaned up and asked in the world of that very act. -/
theorem lifecycle_of_run (hbh : bh.Returns) {world : W} {s : Settings} {processors : Nat} {admission : Admission}
    {checkpoints : Bool} (hstart : start world s processors admission checkpoints = .ok d₀) {as : List (Act W B V)}
    (has : ∀ a ∈ as, a.returns = true) (hrun : d₀.run? bh as = some d) :
    (∀ (id : Nat) (c : Cell B V), d.cells[id]? = some c →
      Lifecycle id c (d₀.notes bh id as) (d₀.results bh id as) (d.historyOf id) (d.crew.hand.filter (·.id = id))) ∧
    Echoed checkpoints d.history ∧
    ∀ (a : Act W B V) (d' : Dispatcher W B V), a.returns = true → d.act? bh a = some d' →
      ∀ id : Nat, Stage.Moves ((d.cells[id]?).map Cell.stage) ((d'.cells[id]?).map Cell.stage) := by
  obtain ⟨hheld₀, hcheckpoints, hempty, hblank⟩ := start_spec hstart
  obtain ⟨hheld, honward, hruns⟩ := weave_run hbh hheld₀ has hrun
  have hnone : ∀ id, (d₀.strand id).cell = none := fun id => by rw [hblank]
  have hsound₀ : ∀ id, (d₀.strand id).Sound := fun id => Strand.sound_of_none (hheld₀.rooted id) (hnone id)
  refine ⟨fun id c hc => lives_of_run hbh hheld₀ hsound₀ (hnone id) has hrun hc, ?_, fun a d' ha hact id => ?_⟩
  · obtain ⟨events, hechoed, hhistory⟩ := honward.history
    rw [hempty, List.append_nil] at hhistory
    rw [hhistory, ← hcheckpoints]
    exact hechoed
  · obtain ⟨-, -, hleads⟩ := weave hbh hheld ha hact
    exact Leads.moves (hleads id) ((hruns id).sound (hsound₀ id))

def rehearsalRoom : Except Refusal (Dispatcher World Rehearsal Recital) :=
  start World.empty ⟨2, 2, 65536, 2, 1, 1, none⟩ 2 .fresh true

/-- A chorus of two, of which the second panics, sung by one worker while the other waits, and then completed. -/
def rehearsalActs : List (Act World Rehearsal Recital) :=
  .spawn (Rehearsal.ofChorus ⟨2, none, false, 0, [(1, .panic none)]⟩) .promise ::
    (List.replicate 3 (.move .caller) ++ List.replicate 29 (.move (.worker 0)) ++
      .pumpAll :: List.replicate 4 (.move .caller))

theorem eq_ok_of_toOption {room : Except Refusal (Dispatcher W B V)} (h : room.toOption = some d) : room = .ok d := by
  cases room with
  | error refusal => cases h
  | ok d' => exact congrArg _ (Option.some.inj h)

theorem rehearsal_returns : Rehearsal.behaviour.Returns := ⟨fun _ _ => rfl, fun _ _ => nofun⟩

theorem rehearsalActs_returns : ∀ a ∈ rehearsalActs, a.returns = true := by
  simp [rehearsalActs, Act.returns, or_imp, forall_and]

theorem lifecycle_of_run_rehearsal : ∃ d₀ d c, rehearsalRoom = .ok d₀ ∧
    (∀ a ∈ rehearsalActs, a.returns = true) ∧ d₀.run? Rehearsal.behaviour rehearsalActs = some d ∧
    d.cells[0]? = some c ∧ c.stage = .done ∧ Echoed true d.history ∧
    Lifecycle 0 c (d₀.notes Rehearsal.behaviour 0 rehearsalActs) (d₀.results Rehearsal.behaviour 0 rehearsalActs)
      (d.historyOf 0) (d.crew.hand.filter (·.id = 0)) := by
  have hends : (rehearsalRoom.toOption.bind fun d₀ => (d₀.run? Rehearsal.behaviour rehearsalActs).bind fun d =>
      (d.cells[0]?).map Cell.stage) = some .done := by decide +kernel
  obtain ⟨d₀, hroom, hends⟩ := Option.bind_eq_some_iff.1 hends
  obtain ⟨d, hrun, hends⟩ := Option.bind_eq_some_iff.1 hends
  obtain ⟨c, hc, hstage⟩ := Option.map_eq_some_iff.1 hends
  have hstart := eq_ok_of_toOption hroom
  obtain ⟨hlives, hechoed, -⟩ := lifecycle_of_run rehearsal_returns hstart rehearsalActs_returns hrun
  exact ⟨d₀, d, c, hstart, rehearsalActs_returns, hrun, hc, hstage, hechoed, hlives 0 c hc⟩

end Dispatcher
end BitmapWorks
