import BitmapWorks.Proofs.Dispatcher.Outcome
/-!
# Stranding — waiting for a task that nobody will complete

When all that the caller's code does in a conclusion returns, the task is out.  When it unwinds, the task stays in, and
since it was claimed, nobody concludes it again: it is stranded.  From then on the caller that waits until no task is left
waits for ever, a drain goes on until its time is up, and a shutdown can only end with its time up (`Lost`).
-/
namespace BitmapWorks

variable {W B V : Type} {bh : Behaviour W B V}

theorem Drain.look_again {b : Backoff} {t : Drain} {left : Int} (handled : Nat) (hleft : left ≠ 0)
    (htime : b.timeout.any (· ≤ t.elapsed) = false) : ∃ t', t.look b handled left = .again t' := by
  unfold look
  rw [if_neg hleft, if_neg (by rw [htime]; exact Bool.false_ne_true)]
  split
  · exact ⟨_, rfl⟩
  · exact ⟨_, rfl⟩

namespace Dispatcher

variable {d d' : Dispatcher W B V} {id : Nat} {rest : List Chore}

/-! ## Who waits -/

theorem Stranded.pos (h : Stranded d id) (hb : Booked d) : 0 < d.inFlight := by
  rw [hb.count]
  exact Int.natCast_pos.2 (List.length_pos_of_mem h.registered)

def Waiting (d : Dispatcher W B V) : Prop :=
  ∃ front, (∀ chore ∈ front, forces chore = true) ∧ d.agenda = front ++ [.awaitIdle]

theorem waiting_untilIdle (hidle : d.agenda = []) : Waiting d.untilIdle :=
  ⟨[.pump 0], by simp [forces], by rw [untilIdle, plan, hidle]; rfl⟩

theorem awaitIdle_of_move (hagenda : d.agenda = .awaitIdle :: rest) (hin : d.inFlight ≠ 0)
    (h : d.stepCaller? bh = some d') : ∃ id, d'.agenda = .complete id :: .pump 0 :: .awaitIdle :: rest := by
  rw [stepCaller?, hagenda] at h
  have hstep : ({ d with agenda := rest } : Dispatcher W B V).awaitIdle? = some d' := h
  rw [awaitIdle?, if_neg (show ({ d with agenda := rest } : Dispatcher W B V).inFlight ≠ 0 from hin)] at hstep
  split at hstep
  · next id waiting hinbox =>
    obtain rfl := Option.some.inj hstep
    exact ⟨id, rfl⟩
  · cases hstep

/-- **Whoever waits while a task is in goes on waiting.** -/
theorem Waiting.act (h : Waiting d) (hb : Booked d) (hin : 0 < d.inFlight) {a : Act W B V} (ha : a.within = true)
    (hlingers : d.lingers a = true) (hreturns : d.returns bh a = true) (hact : d.act? bh a = some d') : Waiting d' := by
  obtain ⟨front, hfront, hwaiting⟩ := h
  rcases agenda_of_returns hb ha hlingers hreturns hact with ⟨rfl, chore, rest, hagenda, hmoves⟩ | ⟨-, hsame, -⟩
  · obtain ⟨planned, hfollows, hagenda'⟩ := hmoves.agenda
    rw [hwaiting] at hagenda
    cases front with
    | nil =>
      obtain ⟨id, hreceived⟩ := awaitIdle_of_move hwaiting (Int.ne_of_gt hin) hact
      exact ⟨[.complete id, .pump 0], by simp [forces], hreceived⟩
    | cons first front =>
      obtain ⟨rfl, rfl⟩ := List.cons.inj hagenda
      obtain ⟨hfirst, hfront⟩ := List.forall_mem_cons.1 hfront
      exact ⟨planned ++ front, List.forall_mem_append.2 ⟨hfollows.forces hfirst, hfront⟩,
        hagenda'.trans (List.append_assoc ..).symm⟩
  · exact ⟨front, hfront, hsame.trans hwaiting⟩

theorem Waiting.run (h : Waiting d) (hb : Booked d) (hs : Stranded d id) {as : List (Act W B V)}
    (has : ∀ a ∈ as, a.within = true) (hlingers : Along bh (fun d a => d.lingers a = true) d as)
    (hreturns : Along bh (fun d a => d.returns bh a = true) d as) (hrun : d.run? bh as = some d') : Waiting d' := by
  induction as generalizing d with
  | nil =>
    obtain rfl := Option.some.inj hrun
    exact h
  | cons a as ih =>
    obtain ⟨d₁, hact, hrun⟩ := Option.bind_eq_some_iff.1 hrun
    obtain ⟨hlinger, hlingers⟩ := hlingers
    obtain ⟨hreturn, hreturns⟩ := hreturns
    rw [hact] at hlingers hreturns
    have ha := has a (List.mem_cons_self ..)
    obtain ⟨hb₁, hstranded⟩ := hb.act (returns_of_within ha).2 hlinger hact
    exact ih (h.act hb (hs.pos hb) ha hlinger hreturn hact) hb₁ (hstranded id hs)
      (fun a ha => has a (List.mem_cons_of_mem _ ha)) hlingers hreturns hrun

/-! ## What becomes of a stranded task -/

/-- What holds of a task that was claimed, is still in, and that nobody is to conclude. -/
structure Lost (bh : Behaviour W B V) (d : Dispatcher W B V) (id : Nat) : Prop where
  registered : id ∈ d.registry
  counted : 0 < d.inFlight
  unplanned : id ∉ d.concluding
  /-- The caller that waits until no task is left waits for ever. -/
  idles : d.agenda = [] → ∀ (as : List (Act W B V)) (d' : Dispatcher W B V), (∀ a ∈ as, a.within = true) →
    Along bh (fun d a => d.returns bh a = true) d.untilIdle as → d.untilIdle.run? bh as = some d' →
    .awaitIdle ∈ d'.agenda
  /-- A drain goes on until its time is up. -/
  drains : ∀ t rest, d.agenda = .drain t :: rest → d.backoff.timeout.any (· ≤ t.elapsed) = false →
    ∃ t', d.act? bh (.move .caller) = some { d with agenda := .pump 0 :: .drain t' :: rest }
  /-- The first shutdown can only end with its time up. -/
  shutsDown : d.agenda = [] → d.stopped = false → ∀ (as : List (Act W B V)) (d' : Dispatcher W B V),
    (∀ a ∈ as, a.within = true) → Along bh (fun d a => d.returns bh a = true) d.shutdown as →
    d.shutdown.run? bh as = some d' → d'.agenda = [] → ∃ left, d'.drainOutcome = .timedOut left ∧ 0 < left
  /-- So can the one that comes with the dispatcher being dropped. -/
  drops : d.agenda = [] → d.stopped = false → ∀ (as : List (Act W B V)) (d' : Dispatcher W B V),
    (∀ a ∈ as, a.within = true) → Along bh (fun d a => d.lingers a = true) d.drop as →
    Along bh (fun d a => d.returns bh a = true) d.drop as → d.drop.run? bh as = some d' → d'.agenda = [.letGo] →
    ∃ left, d'.drainOutcome = .timedOut left ∧ 0 < left

/-- **A shutdown that is over has not seen a stranded task out.** -/
theorem Stopping.timedOut {tail : List Chore} (h : Stopping tail d) (hb : Booked d) (hs : Stranded d id)
    (htail : ∀ chore ∈ tail, chore = .letGo) {as : List (Act W B V)} (has : ∀ a ∈ as, a.within = true)
    (hlingers : Along bh (fun d a => d.lingers a = true) d as)
    (hreturns : Along bh (fun d a => d.returns bh a = true) d as) (hrun : d.run? bh as = some d')
    (hover : d'.agenda = tail) : ∃ left, d'.drainOutcome = .timedOut left ∧ 0 < left := by
  obtain ⟨hend, hb'⟩ := h.run hb htail has hlingers hreturns hrun
  obtain ⟨-, hstranded⟩ := hb.run (fun a ha => (returns_of_within (has a ha)).2) hlingers hrun
  have htruthful := hend.truthful hover
  cases houtcome : d'.drainOutcome with
  | drained =>
    have hpos := (hstranded id hs).pos hb'
    rw [htruthful.drained houtcome] at hpos
    exact absurd hpos (Int.lt_irrefl 0)
  | timedOut left => exact ⟨left, rfl, (htruthful.timedOut left houtcome).1⟩

theorem concluding_of_idle (hidle : d.agenda = []) : d.concluding = [] := by rw [concluding, hidle]; rfl

theorem turnover_drop (hidle : d.agenda = []) (hfirst : d.stopped = false) :
    Turnover d d.drop ∧ d.drop.gone = d.gone := by
  have hagenda : d.drop.agenda = d.shutdownChores ++ [.letGo] := by
    rw [drop, hfirst, shutdown, hfirst]
    show (d.shutdownChores ++ d.agenda) ++ [.letGo] = _
    rw [hidle, List.append_nil]
  have hconcluding : d.drop.concluding = d.concluding := by
    rw [concluding_of_idle hidle, concluding, hagenda]
    rfl
  have hsame : d.drop.marks = d.marks ∧ d.drop.registry = d.registry ∧ d.drop.inFlight = d.inFlight ∧
      d.drop.gone = d.gone := by
    rw [drop, hfirst, shutdown, hfirst]
    exact ⟨rfl, rfl, Admission.beginShutdown_inFlight _, rfl⟩
  obtain ⟨hmarks, hregistry, hinFlight, hgone⟩ := hsame
  exact ⟨.even ⟨hmarks, hregistry, hinFlight, hgone⟩ hconcluding, hgone⟩

/-- **Nobody gets past a stranded task.** -/
theorem Stranded.lost (h : Stranded d id) (hb : Booked d) (hsteady : d.Steady) : Lost bh d id := by
  refine ⟨h.registered, h.pos hb, h.unplanned, fun hidle as d' has hreturns hrun => ?_, fun t rest hagenda htime => ?_,
    fun hidle hfirst as d' has hreturns hrun hover => ?_,
    fun hidle hfirst as d' has hlingers hreturns hrun hover => ?_⟩
  -- the wait begins anew whenever it looks, since the task still counts as in
  · have hact : d.act? bh .untilIdle = some d.untilIdle := rfl
    obtain ⟨hb₁, hstranded⟩ := hb.act rfl rfl hact
    obtain ⟨front, -, hwaiting⟩ := (waiting_untilIdle hidle).run hb₁ (hstranded id h) has
      (along_lingers (hsteady.act hact) as) hreturns hrun
    rw [hwaiting]
    exact List.mem_append_right _ (List.mem_singleton.2 rfl)
  · obtain ⟨t', hagain⟩ := Drain.look_again d.handled (Int.ne_of_gt (h.pos hb)) htime
    exact ⟨t', move_of_drain_again hagenda hagain⟩
  -- what a first shutdown says is true, so it cannot be that nobody is in
  · have hact : d.act? bh .shutdown = some d.shutdown := rfl
    obtain ⟨hb₁, hstranded⟩ := hb.act rfl rfl hact
    exact (stopping_shutdown hidle hfirst).timedOut hb₁ (hstranded id h) (by simp) has
      (along_lingers (hsteady.act hact) as) hreturns hrun hover
  · obtain ⟨hturnover, hgone⟩ := turnover_drop hidle hfirst
    exact (stopping_drop hidle hfirst).timedOut (hb.turnover hturnover hgone) (h.turnover hturnover)
      (fun chore hmem => List.mem_singleton.1 hmem) has hlingers hreturns hrun hover

/-! ## Conclusions -/

/-- **What a conclusion leaves behind, whichever way it goes.**  Take any run of a dispatcher with a gate of its own,
however its tasks behave and whatever the caller's code unwinds out of, up to any conclusion of a task, and the move in
which the caller makes it.  If the caller's code returns, the task is not registered any more and does not count as in.
If it unwinds, the rest of the call is lost and nothing has changed in the register and the count; and a task that was in
is lost then, whatever comes while the caller holds on to the dispatcher. -/
theorem conclusion_of_run {world : W} {s : Settings} {processors : Nat} {checkpoints : Bool} {d₀ : Dispatcher W B V}
    (hstart : start world s processors .fresh checkpoints = .ok d₀) {as : List (Act W B V)}
    (has : ∀ a ∈ as, a.keepsGate = true) (hrun : d₀.run? bh as = some d) (hagenda : d.agenda = .conclude id :: rest)
    (hact : d.act? bh (.move .caller) = some d') :
    (d.unwinds bh id = false → d'.agenda = rest ∧ id ∉ d'.registry ∧ d'.registry = d.registry.filter (· ≠ id) ∧
      d'.inFlight = d'.registry.length) ∧
    (d.unwinds bh id = true → d'.agenda = [] ∧ d'.registry = d.registry ∧ d'.inFlight = d.inFlight ∧
      (id ∈ d.registry → ∀ (bs : List (Act W B V)) (e : Dispatcher W B V), (∀ a ∈ bs, a.keepsGate = true) →
        d'.run? bh bs = some e → Lost bh e id)) := by
  obtain ⟨hb₀, hsteady₀⟩ := booked_start hstart
  obtain ⟨hb, -⟩ := hb₀.run has (along_lingers hsteady₀ as) hrun
  have hsteady := hsteady₀.run hrun
  obtain ⟨hb', -⟩ := hb.act rfl (lingers_of_steady hsteady _) hact
  have hsteady' := hsteady.act hact
  have hid : id ∈ d.concluding := by
    rw [concluding, hagenda]
    exact List.mem_cons_self ..
  obtain ⟨entered, hwon⟩ := hb.won id hid
  have hcell := hwon
  rw [marks, List.getElem?_map] at hcell
  obtain ⟨c, hc, hmark⟩ := Option.map_eq_some_iff.1 hcell
  have hclaimed : c.settlement.claimed = true := (Prod.mk.inj hmark).2
  have hstep : d.stepCaller? bh = some d' := hact
  rw [stepCaller?, hagenda] at hstep
  rcases conclude_cases (d := { d with agenda := rest }) hc hstep with ⟨hunwinds, hunwound⟩ | ⟨hreturns, hretired⟩
  · have hunwinds' : d.unwinds bh id = true := hunwinds
    refine ⟨fun hcalm => Bool.noConfusion (hunwinds'.symm.trans hcalm),
      fun _ => ⟨hunwound.agenda, hunwound.registry, hunwound.inFlight, fun hin bs e hbs hlater => ?_⟩⟩
    obtain ⟨entered', -, hmarks⟩ := hunwound.marks
    have hstranded : Stranded d' id := by
      refine ⟨hunwound.registry ▸ hin, ⟨entered', ?_⟩, ?_⟩
      · rw [hmarks, hclaimed]
        exact List.getElem?_set_self (List.getElem?_eq_some_iff.1 hwon).1
      · rw [concluding_of_idle hunwound.agenda]
        exact List.not_mem_nil
    obtain ⟨hb'', hlasts⟩ := hb'.run hbs (along_lingers hsteady' bs) hlater
    exact (hlasts id hstranded).lost hb'' (hsteady'.run hlater)
  · have hreturns' : d.unwinds bh id = false := hreturns
    refine ⟨fun _ => ⟨hretired.agenda, fun hmem => ?_, hretired.registry, hb'.count⟩,
      fun hunwinds => Bool.noConfusion (hunwinds.symm.trans hreturns')⟩
    rw [hretired.registry, List.mem_filter] at hmem
    exact of_decide_eq_true hmem.2 rfl

/-- The worker does a solo whose outcome goes to a function that unwinds, and the caller comes to its conclusion. -/
def strandingActs : List (Act World Rehearsal Recital) :=
  [.spawn (.ofSolo ⟨1, false, none, 0, 0, none, .play, false⟩) (.callback true), .move .caller] ++
    List.replicate 10 (.move (.worker 0)) ++ .pumpAll :: List.replicate 2 (.move .caller)

theorem strandingActs_keepsGate : ∀ a ∈ strandingActs, a.keepsGate = true := by
  simp [strandingActs, Act.keepsGate, or_imp, forall_and]

/-- The function unwinds out of the conclusion, and the solo is lost. -/
theorem conclusion_of_run_stranded : ∃ d₀ d d', hastyRoom = .ok d₀ ∧ (∀ a ∈ strandingActs, a.keepsGate = true) ∧
    d₀.run? Rehearsal.behaviour strandingActs = some d ∧ d.agenda = [.conclude 0, .pump 1] ∧
    d.act? Rehearsal.behaviour (.move .caller) = some d' ∧ d.unwinds Rehearsal.behaviour 0 = true ∧ d.registry = [0] ∧
    d'.agenda = [] ∧ d'.registry = [0] ∧ d'.inFlight = 1 ∧ Lost Rehearsal.behaviour d' 0 := by
  have hends : (hastyRoom.toOption.bind fun d₀ => (d₀.run? Rehearsal.behaviour strandingActs).bind fun d =>
      (d.act? Rehearsal.behaviour (.move .caller)).map fun _ =>
        decide (d.agenda = [.conclude 0, .pump 1] ∧ d.unwinds Rehearsal.behaviour 0 = true ∧ d.registry = [0] ∧
          d.inFlight = 1)) = some true := by
    decide +kernel
  obtain ⟨d₀, hroom, hends⟩ := Option.bind_eq_some_iff.1 hends
  obtain ⟨d, hrun, hends⟩ := Option.bind_eq_some_iff.1 hends
  obtain ⟨d', hact, hends⟩ := Option.map_eq_some_iff.1 hends
  obtain ⟨hagenda, hunwinds, hregistry, hinFlight⟩ := of_decide_eq_true hends
  have hstart := eq_ok_of_toOption hroom
  obtain ⟨-, hlost⟩ := conclusion_of_run hstart strandingActs_keepsGate hrun hagenda hact
  obtain ⟨hidle, hregistered, hcounted, hlasts⟩ := hlost hunwinds
  exact ⟨d₀, d, d', hstart, strandingActs_keepsGate, hrun, hagenda, hact, hunwinds, hregistry, hidle,
    hregistered.trans hregistry, hcounted.trans hinFlight, hlasts (by simp [hregistry]) [] d' (by simp) rfl⟩

/-- **A task can stay in when its conclusion is over**: a function unwinds when it gets the outcome.  Then nobody can move
any more when the caller waits until no task is left, and a shutdown ends with its time up. -/
theorem registered_behind_conclusion : ∃ d₀ d d₁ d₂, hastyRoom = .ok d₀ ∧
    d₀.run? Rehearsal.behaviour (strandingActs ++ [.move .caller]) = some d ∧ d.agenda = [] ∧ d.registry = [0] ∧
    d.inFlight = 1 ∧ d.untilIdle.run? Rehearsal.behaviour [.move .caller] = some d₁ ∧ d₁.agenda = [.awaitIdle] ∧
    (d₁.act? Rehearsal.behaviour (.move .caller)).isNone ∧ (d₁.act? Rehearsal.behaviour (.move (.worker 0))).isNone ∧
    d₁.crew.workers.length = 1 ∧
    d.shutdown.run? Rehearsal.behaviour (List.replicate 10 (.move .caller)) = some d₂ ∧ d₂.agenda = [] ∧
    d₂.drainOutcome = .timedOut 1 := by
  have hends : (hastyRoom.toOption.bind fun d₀ =>
      (d₀.run? Rehearsal.behaviour (strandingActs ++ [.move .caller])).bind fun d =>
        (d.untilIdle.run? Rehearsal.behaviour [.move .caller]).bind fun d₁ =>
          (d.shutdown.run? Rehearsal.behaviour (List.replicate 10 (.move .caller))).map fun d₂ =>
            decide ((d.agenda = [] ∧ d.registry = [0] ∧ d.inFlight = 1) ∧ (d₁.agenda = [.awaitIdle] ∧
              (d₁.act? Rehearsal.behaviour (.move .caller)).isNone ∧
              (d₁.act? Rehearsal.behaviour (.move (.worker 0))).isNone ∧ d₁.crew.workers.length = 1) ∧
              d₂.agenda = [] ∧ d₂.drainOutcome = .timedOut 1)) = some true := by
    decide +kernel
  obtain ⟨d₀, hroom, hends⟩ := Option.bind_eq_some_iff.1 hends
  obtain ⟨d, hrun, hends⟩ := Option.bind_eq_some_iff.1 hends
  obtain ⟨d₁, hidles, hends⟩ := Option.bind_eq_some_iff.1 hends
  obtain ⟨d₂, hcall, hends⟩ := Option.map_eq_some_iff.1 hends
  obtain ⟨⟨hidle, hregistry, hinFlight⟩, ⟨hwaits, hcaller, hworker, hcrew⟩, hover, houtcome⟩ := of_decide_eq_true hends
  exact ⟨d₀, d, d₁, d₂, eq_ok_of_toOption hroom, hrun, hidle, hregistry, hinFlight, hidles, hwaits, hcaller, hworker, hcrew,
    hcall, hover, houtcome⟩

end Dispatcher
end BitmapWorks
