import BitmapWorks.Proofs.Dispatcher.Forcing
import BitmapWorks.Proofs.Dispatcher.Unwinding
/-!
# Outcome — how a shutdown ends

A first shutdown goes through stages: it drains, it looks how the drain ended, it forces and counts again if the time was
up, and it closes the crew (`Stopping`).  Where it knows how it ends, that is true: it ends drained only if no task is in
(`Truthful`).  A later shutdown does not look at all, and ends drained whoever is in (`shutdown_of_stopped`).
-/
namespace BitmapWorks

variable {W B V : Type} {bh : Behaviour W B V}

/-- **A drain that ends counts the tasks that are left.** -/
theorem Drain.look_done {b : Backoff} {t : Drain} {handled : Nat} {left : Int} {outcome : DrainOutcome}
    (h : t.look b handled left = .done outcome) : outcome = if left = 0 then .drained else .timedOut left := by
  unfold look at h
  split at h
  · next hnone => rw [if_pos hnone, ← Next.done.inj h]
  · next hsome =>
    rw [if_neg hsome]
    split at h
    · exact (Next.done.inj h).symm
    · split at h <;> cases h

namespace Dispatcher

variable {d d' : Dispatcher W B V} {tail : List Chore}

/-! ## What the outcome says -/

/-- Whether the outcome of the drain is true of the tasks that are in. -/
structure Truthful (d : Dispatcher W B V) : Prop where
  drained : d.drainOutcome = .drained → d.inFlight = 0
  timedOut : ∀ left, d.drainOutcome = .timedOut left → 0 < left ∧ d.inFlight ≤ left

theorem Booked.inFlight_nonneg (h : Booked d) : 0 ≤ d.inFlight := by
  rw [h.count]
  exact Int.natCast_nonneg _

theorem Booked.registry_eq_nil (h : Booked d) (hnone : d.inFlight = 0) : d.registry = [] := by
  rw [h.count] at hnone
  exact List.length_eq_zero_iff.1 (Int.ofNat_eq_zero.1 hnone)

theorem Turnover.inFlight_le (h : Turnover d d') : d'.inFlight ≤ d.inFlight := by
  cases h with
  | even heven => exact Int.le_of_eq heven.inFlight
  | claim hmark hmarks hregistry hinFlight | unwind hid hmark hmarks hentered hregistry hinFlight =>
    exact Int.le_of_eq hinFlight
  | @retire id entered won hconcluding hmark hmarks hregistry hinFlight =>
    rw [hinFlight]
    cases entered <;> simp

theorem Booked.truthful (h : Booked d)
    (hcounted : d.drainOutcome = if d.inFlight = 0 then .drained else .timedOut d.inFlight) : Truthful d := by
  have hnonneg := h.inFlight_nonneg
  split at hcounted
  · next hnone => exact ⟨fun _ => hnone, fun left heq => (nomatch hcounted.symm.trans heq)⟩
  · next hsome =>
    refine ⟨fun heq => (nomatch hcounted.symm.trans heq), fun left heq => ?_⟩
    obtain rfl := DrainOutcome.timedOut.inj (hcounted.symm.trans heq)
    exact ⟨by omega, Int.le_refl _⟩

/-- **What is true of an outcome stays true**, since tasks only go out. -/
theorem Truthful.turnover (h : Truthful d) (hb' : Booked d') (ht : Turnover d d')
    (hsame : d'.drainOutcome = d.drainOutcome) : Truthful d' := by
  have hle := ht.inFlight_le
  have hnonneg := hb'.inFlight_nonneg
  refine ⟨fun hdrained => ?_, fun left hleft => ?_⟩
  · have hnone := h.drained (hsame ▸ hdrained)
    omega
  · obtain ⟨hpos, hin⟩ := h.timedOut left (hsame ▸ hleft)
    exact ⟨hpos, by omega⟩

/-! ## The stages of a shutdown -/

/-- How far a first shutdown has come; behind it the caller may still let the dispatcher go. -/
inductive Stopping (tail : List Chore) (d : Dispatcher W B V) : Prop
  | draining (front : List Chore) (t : Drain) : (∀ chore ∈ front, forces chore = true) →
    d.agenda = front ++ .drain t :: .drained :: (closers ++ tail) → Stopping tail d
  | looked : d.agenda = .drained :: (closers ++ tail) → Truthful d → Stopping tail d
  | forcing (front : List Chore) : (∀ chore ∈ front, forces chore = true) →
    d.agenda = front ++ .recount :: (closers ++ tail) → Stopping tail d
  | closing (front : List Chore) : (∀ chore ∈ front, closes chore = true) → d.agenda = front ++ tail → Truthful d →
    Stopping tail d

theorem stopping_shutdown (hidle : d.agenda = []) (hfirst : d.stopped = false) : Stopping [] d.shutdown := by
  refine .draining [.pump 0] (.start d.backoff) (by simp [forces]) ?_
  rw [shutdown, hfirst]
  show d.shutdownChores ++ d.agenda = _
  rw [hidle]
  rfl

theorem stopping_drop (hidle : d.agenda = []) (hfirst : d.stopped = false) : Stopping [.letGo] d.drop := by
  refine .draining [.pump 0] (.start d.backoff) (by simp [forces]) ?_
  rw [drop, hfirst, shutdown, hfirst]
  show (d.shutdownChores ++ d.agenda) ++ [.letGo] = _
  rw [hidle]
  rfl

/-- What an act within a call does to the agenda, when the caller's code returns. -/
theorem agenda_of_returns (hb : Booked d) {a : Act W B V} (ha : a.within = true) (hlingers : d.lingers a = true)
    (hreturns : d.returns bh a = true) (hact : d.act? bh a = some d') :
    (a = .move .caller ∧ ∃ chore rest, d.agenda = chore :: rest ∧ Moves d d' chore rest) ∨
    (a ≠ .move .caller ∧ Undisturbed d d') := by
  cases a with
  | move m =>
    cases m with
    | caller =>
      cases hagenda : d.agenda with
      | nil =>
        have hstep : d.stepCaller? bh = some d' := hact
        rw [stepCaller?, hagenda] at hstep
        cases hstep
      | cons chore rest =>
        exact .inl ⟨rfl, chore, rest, rfl, moves_of_returns hagenda (of_decide_eq_true hlingers) hreturns hact⟩
    | worker i => exact .inr ⟨by simp, undisturbed_stepWorker hb.held hact⟩
  | surround w =>
    obtain rfl := Option.some.inj hact
    exact .inr ⟨by simp, rfl, rfl⟩
  | _ => cases ha

theorem drain_of_move {t : Drain} {rest : List Chore} (hagenda : d.agenda = .drain t :: rest)
    (h : d.stepCaller? bh = some d') : (∃ t', d'.agenda = .pump 0 :: .drain t' :: rest) ∨
    (d'.agenda = rest ∧ d'.inFlight = d.inFlight ∧
      d'.drainOutcome = if d.inFlight = 0 then .drained else .timedOut d.inFlight) := by
  rw [stepCaller?, hagenda] at h
  obtain rfl := Option.some.inj h
  unfold drain
  split
  · next outcome hdone => exact .inr ⟨rfl, rfl, Drain.look_done hdone⟩
  · next t' hagain => exact .inl ⟨t', rfl⟩

theorem recount_of_move {rest : List Chore} (hagenda : d.agenda = .recount :: rest) (h : d.stepCaller? bh = some d') :
    d'.agenda = rest ∧ d'.inFlight = d.inFlight ∧
      d'.drainOutcome = if d.inFlight = 0 then .drained else .timedOut d.inFlight := by
  rw [stepCaller?, hagenda] at h
  obtain rfl := Option.some.inj h
  exact ⟨rfl, rfl, rfl⟩

theorem move_of_drain_again {t t' : Drain} {rest : List Chore} (hagenda : d.agenda = .drain t :: rest)
    (hagain : t.look d.backoff d.handled d.inFlight = .again t') :
    d.stepCaller? bh = some { d with agenda := .pump 0 :: .drain t' :: rest } := by
  have hdrain : ({ d with agenda := rest } : Dispatcher W B V).drain t =
      ({ d with agenda := rest } : Dispatcher W B V).plan [.pump 0, .drain t'] := by
    unfold drain
    split
    · next outcome hdone => exact absurd (hdone.symm.trans hagain) (by simp)
    · next t'' hagain' => rw [Drain.Next.again.inj (hagain'.symm.trans hagain)]
  rw [stepCaller?, hagenda]
  exact congrArg some hdrain

/-- **An act within a first shutdown takes it on through its stages**, when the caller's code returns. -/
theorem Stopping.act (h : Stopping tail d) (hb : Booked d) (htail : ∀ chore ∈ tail, chore = .letGo) {a : Act W B V}
    (ha : a.within = true) (hlingers : d.lingers a = true) (hreturns : d.returns bh a = true)
    (hact : d.act? bh a = some d') : Stopping tail d' ∧ Booked d' := by
  obtain ⟨hturnover, hgone⟩ := turnover_of_within hb ha hlingers hact
  have hb' := hb.turnover hturnover hgone
  refine ⟨?_, hb'⟩
  rcases agenda_of_returns hb ha hlingers hreturns hact with ⟨rfl, chore, rest, hagenda, hmoves⟩ | ⟨-, hsame, houtcome⟩
  · obtain ⟨planned, hfollows, hagenda'⟩ := hmoves.agenda
    cases h with
    | draining front t hfront hdraining =>
      rw [hdraining] at hagenda
      cases front with
      | nil =>
        rcases drain_of_move hdraining hact with ⟨t', hagain⟩ | ⟨hover, hin, hcounted⟩
        · exact .draining [.pump 0] t' (by simp [forces]) hagain
        · exact .looked hover (hb'.truthful (by rw [hcounted, hin]))
      | cons first front =>
        obtain ⟨rfl, rfl⟩ := List.cons.inj hagenda
        obtain ⟨hfirst, hfront⟩ := List.forall_mem_cons.1 hfront
        exact .draining (planned ++ front) t (List.forall_mem_append.2 ⟨hfollows.forces hfirst, hfront⟩)
          (hagenda'.trans (List.append_assoc ..).symm)
    | looked hlooked htruthful =>
      rw [hlooked] at hagenda
      obtain ⟨rfl, rfl⟩ := List.cons.inj hagenda
      cases hfollows with
      | timedOut => exact .forcing [.force d.registry, .pump 0] (by simp [forces]) hagenda'
      | drained =>
        exact .closing closers (by simp [closers, closes]) hagenda'
          (htruthful.turnover hb' hturnover (hmoves.outcome_eq (by simp) (by simp)))
    | forcing front hfront hforcing =>
      rw [hforcing] at hagenda
      cases front with
      | nil =>
        obtain ⟨hover, hin, hcounted⟩ := recount_of_move hforcing hact
        exact .closing closers (by simp [closers, closes]) hover (hb'.truthful (by rw [hcounted, hin]))
      | cons first front =>
        obtain ⟨rfl, rfl⟩ := List.cons.inj hagenda
        obtain ⟨hfirst, hfront⟩ := List.forall_mem_cons.1 hfront
        exact .forcing (planned ++ front) (List.forall_mem_append.2 ⟨hfollows.forces hfirst, hfront⟩)
          (hagenda'.trans (List.append_assoc ..).symm)
    | closing front hfront hclosing htruthful =>
      rw [hclosing] at hagenda
      cases front with
      | nil =>
        -- letting go is all that may stand behind the shutdown
        have hletGo := htail chore (by rw [show tail = chore :: rest from hagenda]; exact List.mem_cons_self ..)
        have hstays := of_decide_eq_true hlingers
        rw [hclosing, hagenda, hletGo] at hstays
        exact absurd rfl hstays
      | cons first front =>
        obtain ⟨rfl, rfl⟩ := List.cons.inj hagenda
        obtain ⟨hfirst, hfront⟩ := List.forall_mem_cons.1 hfront
        exact .closing (planned ++ front) (List.forall_mem_append.2 ⟨hfollows.closes hfirst, hfront⟩)
          (hagenda'.trans (List.append_assoc ..).symm)
          (htruthful.turnover hb' hturnover (hmoves.outcome_of_closes hfirst))
  · cases h with
    | draining front t hfront hdraining => exact .draining front t hfront (hsame.trans hdraining)
    | looked hlooked htruthful => exact .looked (hsame.trans hlooked) (htruthful.turnover hb' hturnover houtcome)
    | forcing front hfront hforcing => exact .forcing front hfront (hsame.trans hforcing)
    | closing front hfront hclosing htruthful =>
      exact .closing front hfront (hsame.trans hclosing) (htruthful.turnover hb' hturnover houtcome)

theorem Stopping.run (h : Stopping tail d) (hb : Booked d) (htail : ∀ chore ∈ tail, chore = .letGo) {as : List (Act W B V)}
    (has : ∀ a ∈ as, a.within = true) (hlingers : Along bh (fun d a => d.lingers a = true) d as)
    (hreturns : Along bh (fun d a => d.returns bh a = true) d as) (hrun : d.run? bh as = some d') :
    Stopping tail d' ∧ Booked d' := by
  induction as generalizing d with
  | nil =>
    obtain rfl := Option.some.inj hrun
    exact ⟨h, hb⟩
  | cons a as ih =>
    obtain ⟨d₁, hact, hrun⟩ := Option.bind_eq_some_iff.1 hrun
    obtain ⟨hlinger, hlingers⟩ := hlingers
    obtain ⟨hreturn, hreturns⟩ := hreturns
    rw [hact] at hlingers hreturns
    obtain ⟨hnext, hb₁⟩ := h.act hb htail (has a (List.mem_cons_self ..)) hlinger hreturn hact
    exact ih hnext hb₁ (fun a ha => has a (List.mem_cons_of_mem _ ha)) hlingers hreturns hrun

/-- **A shutdown that is over says what is true.** -/
theorem Stopping.truthful (h : Stopping tail d) (hover : d.agenda = tail) : Truthful d := by
  cases h with
  | closing front hfront hclosing htruthful => exact htruthful
  | draining front t hfront hagenda | looked hagenda | forcing front hfront hagenda =>
    have hlength := congrArg List.length (hagenda.symm.trans hover)
    simp only [List.length_append, List.length_cons] at hlength
    omega

/-! ## Every shutdown -/

/-- A shutdown that is not the first returns at once, and says that no task is left. -/
theorem shutdown_of_stopped (h : d.stopped = true) : d.shutdown = { d with drainOutcome := .drained } := by
  rw [shutdown, if_pos h]

/-- **What a shutdown returns.**  Take any run of a dispatcher with a gate of its own, however its tasks behave and whatever
the caller's code unwinds out of, up to any call of a shutdown.  If it is the first and returns, then no task is in if it
says so, and at most as many are in as it says otherwise.  If it is not the first, it returns at once and says that no task
is in; so what it says is true just if that is so. -/
theorem outcome_of_shutdown {world : W} {s : Settings} {processors : Nat} {checkpoints : Bool} {d₀ d : Dispatcher W B V}
    (hstart : start world s processors .fresh checkpoints = .ok d₀) {as : List (Act W B V)}
    (has : ∀ a ∈ as, a.keepsGate = true) (hrun : d₀.run? bh as = some d) (hidle : d.agenda = []) :
    (d.stopped = false → ∀ (bs : List (Act W B V)) (d' : Dispatcher W B V), (∀ a ∈ bs, a.within = true) →
      Along bh (fun d a => d.returns bh a = true) d.shutdown bs → d.shutdown.run? bh bs = some d' → d'.agenda = [] →
      Truthful d' ∧ (d'.drainOutcome = .drained → d'.registry = [])) ∧
    (d.stopped = true → d.shutdown.agenda = [] ∧ d.shutdown.drainOutcome = .drained ∧
      d.shutdown.inFlight = d.registry.length ∧ (Truthful d.shutdown ↔ d.registry = [])) := by
  obtain ⟨hb₀, hsteady₀⟩ := booked_start hstart
  obtain ⟨hb, -⟩ := hb₀.run has (along_lingers hsteady₀ as) hrun
  have hsteady := hsteady₀.run hrun
  refine ⟨fun hfirst bs d' hbs hreturns hcall hover => ?_, fun hstopped => ?_⟩
  · have hbegins : d.act? bh .shutdown = some d.shutdown := rfl
    obtain ⟨hb₁, -⟩ := hb.act rfl rfl hbegins
    have hsteady₁ := hsteady.act hbegins
    obtain ⟨hend, hb'⟩ := (stopping_shutdown hidle hfirst).run hb₁ nofun hbs (along_lingers hsteady₁ bs) hreturns hcall
    have htruthful := hend.truthful hover
    exact ⟨htruthful, fun hdrained => hb'.registry_eq_nil (htruthful.drained hdrained)⟩
  · rw [shutdown_of_stopped hstopped]
    refine ⟨hidle, rfl, hb.count, fun htruthful => hb.registry_eq_nil (htruthful.drained rfl),
      fun hnone => ⟨fun _ => ?_, nofun⟩⟩
    show d.inFlight = 0
    rw [hb.count, hnone]
    rfl

/-- The time of the first shutdown is up while a solo runs, so it ends with one task left; the second one says that none is
left, while the solo still runs. -/
theorem outcome_of_shutdown_hasty : ∃ d₀ d₁ d₂, hastyRoom = .ok d₀ ∧ (∀ a ∈ soloActs, a.keepsGate = true) ∧
    d₀.run? Rehearsal.behaviour soloActs = some d₁ ∧ d₁.agenda = [] ∧ d₁.stopped = false ∧
    d₁.shutdown.run? Rehearsal.behaviour (List.replicate 13 (.move .caller)) = some d₂ ∧ d₂.agenda = [] ∧
    Truthful d₂ ∧ d₂.drainOutcome = .timedOut 1 ∧ d₂.stopped = true ∧ d₂.registry = [0] ∧
    d₂.shutdown.drainOutcome = .drained ∧ ¬ Truthful d₂.shutdown := by
  have hends : (hastyRoom.toOption.bind fun d₀ => (d₀.run? Rehearsal.behaviour soloActs).bind fun d₁ =>
      (d₁.shutdown.run? Rehearsal.behaviour (List.replicate 13 (.move .caller))).map fun d₂ =>
        decide ((d₁.agenda = [] ∧ d₁.stopped = false ∧ d₂.agenda = [] ∧ d₂.drainOutcome = .timedOut 1 ∧
          d₂.stopped = true ∧ d₂.registry = [0]) ∧
          Along Rehearsal.behaviour (fun d a => d.returns Rehearsal.behaviour a = true) d₁.shutdown
            (List.replicate 13 (.move .caller)))) = some true := by
    decide +kernel
  obtain ⟨d₀, hroom, hends⟩ := Option.bind_eq_some_iff.1 hends
  obtain ⟨d₁, hrun₁, hends⟩ := Option.bind_eq_some_iff.1 hends
  obtain ⟨d₂, hrun₂, hends⟩ := Option.map_eq_some_iff.1 hends
  obtain ⟨⟨hidle, hfirst, hover, houtcome, hstopped, hregistry⟩, hreturns⟩ := of_decide_eq_true hends
  have hstart := eq_ok_of_toOption hroom
  have hgate : ∀ a ∈ soloActs, a.keepsGate = true := fun a ha => (soloActs_returns a ha).2
  obtain ⟨hcalled, -⟩ := outcome_of_shutdown hstart hgate hrun₁ hidle
  obtain ⟨htruthful, -⟩ := hcalled hfirst _ d₂ (callerActs_within 13) hreturns hrun₂ hover
  -- the second call comes behind the first one
  have hrun : d₀.run? Rehearsal.behaviour (soloActs ++ .shutdown :: List.replicate 13 (.move .caller)) = some d₂ := by
    rw [run?_append, hrun₁]
    exact hrun₂
  have hgate₂ : ∀ a ∈ soloActs ++ .shutdown :: List.replicate 13 (.move .caller), a.keepsGate = true := by
    intro a ha
    rcases List.mem_append.1 ha with ha | ha
    · exact hgate a ha
    · rcases List.mem_cons.1 ha with rfl | ha
      · rfl
      · rw [List.eq_of_mem_replicate ha]
        rfl
  obtain ⟨-, hrecalled⟩ := outcome_of_shutdown hstart hgate₂ hrun hover
  obtain ⟨-, hdrained, -, htrue⟩ := hrecalled hstopped
  exact ⟨d₀, d₁, d₂, hstart, hgate, hrun₁, hidle, hfirst, hrun₂, hover, htruthful, houtcome, hstopped, hregistry, hdrained,
    fun h => by cases hregistry.symm.trans (htrue.1 h)⟩

/-- **A shutdown that is not the first can end drained while a task is in**: a solo runs when the time of the first shutdown
is up, and still runs behind the second. -/
theorem drained_while_in : ∃ d₀ d, hastyRoom = .ok d₀ ∧ d₀.run? Rehearsal.behaviour
    (soloActs ++ .shutdown :: List.replicate 13 (.move .caller) ++ [.shutdown]) = some d ∧ d.agenda = [] ∧
    d.drainOutcome = .drained ∧ d.inFlight = 1 ∧ d.registry = [0] ∧
    d.cells.map Cell.stage = [.running, .done] := by
  have hends : (hastyRoom.toOption.bind fun d₀ => (d₀.run? Rehearsal.behaviour
      (soloActs ++ .shutdown :: List.replicate 13 (.move .caller) ++ [.shutdown])).map fun d =>
        decide (d.agenda = [] ∧ d.drainOutcome = .drained ∧ d.inFlight = 1 ∧ d.registry = [0] ∧
          d.cells.map Cell.stage = [.running, .done])) = some true := by
    decide +kernel
  obtain ⟨d₀, hroom, hends⟩ := Option.bind_eq_some_iff.1 hends
  obtain ⟨d, hrun, hends⟩ := Option.map_eq_some_iff.1 hends
  exact ⟨d₀, d, eq_ok_of_toOption hroom, hrun, of_decide_eq_true hends⟩

end Dispatcher
end BitmapWorks
