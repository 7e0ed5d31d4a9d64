import BitmapWorks.Proofs.Dispatcher.Register
/-!
# Closing — sinks behind a shutdown

Once a gate of its own has seen a shutdown begin, a dispatcher lets nobody in, and it drops the sink of each task that was
in (`Silenced`).  A task that is prepared behind that is settled before its call returns, and was never called
(`TurnedAway`).
-/
namespace BitmapWorks

variable {W B V : Type} {bh : Behaviour W B V}

/-! ## The gate -/

namespace Admission

theorem enter_keeps (a : Admission) : a.enter.2.gate.stopping = a.gate.stopping ∧ a.enter.2.deaf = a.deaf := by
  unfold enter
  split
  · exact ⟨rfl, rfl⟩
  all_goals
    rw [Gate.enter_eq]
    cases hstopping : a.gate.stopping <;> simp [hstopping]

theorem enter_of_stopping {a : Admission} (h : a.gate.stopping = true) : a.enter.1 = false := by
  unfold enter
  split
  · rfl
  all_goals rw [Gate.enter_eq, h, if_pos rfl]

theorem stopping_beginShutdown {a : Admission} (h : a.deaf = false) : a.beginShutdown.gate.stopping = true := by
  rw [beginShutdown, h]
  rfl

theorem beginShutdown_keeps (a : Admission) :
    (a.gate.stopping = true → a.beginShutdown.gate.stopping = true) ∧ a.beginShutdown.deaf = a.deaf := by
  unfold beginShutdown
  split
  · exact ⟨id, rfl⟩
  · exact ⟨fun _ => rfl, rfl⟩

end Admission

namespace Dispatcher

variable {d d' d₁ : Dispatcher W B V} {ids : List Nat} {id : Nat} {c : Cell B V}

/-- **A shutdown that has begun goes on**, and a gate that hears of shutdowns keeps hearing of them. -/
theorem Deal.gate {a : Act W B V} (h : Deal bh d d' a) (ha : a.keepsGate = true) :
    (d.admission.gate.stopping = true → d'.admission.gate.stopping = true) ∧ d'.admission.deaf = d.admission.deaf := by
  have hkeep : d'.admission = d.admission →
      (d.admission.gate.stopping = true → d'.admission.gate.stopping = true) ∧ d'.admission.deaf = d.admission.deaf :=
    fun heq => by rw [heq]; exact ⟨id, rfl⟩
  have henter : d'.admission = d.admission.enter.2 →
      (d.admission.gate.stopping = true → d'.admission.gate.stopping = true) ∧ d'.admission.deaf = d.admission.deaf :=
    fun heq => by
      obtain ⟨hstopping, hdeaf⟩ := d.admission.enter_keeps
      rw [heq, hstopping, hdeaf]
      exact ⟨id, rfl⟩
  cases h with
  | idle hidles hasked hworld hcells hl | stir hc halike hcells hworld hl | work hc hbody hrun hcells hworld hl
  | credit hc hclaimed hcells hworld hl | take hc hcells hworld hl | poll hc hcells hworld hl | forget hc hcells hworld hl
  | releaseValue hworld hcells hl | surround hworld hcells hl => exact hkeep hl.admission
  | @conclude id c b outcome w settlement told hc hbody hclaimed hagenda hcloses hputs hcells hregistry hadmission =>
    rw [hadmission]
    cases c.entered <;> exact ⟨fun h => h, rfl⟩
  | reject hcause =>
    rcases hcause with ⟨-, hadmission⟩ | ⟨-, -, -, hadmission⟩
    · exact hkeep hadmission
    · exact henter hadmission
  | letIn hprepare hopen hcells hworld hregistry hadmission => exact henter hadmission
  | shutdown hworld hcells hregistry hadmission =>
    rw [hadmission]
    exact d.admission.beginShutdown_keeps
  | regate => cases ha

theorem deaf_start {world : W} {s : Settings} {processors : Nat} {checkpoints : Bool}
    (h : start world s processors .fresh checkpoints = .ok d) : d.admission.deaf = false := by
  unfold start at h
  split at h
  · cases h
  · cases h
    rfl

theorem deaf_of_run (hbh : bh.Returns) (hregular : d.Regular bh) {as : List (Act W B V)}
    (has : ∀ a ∈ as, a.returns = true ∧ a.keepsGate = true) (hrun : d.run? bh as = some d') :
    d'.admission.deaf = d.admission.deaf := by
  induction as generalizing d with
  | nil =>
    obtain rfl := Option.some.inj hrun
    rfl
  | cons a as ih =>
    obtain ⟨d₁, hact, hrun⟩ := Option.bind_eq_some_iff.1 hrun
    obtain ⟨ha, hgate⟩ := has a (List.mem_cons_self ..)
    have hlater := ih (hregular.act hbh ha hact) (fun a ha => has a (List.mem_cons_of_mem _ ha)) hrun
    exact hlater.trans ((deal_of_act hbh hregular.held hregular.sound hact).gate hgate).2

/-! ## Tasks that are in -/

theorem Deal.silent {a : Act W B V} (h : Deal bh d d' a) (hstopping : d.admission.gate.stopping = true)
    (hs : Enrolled d ids) (hid : id ∈ ids) : d'.outcomes.filter (·.1 = id) = d.outcomes.filter (·.1 = id) := by
  cases h with
  | idle hidles hasked hworld hcells hl | stir hc halike hcells hworld hl | work hc hbody hrun hcells hworld hl
  | credit hc hclaimed hcells hworld hl | take hc hcells hworld hl | poll hc hcells hworld hl | forget hc hcells hworld hl
  | releaseValue hworld hcells hl | surround hworld hcells hl => rw [hl.outcomes]
  | @conclude id' c b outcome w settlement told hc hbody hclaimed hagenda hcloses hputs hcells hregistry hadmission
      houtcomes =>
    by_cases hsame : id' = id
    · subst hsame
      have hlasts : d.lasts id' = true := by rw [lasts, hc, Option.any_some, hbody, Option.isSome_some]
      have hentered : c.entered = true := by
        rw [hs.entered id' c hc, hs.registry]
        exact List.mem_filter.2 ⟨hid, hlasts⟩
      have htold := hputs.told_eq
      rw [hentered, hstopping] at htold
      rw [houtcomes, htold]
      rfl
    · rw [houtcomes]
      cases told <;> simp [hsame]
  | reject hcause hcells hworld hregistry houtcomes => rw [houtcomes]
  | letIn hprepare hopen hcells hworld hregistry hadmission houtcomes => rw [houtcomes]
  | shutdown hworld hcells hregistry hadmission houtcomes => rw [houtcomes]
  | regate hworld hcells hregistry hadmission houtcomes => rw [houtcomes]

/-- What holds behind a shutdown of a gate of its own. -/
structure Shut (bh : Behaviour W B V) (d : Dispatcher W B V) (ids : List Nat) : Prop where
  regular : d.Regular bh
  stopping : d.admission.gate.stopping = true
  enrolled : Enrolled d ids

theorem admits_of_stopping (bh : Behaviour W B V) (hstopping : d.admission.gate.stopping = true) (a : Act W B V) :
    d.admits bh a = none := by
  cases a with
  | spawn b sink =>
    unfold admits
    dsimp only
    split
    · rfl
    · rw [Admission.enter_of_stopping hstopping]
      rfl
  | _ => rfl

theorem Shut.act (hbh : bh.Returns) (h : d.Shut bh ids) {a : Act W B V} (ha : a.returns = true)
    (hgate : a.keepsGate = true) (hact : d.act? bh a = some d') : d'.Shut bh ids := by
  have hdeal := deal_of_act hbh h.regular.held h.regular.sound hact
  have henrolled := hdeal.enrolled hgate h.enrolled
  rw [admits_of_stopping bh h.stopping, Option.toList_none, List.append_nil] at henrolled
  exact ⟨h.regular.act hbh ha hact, (hdeal.gate hgate).1 h.stopping, henrolled⟩

/-- **Behind a shutdown the tasks that were in are not settled**, throughout a run. -/
theorem Shut.run (hbh : bh.Returns) (h : d.Shut bh ids) {as : List (Act W B V)}
    (has : ∀ a ∈ as, a.returns = true ∧ a.keepsGate = true) (hrun : d.run? bh as = some d') :
    d'.Shut bh ids ∧ ∀ id ∈ ids, d'.outcomes.filter (·.1 = id) = d.outcomes.filter (·.1 = id) := by
  induction as generalizing d with
  | nil =>
    obtain rfl := Option.some.inj hrun
    exact ⟨h, fun _ _ => rfl⟩
  | cons a as ih =>
    obtain ⟨d₂, hact, hrun⟩ := Option.bind_eq_some_iff.1 hrun
    obtain ⟨ha, hgate⟩ := has a (List.mem_cons_self ..)
    obtain ⟨hshut, hlater⟩ := ih (h.act hbh ha hgate hact) (fun a ha => has a (List.mem_cons_of_mem _ ha)) hrun
    refine ⟨hshut, fun id hid => (hlater id hid).trans ?_⟩
    exact (deal_of_act hbh h.regular.held h.regular.sound hact).silent h.stopping h.enrolled hid

/-- What becomes of a task that was let in before a shutdown: its sink is not notified from then on; and if it was still in
and is done now, its tally was flushed, it was cleaned up, and its sink was dropped. -/
structure Silenced (d₁ d : Dispatcher W B V) (id : Nat) : Prop where
  outcomes : d.outcomes.filter (·.1 = id) = d₁.outcomes.filter (·.1 = id)
  closed : id ∈ d₁.registry → ∀ c, d.cells[id]? = some c → c.stage = .done → ∃ tally asked earlier,
    (asked = [] ∨ asked = [.asked id]) ∧
      d.historyOf id = .discarded id :: (asked ++ .cleanedUp id :: .flushed id tally :: earlier)

theorem Enrolled.not_settled (h : Enrolled d ids) (hregular : d.Regular bh) (hid : id ∈ d.registry)
    (outcome : Except Fault V) : .settled id outcome ∉ d.history := by
  intro hmem
  rw [h.registry] at hid
  obtain ⟨c, hc, hdone⟩ := (lasts_iff (hregular.sound id)).1 (List.mem_filter.1 hid).2
  obtain ⟨calls, ending, hstory, htold, -, -⟩ := hregular.told id c hc
  have hmem' : .settled id outcome ∈ (d.strand id).story := List.mem_filter.2 ⟨hmem, decide_eq_true rfl⟩
  rw [hstory] at hmem'
  cases htold with
  | working => simp at hmem'
  | flushed => simp at hmem'
  | closed tally hstage => exact hdone hstage

theorem Enrolled.silenced (h₁ : Enrolled d₁ ids) (hregular₁ : d₁.Regular bh) (hregular : d.Regular bh)
    (houtcomes : d.outcomes.filter (·.1 = id) = d₁.outcomes.filter (·.1 = id)) : Silenced d₁ d id := by
  refine ⟨houtcomes, fun hin c hc hdone => ?_⟩
  obtain ⟨calls, ending, hstory, htold, -, -⟩ := hregular.told id c hc
  have hclaimed := ((hregular.sound id).staged c hc).done hdone
  cases htold with
  | working hopen => rw [hclaimed] at hopen; cases hopen
  | flushed tally hwon hnot => exact absurd hdone hnot
  | @closed outcome asked event tally hstage hending hevent =>
    rcases hevent with rfl | rfl
    · -- a notice would be one of before the shutdown
      have hmem : .settled id outcome ∈ (d.strand id).story := by rw [hstory]; exact List.mem_cons_self ..
      have hnew : (id, outcome) ∈ d.outcomes.filter (·.1 = id) :=
        List.mem_filter.2 ⟨mem_outcomes.2 (List.mem_filter.1 hmem).1, decide_eq_true rfl⟩
      rw [houtcomes] at hnew
      exact absurd (mem_outcomes.1 (List.mem_filter.1 hnew).1) (h₁.not_settled hregular₁ hin outcome)
    · refine ⟨tally, asked, calls.map (.called id) ++ [.prepared id], ?_, hstory.trans ?_⟩
      · cases hending with
        | fault => exact .inl rfl
        | result => exact .inr rfl
      · rw [List.cons_append, List.append_assoc]
        rfl

/-! ## Tasks that come too late -/

def Outside (d : Dispatcher W B V) (id : Nat) : Prop :=
  ∃ c, d.cells[id]? = some c ∧ c.entered = false ∧ (c.body = none → ∃ outcome, (id, outcome) ∈ d.outcomes)

theorem Outside.same (h : Outside d id) (hcell : d'.cells[id]? = d.cells[id]?) (houtcomes : d'.outcomes = d.outcomes) :
    Outside d' id := by
  obtain ⟨c, hc, hentered, hsettled⟩ := h
  refine ⟨c, hcell.trans hc, hentered, ?_⟩
  rw [houtcomes]
  exact hsettled

theorem Outside.set (h : Outside d id) {id' : Nat} {c c' : Cell B V} (hc : d.cells[id']? = some c)
    (hcells : d'.cells = d.cells.set id' c') (hentered : c'.entered = c.entered)
    (hbody : c'.body = none → c.body = none) (houtcomes : d'.outcomes = d.outcomes) : Outside d' id := by
  by_cases hid : id' = id
  · subst hid
    obtain ⟨c₀, hc₀, hout, hsettled⟩ := h
    obtain rfl := Option.some.inj (hc.symm.trans hc₀)
    refine ⟨c', ?_, hentered.trans hout, fun hnone => ?_⟩
    · rw [hcells, List.getElem?_set_self (List.getElem?_eq_some_iff.1 hc).1]
    · rw [houtcomes]
      exact hsettled (hbody hnone)
  · exact h.same (by rw [hcells, List.getElem?_set_ne hid]) houtcomes

theorem Outside.concat (h : Outside d id) {c : Cell B V} (hcells : d'.cells = d.cells ++ [c])
    (houtcomes : d'.outcomes = d.outcomes) : Outside d' id := by
  have hid : id < d.cells.length := by
    obtain ⟨c₀, hc₀, -⟩ := h
    exact (List.getElem?_eq_some_iff.1 hc₀).1
  exact h.same (by rw [hcells, List.getElem?_append_left hid]) houtcomes

/-- **A task that is not in is settled when it is concluded.** -/
theorem Deal.outside {a : Act W B V} (h : Deal bh d d' a) (hs : Outside d id) : Outside d' id := by
  cases h with
  | idle hidles hasked hworld hcells hl => exact hs.same (by rw [hcells]) hl.outcomes
  | stir hc halike hcells hworld hl =>
    exact hs.set hc hcells halike.entered (fun hnone => halike.body ▸ hnone) hl.outcomes
  | work hc hbody hrun hcells hworld hl => exact hs.set hc hcells rfl (fun hnone => by cases hnone) hl.outcomes
  | credit hc hclaimed hcells hworld hl => exact hs.set hc hcells rfl (fun hnone => hnone) hl.outcomes
  | take hc hcells hworld hl | poll hc hcells hworld hl | forget hc hcells hworld hl =>
    exact hs.set hc hcells rfl (fun hnone => hnone) hl.outcomes
  | releaseValue hworld hcells hl | surround hworld hcells hl => exact hs.same (by rw [hcells]) hl.outcomes
  | reject hcause hcells hworld hregistry houtcomes => exact hs.concat hcells houtcomes
  | letIn hprepare hopen hcells hworld hregistry hadmission houtcomes => exact hs.concat hcells houtcomes
  | shutdown hworld hcells hregistry hadmission houtcomes | regate hworld hcells hregistry hadmission houtcomes =>
    exact hs.same (by rw [hcells]) houtcomes
  | @conclude id' c b outcome w settlement told hc hbody hclaimed hagenda hcloses hputs hcells hregistry hadmission
      houtcomes =>
    obtain ⟨c₀, hc₀, hout, hsettled⟩ := hs
    by_cases hid : id' = id
    · subst hid
      obtain rfl := Option.some.inj (hc.symm.trans hc₀)
      have htold := hputs.told_eq
      rw [hout, Bool.false_and] at htold
      refine ⟨c.close settlement, ?_, rfl, fun _ => ⟨outcome, ?_⟩⟩
      · rw [hcells, List.getElem?_set_self (List.getElem?_eq_some_iff.1 hc).1]
      · rw [houtcomes, htold]
        exact List.mem_cons_self ..
    · refine ⟨c₀, by rw [hcells, List.getElem?_set_ne hid, hc₀], hout, fun hnone => ?_⟩
      obtain ⟨outcome', hmem⟩ := hsettled hnone
      exact ⟨outcome', by rw [houtcomes]; exact List.mem_append_right _ hmem⟩

theorem Outside.run (hbh : bh.Returns) (hregular : d.Regular bh) (h : Outside d id) {as : List (Act W B V)}
    (has : ∀ a ∈ as, a.returns = true) (hrun : d.run? bh as = some d') : Outside d' id := by
  induction as generalizing d with
  | nil =>
    obtain rfl := Option.some.inj hrun
    exact h
  | cons a as ih =>
    obtain ⟨d₂, hact, hrun⟩ := Option.bind_eq_some_iff.1 hrun
    exact ih (hregular.act hbh (has a (List.mem_cons_self ..)) hact)
      ((deal_of_act hbh hregular.held hregular.sound hact).outside h) (fun a ha => has a (List.mem_cons_of_mem _ ha)) hrun

/-- How a task ends that is prepared behind a shutdown: it is done and was never in, it was cleaned up and settled with the
shutdown, and never called. -/
structure TurnedAway (d : Dispatcher W B V) (id : Nat) : Prop where
  done : ∃ c, d.cells[id]? = some c ∧ c.stage = .done
  out : id ∉ d.registry
  history : ∃ tally, d.historyOf id =
    [.settled id (.error .shuttingDown), .cleanedUp id, .flushed id tally, .prepared id]

/-- **A task that is prepared behind a shutdown is turned away** in its call, which makes two moves at most and does not
wait. -/
theorem Shut.turnedAway (hbh : bh.Returns) (h : d.Shut bh ids) (hidle : d.agenda = []) {b : B} {sink : Sink}
    (hsink : sink ≠ .callback true) (hprepare : (bh.prepare d.world b).1 = .ok ()) {as : List (Act W B V)}
    (has : ∀ a ∈ as, a.within = true) (hrun : (d.spawn bh b sink).run? bh as = some d') :
    as.countP Act.isCaller ≤ 2 ∧ (d'.agenda ≠ [] → d'.act? bh (.move .caller) ≠ none) ∧
    (d'.agenda = [] → TurnedAway d' d.cells.length) := by
  have hspawn : d.act? bh (.spawn b sink) = some (d.spawn bh b sink) := rfl
  have hreturns : ∀ a ∈ Act.spawn b sink :: as, a.returns = true := by
    intro a ha
    rcases List.mem_cons.1 ha with rfl | ha
    · exact decide_eq_true hsink
    · exact (returns_of_within (has a ha)).1
  have hregular₁ := h.regular.act hbh (hreturns _ (List.mem_cons_self ..)) hspawn
  have hregular' := hregular₁.run hbh (fun a ha => (returns_of_within (has a ha)).1) hrun
  have hagenda := agenda_of_rejected hidle (admits_of_stopping bh h.stopping (.spawn b sink))
  have hrefuses := along_refuses hbh hregular₁ d.cells.length (by simp [hagenda]) has
  have hvisiting := (h.enrolled.visiting hidle b sink).run hbh hregular₁ has hrun
  obtain ⟨huntouched, hcount⟩ := (h.enrolled.visiting hidle b sink).run_untouched hbh hregular₁
    (untouched_spawn h.regular.held b hsink) has hrefuses hrun
  rw [hagenda] at hcount
  refine ⟨Nat.le_of_add_right_le hcount, hvisiting.act?_ne_none huntouched, fun hover => ?_⟩
  have houtside : Outside (d.spawn bh b sink) d.cells.length := by
    have hdeal : Deal bh d (d.spawn bh b sink) (.spawn b sink) := deal_spawn b sink
    cases hdeal with
    | idle hidles => cases hidles
    | reject hcause hcells =>
      exact ⟨_, by rw [hcells, List.getElem?_concat_length], rfl, fun hnone => by cases hnone⟩
    | letIn hprepare hopen =>
      rw [Admission.enter_of_stopping h.stopping] at hopen
      cases hopen
  obtain ⟨c, hc, -, hsettled⟩ := houtside.run hbh hregular₁ (fun a ha => (returns_of_within (has a ha)).1) hrun
  have hdone := (hregular'.poised _ _ hc).done (hregular'.sound _) hc (hvisiting.strand_chores.trans hover)
    huntouched.1 huntouched.2
  have hbody := ((hregular'.sound _).staged c hc).body.2 hdone
  -- the note of the call bars the task, and offers the shutdown first
  have hnone : d.cells[d.cells.length]? = none := List.getElem?_eq_none (Nat.le_refl _)
  have hnote : d.note bh d.cells.length (.spawn b sink) = .bar (some .shuttingDown) := by
    rw [note, if_pos rfl, hprepare, Admission.enter_of_stopping h.stopping]
    rfl
  have hwhole : d.run? bh (.spawn b sink :: as) = some d' := hrun
  obtain ⟨-, -, hruns⟩ := weave_run hbh h.regular.held hreturns hwhole
  have hlife := lives_of_run hbh h.regular.held h.regular.sound hnone hreturns hwhole hc
  have hfault := (hruns d.cells.length).fault
  rw [notes, hnote] at hlife hfault
  refine ⟨⟨c, hc, hdone⟩, fun hmem => ?_, ?_⟩
  · obtain ⟨hshut, -⟩ := (h.act hbh (hreturns _ (List.mem_cons_self ..)) rfl hspawn).run hbh
      (fun a ha => returns_of_within (has a ha)) hrun
    rw [hshut.enrolled.registry] at hmem
    exact absurd (h.enrolled.known _ (List.mem_filter.1 hmem).1) (Nat.lt_irrefl _)
  · have hshutting : c.fault = some .shuttingDown := by
      have hcell : (d.strand d.cells.length).cell = none := hnone
      have hcell' : (d'.strand d.cells.length).cell = some c := hc
      rw [hcell, hcell'] at hfault
      simpa [Note.bar] using hfault
    obtain ⟨outcome, hmem⟩ := hsettled hbody
    exact hlife.of_barred ⟨_, List.mem_cons_self .., rfl⟩ hdone (((hregular'.sound _).staged c hc).done hdone) hshutting
      (List.mem_filter.2 ⟨mem_outcomes.1 hmem, decide_eq_true rfl⟩)

end Dispatcher
end BitmapWorks
