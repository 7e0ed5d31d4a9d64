import BitmapWorks.Proofs.Dispatcher.Closing
/-!
# Forcing — tasks that no worker has begun when the time is up

When the time of a drain is up, the caller looks at each task that is in and forces those that no worker has begun
(`Forcing`).  A task is forced just if it does not run before that (`fate_of_run`); behind the forcing the tasks that are in
are those that run, and the shutdown ends with their number (`shutdown_of_run`).
-/
namespace BitmapWorks

variable {W B V : Type} {bh : Behaviour W B V}

/-! ## The fate of a task -/

section

variable {id : Nat} {n : Note} {s s' : Strand B V} {c c' : Cell B V}

/-- **A task that waits in the queue** goes on waiting, or is taken up, or is forced. -/
theorem Strand.Step.of_queued (h : Strand.Step bh id n s s') (hpoised : Poised id c s) (hc : s.cell = some c)
    (hqueued : c.stage = .queued) (hidle : s.chores = []) : ∃ c', s'.cell = some c' ∧
      ((c'.stage = .queued ∧ c'.forced = c.forced ∧ s'.chores = []) ∨ (c'.stage = .running ∧ c'.forced = c.forced) ∨
        (c'.stage = .completing ∧ c'.forced = true)) := by
  cases h with
  | reject | letIn | spread => cases hc
  | turn es hturn =>
    obtain rfl := Option.some.inj hc
    obtain ⟨hforced, -⟩ := hturn.keeps
    rcases hturn.tale.2.2 with hsame | ⟨-, hrunning⟩
    · exact ⟨_, rfl, .inl ⟨hsame.trans hqueued, hforced, hidle⟩⟩
    · exact ⟨_, rfl, .inr (.inl ⟨hrunning, hforced⟩)⟩
  | promise =>
    obtain rfl := Option.some.inj hc
    exact ⟨_, rfl, .inl ⟨hqueued, rfl, hidle⟩⟩
  | force => exact ⟨_, rfl, .inr (.inr ⟨rfl, rfl⟩)⟩
  | receive => cases (hpoised.early hqueued).1
  | _ => cases hidle

theorem Strand.Step.forced_eq (h : Strand.Step bh id n s s') (hc : s.cell = some c) (hc' : s'.cell = some c')
    (hqueued : c.stage ≠ .queued) : c'.forced = c.forced := by
  cases h with
  | reject | letIn | spread => cases hc
  | turn es hturn =>
    obtain rfl := Option.some.inj hc
    obtain rfl := Option.some.inj hc'
    exact hturn.keeps.1
  | receive => rw [Option.some.inj (hc.symm.trans hc')]
  | force hstage =>
    obtain rfl := Option.some.inj hc
    exact absurd hstage hqueued
  | _ =>
    obtain rfl := Option.some.inj hc
    obtain rfl := Option.some.inj hc'
    rfl

/-- A task that has left the queue does not come back, and a task that has been taken up does not run again. -/
theorem Stage.Next.onward {stage stage' : Stage} (h : Stage.Next stage stage')
    (hchecked : stage ≠ .created ∧ stage ≠ .validating) (hqueued : stage ≠ .queued) : stage' ≠ .queued ∧ stage' ≠ .running := by
  cases h with
  | check => exact absurd rfl hchecked.1
  | reject | queue => exact absurd rfl hchecked.2
  | run => exact absurd rfl hqueued
  | complete | finish => simp

end

namespace Dispatcher

variable {d d' : Dispatcher W B V} {ids : List Nat} {id : Nat} {c : Cell B V}

def Sometime (bh : Behaviour W B V) (p : Dispatcher W B V → Prop) (d : Dispatcher W B V) : List (Act W B V) → Prop
  | [] => p d
  | a :: as => p d ∨ match d.act? bh a with
    | none => False
    | some d => Sometime bh p d as

theorem sometime_now {p : Dispatcher W B V → Prop} (h : p d) (as : List (Act W B V)) : Sometime bh p d as := by
  cases as with
  | nil => exact h
  | cons a as => exact .inl h

def Runs (id : Nat) (d : Dispatcher W B V) : Prop := (d.cells[id]?).map Cell.stage = some .running

/-- **A task that has left the queue is not forced any more**, and does not run unless it did so when it left. -/
theorem late_of_run (hbh : bh.Returns) (hregular : d.Regular bh) (hc : d.cells[id]? = some c) (hqueued : c.stage ≠ .queued)
    {as : List (Act W B V)} (has : ∀ a ∈ as, a.returns = true) (hrun : d.run? bh as = some d') :
    ∃ c', d'.cells[id]? = some c' ∧ c'.stage ≠ .queued ∧ c'.forced = c.forced ∧
      (c.stage ≠ .running → ¬ Sometime bh (Runs id) d as) := by
  induction as generalizing d c with
  | nil =>
    obtain rfl := Option.some.inj hrun
    refine ⟨c, hc, hqueued, rfl, fun hnot hruns => ?_⟩
    rw [Sometime, Runs, hc] at hruns
    exact hnot (Option.some.inj hruns)
  | cons a as ih =>
    obtain ⟨d₁, hact, hrun⟩ := Option.bind_eq_some_iff.1 hrun
    have ha := has a (List.mem_cons_self ..)
    obtain ⟨-, -, hleads⟩ := weave hbh hregular.held ha hact
    have hkept : ∃ c₁, d₁.cells[id]? = some c₁ ∧ c₁.stage ≠ .queued ∧ c₁.forced = c.forced ∧
        (c.stage ≠ .running → c₁.stage ≠ .running) := by
      rcases hleads id with ⟨-, heq⟩ | hstep
      · exact ⟨c, (congrArg Strand.cell heq).trans hc, hqueued, rfl, fun h => h⟩
      · obtain ⟨c₁, hc₁⟩ := hstep.cell_ne_none hc
        refine ⟨c₁, hc₁, ?_⟩
        rcases hstep.stage_next (hregular.sound id).staged hc hc₁ with hsame | hnext
        · rw [hsame]
          exact ⟨hqueued, hstep.forced_eq hc hc₁ hqueued, fun h => h⟩
        · obtain ⟨hout, hidle⟩ := hnext.onward ((hregular.sound id).staged c hc).checked hqueued
          exact ⟨hout, hstep.forced_eq hc hc₁ hqueued, fun _ => hidle⟩
    obtain ⟨c₁, hc₁, hqueued₁, hforced₁, hidle₁⟩ := hkept
    obtain ⟨c', hc', hqueued', hforced', hnever⟩ := ih (hregular.act hbh ha hact) hc₁ hqueued₁
      (fun a ha => has a (List.mem_cons_of_mem _ ha)) hrun
    refine ⟨c', hc', hqueued', hforced'.trans hforced₁, fun hnot hruns => ?_⟩
    rw [Sometime, hact] at hruns
    rcases hruns with hnow | hlater
    · rw [Runs, hc] at hnow
      exact hnot (Option.some.inj hnow)
    · exact hnever (hidle₁ hnot) hlater

/-- **A task that waits in the queue is forced just if it does not run**, unless it still waits. -/
theorem fate_of_run (hbh : bh.Returns) (hregular : d.Regular bh) (hc : d.cells[id]? = some c) (hqueued : c.stage = .queued)
    (hforced : c.forced = false) (hidle : (d.strand id).chores = []) {as : List (Act W B V)}
    (has : ∀ a ∈ as, a.returns = true) (hrun : d.run? bh as = some d') :
    ∃ c', d'.cells[id]? = some c' ∧ (c'.stage = .queued ∨ (c'.forced = true ↔ ¬ Sometime bh (Runs id) d as)) := by
  induction as generalizing d c with
  | nil =>
    obtain rfl := Option.some.inj hrun
    exact ⟨c, hc, .inl hqueued⟩
  | cons a as ih =>
    obtain ⟨d₁, hact, hrun⟩ := Option.bind_eq_some_iff.1 hrun
    have ha := has a (List.mem_cons_self ..)
    have has' : ∀ a ∈ as, a.returns = true := fun a ha => has a (List.mem_cons_of_mem _ ha)
    have hregular₁ := hregular.act hbh ha hact
    obtain ⟨-, -, hleads⟩ := weave hbh hregular.held ha hact
    -- it does not run yet
    have hsometime : Sometime bh (Runs id) d (a :: as) ↔ Sometime bh (Runs id) d₁ as := by
      rw [Sometime, hact]
      refine or_iff_right fun hnow => ?_
      rw [Runs, hc, Option.map_some, hqueued] at hnow
      cases hnow
    rw [hsometime]
    have hgoes : ∃ c₁, d₁.cells[id]? = some c₁ ∧
        ((c₁.stage = .queued ∧ c₁.forced = false ∧ (d₁.strand id).chores = []) ∨
          (c₁.stage = .running ∧ c₁.forced = false) ∨ (c₁.stage = .completing ∧ c₁.forced = true)) := by
      rcases hleads id with ⟨-, heq⟩ | hstep
      · exact ⟨c, (congrArg Strand.cell heq).trans hc, .inl ⟨hqueued, hforced, by rw [heq, hidle]⟩⟩
      · obtain ⟨c₁, hc₁, hfate⟩ := hstep.of_queued (hregular.poised id c hc) hc hqueued hidle
        rw [hforced] at hfate
        exact ⟨c₁, hc₁, hfate⟩
    obtain ⟨c₁, hc₁, ⟨hqueued₁, hforced₁, hidle₁⟩ | ⟨hrunning, hforced₁⟩ | ⟨hcompleting, hforced₁⟩⟩ := hgoes
    · exact ih hregular₁ hc₁ hqueued₁ hforced₁ hidle₁ has' hrun
    · obtain ⟨c', hc', -, hforced', -⟩ := late_of_run hbh hregular₁ hc₁ (by simp [hrunning]) has' hrun
      have hruns : Sometime bh (Runs id) d₁ as := sometime_now (by rw [Runs, hc₁, Option.map_some, hrunning]) as
      exact ⟨c', hc', .inr (by simp [hforced', hforced₁, hruns])⟩
    · obtain ⟨c', hc', -, hforced', hnever⟩ := late_of_run hbh hregular₁ hc₁ (by simp [hcompleting]) has' hrun
      exact ⟨c', hc', .inr (by simp [hforced', hforced₁, hnever (by simp [hcompleting])])⟩

/-! ## The forcing -/

def forces : Chore → Bool
  | .complete _ | .conclude _ | .pump _ | .force _ => true
  | _ => false

theorem Follows.forces {chore : Chore} {planned : List Chore} (h : Follows d chore planned)
    (hforces : Dispatcher.forces chore = true) : ∀ chore' ∈ planned, Dispatcher.forces chore' = true := by
  cases h with
  | claim | late | conclude | receive | pumped | force | pass | forced => simp [Dispatcher.forces]
  | _ => cases hforces

def closers : List Chore := [.closeCrew, .join, .pump 0]

/-- How a dispatcher stands while its caller forces: the tasks that wait in the queue are in front of it. -/
structure Forcing (front : List Chore) (d : Dispatcher W B V) : Prop where
  agenda : d.agenda = front ++ .recount :: closers
  chores : ∀ chore ∈ front, forces chore = true
  waiting : ∀ id (c : Cell B V), d.cells[id]? = some c → c.stage = .queued → ∃ ids, .force ids ∈ front ∧ id ∈ ids

theorem Deal.length_of_within {a : Act W B V} (h : Deal bh d d' a) (ha : a.within = true) :
    d'.cells.length = d.cells.length := by
  cases h with
  | idle hidles hasked hworld hcells | surround hworld hcells => rw [hcells]
  | stir hc halike hcells => rw [hcells, List.length_set]
  | work hc hbody hrun hcells => rw [hcells, List.length_set]
  | credit hc hclaimed hcells => rw [hcells, List.length_set]
  | conclude hc hbody hclaimed hagenda hcloses hputs hcells => rw [hcells, List.length_set]
  | _ => cases ha

theorem queued_of_within (hbh : bh.Returns) (hregular : d.Regular bh) {a : Act W B V} (ha : a.within = true)
    (hact : d.act? bh a = some d') {c' : Cell B V} (hc' : d'.cells[id]? = some c') (hqueued : c'.stage = .queued) :
    ∃ c, d.cells[id]? = some c ∧ c.stage = .queued := by
  have hlength := (deal_of_act hbh hregular.held hregular.sound hact).length_of_within ha
  have hid := (List.getElem?_eq_some_iff.1 hc').1
  rw [hlength] at hid
  have hc := List.getElem?_eq_getElem hid
  refine ⟨_, hc, ?_⟩
  obtain ⟨-, -, hleads⟩ := weave hbh hregular.held (returns_of_within ha).1 hact
  rcases hleads id with ⟨-, heq⟩ | hstep
  · rw [Option.some.inj (hc.symm.trans ((congrArg Strand.cell heq).symm.trans hc'))]
    exact hqueued
  · rcases hstep.stage_next (hregular.sound id).staged hc hc' with hsame | hnext
    · exact hsame.symm.trans hqueued
    · by_contra hnot
      exact (hnext.onward ((hregular.sound id).staged _ hc).checked hnot).1 hqueued

theorem not_queued_of_force {rest : List Chore} (hagenda : d.agenda = .force (id :: ids) :: rest)
    (hact : d.act? bh (.move .caller) = some d') : (d'.cells[id]?).map Cell.stage ≠ some .queued := by
  have hstep : d.stepCaller? bh = some d' := hact
  rw [stepCaller?, hagenda] at hstep
  obtain rfl := Option.some.inj hstep
  by_cases hstage : (d.cells[id]?).map Cell.stage = some .queued
  · obtain ⟨c, hc, hqueued⟩ := Option.map_eq_some_iff.1 hstage
    rw [force_eq (d := { d with agenda := rest }) hc hqueued]
    show ((d.modifyCell id _).cells[id]?).map Cell.stage ≠ some .queued
    rw [cells_modifyCell hc]
    simp
  · rw [force_eq_plan (d := { d with agenda := rest }) hstage]
    exact hstage

/-- **A forcing goes on until all that waited were looked at.** -/
theorem Forcing.act (hbh : bh.Returns) (hregular : d.Regular bh) {front : List Chore} (h : Forcing front d) {a : Act W B V}
    (ha : a.within = true) (hact : d.act? bh a = some d') :
    (∃ front, Forcing front d') ∨ (a = .move .caller ∧ front = []) := by
  have hqueued : ∀ {id : Nat} {c' : Cell B V}, d'.cells[id]? = some c' → c'.stage = .queued →
      ∃ c, d.cells[id]? = some c ∧ c.stage = .queued := queued_of_within hbh hregular ha hact
  rcases agenda_of_within hbh hregular ha hact with ⟨rfl, chore, rest, hagenda, hmoves⟩ | ⟨-, hsame, -⟩
  · cases front with
    | nil => exact .inr ⟨rfl, rfl⟩
    | cons first front =>
      obtain ⟨planned, hfollows, hagenda'⟩ := hmoves.agenda
      have hsplit := hagenda.symm.trans h.agenda
      obtain ⟨rfl, rfl⟩ : chore = first ∧ rest = front ++ .recount :: closers := by simpa using hsplit
      obtain ⟨hfirst, hfront⟩ := List.forall_mem_cons.1 h.chores
      refine .inl ⟨planned ++ front, ?_, List.forall_mem_append.2 ⟨hfollows.forces hfirst, hfront⟩,
        fun id c' hc' hstage => ?_⟩
      · rw [hagenda', List.append_assoc]
      · obtain ⟨c, hc, hstage₀⟩ := hqueued hc' hstage
        obtain ⟨ids, hids, hid⟩ := h.waiting id c hc hstage₀
        rcases List.mem_cons.1 hids with rfl | hids
        · cases ids with
          | nil => cases hid
          | cons id₀ ids =>
            rcases List.mem_cons.1 hid with rfl | hid
            · have hnot := not_queued_of_force hagenda hact
              rw [hc', Option.map_some, hstage] at hnot
              exact absurd rfl hnot
            · refine ⟨ids, List.mem_append_left _ ?_, hid⟩
              cases hfollows <;> simp
        · exact ⟨ids, List.mem_append_right _ hids, hid⟩
  · refine .inl ⟨front, hsame.trans h.agenda, h.chores, fun id c' hc' hstage => ?_⟩
    obtain ⟨c, hc, hstage₀⟩ := hqueued hc' hstage
    exact h.waiting id c hc hstage₀

/-- **A forcing that is over has come to the recount**, where nobody waits in the queue. -/
theorem Forcing.run (hbh : bh.Returns) (hregular : d.Regular bh) {front : List Chore} (h : Forcing front d)
    {as : List (Act W B V)} (has : ∀ a ∈ as, a.within = true) (hrun : d.run? bh as = some d') (hover : d'.agenda = []) :
    ∃ before after d₁, as = before ++ .move .caller :: after ∧ d.run? bh before = some d₁ ∧ Forcing [] d₁ := by
  induction as generalizing d front with
  | nil =>
    obtain rfl := Option.some.inj hrun
    rw [h.agenda] at hover
    simp at hover
  | cons a as ih =>
    obtain ⟨d₁, hact, hrun⟩ := Option.bind_eq_some_iff.1 hrun
    have ha := has a (List.mem_cons_self ..)
    rcases h.act hbh hregular ha hact with ⟨front', hnext⟩ | ⟨rfl, rfl⟩
    · obtain ⟨before, after, d₂, rfl, hbefore, hend⟩ := ih (hregular.act hbh (returns_of_within ha).1 hact) hnext
        (fun a ha => has a (List.mem_cons_of_mem _ ha)) hrun
      exact ⟨a :: before, after, d₂, rfl, by rw [run?, hact]; exact hbefore, hend⟩
    · exact ⟨[], as, d, rfl, rfl, h⟩

/-! ## Behind the forcing -/

def closes : Chore → Bool
  | .complete _ | .conclude _ | .pump _ | .closeCrew | .join => true
  | _ => false

theorem Follows.closes {chore : Chore} {planned : List Chore} (h : Follows d chore planned)
    (hcloses : Dispatcher.closes chore = true) : ∀ chore' ∈ planned, Dispatcher.closes chore' = true := by
  cases h with
  | claim | late | conclude | receive | pumped | closeCrew | join => simp [Dispatcher.closes]
  | _ => cases hcloses

theorem Moves.outcome_of_closes {chore : Chore} {rest : List Chore} (h : Moves d d' chore rest)
    (hcloses : closes chore = true) : d'.drainOutcome = d.drainOutcome :=
  h.outcome_eq (fun t => by rintro rfl; cases hcloses) (by rintro rfl; cases hcloses)

theorem outcome_of_run (hbh : bh.Returns) (hregular : d.Regular bh) (hchores : ∀ chore ∈ d.agenda, closes chore = true)
    {as : List (Act W B V)} (has : ∀ a ∈ as, a.within = true) (hrun : d.run? bh as = some d') :
    d'.drainOutcome = d.drainOutcome := by
  induction as generalizing d with
  | nil =>
    obtain rfl := Option.some.inj hrun
    rfl
  | cons a as ih =>
    obtain ⟨d₁, hact, hrun⟩ := Option.bind_eq_some_iff.1 hrun
    have ha := has a (List.mem_cons_self ..)
    have hnext : (∀ chore ∈ d₁.agenda, closes chore = true) ∧ d₁.drainOutcome = d.drainOutcome := by
      rcases agenda_of_within hbh hregular ha hact with ⟨-, chore, rest, hagenda, hmoves⟩ | ⟨-, hsame, houtcome⟩
      · obtain ⟨planned, hfollows, hagenda'⟩ := hmoves.agenda
        rw [hagenda] at hchores
        obtain ⟨hfirst, hrest⟩ := List.forall_mem_cons.1 hchores
        rw [hagenda']
        exact ⟨List.forall_mem_append.2 ⟨hfollows.closes hfirst, hrest⟩, hmoves.outcome_of_closes hfirst⟩
      · rw [hsame]
        exact ⟨hchores, houtcome⟩
    exact (ih (hregular.act hbh (returns_of_within ha).1 hact) hnext.1
      (fun a ha => has a (List.mem_cons_of_mem _ ha)) hrun).trans hnext.2

theorem chores_eq_nil (h : ∀ chore ∈ d.agenda, chore.task? = none) (id : Nat) : (d.strand id).chores = [] :=
  List.filter_eq_nil_iff.2 fun chore hmem => by simp [h chore hmem]

/-- Nothing is claimed or forced of a task that is in and that nothing is planned of. -/
theorem Regular.standing (h : d.Regular bh) (hc : d.cells[id]? = some c) (hidle : (d.strand id).chores = [])
    (hentered : c.entered = true) : (c.stage = .queued ∨ c.stage = .running) ∧ c.forced = false := by
  have hstaged := (h.sound id).staged c hc
  obtain ⟨hrejected, hdone⟩ := (h.poised id c hc).inside hentered
  have hopen : c.settlement.claimed = false := by
    by_contra hwon
    have hconcludes := hstaged.concludes
    simp [hidle, hwon, hdone] at hconcludes
  have hunforced : c.forced = false := by
    by_contra hforced
    have hurged := (h.poised id c hc).urged (by simpa using hforced) hopen
    rw [hidle] at hurged
    cases hurged
  refine ⟨?_, hunforced⟩
  obtain ⟨hcreated, hvalidating⟩ := hstaged.checked
  have hcompleting := hstaged.completing
  rw [hopen, hunforced] at hcompleting
  cases hstage : c.stage <;> simp_all

theorem Regular.done_of_forced (h : d.Regular bh) (hc : d.cells[id]? = some c) (hidle : (d.strand id).chores = [])
    (hforced : c.forced = true) : c.stage = .done := by
  by_contra hnot
  have hconcludes := ((h.sound id).staged c hc).concludes
  cases hwon : c.settlement.claimed with
  | true => simp [hidle, hwon, hnot] at hconcludes
  | false =>
    have hurged := (h.poised id c hc).urged hforced hwon
    rw [hidle] at hurged
    cases hurged

/-- **A task that is in, and that nothing is planned of, is forced behind that just if it never runs**, unless it still
waits in the queue. -/
theorem Regular.fate (hbh : bh.Returns) (h : d.Regular bh) (hc : d.cells[id]? = some c)
    (hidle : (d.strand id).chores = []) (hentered : c.entered = true) {as : List (Act W B V)}
    (has : ∀ a ∈ as, a.returns = true) (hrun : d.run? bh as = some d') :
    ∃ c', d'.cells[id]? = some c' ∧ (c'.stage = .queued ∨ (c'.forced = true ↔ ¬ Sometime bh (Runs id) d as)) := by
  obtain ⟨hstage, hunforced⟩ := h.standing hc hidle hentered
  rcases hstage with hqueued | hrunning
  · exact fate_of_run hbh h hc hqueued hunforced hidle has hrun
  · obtain ⟨c', hc', -, hforced', -⟩ := late_of_run hbh h hc (by simp [hrunning]) has hrun
    have hruns : Sometime bh (Runs id) d as :=
      sometime_now (show (d.cells[id]?).map Cell.stage = _ by rw [hc, Option.map_some, hrunning]) as
    exact ⟨c', hc', .inr (by simp [hforced', hunforced, hruns])⟩

/-- **A task that was forced is never called**, whatever comes. -/
theorem Regular.uncalled (hbh : bh.Returns) (h : d.Regular bh) (hc : d.cells[id]? = some c) (hforced : c.forced = true)
    {as : List (Act W B V)} (has : ∀ a ∈ as, a.returns = true) (hrun : d.run? bh as = some d') (item : Nat) :
    .called id item ∉ d'.history := by
  intro hcalled
  have hqueued : c.stage ≠ .queued := by
    rcases (((h.sound id).staged c hc).forced hforced).1 with hstage | hstage <;> simp [hstage]
  obtain ⟨c', hc', -, hforced', -⟩ := late_of_run hbh h hc hqueued has hrun
  have hbarred := (h.run hbh has hrun).barred id c' hc' (hforced'.trans hforced)
  exact hbarred.uncalled item (List.mem_filter.2 ⟨hcalled, decide_eq_true rfl⟩)

def runners (d : Dispatcher W B V) : List Nat :=
  (List.range d.cells.length).filter fun id => (d.cells[id]?).map Cell.stage = some .running

/-- **Those who are in are those who run**, when nothing is planned and nobody waits in the queue. -/
theorem Enrolled.runners (h : Enrolled d ids) (hregular : d.Regular bh) (hidle : ∀ chore ∈ d.agenda, chore.task? = none)
    (hnone : ∀ (id : Nat) (c : Cell B V), d.cells[id]? = some c → c.stage ≠ .queued) : d.registry.Perm d.runners := by
  have hnodup : d.registry.Nodup := by
    rw [h.registry]
    exact h.once.filter _
  refine (List.perm_ext_iff_of_nodup hnodup (List.nodup_range.filter _)).2 fun id => ?_
  rw [List.mem_filter, List.mem_range, decide_eq_true_iff]
  constructor
  · intro hmem
    have hid : id < d.cells.length := by
      rw [h.registry] at hmem
      exact h.known id (List.mem_filter.1 hmem).1
    have hc := List.getElem?_eq_getElem hid
    have hstage := (hregular.standing hc (chores_eq_nil hidle id) ((h.entered id _ hc).2 hmem)).1
    refine ⟨hid, ?_⟩
    rw [hc, Option.map_some, hstage.resolve_left (hnone id _ hc)]
  · rintro ⟨-, hruns⟩
    obtain ⟨c, hc, hstage⟩ := Option.map_eq_some_iff.1 hruns
    exact (h.entered id c hc).1 ((hregular.poised id c hc).entered (.inr hstage))

def forcing (d : Dispatcher W B V) (ids : List Nat) : Dispatcher W B V :=
  { d with agenda := .force ids :: .pump 0 :: .recount :: closers }

theorem Regular.congr (h : d.Regular bh) (hstrand : ∀ id, d'.strand id = d.strand id) (hsteady : d'.Steady) :
    d'.Regular bh := by
  have hcells : ∀ (id : Nat) (c : Cell B V), d'.cells[id]? = some c → d.cells[id]? = some c := fun id c hc =>
    (congrArg Strand.cell (hstrand id)).symm.trans hc
  refine ⟨⟨hsteady, fun id => ?_, fun id => ?_⟩, fun id => ?_, fun id c hc => ?_, fun id c hc => ?_, fun id c hc => ?_⟩
  all_goals rw [hstrand]
  · exact h.held.rooted id
  · exact h.held.calm id
  · exact h.sound id
  · exact h.poised id c (hcells id c hc)
  · exact h.told id c (hcells id c hc)
  · exact h.barred id c (hcells id c hc)

/-- What a shutdown whose time was up does to the tasks that were in. -/
structure Overrun (bh : Behaviour W B V) (d d₃ : Dispatcher W B V) (as : List (Act W B V)) (d' : Dispatcher W B V) :
    Prop where
  /-- Those are forced, and done, that did not run. -/
  forced : ∀ id ∈ d.registry, ∃ c, d'.cells[id]? = some c ∧ (c.forced = true ↔ ¬ Sometime bh (Runs id) d₃ as) ∧
    (c.forced = true → c.stage = .done)
  /-- Nobody else is. -/
  others : ∀ id c c', id ∉ d.registry → d.cells[id]? = some c → d'.cells[id]? = some c' → c'.forced = c.forced
  /-- Whoever was forced is never called, whatever comes. -/
  uncalled : ∀ id c, d'.cells[id]? = some c → c.forced = true → ∀ bs d'', (∀ a ∈ bs, a.returns = true) →
    d'.run? bh bs = some d'' → ∀ item, .called id item ∉ d''.history
  /-- The shutdown ends with the number of those who ran and were in behind the forcing. -/
  outcome : ∃ before after d₄, as = before ++ .move .caller :: after ∧ d₃.run? bh before = some d₄ ∧
    d₄.agenda = .recount :: closers ∧ d₄.registry.Perm d₄.runners ∧
    d'.drainOutcome = if d₄.runners = [] then .drained else .timedOut d₄.runners.length

theorem strand_forcing (hagenda : d.agenda = .drained :: closers) (order : List Nat) (id : Nat) :
    ((d.forcing order).strand id).chores = [] ∧ (d.forcing order).strand id = d.strand id := by
  have hidle := chores_eq_nil (d := d.forcing order) (by simp [forcing, closers, Chore.task?]) id
  have hquiet := chores_eq_nil (d := d) (by simp [hagenda, closers, Chore.task?]) id
  exact ⟨hidle, Strand.ext rfl (hidle.trans hquiet.symm) rfl rfl rfl⟩

theorem Shut.forcing (h : d.Shut bh ids) (hagenda : d.agenda = .drained :: closers) (order : List Nat) :
    (d.forcing order).Shut bh ids := by
  refine ⟨h.regular.congr (fun id => (strand_forcing hagenda order id).2) ⟨h.regular.held.steady.gone, ?_⟩, h.stopping,
    h.enrolled.same rfl rfl rfl⟩
  simp [Dispatcher.forcing, closers]

theorem Forcing.not_queued (h : Forcing [] d) (id : Nat) (c : Cell B V) (hc : d.cells[id]? = some c) :
    c.stage ≠ .queued := fun hqueued => by
  obtain ⟨ids, hids, -⟩ := h.waiting id c hc hqueued
  cases hids

/-- **At the recount whoever is still in runs**, and the shutdown ends with their number. -/
theorem Shut.recounted (hbh : bh.Returns) (h : d.Shut bh ids) (hforcing : Forcing [] d) {as : List (Act W B V)}
    (has : ∀ a ∈ as, a.within = true) (hrun : d.run? bh (.move .caller :: as) = some d') :
    d.registry.Perm d.runners ∧
      d'.drainOutcome = if d.runners = [] then .drained else .timedOut d.runners.length := by
  have hrunners := h.enrolled.runners h.regular (by simp [hforcing.agenda, closers, Chore.task?]) hforcing.not_queued
  obtain ⟨d₁, hact, hrest⟩ := Option.bind_eq_some_iff.1 hrun
  have hstep : d.stepCaller? bh = some d₁ := hact
  rw [stepCaller?, hforcing.agenda] at hstep
  obtain rfl := Option.some.inj hstep
  have hregular := h.regular.act hbh (a := .move .caller) rfl hact
  refine ⟨hrunners, ?_⟩
  rw [outcome_of_run hbh hregular (by simp [recount, closers, closes]) has hrest]
  have hcount : d.inFlight = d.runners.length := by rw [h.enrolled.count, hrunners.length_eq]
  show (if d.inFlight = 0 then DrainOutcome.drained else .timedOut d.inFlight) = _
  rw [hcount]
  simp

/-- **A shutdown whose time was up forces those who do not run**, in whatever order it looks at them. -/
theorem Shut.overrun (hbh : bh.Returns) (h : d.Shut bh ids) (hagenda : d.agenda = .drained :: closers) {order : List Nat}
    (horder : order.Perm d.registry) {as : List (Act W B V)} (has : ∀ a ∈ as, a.within = true)
    (hrun : (d.forcing order).run? bh as = some d') (hover : d'.agenda = []) :
    Overrun bh d (d.forcing order) as d' := by
  have hshut := h.forcing hagenda order
  have hregular := hshut.regular
  have hreturns : ∀ a ∈ as, a.returns = true := fun a ha => (returns_of_within (has a ha)).1
  have hregular' := hregular.run hbh hreturns hrun
  have hforcing : Forcing [.force order, .pump 0] (d.forcing order) := by
    refine ⟨rfl, by simp [forces], fun id c hc hqueued => ⟨order, by simp, horder.mem_iff.2 ?_⟩⟩
    exact (h.enrolled.entered id c hc).1 ((h.regular.poised id c hc).entered (.inl hqueued))
  obtain ⟨before, after, d₄, hsplit, hbefore, hrecount⟩ := hforcing.run hbh hregular has hrun hover
  have hafter : d₄.run? bh (.move .caller :: after) = some d' := by
    rw [hsplit, run?_append, hbefore] at hrun
    exact hrun
  have hbefore_within : ∀ a ∈ before, a.within = true := fun a ha => has a (by simp [hsplit, ha])
  have hafter_within : ∀ a ∈ Act.move Mover.caller :: after, a.within = true := fun a ha => has a (by simp_all)
  have hbefore_returns : ∀ a ∈ before, a.returns = true := fun a ha => (returns_of_within (hbefore_within a ha)).1
  obtain ⟨hshut₄, -⟩ := hshut.run hbh (fun a ha => returns_of_within (hbefore_within a ha)) hbefore
  have hunqueued : ∀ (id : Nat) (c' : Cell B V), id < d.cells.length → d'.cells[id]? = some c' → c'.stage ≠ .queued := by
    intro id c' hid hc'
    have hlength := length_le_of_run hbh hregular hbefore_returns hbefore
    have hc₄ := List.getElem?_eq_getElem (Nat.lt_of_lt_of_le hid hlength)
    obtain ⟨c'', hc'', hqueued, -⟩ := late_of_run hbh hshut₄.regular hc₄ (hrecount.not_queued id _ hc₄)
      (fun a ha => (returns_of_within (hafter_within a ha)).1) hafter
    rwa [Option.some.inj (hc'.symm.trans hc'')]
  obtain ⟨hrunners, houtcome⟩ :=
    hshut₄.recounted hbh hrecount (fun a ha => hafter_within a (List.mem_cons_of_mem _ ha)) hafter
  refine ⟨fun id hid => ?_, fun id c c' hid hc hc' => ?_, fun id c hc hforced bs d'' hbs hlater =>
    hregular'.uncalled hbh hc hforced hbs hlater, before, after, d₄, hsplit, hbefore, hrecount.agenda, hrunners, houtcome⟩
  · have hlt : id < d.cells.length := by
      rw [h.enrolled.registry] at hid
      exact h.enrolled.known id (List.mem_filter.1 hid).1
    have hc := List.getElem?_eq_getElem hlt
    obtain ⟨c', hc', hfate⟩ := hregular.fate hbh (d := d.forcing order) hc (strand_forcing hagenda order id).1
      ((h.enrolled.entered id _ hc).2 hid) hreturns hrun
    exact ⟨c', hc', hfate.resolve_left (hunqueued id c' hlt hc'),
      hregular'.done_of_forced hc' (chores_eq_nil (by simp [hover]) id)⟩
  · have hqueued : c.stage ≠ .queued := fun hqueued =>
      hid ((h.enrolled.entered id c hc).1 ((h.regular.poised id c hc).entered (.inl hqueued)))
    obtain ⟨c'', hc'', -, hforced, -⟩ := late_of_run hbh hregular (d := d.forcing order) hc hqueued hreturns hrun
    rwa [Option.some.inj (hc'.symm.trans hc'')]

/-- **What a shutdown does.**  Take any run of a dispatcher with a gate of its own, in which the caller's hooks return, up to
its first shutdown, and any run behind that.  The sinks of the tasks that were let in are not notified from then on; such a
task that is done was flushed and cleaned up, and its sink was dropped.  A task that is prepared from then on is turned away
in its call, in which the caller makes a limited number of moves, none of which has to wait.  And if the time of the drain
is up, then in whatever order the caller looks at the tasks that are in, it forces just those that do not run. -/
theorem shutdown_of_run (hbh : bh.Returns) {world : W} {s : Settings} {processors : Nat} {checkpoints : Bool}
    {d₀ d₁ : Dispatcher W B V} (hstart : start world s processors .fresh checkpoints = .ok d₀) {as₁ : List (Act W B V)}
    (has₁ : ∀ a ∈ as₁, a.returns = true ∧ a.keepsGate = true) (hrun₁ : d₀.run? bh as₁ = some d₁)
    (hfirst : d₁.stopped = false) {as : List (Act W B V)} (has : ∀ a ∈ as, a.returns = true ∧ a.keepsGate = true)
    (hrun : d₁.shutdown.run? bh as = some d) :
    (∀ id ∈ d₀.admitted bh as₁, Silenced d₁ d id) ∧
    (∀ (b : B) (sink : Sink) (bs : List (Act W B V)) (d' : Dispatcher W B V), sink ≠ .callback true → d.agenda = [] →
      (bh.prepare d.world b).1 = .ok () → (∀ a ∈ bs, a.within = true) → (d.spawn bh b sink).run? bh bs = some d' →
      bs.countP Act.isCaller ≤ 2 ∧ (d'.agenda ≠ [] → d'.act? bh (.move .caller) ≠ none) ∧
      (d'.agenda = [] → TurnedAway d' d.cells.length)) ∧
    ∀ (left : Int), d.agenda = .drained :: closers → d.drainOutcome = .timedOut left →
      d.act? bh (.move .caller) = some (d.forcing d.registry) ∧
      ∀ (order : List Nat) (bs : List (Act W B V)) (d' : Dispatcher W B V), order.Perm d.registry →
        (∀ a ∈ bs, a.within = true) → (d.forcing order).run? bh bs = some d' → d'.agenda = [] →
        Overrun bh d (d.forcing order) bs d' := by
  have hregular₁ := (regular_start hstart).run hbh (fun a ha => (has₁ a ha).1) hrun₁
  have henrolled₁ := (enrolled_start hstart).run hbh (regular_start hstart) has₁ hrun₁
  rw [List.nil_append] at henrolled₁
  have hshut₁ : d₁.shutdown.Shut bh (d₀.admitted bh as₁) ∧ d₁.shutdown.outcomes = d₁.outcomes := by
    have hact : d₁.act? bh .shutdown = some d₁.shutdown := rfl
    have hdeaf : d₁.admission.deaf = false := by
      rw [deaf_of_run hbh (regular_start hstart) has₁ hrun₁]
      exact deaf_start hstart
    have hadmission : d₁.shutdown.admission = d₁.admission.beginShutdown := by
      rw [shutdown, hfirst]
      rfl
    have henrolled := (deal_of_act hbh hregular₁.held hregular₁.sound hact).enrolled rfl henrolled₁
    rw [show d₁.admits bh .shutdown = none from rfl, Option.toList_none, List.append_nil] at henrolled
    refine ⟨⟨hregular₁.act hbh (a := .shutdown) rfl hact, ?_, henrolled⟩, ?_⟩
    · rw [hadmission]
      exact Admission.stopping_beginShutdown hdeaf
    · rw [shutdown, hfirst]
      rfl
  obtain ⟨hshut₁, houtcomes₁⟩ := hshut₁
  obtain ⟨hshut, hsilent⟩ := hshut₁.run hbh has hrun
  refine ⟨fun id hid => ?_, fun b sink bs d' hsink hidle hprepare hbs hcall => ?_, fun left hagenda hleft => ⟨?_, ?_⟩⟩
  · exact henrolled₁.silenced hregular₁ hshut.regular ((hsilent id hid).trans (by rw [houtcomes₁]))
  · exact hshut.turnedAway hbh hidle hsink hprepare hbs hcall
  · show d.stepCaller? bh = _
    rw [stepCaller?, hagenda]
    show some (({ d with agenda := closers } : Dispatcher W B V).drained) = some (d.forcing d.registry)
    unfold drained forcing
    rw [hleft]
    rfl
  · intro order bs d' horder hbs hcall hover
    exact hshut.overrun hbh hagenda horder hbs hcall hover

def hastyRoom : Except Refusal (Dispatcher World Rehearsal Recital) :=
  start World.empty ⟨1, 4, 65536, 1, 1, 1, some 0⟩ 1 .fresh true

/-- The worker begins a solo that waits at a door, and another waits in the queue. -/
def soloActs : List (Act World Rehearsal Recital) :=
  [.spawn (.ofSolo ⟨1, false, some "door", 0, 0, none, .play, false⟩) .promise, .move .caller,
    .spawn (.ofSolo ⟨2, false, none, 0, 0, none, .play, false⟩) .promise, .move .caller] ++
    List.replicate 5 (.move (.worker 0))

theorem soloActs_returns : ∀ a ∈ soloActs, a.returns = true ∧ a.keepsGate = true := by
  simp [soloActs, Act.returns, Act.keepsGate, or_imp, forall_and]

theorem callerActs_within (n : Nat) : ∀ a ∈ List.replicate n (Act.move Mover.caller : Act World Rehearsal Recital),
    a.within = true := fun a ha => by rw [List.eq_of_mem_replicate ha]; rfl

/-- The shutdown runs out of time, forces the second solo and ends with the first; a third solo is turned away. -/
theorem shutdown_of_run_hasty : ∃ d₀ d₁ d d' d₂ d₃, hastyRoom = .ok d₀ ∧
    (∀ a ∈ soloActs, a.returns = true ∧ a.keepsGate = true) ∧ d₀.run? Rehearsal.behaviour soloActs = some d₁ ∧
    d₁.stopped = false ∧ d₁.shutdown.run? Rehearsal.behaviour (List.replicate 2 (.move .caller)) = some d ∧
    d.agenda = .drained :: closers ∧ d.drainOutcome = .timedOut 2 ∧
    (d.forcing d.registry).run? Rehearsal.behaviour (List.replicate 10 (.move .caller)) = some d' ∧ d'.agenda = [] ∧
    Overrun Rehearsal.behaviour d (d.forcing d.registry) (List.replicate 10 (.move .caller)) d' ∧
    d'.drainOutcome = .timedOut 1 ∧ d'.cells.map (fun c => (c.stage, c.forced)) = [(.running, false), (.done, true)] ∧
    d₁.shutdown.run? Rehearsal.behaviour (List.replicate 13 (.move .caller)) = some d₂ ∧ d₂.agenda = [] ∧
    (d₂.spawn Rehearsal.behaviour (.ofSolo ⟨3, false, none, 0, 0, none, .play, false⟩) .promise).run?
      Rehearsal.behaviour (List.replicate 2 (.move .caller)) = some d₃ ∧ d₃.agenda = [] ∧ TurnedAway d₃ 2 := by
  have hends : (hastyRoom.toOption.bind fun d₀ => (d₀.run? Rehearsal.behaviour soloActs).bind fun d₁ =>
      (d₁.shutdown.run? Rehearsal.behaviour (List.replicate 2 (.move .caller))).bind fun d =>
        ((d.forcing d.registry).run? Rehearsal.behaviour (List.replicate 10 (.move .caller))).bind fun d' =>
          (d₁.shutdown.run? Rehearsal.behaviour (List.replicate 13 (.move .caller))).bind fun d₂ =>
            ((d₂.spawn Rehearsal.behaviour (.ofSolo ⟨3, false, none, 0, 0, none, .play, false⟩) .promise).run?
                Rehearsal.behaviour (List.replicate 2 (.move .caller))).map fun d₃ =>
              decide ((d₁.stopped = false ∧ d.agenda = .drained :: closers ∧ d.drainOutcome = .timedOut 2 ∧
                d'.agenda = [] ∧ d'.drainOutcome = .timedOut 1 ∧
                d'.cells.map (fun c => (c.stage, c.forced)) = [(.running, false), (.done, true)]) ∧
                d₂.agenda = [] ∧ d₂.cells.length = 2 ∧ d₃.agenda = [])) = some true := by
    decide +kernel
  obtain ⟨d₀, hroom, hends⟩ := Option.bind_eq_some_iff.1 hends
  obtain ⟨d₁, hrun₁, hends⟩ := Option.bind_eq_some_iff.1 hends
  obtain ⟨d, hrun, hends⟩ := Option.bind_eq_some_iff.1 hends
  obtain ⟨d', hforcing, hends⟩ := Option.bind_eq_some_iff.1 hends
  obtain ⟨d₂, hrun₂, hends⟩ := Option.bind_eq_some_iff.1 hends
  obtain ⟨d₃, hcall, hends⟩ := Option.map_eq_some_iff.1 hends
  obtain ⟨⟨hfirst, hagenda, hleft, hover, houtcome, hcells⟩, hidle, hlength, hreturned⟩ := of_decide_eq_true hends
  have hstart := eq_ok_of_toOption hroom
  obtain ⟨-, -, hoverrun⟩ := shutdown_of_run rehearsal_returns hstart soloActs_returns hrun₁ hfirst
    (fun a ha => returns_of_within (callerActs_within 2 a ha)) hrun
  obtain ⟨-, horders⟩ := hoverrun 2 hagenda hleft
  obtain ⟨-, hspawns, -⟩ := shutdown_of_run rehearsal_returns hstart soloActs_returns hrun₁ hfirst
    (fun a ha => returns_of_within (callerActs_within 13 a ha)) hrun₂
  obtain ⟨-, -, haway⟩ := hspawns _ .promise _ d₃ (by simp) hidle rfl (callerActs_within 2) hcall
  rw [hlength] at haway
  exact ⟨d₀, d₁, d, d', d₂, d₃, hstart, soloActs_returns, hrun₁, hfirst, hrun, hagenda, hleft, hforcing, hover,
    horders _ _ d' (.refl _) (callerActs_within 10) hforcing hover, houtcome, hcells, hrun₂, hidle, hcall, hreturned,
    haway hreturned⟩

end Dispatcher
end BitmapWorks
