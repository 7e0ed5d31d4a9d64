import BitmapWorks.Proofs.Dispatcher.Lifecycle
/-!
# Poise — who is in, and who waits

A task that is queued or running counts as in, and nothing was posted for a queued one (`Poised`).  A task that a shutdown
forced is completed by the caller at once.  So a task of which nothing is planned or under way any more is done
(`Poised.done`).
-/
namespace BitmapWorks

variable {W B V : Type} {bh : Behaviour W B V} {id : Nat}

def Errand.early : Errand → Bool
  | single _ .takeUp | part _ .hold | part _ .takeUp => true
  | _ => false

/-- How a task stands between what is planned and what is under way. -/
structure Poised (id : Nat) (c : Cell B V) (s : Strand B V) : Prop where
  entered : c.stage = .queued ∨ c.stage = .running → c.entered = true
  inside : c.entered = true → c.stage ≠ .rejected ∧ c.stage ≠ .done
  urged : c.forced = true → c.settlement.claimed = false → .complete id ∈ s.chores
  early : c.stage = .queued → s.posted = 0 ∧ ∀ e ∈ s.errands, e.early = true

namespace Poised

variable {c c' : Cell B V} {s s' : Strand B V}

theorem done (h : Poised id c s) (hs : s.Sound) (hc : s.cell = some c) (hchores : s.chores = []) (hposted : s.posted = 0)
    (herrands : s.errands = 0) : c.stage = .done := by
  have hclaimed : c.settlement.claimed = true := by
    by_contra hopen
    have hunclaimed : c.settlement.claimed = false := by simpa using hopen
    cases hforced : c.forced with
    | true =>
      have hurged := h.urged hforced hunclaimed
      rw [hchores] at hurged
      cases hurged
    | false =>
      -- the one signal of a task without work must be somewhere
      have hsignals := (hs.tokens c hc hforced).signals
      simp [Strand.signals, Strand.work, Strand.weigh, hchores, hposted, herrands, hunclaimed] at hsignals
  have hconcludes := (hs.staged c hc).concludes
  by_contra hdone
  simp [hchores, hclaimed, hdone] at hconcludes

theorem congr (h : Poised id c s) (hstage : c'.stage = c.stage) (hentered : c'.entered = c.entered)
    (hforced : c'.forced = c.forced) (hclaimed : c'.settlement.claimed = c.settlement.claimed)
    (hchores : .complete id ∈ s.chores → .complete id ∈ s'.chores)
    (hearly : c.stage = .queued → s.posted = 0 → s'.posted = 0)
    (herrands : c.stage = .queued → (∀ e ∈ s.errands, e.early = true) → ∀ e ∈ s'.errands, e.early = true) :
    Poised id c' s' := by
  refine ⟨?_, ?_, fun hf hopen => ?_, fun hqueued => ?_⟩
  · rw [hstage, hentered]
    exact h.entered
  · rw [hstage, hentered]
    exact h.inside
  · rw [hforced] at hf
    rw [hclaimed] at hopen
    exact hchores (h.urged hf hopen)
  · rw [hstage] at hqueued
    obtain ⟨hposted, hall⟩ := h.early hqueued
    exact ⟨hearly hqueued hposted, herrands hqueued hall⟩

/-- A task that leaves its place in the queue, or never had one, and that is not forced. -/
theorem of_unqueued (hqueued : c.stage ≠ .queued) (hrunning : c.stage = .running → c.entered = true)
    (hinside : c.entered = true → c.stage ≠ .rejected ∧ c.stage ≠ .done)
    (hforced : c.forced = true → c.settlement.claimed = false → .complete id ∈ s.chores) : Poised id c s :=
  ⟨fun hstage => hrunning (hstage.resolve_left hqueued), hinside, hforced, fun h => absurd h hqueued⟩

theorem turn {n : Note} {e : Errand} {next : Multiset Errand} {posted p : Nat} {events st : List (Event V)}
    {cs : List Chore} {es : Multiset Errand} (h : Poised id c ⟨some c, cs, p, e ::ₘ es, st⟩)
    (hs : Strand.Sound (⟨some c, cs, p, e ::ₘ es, st⟩ : Strand B V)) (hturn : Turn bh id n c e c' next posted events) :
    Poised id c' ⟨some c', cs, p + posted, next + es, events ++ st⟩ := by
  obtain ⟨hforced, -⟩ := hturn.keeps
  by_cases hqueued : c.stage = .queued
  · -- a queued task has early errands only, and of these all but holding the body leave the queue
    obtain ⟨hposted, hall⟩ := h.early hqueued
    have hfirst : e.early = true := hall e (Multiset.mem_cons_self _ _)
    have hrest : ∀ e' ∈ es, e'.early = true := fun e' he' => hall e' (Multiset.mem_cons_of_mem he')
    have hopen := (hs.staged c rfl).of_isOpen (Staged.isOpen_of_queued (.inl hqueued))
    have hentered := h.entered (.inl hqueued)
    cases hturn with
    | takeUp | partTakeUp =>
      exact .of_unqueued (by simp) (fun _ => hentered) (fun _ => by simp) fun hf => by simp [hopen.2.1] at hf
    | tooLate hnot | partTooLate hnot => exact absurd hqueued hnot
    | hold hbody =>
      refine h.congr rfl rfl rfl rfl (fun hmem => hmem) (fun _ hp => hp) fun _ _ e' he' => ?_
      rcases Multiset.mem_add.1 he' with he' | he'
      · rw [Multiset.mem_singleton.1 he']
        rfl
      · exact hrest e' he'
    | nothingToHold hbody => exact absurd hbody hopen.2.2.1
    | bodyless hbody hphase => rcases hphase with rfl | rfl <;> cases hfirst
    | _ => cases hfirst
  · have hstage : c'.stage = c.stage := (hturn.tale.2.2).resolve_right fun hboth => hqueued hboth.1
    have hentered : c'.entered = c.entered := by cases hturn <;> rfl
    have hclaimed : c'.settlement.claimed = c.settlement.claimed := by rw [hturn.settlement_eq]
    exact h.congr hstage hentered hforced hclaimed (fun hmem => hmem) (fun hq => absurd hq hqueued)
      fun hq => absurd hq hqueued

end Poised

/-- **Every step keeps a task poised.** -/
theorem Strand.Step.poised {n : Note} {s s' : Strand B V} (h : Strand.Step bh id n s s') (hs : s.Sound)
    (hp : ∀ c, s.cell = some c → Poised id c s) : ∀ c, s'.cell = some c → Poised id c s' := by
  intro c' hc'
  cases h with
  | reject =>
    obtain rfl := Option.some.inj hc'
    exact .of_unqueued (by simp) (fun h => by simp at h) (fun h => by simp [Cell.fresh] at h) fun h => by
      simp [Cell.fresh] at h
  | letIn | spread =>
    obtain ⟨rfl, rfl, rfl, rfl⟩ := hs.rooted rfl
    obtain rfl := Option.some.inj hc'
    exact ⟨fun _ => rfl, fun _ => by simp, fun h => by simp [Cell.fresh] at h, fun _ => ⟨rfl, by simp⟩⟩
  | turn es hturn =>
    obtain rfl := Option.some.inj hc'
    exact (hp _ rfl).turn hs hturn
  | receive =>
    have h := hp c' hc'
    refine h.congr rfl rfl rfl rfl (fun hmem => List.mem_cons_of_mem _ hmem) (fun _ hzero => ?_) fun _ hall => hall
    cases hzero
  | submit | submitPart =>
    obtain rfl := Option.some.inj hc'
    refine (hp _ rfl).congr rfl rfl rfl rfl (fun hmem => by simpa using hmem) (fun _ hzero => hzero)
      fun _ hall e he => ?_
    rcases Multiset.mem_cons.1 he with rfl | he
    · rfl
    · exact hall e he
  | claim hclaimed =>
    obtain rfl := Option.some.inj hc'
    exact .of_unqueued (by simp [Cell.claim]) (fun h => by simp [Cell.claim] at h) (fun _ => by simp [Cell.claim])
      fun _ h => by simp [Cell.claim] at h
  | conclude hbody hending hnotice | bodyless hbody hnotice =>
    obtain rfl := Option.some.inj hc'
    obtain ⟨hwon, -, -⟩ := (hs.staged _ rfl).of_conclude
    exact .of_unqueued (by simp [Cell.close]) (fun h => by simp [Cell.close] at h) (fun h => by simp [Cell.close] at h)
      fun _ h => by simp [Cell.close, hnotice.spec.2, hwon] at h
  | force hqueued =>
    obtain rfl := Option.some.inj hc'
    exact .of_unqueued (by simp) (fun h => by simp at h) (fun _ => by simp) fun _ _ => List.mem_cons_self ..
  | late hclaimed =>
    obtain rfl := Option.some.inj hc'
    have h := hp _ rfl
    exact ⟨h.entered, h.inside, fun _ hopen => by simp [hclaimed] at hopen, h.early⟩
  | @abandoned c cs p es st last =>
    obtain rfl := Option.some.inj hc'
    refine (hp _ rfl).congr rfl rfl rfl rfl (fun hmem => ?_) (fun _ hzero => hzero) fun _ hall => hall
    cases last <;> simp_all
  | _ =>
    obtain rfl := Option.some.inj hc'
    exact (hp _ rfl).congr rfl rfl rfl rfl (fun hmem => by simp_all) (fun _ hzero => hzero) fun _ hall => hall

theorem Strand.Leads.poised {n : Note} {s s' : Strand B V} (h : Strand.Leads bh id n s s') (hs : s.Sound)
    (hp : ∀ c, s.cell = some c → Poised id c s) : ∀ c, s'.cell = some c → Poised id c s' := by
  rcases h with ⟨-, rfl⟩ | hstep
  · exact hp
  · exact hstep.poised hs hp

theorem Strand.Step.forced_of_forced {n : Note} {s s' : Strand B V} (h : Strand.Step bh id n s s') {c' : Cell B V}
    (hc' : s'.cell = some c') (hforced : c'.forced = true) : n.bars = true ∨ ∃ c, s.cell = some c ∧ c.forced = true := by
  cases h with
  | force => exact .inl rfl
  | reject | letIn | spread =>
    obtain rfl := Option.some.inj hc'
    cases hforced
  | turn es hturn =>
    obtain rfl := Option.some.inj hc'
    exact .inr ⟨_, rfl, hturn.keeps.1 ▸ hforced⟩
  | receive => exact .inr ⟨c', hc', hforced⟩
  | _ =>
    obtain rfl := Option.some.inj hc'
    exact .inr ⟨_, rfl, hforced⟩

/-! ## Runs -/

namespace Dispatcher

structure Regular (bh : Behaviour W B V) (d : Dispatcher W B V) : Prop where
  held : d.Held
  sound : ∀ id, (d.strand id).Sound
  poised : ∀ id c, d.cells[id]? = some c → Poised id c (d.strand id)
  told : ∀ id c, d.cells[id]? = some c → ∃ calls ending, Tale id c (d.strand id) calls ending
  /-- A task that was forced was never called and will not be. -/
  barred : ∀ id c, d.cells[id]? = some c → c.forced = true → Barred id c (d.strand id)

variable {d d' : Dispatcher W B V}

theorem regular_start {world : W} {s : Settings} {processors : Nat} {admission : Admission} {checkpoints : Bool}
    (h : start world s processors admission checkpoints = .ok d) : d.Regular bh := by
  obtain ⟨hheld, -, -, hblank⟩ := start_spec h
  have hnone : ∀ id, d.cells[id]? = none := fun id => congrArg Strand.cell (hblank id)
  refine ⟨hheld, fun id => Strand.sound_of_none (hheld.rooted id) (hnone id), ?_, ?_, ?_⟩
  all_goals
    intro id c hc
    rw [hnone] at hc
    cases hc

theorem Regular.act (hbh : bh.Returns) (h : d.Regular bh) {a : Act W B V} (ha : a.returns = true)
    (hact : d.act? bh a = some d') : d'.Regular bh := by
  obtain ⟨hheld, -, hleads⟩ := weave hbh h.held ha hact
  refine ⟨hheld, fun id => (hleads id).sound (h.sound id), fun id => (hleads id).poised (h.sound id) (h.poised id),
    fun id c hc => ?_, fun id c hc hforced => ?_⟩
  · rcases hleads id with ⟨-, heq⟩ | hstep
    · rw [heq]
      exact h.told id c ((congrArg Strand.cell heq).symm.trans hc)
    · exact hstep.tale (h.sound id) (h.told id) c hc
  · rcases hleads id with ⟨-, heq⟩ | hstep
    · rw [heq]
      exact h.barred id c ((congrArg Strand.cell heq).symm.trans hc) hforced
    · have hbarred : ∃ c', (d'.strand id).cell = some c' ∧ Barred id c' (d'.strand id) := by
        rcases hstep.forced_of_forced hc hforced with hbars | ⟨c₀, hc₀, hforced₀⟩
        · exact hstep.bars (h.sound id) (h.told id) hbars
        · exact hstep.barred (h.sound id) hc₀ (h.barred id c₀ hc₀ hforced₀)
      obtain ⟨c', hc', hbarred⟩ := hbarred
      obtain rfl := Option.some.inj (hc'.symm.trans hc)
      exact hbarred

theorem Regular.run (hbh : bh.Returns) (h : d.Regular bh) {as : List (Act W B V)} (has : ∀ a ∈ as, a.returns = true)
    (hrun : d.run? bh as = some d') : d'.Regular bh := by
  induction as generalizing d with
  | nil =>
    obtain rfl := Option.some.inj hrun
    exact h
  | cons a as ih =>
    obtain ⟨d₁, hact, hrun⟩ := Option.bind_eq_some_iff.1 hrun
    exact ih (h.act hbh (has a (List.mem_cons_self ..)) hact) (fun a ha => has a (List.mem_cons_of_mem _ ha)) hrun

end Dispatcher
end BitmapWorks
