import BitmapWorks.Proofs.Dispatcher.Weave
/-!
# Stages — the flags of a task and its stage

The stage of a task tells its other flags: who won the right to settle, whether the body and the sink are used up, and
whether a concluding chore waits (`Staged`).  Every step keeps that, and changes the stage along `Stage.Next` only.
-/
namespace BitmapWorks

variable {W B V : Type} {bh : Behaviour W B V} {id : Nat}

inductive Stage.Next : Stage → Stage → Prop
  | check : Next .created .validating
  | reject : Next .validating .rejected
  | queue : Next .validating .queued
  | run : Next .queued .running
  | complete {stage} : stage = .rejected ∨ stage = .queued ∨ stage = .running → Next stage .completing
  | finish : Next .completing .done

theorem Stage.Next.ne_done {stage stage' : Stage} (h : Stage.Next stage stage') : stage ≠ .done := by
  cases h with
  | complete hstage => rcases hstage with rfl | rfl | rfl <;> simp
  | _ => simp

def Chore.concludes : Chore → Nat
  | conclude _ => 1
  | _ => 0

/-- What the stage of a task says about its other flags and about its concluding chores. -/
structure Staged (c : Cell B V) (cs : List Chore) : Prop where
  checked : c.stage ≠ .created ∧ c.stage ≠ .validating
  claimed : c.settlement.claimed = true → c.stage = .completing ∨ c.stage = .done
  completing : c.stage = .completing → c.settlement.claimed = true ∨ c.forced = true
  done : c.stage = .done → c.settlement.claimed = true
  forced : c.forced = true → (c.stage = .completing ∨ c.stage = .done) ∧ c.fault ≠ none
  body : c.body = none ↔ c.stage = .done
  sink : c.settlement.sink = none ↔ c.stage = .done
  concludes : (cs.map Chore.concludes).sum = if c.settlement.claimed = true ∧ c.stage ≠ .done then 1 else 0

def Stage.isOpen : Stage → Bool
  | completing | done => false
  | _ => true

namespace Staged

variable {c : Cell B V} {cs : List Chore}

/-- **In front of its completion nobody has won a task, nobody has forced it, and its body and sink are there.** -/
theorem of_isOpen (h : Staged c cs) (hopen : c.stage.isOpen = true) :
    c.settlement.claimed = false ∧ c.forced = false ∧ c.body ≠ none ∧ c.settlement.sink ≠ none := by
  have hcompleting : c.stage ≠ .completing := fun heq => by rw [heq] at hopen; cases hopen
  have hdone : c.stage ≠ .done := fun heq => by rw [heq] at hopen; cases hopen
  refine ⟨?_, ?_, mt h.body.1 hdone, mt h.sink.1 hdone⟩
  · by_contra hclaimed
    exact (h.claimed (by simpa using hclaimed)).elim hcompleting hdone
  · by_contra hforced
    exact (h.forced (by simpa using hforced)).1.elim hcompleting hdone

/-- A task that nobody is about to conclude was claimed just if it is done. -/
theorem claimed_iff (h : Staged c cs) (hquiet : (cs.map Chore.concludes).sum = 0) :
    c.settlement.claimed = true ↔ c.stage = .done := by
  refine ⟨fun hclaimed => ?_, h.done⟩
  by_contra hdone
  have hconcludes := h.concludes
  rw [hquiet, if_pos ⟨hclaimed, hdone⟩] at hconcludes
  cases hconcludes

theorem isOpen_of_queued (hstage : c.stage = .queued ∨ c.stage = .running) : c.stage.isOpen = true := by
  rcases hstage with hstage | hstage <;> rw [hstage] <;> rfl

theorem offer (h : Staged c cs) (fault : Option Fault) : Staged (c.offer fault) cs := by
  refine ⟨h.checked, h.claimed, h.completing, h.done, fun hforced => ⟨(h.forced hforced).1, ?_⟩, h.body, h.sink,
    h.concludes⟩
  have hfault := (h.forced hforced).2
  show c.fault.or fault ≠ none
  cases hc : c.fault with
  | none => exact absurd hc hfault
  | some _ => simp

theorem takeUp (h : Staged c cs) (hstage : c.stage = .queued ∨ c.stage = .running) :
    Staged { c with stage := .running } cs := by
  obtain ⟨hclaimed, hforced, hbody, hsink⟩ := h.of_isOpen (isOpen_of_queued hstage)
  have hconcludes := h.concludes
  constructor <;> simp_all

theorem afterWork (h : Staged c cs) (hbody : c.body ≠ none) (w : Work W B) : Staged (c.afterWork w) cs := by
  have hdone := mt h.body.2 hbody
  have hstaged : Staged { c with body := some w.body, tally := Ledger.wrap (c.tally + w.tally) } cs :=
    ⟨h.checked, h.claimed, h.completing, h.done, h.forced, by simp [hdone], h.sink, h.concludes⟩
  exact hstaged.offer w.recorded

/-- A task with a concluding chore is won and not done, and has no other such chore. -/
theorem of_conclude (h : Staged c (.conclude id :: cs)) :
    c.settlement.claimed = true ∧ c.stage ≠ .done ∧ (cs.map Chore.concludes).sum = 0 := by
  have hconcludes := h.concludes
  by_cases hwon : c.settlement.claimed = true ∧ c.stage ≠ .done
  · rw [if_pos hwon, List.map_cons, List.sum_cons, Chore.concludes] at hconcludes
    exact ⟨hwon.1, hwon.2, by omega⟩
  · rw [if_neg hwon, List.map_cons, List.sum_cons, Chore.concludes] at hconcludes
    omega

theorem claim (h : Staged c (.complete id :: cs)) (hclaimed : c.settlement.claimed = false) :
    Staged c.claim (.conclude id :: cs) := by
  have hconcludes := h.concludes
  have hdone : c.stage ≠ .done := fun hdone => by simp [h.done hdone] at hclaimed
  have hbody := mt h.body.1 hdone
  have hsink := mt h.sink.1 hdone
  have hforced := h.forced
  simp only [hclaimed, List.map_cons, List.sum_cons, Chore.concludes] at hconcludes
  constructor <;> simp_all [Cell.claim, Chore.concludes]

theorem close (h : Staged c (.conclude id :: cs)) {settlement : Settlement (Except Fault V)}
    (hsink : settlement.sink = none) (hclaimed : settlement.claimed = c.settlement.claimed) :
    Staged (c.close settlement) cs := by
  obtain ⟨hwon, -, hnone⟩ := h.of_conclude
  have hforced := h.forced
  constructor <;> simp_all [Cell.close]

theorem force (h : Staged c cs) (hstage : c.stage = .queued) :
    Staged { c.offer (some .shuttingDown) with stage := .completing, forced := true } (.complete id :: cs) := by
  obtain ⟨hclaimed, -, hbody, hsink⟩ := h.of_isOpen (isOpen_of_queued (.inl hstage))
  have hconcludes := h.concludes
  have hfault : c.fault.or (some .shuttingDown) ≠ none := by cases c.fault <;> simp
  constructor <;> simp_all [Cell.offer, Chore.concludes]

/-- Chores that conclude as much as the chores before them make no difference. -/
theorem chores (h : Staged c cs) {cs' : List Chore}
    (heq : (cs'.map Chore.concludes).sum = (cs.map Chore.concludes).sum) : Staged c cs' :=
  ⟨h.checked, h.claimed, h.completing, h.done, h.forced, h.body, h.sink, heq.trans h.concludes⟩

theorem turn {n : Note} {c' : Cell B V} {e : Errand} {next : Multiset Errand} {posted : Nat} {events : List (Event V)}
    (h : Staged c cs) (hturn : Turn bh id n c e c' next posted events) : Staged c' cs := by
  cases hturn with
  | takeUp hstage => exact h.takeUp hstage
  | partTakeUp hstage => exact h.takeUp hstage
  | «return» world hbody => exact h.afterWork (by simp [hbody]) _
  | partReturn world hbody => exact h.afterWork (by simp [hbody]) _
  | record outcome => exact h.offer _
  | partRecord outcome => exact h.offer _
  | fetch | overrun | finish | finishLast =>
    exact ⟨h.checked, h.claimed, h.completing, h.done, h.forced, h.body, h.sink, h.concludes⟩
  | _ => exact h

end Staged

theorem Strand.Step.staged {n : Note} {s s' : Strand B V} (h : Strand.Step bh id n s s') (hrooted : s.Rooted)
    (hs : ∀ c, s.cell = some c → Staged c s.chores) : ∀ c, s'.cell = some c → Staged c s'.chores := by
  intro c' hc'
  cases h with
  | reject b sink fault hsink =>
    obtain ⟨rfl, -⟩ := hrooted rfl
    obtain rfl := Option.some.inj hc'
    constructor <;> simp [Cell.fresh, Settlement.fresh, Chore.concludes]
  | letIn b sink hsink hitems =>
    obtain ⟨rfl, -⟩ := hrooted rfl
    obtain rfl := Option.some.inj hc'
    constructor <;> simp [Cell.fresh, Settlement.fresh, Chore.concludes]
  | spread b sink n count hsink hitems hcount =>
    obtain ⟨rfl, -⟩ := hrooted rfl
    obtain rfl := Option.some.inj hc'
    constructor <;> simp [Cell.fresh, Settlement.fresh, Chore.concludes]
  | receive => exact (hs c' hc').chores (by simp [Chore.concludes])
  | promise promise =>
    obtain rfl := Option.some.inj hc'
    have h := hs _ rfl
    exact ⟨h.checked, h.claimed, h.completing, h.done, h.forced, h.body, h.sink, h.concludes⟩
  | turn es hturn =>
    obtain rfl := Option.some.inj hc'
    exact (hs _ rfl).turn hturn
  | claim hclaimed =>
    obtain rfl := Option.some.inj hc'
    exact (hs _ rfl).claim hclaimed
  | conclude hbody hending hnotice =>
    obtain rfl := Option.some.inj hc'
    exact (hs _ rfl).close hnotice.spec.1 hnotice.spec.2
  | bodyless hbody hnotice =>
    obtain rfl := Option.some.inj hc'
    exact (hs _ rfl).close hnotice.spec.1 hnotice.spec.2
  | force hstage =>
    obtain rfl := Option.some.inj hc'
    exact (hs _ rfl).force hstage
  | refuse fault =>
    obtain rfl := Option.some.inj hc'
    exact ((hs _ rfl).offer (some fault)).chores (by simp [Chore.concludes])
  | refusePart fault =>
    obtain rfl := Option.some.inj hc'
    exact ((hs _ rfl).offer (some fault)).chores (by simp [Chore.concludes])
  | @abandoned c cs p es st last =>
    obtain rfl := Option.some.inj hc'
    refine (hs _ rfl).chores ?_
    cases last <;> simp [Chore.concludes]
  | @abandon c cs p es st left last f hf =>
    obtain rfl := Option.some.inj hc'
    have h : Staged c (.abandon id left (last || f.finish.1) :: cs) := (hs _ rfl).chores (by simp [Chore.concludes])
    exact ⟨h.checked, h.claimed, h.completing, h.done, h.forced, h.body, h.sink, h.concludes⟩
  | _ =>
    obtain rfl := Option.some.inj hc'
    exact (hs _ rfl).chores (by simp [Chore.concludes])

/-! ## Stages of a task -/

theorem Turn.stage_next {n : Note} {c c' : Cell B V} {e : Errand} {next : Multiset Errand} {posted : Nat}
    {events : List (Event V)} (h : Turn bh id n c e c' next posted events) :
    c'.stage = c.stage ∨ Stage.Next c.stage c'.stage := by
  cases h with
  | takeUp hstage | partTakeUp hstage =>
    rcases hstage with hstage | hstage
    · rw [hstage]
      exact .inr .run
    · exact .inl hstage.symm
  | _ => exact .inl rfl

/-- **A task that is there stays in its stage or goes on to a next one.** -/
theorem Strand.Step.stage_next {n : Note} {s s' : Strand B V} (h : Strand.Step bh id n s s')
    (hs : ∀ c, s.cell = some c → Staged c s.chores) {c c' : Cell B V} (hc : s.cell = some c) (hc' : s'.cell = some c') :
    c'.stage = c.stage ∨ Stage.Next c.stage c'.stage := by
  cases h with
  | reject | letIn | spread => cases hc
  | receive =>
    obtain rfl := Option.some.inj (hc.symm.trans hc')
    exact .inl rfl
  | turn es hturn =>
    obtain rfl := Option.some.inj hc
    obtain rfl := Option.some.inj hc'
    exact hturn.stage_next
  | @claim c cs p es st hclaimed =>
    obtain rfl := Option.some.inj hc
    obtain rfl := Option.some.inj hc'
    have h := hs _ rfl
    show Stage.completing = _ ∨ Stage.Next _ .completing
    cases hstage : c.stage with
    | created => exact absurd hstage h.checked.1
    | validating => exact absurd hstage h.checked.2
    | rejected => exact .inr (.complete (.inl rfl))
    | queued => exact .inr (.complete (.inr (.inl rfl)))
    | running => exact .inr (.complete (.inr (.inr rfl)))
    | completing => exact .inl rfl
    | done => rw [h.done hstage] at hclaimed; cases hclaimed
  | conclude hbody hending hnotice | bodyless hbody hnotice =>
    obtain rfl := Option.some.inj hc
    obtain rfl := Option.some.inj hc'
    obtain ⟨hwon, hdone, -⟩ := (hs _ rfl).of_conclude
    rw [((hs _ rfl).claimed hwon).resolve_right hdone]
    exact .inr .finish
  | force hstage =>
    obtain rfl := Option.some.inj hc
    obtain rfl := Option.some.inj hc'
    rw [hstage]
    exact .inr (.complete (.inr (.inl rfl)))
  | _ =>
    obtain rfl := Option.some.inj hc
    obtain rfl := Option.some.inj hc'
    exact .inl rfl

/-- **A new task has been checked, and is rejected or queued.** -/
theorem Strand.Step.stage_of_new {n : Note} {s s' : Strand B V} (h : Strand.Step bh id n s s') (hc : s.cell = none)
    {c' : Cell B V} (hc' : s'.cell = some c') : Stage.Next .validating c'.stage := by
  cases h with
  | reject => obtain rfl := Option.some.inj hc'; exact .reject
  | letIn | spread => obtain rfl := Option.some.inj hc'; exact .queue
  | receive => exact absurd (hc.symm.trans hc') (by simp)
  | _ => cases hc

end BitmapWorks
