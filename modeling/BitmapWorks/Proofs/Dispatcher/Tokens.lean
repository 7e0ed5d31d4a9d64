import BitmapWorks.Proofs.Dispatcher.Stages
import Mathlib.Algebra.Order.BigOperators.Group.Multiset
import Mathlib.Algebra.Order.Group.Nat
/-!
# Tokens — who still has work of a task, and who will complete it

What is planned or under way for a task is counted by weights of its chores and errands.  Of a task that no shutdown
forced there is one signal to complete it once there is no more work, and none before (`Tokens`): so nobody wins a task
while its work goes on, and a worker calls a task only while it is running (`Strand.active`).
-/
namespace BitmapWorks

variable {W B V : Type} {bh : Behaviour W B V} {id : Nat}

/-! ## Weights -/

def Strand.weigh (chore : Chore → Nat) (errand : Errand → Nat) (s : Strand B V) : Nat :=
  (s.chores.map chore).sum + (s.errands.map errand).sum

/-- Calls or partitions that a chore has not handed in, or still counts as unfinished. -/
def Chore.work : Chore → Nat
  | submit _ => 1
  | submitPart _ next count => count - next
  | abandon _ left _ => left
  | _ => 0

def Errand.work : Errand → Nat
  | single _ .post | part _ .post => 0
  | _ => 1

def Chore.signals : Chore → Nat
  | complete _ | abandon _ _ true => 1
  | _ => 0

def Errand.signals : Errand → Nat
  | single _ .post | part _ .post => 1
  | _ => 0

def Chore.single : Chore → Nat
  | submit _ => 1
  | _ => 0

def Errand.isSingle : Errand → Nat
  | single _ _ => 1
  | part _ _ => 0

def Chore.parts : Chore → Nat
  | submitPart _ _ _ | abandon _ _ _ => 1
  | _ => 0

def Errand.isPart : Errand → Nat
  | single _ _ => 0
  | part _ _ => 1

def Errand.active : Errand → Nat
  | single _ .call | single _ .calling | single _ (.record _) => 1
  | part _ .look | part _ .load | part _ .fetch | part _ (.call _) | part _ (.calling _) | part _ (.record _) => 1
  | _ => 0

theorem Errand.active_le (e : Errand) : e.active ≤ e.work := by
  cases e with
  | single id phase => cases phase <;> simp [active, work]
  | part id phase => cases phase <;> simp [active, work]

namespace Strand

def work : Strand B V → Nat := weigh Chore.work Errand.work

def signals (s : Strand B V) : Nat := s.posted + weigh Chore.signals Errand.signals s

def active : Strand B V → Nat := weigh (fun _ => 0) Errand.active

theorem active_le_work (s : Strand B V) : s.active ≤ s.work := by
  unfold active work weigh
  have hle : (s.errands.map Errand.active).sum ≤ (s.errands.map Errand.work).sum :=
    Multiset.sum_map_le_sum_map _ _ fun e _ => e.active_le
  simpa using Nat.le_add_left_of_le hle

end Strand

theorem Strand.active_eq_zero {s : Strand B V} (h : s.active = 0) {e : Errand} (he : e ∈ s.errands) : e.active = 0 := by
  have hsum : (s.errands.map Errand.active).sum = 0 := by simpa [active, weigh] using h
  exact Multiset.sum_eq_zero_iff.1 hsum _ (Multiset.mem_map_of_mem _ he)

/-! ## Kinds -/

structure Kinds (c : Cell B V) (s : Strand B V) : Prop where
  single : c.fanout = none → s.weigh Chore.parts Errand.isPart = 0
  parts : c.fanout ≠ none → s.weigh Chore.single Errand.isSingle = 0

theorem Kinds.isSingle_eq_zero {c : Cell B V} {o : Option (Cell B V)} {cs : List Chore} {p : Nat} {e : Errand}
    {es : Multiset Errand} {st : List (Event V)} (h : Kinds c ⟨o, cs, p, e ::ₘ es, st⟩) (hfanout : c.fanout ≠ none) :
    e.isSingle = 0 := by
  have hzero := h.parts hfanout
  simp only [Strand.weigh, Multiset.map_cons, Multiset.sum_cons] at hzero
  omega

theorem Turn.fanout_eq_none {n : Note} {c c' : Cell B V} {e : Errand} {next : Multiset Errand} {posted : Nat}
    {events : List (Event V)} (h : Turn bh id n c e c' next posted events) : c'.fanout = none ↔ c.fanout = none := by
  cases h <;> simp_all [Cell.afterWork, Cell.offer]

theorem Turn.weigh_le {n : Note} {c c' : Cell B V} {e : Errand} {next : Multiset Errand} {posted : Nat}
    {events : List (Event V)} (h : Turn bh id n c e c' next posted events) :
    (next.map Errand.isPart).sum ≤ e.isPart ∧ (next.map Errand.isSingle).sum ≤ e.isSingle := by
  cases h <;> simp [Errand.isPart, Errand.isSingle]

theorem Strand.Step.kinds {n : Note} {s s' : Strand B V} (h : Strand.Step bh id n s s') (hrooted : s.Rooted)
    (hs : ∀ c, s.cell = some c → Kinds c s) : ∀ c, s'.cell = some c → Kinds c s' := by
  intro c' hc'
  cases h with
  | reject | letIn | spread =>
    obtain ⟨rfl, -, rfl, -⟩ := hrooted rfl
    obtain rfl := Option.some.inj hc'
    constructor <;> simp [Cell.fresh, Strand.weigh, Chore.parts, Chore.single]
  | receive =>
    obtain ⟨hsingle, hparts⟩ := hs c' hc'
    constructor <;> simp_all [Strand.weigh, Chore.parts, Chore.single]
  | turn es hturn =>
    obtain rfl := Option.some.inj hc'
    obtain ⟨hsingle, hparts⟩ := hs _ rfl
    obtain ⟨hnext, hnext'⟩ := hturn.weigh_le
    simp only [Strand.weigh, Multiset.map_cons, Multiset.sum_cons] at hsingle hparts
    constructor
    · intro hnone
      have hzero := hsingle (hturn.fanout_eq_none.1 hnone)
      simp only [Strand.weigh, Multiset.map_add, Multiset.sum_add]
      omega
    · intro hsome
      have hzero := hparts (mt hturn.fanout_eq_none.2 hsome)
      simp only [Strand.weigh, Multiset.map_add, Multiset.sum_add]
      omega
  | @abandoned c cs p es st last =>
    obtain rfl := Option.some.inj hc'
    obtain ⟨hsingle, hparts⟩ := hs _ rfl
    cases last <;> (constructor <;> simp_all [Strand.weigh, Chore.parts, Chore.single])
  | _ =>
    obtain rfl := Option.some.inj hc'
    obtain ⟨hsingle, hparts⟩ := hs _ rfl
    constructor <;> simp_all [Strand.weigh, Errand.isPart, Errand.isSingle, Chore.parts, Chore.single, Cell.offer,
      Cell.claim, Cell.close]

/-! ## Tokens -/

/-- The tokens of a task that no shutdown forced: one signal once there is no more work, and none before. -/
structure Tokens (c : Cell B V) (s : Strand B V) : Prop where
  signals : s.signals + (if c.settlement.claimed = true then 1 else 0) = if s.work = 0 then 1 else 0
  single : c.fanout = none → s.work ≤ 1
  pending : ∀ f, c.fanout = some f → f.pending = s.work
  rejected : c.stage = .rejected → s.work = 0

theorem Turn.keeps {n : Note} {c c' : Cell B V} {e : Errand} {next : Multiset Errand} {posted : Nat}
    {events : List (Event V)} (h : Turn bh id n c e c' next posted events) :
    c'.forced = c.forced ∧ (c'.stage = .rejected → c.stage = .rejected) := by
  cases h <;> simp [Cell.afterWork, Cell.offer]

/-- **What a turn does to the tokens**: they pass on; or the one call of a task is over; or a partition is finished.
The other turns find the body gone, or a partition of a task that has none. -/
theorem Turn.tokens {n : Note} {c c' : Cell B V} {e : Errand} {next : Multiset Errand} {posted : Nat}
    {events : List (Event V)} (h : Turn bh id n c e c' next posted events) :
    ((next.map Errand.work).sum = e.work ∧ (next.map Errand.signals).sum + posted = e.signals ∧
      c'.fanout.map Fanout.pending = c.fanout.map Fanout.pending) ∨
    (e.isSingle = 1 ∧ e.work = 1 ∧ e.signals = 0 ∧ (next.map Errand.work).sum = 0 ∧
      (next.map Errand.signals).sum + posted = 1 ∧ c'.fanout = c.fanout) ∨
    (∃ f, c.fanout = some f ∧ c'.fanout = some f.finish.2 ∧ e.work = 1 ∧ e.signals = 0 ∧
      (next.map Errand.work).sum = 0 ∧ (next.map Errand.signals).sum + posted = if f.pending = 1 then 1 else 0) ∨
    (e.work = 1 ∧ c.body = none) ∨ (e.isPart = 1 ∧ c.fanout = none) := by
  cases h with
  | tooLate | record => exact .inr (.inl ⟨rfl, rfl, rfl, by simp [Errand.work], by simp [Errand.signals], rfl⟩)
  | bodyless hbody hphase =>
    refine .inr (.inr (.inr (.inl ⟨?_, hbody⟩)))
    rcases hphase with rfl | rfl <;> rfl
  | nothingToHold hbody | partBodyless hbody => exact .inr (.inr (.inr (.inl ⟨rfl, hbody⟩)))
  | finish hf hpending | finishLast hf hpending =>
    exact .inr (.inr (.inl ⟨_, hf, rfl, rfl, rfl, by simp [Errand.work], by simp [Errand.signals, hpending]⟩))
  | unspread hf | nothingToFinish hf => exact .inr (.inr (.inr (.inr ⟨rfl, hf⟩)))
  | fetch hf | overrun hf => exact .inl ⟨by simp [Errand.work], by simp [Errand.signals], by simp [hf]⟩
  | _ => exact .inl ⟨by simp [Errand.work], by simp [Errand.signals], rfl⟩

theorem Tokens.of_work {c : Cell B V} {s : Strand B V} (h : Tokens c s) (hwork : s.work ≠ 0) :
    s.signals = 0 ∧ c.settlement.claimed = false := by
  have hsignals := h.signals
  rw [if_neg hwork] at hsignals
  cases hclaimed : c.settlement.claimed with
  | false => exact ⟨by omega, rfl⟩
  | true => simp [hclaimed] at hsignals

theorem Tokens.work_eq_zero {c : Cell B V} {s : Strand B V} (h : Tokens c s)
    (hclaimed : c.settlement.claimed = true) : s.work = 0 := by
  by_contra hwork
  rw [(h.of_work hwork).2] at hclaimed
  cases hclaimed

section

variable {c c' : Cell B V} {s s' : Strand B V}

theorem Tokens.pass (h : Tokens c s) (hwork : s'.work = s.work)
    (hsignals : s'.signals + (if c'.settlement.claimed = true then 1 else 0)
      = s.signals + (if c.settlement.claimed = true then 1 else 0))
    (hfanout : c'.fanout.map Fanout.pending = c.fanout.map Fanout.pending)
    (hstage : c'.stage = .rejected → c.stage = .rejected) : Tokens c' s' := by
  refine ⟨?_, fun hnone => ?_, fun f' hf' => ?_, fun hstage' => ?_⟩
  · rw [hsignals, hwork]
    exact h.signals
  · rw [hwork]
    rw [hnone] at hfanout
    exact h.single (Option.map_eq_none_iff.1 hfanout.symm)
  · rw [hf'] at hfanout
    obtain ⟨f, hf, hsame⟩ := Option.map_eq_some_iff.1 hfanout.symm
    rw [hwork, ← hsame]
    exact h.pending f hf
  · rw [hwork]
    exact h.rejected (hstage hstage')

/-- The one call of a task is over: there was no other work and no signal, and now there is the one signal. -/
theorem Tokens.last (h : Tokens c s) (hnone : c.fanout = none) (hfanout : c'.fanout = c.fanout)
    (hclaimed : c'.settlement = c.settlement) (hwork : s.work = s'.work + 1) (hsignals : s'.signals = s.signals + 1) :
    Tokens c' s' := by
  have hone := h.single hnone
  obtain ⟨hquiet, hopen⟩ := h.of_work (by omega)
  refine ⟨?_, fun _ => by omega, fun f hf => ?_, fun _ => by omega⟩
  · simp only [hclaimed, hopen, Bool.false_eq_true, if_false]
    split <;> omega
  · rw [hfanout, hnone] at hf
    cases hf

/-- A partition is finished: the last one, and only that, gives the one signal. -/
theorem Tokens.finish {f : Fanout} (h : Tokens c s) (hf : c.fanout = some f) (hf' : c'.fanout = some f.finish.2)
    (hclaimed : c'.settlement = c.settlement) (hstage : c'.stage = .rejected → c.stage = .rejected)
    (hwork : s.work = s'.work + 1) (hsignals : s'.signals = s.signals + if f.pending = 1 then 1 else 0) :
    Tokens c' s' := by
  have hcount := h.pending f hf
  obtain ⟨hquiet, hopen⟩ := h.of_work (by omega)
  refine ⟨?_, fun hnone => ?_, fun f' heq => ?_, fun hstage' => ?_⟩
  · simp only [hclaimed, hopen, Bool.false_eq_true, if_false]
    by_cases hlast : f.pending = 1
    · rw [if_pos hlast] at hsignals
      split <;> omega
    · rw [if_neg hlast] at hsignals
      split <;> omega
  · rw [hf'] at hnone
    cases hnone
  · rw [hf'] at heq
    obtain rfl := Option.some.inj heq
    show f.pending - 1 = _
    omega
  · have hzero := h.rejected (hstage hstage')
    omega

end

theorem Tokens.turn {n : Note} {c c' : Cell B V} {e : Errand} {next : Multiset Errand} {posted p : Nat}
    {events st : List (Event V)} {cs : List Chore} {es : Multiset Errand}
    (hturn : Turn bh id n c e c' next posted events) (hstaged : Staged c cs)
    (hkinds : Kinds c ⟨some c, cs, p, e ::ₘ es, st⟩) (h : Tokens c ⟨some c, cs, p, e ::ₘ es, st⟩) :
    Tokens c' ⟨some c', cs, p + posted, next + es, events ++ st⟩ := by
  have hsettlement := hturn.settlement_eq
  obtain ⟨-, hstage⟩ := hturn.keeps
  have hbefore : Strand.work ⟨some c, cs, p, e ::ₘ es, st⟩
      = (cs.map Chore.work).sum + (e.work + (es.map Errand.work).sum) := by
    simp [Strand.work, Strand.weigh]
  have hafter : Strand.work ⟨some c', cs, p + posted, next + es, events ++ st⟩
      = (cs.map Chore.work).sum + ((next.map Errand.work).sum + (es.map Errand.work).sum) := by
    simp [Strand.work, Strand.weigh]
  have hbefore' : Strand.signals ⟨some c, cs, p, e ::ₘ es, st⟩
      = p + ((cs.map Chore.signals).sum + (e.signals + (es.map Errand.signals).sum)) := by
    simp [Strand.signals, Strand.weigh]
  have hafter' : Strand.signals ⟨some c', cs, p + posted, next + es, events ++ st⟩
      = p + posted + ((cs.map Chore.signals).sum + ((next.map Errand.signals).sum + (es.map Errand.signals).sum)) := by
    simp [Strand.signals, Strand.weigh]
  rcases hturn.tokens with ⟨hwork, hsignal, hfanout⟩ | ⟨hkind, hework, hesignal, hwork, hsignal, hfanout⟩ |
    ⟨f, hf, hf', hework, hesignal, hwork, hsignal⟩ | ⟨hework, hbody⟩ | ⟨hkind, hnone⟩
  · exact h.pass (by omega) (by rw [hsettlement]; omega) hfanout hstage
  · have hnone : c.fanout = none := by
      by_contra hsome
      have hzero := hkinds.isSingle_eq_zero hsome
      omega
    exact h.last hnone hfanout hsettlement (by omega) (by omega)
  · exact h.finish hf hf' hsettlement hstage (by omega) (by omega)
  · have hzero := h.work_eq_zero (hstaged.done (hstaged.body.1 hbody))
    omega
  · have hzero := hkinds.single hnone
    simp only [Strand.weigh, Multiset.map_cons, Multiset.sum_cons] at hzero
    omega

/-- A task that is new has its one signal, or all its work in front of it. -/
theorem Strand.Step.tokens_of_new {n : Note} {s s' : Strand B V} (h : Strand.Step bh id n s s') (hrooted : s.Rooted)
    (hnone : s.cell = none) {c : Cell B V} (hc : s'.cell = some c) : Tokens c s' := by
  cases h with
  | reject | letIn =>
    obtain ⟨rfl, rfl, rfl, -⟩ := hrooted rfl
    obtain rfl := Option.some.inj hc
    constructor <;>
      simp [Cell.fresh, Settlement.fresh, Strand.signals, Strand.work, Strand.weigh, Chore.signals, Chore.work]
  | spread b sink n count hsink hitems hcount =>
    obtain ⟨rfl, rfl, rfl, -⟩ := hrooted rfl
    obtain rfl := Option.some.inj hc
    have hcount' : count ≠ 0 := by omega
    constructor <;>
      simp [Cell.fresh, Settlement.fresh, Strand.signals, Strand.work, Strand.weigh, Chore.signals, Chore.work,
        Fanout.start, hcount']
  | receive => rw [show _ = none from hnone] at hc; cases hc
  | _ => cases hnone

section

variable {c : Cell B V} {cs : List Chore} {p left next count : Nat} {es : Multiset Errand} {st : List (Event V)}

theorem Tokens.refuse (h : Tokens c ⟨some c, .submit id :: cs, p, es, st⟩)
    (hkinds : Kinds c ⟨some c, .submit id :: cs, p, es, st⟩) (fault : Fault) :
    Tokens (c.offer (some fault)) ⟨some (c.offer (some fault)), .complete id :: cs, p, es, st⟩ := by
  refine h.last ?_ rfl rfl ?_ ?_
  · by_contra hsome
    have hzero := hkinds.parts hsome
    simp [Strand.weigh, Chore.single] at hzero
  · simp [Strand.work, Strand.weigh, Chore.work]
    omega
  · simp [Strand.signals, Strand.weigh, Chore.signals]
    omega

theorem Tokens.abandon {last : Bool} {f : Fanout} (h : Tokens c ⟨some c, .abandon id (left + 1) last :: cs, p, es, st⟩)
    (hf : c.fanout = some f) :
    Tokens { c with fanout := some f.finish.2 } ⟨some { c with fanout := some f.finish.2 },
      .abandon id left (last || f.finish.1) :: cs, p, es, st⟩ := by
  have hbusy : Strand.work ⟨some c, .abandon id (left + 1) last :: cs, p, es, st⟩ ≠ 0 := by
    simp [Strand.work, Strand.weigh, Chore.work]
  have hfirst : last = false := by
    have hquiet := (h.of_work hbusy).1
    cases last with
    | false => rfl
    | true => simp [Strand.signals, Strand.weigh, Chore.signals] at hquiet
  subst hfirst
  refine h.finish hf rfl rfl (fun hstage => hstage) ?_ ?_
  · simp [Strand.work, Strand.weigh, Chore.work]
    omega
  · by_cases hlast : f.pending = 1
    · simp [Strand.signals, Strand.weigh, Chore.signals, Fanout.finish, hlast]
      omega
    · simp [Strand.signals, Strand.weigh, Chore.signals, Fanout.finish, hlast]

/-- Nobody has won a task that is to be completed: the chore and the one who won would be two signals. -/
theorem Tokens.claimed_of_complete (h : Tokens c ⟨some c, .complete id :: cs, p, es, st⟩) :
    c.settlement.claimed = false := by
  have hsignals := h.signals
  cases hclaimed : c.settlement.claimed with
  | false => rfl
  | true =>
    rw [if_pos hclaimed] at hsignals
    simp [Strand.signals, Strand.weigh, Chore.signals] at hsignals
    split at hsignals <;> omega

theorem Tokens.claim (h : Tokens c ⟨some c, .complete id :: cs, p, es, st⟩) (hclaimed : c.settlement.claimed = false) :
    Tokens c.claim ⟨some c.claim, .conclude id :: cs, p, es, .flushed id c.tally :: st⟩ := by
  refine h.pass ?_ ?_ rfl ?_
  · simp [Strand.work, Strand.weigh, Chore.work]
  · simp [Strand.signals, Strand.weigh, Chore.signals, Cell.claim, hclaimed]
    omega
  · intro hstage
    cases hstage

theorem Tokens.close {settlement : Settlement (Except Fault V)} {events : List (Event V)}
    (h : Tokens c ⟨some c, .conclude id :: cs, p, es, st⟩) (hclaimed : settlement.claimed = c.settlement.claimed) :
    Tokens (c.close settlement) ⟨some (c.close settlement), cs, p, es, events⟩ := by
  refine h.pass ?_ ?_ rfl ?_
  · simp [Strand.work, Strand.weigh, Chore.work]
  · simp [Strand.signals, Strand.weigh, Chore.signals, Cell.close, hclaimed]
  · intro hstage
    cases hstage

theorem Tokens.submit (h : Tokens c ⟨some c, .submit id :: cs, p, es, st⟩) :
    Tokens c ⟨some c, cs, p, .single id .takeUp ::ₘ es, st⟩ := by
  refine h.pass ?_ ?_ rfl fun hstage => hstage
  · simp [Strand.work, Strand.weigh, Chore.work, Errand.work]
    omega
  · simp [Strand.signals, Strand.weigh, Chore.signals, Errand.signals]

theorem Tokens.submitPart (h : Tokens c ⟨some c, .submitPart id next count :: cs, p, es, st⟩) (hnext : next < count) :
    Tokens c ⟨some c, .submitPart id (next + 1) count :: cs, p, .part id .hold ::ₘ es, st⟩ := by
  refine h.pass ?_ ?_ rfl fun hstage => hstage
  · simp [Strand.work, Strand.weigh, Chore.work, Errand.work]
    omega
  · simp [Strand.signals, Strand.weigh, Chore.signals, Errand.signals]

end

/-- **Every step keeps the tokens of a task that no shutdown forced.** -/
theorem Strand.Step.tokens {n : Note} {s s' : Strand B V} (h : Strand.Step bh id n s s') (hrooted : s.Rooted)
    (hstaged : ∀ c, s.cell = some c → Staged c s.chores) (hkinds : ∀ c, s.cell = some c → Kinds c s)
    (hs : ∀ c, s.cell = some c → c.forced = false → Tokens c s) :
    ∀ c, s'.cell = some c → c.forced = false → Tokens c s' := by
  intro c' hc' hforced
  have hnew : s.cell = none → Tokens c' s' := fun hnone => h.tokens_of_new hrooted hnone hc'
  cases h with
  | reject | letIn | spread => exact hnew rfl
  | turn es hturn =>
    obtain rfl := Option.some.inj hc'
    exact Tokens.turn hturn (hstaged _ rfl) (hkinds _ rfl) (hs _ rfl (hturn.keeps.1 ▸ hforced))
  | receive =>
    refine (hs c' hc' hforced).pass ?_ ?_ rfl fun hstage => hstage
    · simp [Strand.work, Strand.weigh, Chore.work]
    · simp [Strand.signals, Strand.weigh, Chore.signals]
      omega
  | refuse fault =>
    obtain rfl := Option.some.inj hc'
    exact (hs _ rfl hforced).refuse (hkinds _ rfl) fault
  | abandon hf =>
    obtain rfl := Option.some.inj hc'
    exact (hs _ rfl hforced).abandon hf
  | unspread hf =>
    obtain rfl := Option.some.inj hc'
    have hzero := (hkinds _ rfl).single hf
    simp [Strand.weigh, Chore.parts] at hzero
  | late hclaimed =>
    obtain rfl := Option.some.inj hc'
    rw [(hs _ rfl hforced).claimed_of_complete] at hclaimed
    cases hclaimed
  | claim hclaimed =>
    obtain rfl := Option.some.inj hc'
    exact (hs _ rfl hforced).claim hclaimed
  | conclude hbody hending hnotice | bodyless hbody hnotice =>
    obtain rfl := Option.some.inj hc'
    exact (hs _ rfl hforced).close hnotice.spec.2
  | force hstage =>
    obtain rfl := Option.some.inj hc'
    cases hforced
  | @abandoned c cs p es st last =>
    obtain rfl := Option.some.inj hc'
    refine (hs _ rfl hforced).pass ?_ ?_ rfl fun hstage => hstage
    · cases last <;> simp [Strand.work, Strand.weigh, Chore.work]
    · cases last <;> simp [Strand.signals, Strand.weigh, Chore.signals]
  | submit =>
    obtain rfl := Option.some.inj hc'
    exact (hs _ rfl hforced).submit
  | submitPart hnext =>
    obtain rfl := Option.some.inj hc'
    exact (hs _ rfl hforced).submitPart hnext
  | submitted hnext =>
    obtain rfl := Option.some.inj hc'
    refine (hs _ rfl hforced).pass ?_ ?_ rfl fun hstage => hstage
    · simp [Strand.work, Strand.weigh, Chore.work]
      omega
    · simp [Strand.signals, Strand.weigh, Chore.signals]
  | refusePart fault hnext =>
    obtain rfl := Option.some.inj hc'
    refine (hs _ rfl hforced).pass ?_ ?_ rfl fun hstage => hstage
    · simp [Strand.work, Strand.weigh, Chore.work]
    · simp [Strand.signals, Strand.weigh, Chore.signals, Cell.offer]
  | promise promise =>
    obtain rfl := Option.some.inj hc'
    exact (hs _ rfl hforced).pass rfl rfl rfl fun hstage => hstage

/-! ## Active errands -/

theorem Turn.active {n : Note} {c c' : Cell B V} {e : Errand} {next : Multiset Errand} {posted : Nat}
    {events : List (Event V)} (h : Turn bh id n c e c' next posted events) :
    c'.stage = .running ∨ (c'.stage = c.stage ∧ (next.map Errand.active).sum ≤ e.active) := by
  cases h with
  | takeUp | partTakeUp => exact .inl rfl
  | bodyless => exact .inr ⟨rfl, by simp [Errand.active]⟩
  | _ => exact .inr ⟨rfl, by simp [Errand.active]⟩

/-- A task with a completing chore that nobody has won has no errand that was taken up. -/
theorem active_of_complete {c : Cell B V} {cs : List Chore} {p : Nat} {es : Multiset Errand} {st : List (Event V)}
    (htokens : c.forced = false → Tokens c ⟨some c, .complete id :: cs, p, es, st⟩)
    (hstaged : Staged c (.complete id :: cs))
    (hactive : c.stage ≠ .running → Strand.active ⟨some c, .complete id :: cs, p, es, st⟩ = 0) :
    (es.map Errand.active).sum = 0 := by
  have hzero : Strand.active ⟨some c, .complete id :: cs, p, es, st⟩ = 0 := by
    by_cases hrunning : c.stage = .running
    · have h := htokens (hstaged.of_isOpen (Staged.isOpen_of_queued (.inr hrunning))).2.1
      have hidle : Strand.work ⟨some c, .complete id :: cs, p, es, st⟩ = 0 := by
        by_contra hwork
        have hquiet := (h.of_work hwork).1
        simp [Strand.signals, Strand.weigh, Chore.signals] at hquiet
      have hle := Strand.active_le_work (⟨some c, .complete id :: cs, p, es, st⟩ : Strand B V)
      omega
    · exact hactive hrunning
  simpa [Strand.active, Strand.weigh] using hzero

/-- **Only a running task has errands that were taken up and are not finished.** -/
theorem Strand.Step.active {n : Note} {s s' : Strand B V} (h : Strand.Step bh id n s s') (hrooted : s.Rooted)
    (hstaged : ∀ c, s.cell = some c → Staged c s.chores)
    (htokens : ∀ c, s.cell = some c → c.forced = false → Tokens c s)
    (hs : ∀ c, s.cell = some c → c.stage ≠ .running → s.active = 0) :
    ∀ c, s'.cell = some c → c.stage ≠ .running → s'.active = 0 := by
  intro c' hc' hstage
  cases h with
  | reject | letIn | spread =>
    obtain ⟨rfl, -, rfl, -⟩ := hrooted rfl
    simp [Strand.active, Strand.weigh]
  | turn es hturn =>
    obtain rfl := Option.some.inj hc'
    rcases hturn.active with hrunning | ⟨hsame, hle⟩
    · exact absurd hrunning hstage
    · rw [hsame] at hstage
      have hzero := hs _ rfl hstage
      simp only [Strand.active, Strand.weigh, Multiset.map_cons, Multiset.sum_cons] at hzero
      simp only [Strand.active, Strand.weigh, Multiset.map_add, Multiset.sum_add]
      omega
  | receive => simpa [Strand.active, Strand.weigh] using hs c' hc' hstage
  | claim hclaimed =>
    simpa [Strand.active, Strand.weigh] using active_of_complete (htokens _ rfl) (hstaged _ rfl) (hs _ rfl)
  | conclude hbody | bodyless hbody =>
    obtain ⟨hwon, hdone, -⟩ := (hstaged _ rfl).of_conclude
    have hcompleting := ((hstaged _ rfl).claimed hwon).resolve_right hdone
    simpa [Strand.active, Strand.weigh] using hs _ rfl (by simp [hcompleting])
  | force hqueued => simpa [Strand.active, Strand.weigh] using hs _ rfl (by simp [hqueued])
  | @abandoned c cs p es st last =>
    obtain rfl := Option.some.inj hc'
    cases last <;> simpa [Strand.active, Strand.weigh] using hs _ rfl hstage
  | submit | submitPart =>
    obtain rfl := Option.some.inj hc'
    simpa [Strand.active, Strand.weigh, Errand.active] using hs _ rfl hstage
  | _ =>
    obtain rfl := Option.some.inj hc'
    simpa [Strand.active, Strand.weigh] using hs _ rfl hstage

/-! ## Sound strands -/

structure Strand.Sound (s : Strand B V) : Prop where
  rooted : s.Rooted
  staged : ∀ c, s.cell = some c → Staged c s.chores
  kinds : ∀ c, s.cell = some c → Kinds c s
  tokens : ∀ c, s.cell = some c → c.forced = false → Tokens c s
  active : ∀ c, s.cell = some c → c.stage ≠ .running → s.active = 0

theorem Strand.sound_of_none {s : Strand B V} (hrooted : s.Rooted) (hnone : s.cell = none) : s.Sound := by
  refine ⟨hrooted, ?_, ?_, ?_, ?_⟩ <;> intro c hc <;> rw [hnone] at hc <;> cases hc

theorem Strand.Step.sound {n : Note} {s s' : Strand B V} (h : Strand.Step bh id n s s') (hs : s.Sound) : s'.Sound :=
  ⟨h.rooted hs.rooted, h.staged hs.rooted hs.staged, h.kinds hs.rooted hs.kinds,
    h.tokens hs.rooted hs.staged hs.kinds hs.tokens, h.active hs.rooted hs.staged hs.tokens hs.active⟩

theorem Strand.Leads.sound {n : Note} {s s' : Strand B V} (h : Strand.Leads bh id n s s') (hs : s.Sound) : s'.Sound := by
  rcases h with ⟨-, heq⟩ | hstep
  · rw [heq]
    exact hs
  · exact hstep.sound hs

theorem Strand.Run.sound {ns : List Note} {s₀ s : Strand B V} (h : Strand.Run bh id s₀ ns s) (hs : s₀.Sound) :
    s.Sound := by
  induction h with
  | refl => exact hs
  | snoc hrun hlead ih => exact hlead.sound ih

end BitmapWorks
