import BitmapWorks.Proofs.Crew.Books
/-!
# Shift — what a workshop guarantees

Each move of somebody who is there takes effort, and only those who come bring any, so a run has only so many of them
(`effort_run`).  A caller that is told that the queue is full made a move while it was (`isBounced_run`).  When nobody
who is there can make a move, nobody has the lock, everybody has been told, and the queue is empty (`AtRest`); what the
books of jobs and counts say then is that each job that was taken in was run once (`AtRest.finished`).
-/
namespace BitmapWorks

/-! ## Effort -/

def Handover.isFull {J : Type} : Handover J → Bool
  | .bounced | .over (some .queueFull) => true
  | _ => false

def Caller.effort : Caller → Nat
  | .outside (.start _) => 13
  | .outside (.seen _) => 12
  | .inside (.seen _) => 11
  | .inside (.counted _) => 10
  | .inside .queued | .inside .bounced | .inside .stranded => 2
  | .inside (.over _) => 1
  | _ => 0

def Closer.effort : Closer → Nat
  | .coming => 4
  | .first => 3
  | .holding => 2
  | .hung => 1
  | .gone => 0

def Worker.effort : Worker Nat → Nat
  | .received _ => 7
  | .between _ => 6
  | .running _ => 5
  | .crashed => 4
  | .returned => 3
  | .retired => 2
  | .idle => 1
  | .left => 0

namespace Workshop

variable {w w' : Workshop} {m : Move}

/-- The moves that are still to come if nobody comes any more. -/
def effort (w : Workshop) : Nat :=
  (w.callers.map Caller.effort).sum + (w.closers.map Closer.effort).sum + (w.crew.workers.map Worker.effort).sum
    + 7 * w.crew.queue.length

/-- The moves that somebody may make who comes. -/
def Move.effort : Move → Nat
  | .handIn => 13
  | .shutDown => 4
  | _ => 0

theorem Turn.effort_lt {c c' : Caller} {queue : List Nat} {counts : Counts} (h : w.Turn c queue counts c') :
    c'.effort + 7 * queue.length + 1 ≤ c.effort + 7 * w.crew.queue.length := by
  cases h with
  | queued =>
    rw [List.length_append, List.length_singleton]
    simp only [Caller.effort]
    omega
  | _ =>
    simp only [Caller.effort]
    omega

theorem Labour.effort_lt {v v' : Worker Nat} {queue : List Nat} {counts : Counts} (h : w.Labour v queue counts v') :
    v'.effort + 7 * queue.length + 1 ≤ v.effort + 7 * w.crew.queue.length := by
  cases h with
  | receives hqueue =>
    rw [hqueue, List.length_cons]
    simp only [Worker.effort]
    omega
  | _ =>
    simp only [Worker.effort]
    omega

/-- **Every move of somebody who is there takes effort**, and none is added but by those who come. -/
theorem effort_step (h : w.Step m w') : w'.effort + m.isStep.toNat ≤ w.effort + m.effort := by
  cases h with
  | handIn => simp [effort, Move.effort, Move.isStep, Caller.effort]; omega
  | shutDown => simp [effort, Move.effort, Move.isStep, Closer.effort]; omega
  | @caller k c queue counts c' hc hturn =>
    have hcaller := sum_set_add hc Caller.effort c'
    have htaken := hturn.effort_lt
    simp only [effort, Move.effort, Move.isStep, Bool.toNat_true]
    omega
  | @closer k c crew c' hc hshutting =>
    have hcloser := sum_set_add hc Closer.effort c'
    have htaken : c'.effort + 1 ≤ c.effort ∧ crew.workers = w.crew.workers ∧ crew.queue = w.crew.queue := by
      cases hshutting <;> exact ⟨by decide, rfl, rfl⟩
    simp only [effort, Move.effort, Move.isStep, Bool.toNat_true, htaken.2]
    omega
  | @worker i v queue counts v' hv hlabour =>
    have hworker := sum_set_add hv Worker.effort v'
    have htaken := hlabour.effort_lt
    simp only [effort, Move.effort, Move.isStep, Bool.toNat_true]
    omega
  | @finish i job abnormally hv =>
    have hworker := sum_set_add hv Worker.effort (if abnormally then .crashed else .returned)
    have htaken : Worker.effort (if abnormally then .crashed else .returned) + 1 ≤ Worker.effort (.running job) := by
      cases abnormally <;> exact Nat.le_of_ble_eq_true rfl
    simp only [effort, Move.effort, Move.isStep, Bool.toNat_true]
    omega

/-! ## Runs -/

/-- **What every step keeps, every run keeps.** -/
theorem run?_keeps {P : Workshop → Prop} (hstep : ∀ {w w' : Workshop} {m : Move}, P w → w.Step m w' → P w')
    {ms : List Move} (h : w.run? ms = some w') (hw : P w) : P w' := by
  induction ms generalizing w with
  | nil => exact Option.some.inj h ▸ hw
  | cons m ms ih =>
    obtain ⟨w₁, hmove, hrun⟩ := Option.bind_eq_some_iff.1 h
    exact ih hrun (hstep hw (step_of_move? hmove))

theorem bound_step (h : w.Step m w') : w'.crew.bound = w.crew.bound := by
  cases h with
  | closer hc hshutting => cases hshutting <;> rfl
  | _ => rfl

/-- **A run has no more steps than those who come may make**, so nobody waits for ever. -/
theorem effort_run {ms : List Move} (h : w.run? ms = some w') :
    w'.effort + ms.countP Move.isStep ≤ w.effort + (ms.map Move.effort).sum := by
  induction ms generalizing w with
  | nil =>
    obtain rfl := Option.some.inj h
    exact Nat.le_refl _
  | cons m ms ih =>
    obtain ⟨w₁, hmove, hrun⟩ := Option.bind_eq_some_iff.1 h
    have hstep := effort_step (step_of_move? hmove)
    have hrest := ih hrun
    rw [List.countP_cons, List.map_cons, List.sum_cons]
    cases hm : m.isStep <;> simp [hm] at hstep ⊢ <;> omega

/-! ## A full queue -/

def isBounced (w : Workshop) (k : Nat) : Bool := (w.callers[k]?).any fun c => c.handover.isFull

/-- **A job is refused for a full queue only out of a state in which the queue is full.** -/
theorem isBounced_step {k : Nat} (h : w.Step m w') (hk : w'.isBounced k = true) :
    w.isBounced k = true ∨ m = .caller k ∧ w.crew.bound ≤ w.crew.queue.length := by
  cases h with
  | handIn =>
    unfold isBounced at hk
    dsimp only at hk
    rw [List.getElem?_append] at hk
    split at hk
    · exact .inl hk
    · cases hj : k - w.callers.length <;> rw [hj] at hk <;> cases hk
  | @caller i c queue counts c' hc hturn =>
    unfold isBounced at hk ⊢
    by_cases hik : i = k
    · subst hik
      dsimp only at hk
      rw [List.getElem?_set_self (List.getElem?_eq_some_iff.1 hc).1] at hk
      rw [hc]
      cases hturn with
      | bounced hfull => exact .inr ⟨rfl, hfull⟩
      | full => exact .inl rfl
      | left => exact .inl hk
      | _ => cases hk
    · dsimp only at hk
      rw [List.getElem?_set_ne hik] at hk
      exact .inl hk
  | _ => exact .inl hk

theorem isBounced_run {k : Nat} {ms : List Move} (h : w.run? ms = some w') (hk : w'.isBounced k = true) :
    w.isBounced k = true ∨ ∃ ms₁ ms₂ w₁, ms = ms₁ ++ .caller k :: ms₂ ∧ w.run? ms₁ = some w₁ ∧
      w₁.crew.bound ≤ w₁.crew.queue.length := by
  induction ms generalizing w with
  | nil =>
    obtain rfl := Option.some.inj h
    exact .inl hk
  | cons m ms ih =>
    obtain ⟨w₁, hmove, hrun⟩ := Option.bind_eq_some_iff.1 h
    rcases ih hrun with hbounced | ⟨ms₁, ms₂, w₂, rfl, hrun₂, hfull⟩
    · rcases isBounced_step (step_of_move? hmove) hbounced with hbounced | ⟨rfl, hfull⟩
      · exact .inl hbounced
      · exact .inr ⟨[], ms, w, rfl, rfl, hfull⟩
    · refine .inr ⟨m :: ms₁, ms₂, w₂, rfl, ?_, hfull⟩
      show (w.move? m).bind _ = some w₂
      rw [hmove]
      exact hrun₂

/-! ## At rest -/

/-- Whether nobody who is there can make a move. -/
def AtRest (w : Workshop) : Prop := ∀ m, m.isStep = true → w.move? m = none

theorem callerMove_eq_none {c : Caller} (hproper : c.isProper = true) (h : w.callerMove c = none) :
    (∃ refusal, c = .outside (.over refusal)) ∨ w.isFree = false ∧ c.isInside = false := by
  cases c with
  | outside handover =>
    cases handover with
    | start job => cases h
    | seen job =>
      cases hfree : w.isFree with
      | true => simp [callerMove, hfree] at h
      | false => exact .inr ⟨rfl, rfl⟩
    | «over» refusal => exact .inl ⟨refusal, rfl⟩
    | _ => cases hproper
  | inside handover =>
    cases handover with
    | start job => cases hproper
    | _ => cases h

theorem closerMove_eq_none {c : Closer} (h : w.closerMove c = none) :
    c = .gone ∨ w.isFree = false ∧ c.isInside = false := by
  cases c with
  | first =>
    cases hfree : w.isFree with
    | true => simp [closerMove, hfree] at h
    | false => exact .inr ⟨rfl, rfl⟩
  | gone => exact .inl rfl
  | _ => cases h

theorem advance?_eq_none {i : Nat} {v : Worker Nat} (hv : w.crew.workers[i]? = some v)
    (hadvance : w.crew.advance? i = none) (hrunning : w.crew.running? i = none) :
    v = .idle ∧ w.crew.queue = [] ∧ w.crew.hungUp = false ∨ v = .left := by
  rw [running?_eq, hv] at hrunning
  unfold Crew.advance? at hadvance
  rw [hv] at hadvance
  cases v with
  | idle =>
    cases hqueue : w.crew.queue with
    | cons job rest => simp [hqueue] at hadvance
    | nil =>
      cases hhung : w.crew.hungUp with
      | true => simp [hqueue, hhung] at hadvance
      | false => exact .inl ⟨rfl, rfl, rfl⟩
  | left => exact .inr rfl
  | running job => cases hrunning
  | _ => cases hadvance

namespace AtRest

theorem caller (hr : w.AtRest) {c : Caller} (hc : c ∈ w.callers) : w.callerMove c = none := by
  obtain ⟨k, hk⟩ := List.mem_iff_getElem?.1 hc
  have h := hr (.caller k) rfl
  cases hmove : w.callerMove c with
  | none => rfl
  | some next => simp [move?, hk, hmove] at h

theorem closer (hr : w.AtRest) {c : Closer} (hc : c ∈ w.closers) : w.closerMove c = none := by
  obtain ⟨k, hk⟩ := List.mem_iff_getElem?.1 hc
  have h := hr (.closer k) rfl
  cases hmove : w.closerMove c with
  | none => rfl
  | some next => simp [move?, hk, hmove] at h

theorem worker (hr : w.AtRest) {v : Worker Nat} (hv : v ∈ w.crew.workers) :
    v = .idle ∧ w.crew.queue = [] ∧ w.crew.hungUp = false ∨ v = .left := by
  obtain ⟨i, hi⟩ := List.mem_iff_getElem?.1 hv
  refine advance?_eq_none hi ?_ ?_
  · have h := hr (.worker i) rfl
    cases hmove : w.crew.advance? i with
    | none => rfl
    | some next => simp [move?, hmove] at h
  · have h := hr (.finish i false) rfl
    cases hmove : w.crew.running? i with
    | none => rfl
    | some job => simp [move?, hmove] at h

/-- **At rest nobody has the lock**, since whoever has it can go on. -/
theorem isFree (hr : w.AtRest) (hd : w.Doors) : w.isFree = true := by
  unfold Workshop.isFree
  rw [Bool.and_eq_true, List.all_eq_true, List.all_eq_true]
  constructor
  · intro c hc
    rcases callerMove_eq_none (hd.proper c hc) (hr.caller hc) with ⟨refusal, rfl⟩ | ⟨-, hinside⟩
    · rfl
    · rw [hinside]
      rfl
  · intro c hc
    rcases closerMove_eq_none (hr.closer hc) with rfl | ⟨-, hinside⟩
    · rfl
    · rw [hinside]
      rfl

theorem done (hr : w.AtRest) (hd : w.Doors) {c : Caller} (hc : c ∈ w.callers) :
    ∃ refusal, c = .outside (.over refusal) := by
  rcases callerMove_eq_none (hd.proper c hc) (hr.caller hc) with hover | ⟨hlocked, -⟩
  · exact hover
  · rw [hr.isFree hd] at hlocked
    cases hlocked

theorem gone (hr : w.AtRest) (hd : w.Doors) {c : Closer} (hc : c ∈ w.closers) : c = .gone := by
  rcases closerMove_eq_none (hr.closer hc) with hgone | ⟨hlocked, -⟩
  · exact hgone
  · rw [hr.isFree hd] at hlocked
    cases hlocked

/-- **At rest the queue is empty**, since somebody could take a job out of it otherwise. -/
theorem queue_eq_nil (hr : w.AtRest) (hd : w.Doors) : w.crew.queue = [] := by
  cases hdeserted : w.crew.isDeserted with
  | true => exact hd.nothingLeft hdeserted
  | false =>
    obtain ⟨v, hv, hstays⟩ := List.all_eq_false.1 hdeserted
    rcases hr.worker hv with ⟨-, hqueue, -⟩ | rfl
    · exact hqueue
    · exact absurd rfl hstays

theorem countP_eq_zero (hr : w.AtRest) {p : Worker Nat → Bool} (hidle : p .idle = false) (hleft : p .left = false) :
    w.crew.workers.countP p = 0 := by
  refine List.countP_eq_zero.2 fun v hv => ?_
  rcases hr.worker hv with ⟨rfl, -⟩ | rfl
  · rw [hidle]
    exact Bool.false_ne_true
  · rw [hleft]
    exact Bool.false_ne_true

/-- **At rest behind a shutdown every worker has left.** -/
theorem left (hr : w.AtRest) (hd : w.Doors) (hclosers : w.closers ≠ []) {v : Worker Nat} (hv : v ∈ w.crew.workers) :
    v = .left := by
  obtain ⟨c, hc⟩ := List.exists_mem_of_ne_nil _ hclosers
  have hclosing : w.crew.closing = true := hd.begun.2 (List.countP_pos_iff.2 ⟨c, hc, hr.gone hd hc ▸ rfl⟩)
  have hpending : w.closers.countP Closer.isPending = 0 :=
    List.countP_eq_zero.2 fun c hc => hr.gone hd hc ▸ Bool.false_ne_true
  have hwinner := hd.winner
  rw [hpending, hclosing] at hwinner
  rcases hr.worker hv with ⟨-, -, hhung⟩ | hleft
  · rw [hhung] at hwinner
    cases hwinner
  · exact hleft

end AtRest

/-! ## What callers are told -/

def answer? (w : Workshop) (j : Nat) : Option (Option Refusal) :=
  match w.callers[j]? with
  | some (.outside (.over refusal)) => some refusal
  | _ => none

def accepted (w : Workshop) : List Nat := (List.range w.callers.length).filter fun j => decide (w.answer? j = some none)

theorem answer?_eq_some {j : Nat} {refusal : Option Refusal} (h : w.answer? j = some refusal) :
    w.callers[j]? = some (.outside (.over refusal)) := by
  unfold answer? at h
  split at h
  · next hc => rw [hc, Option.some.inj h]
  · cases h

theorem tookIn_of_answer? {j : Nat} {refusal : Option Refusal} (h : w.answer? j = some refusal) :
    w.tookIn j = refusal.isNone := by
  rw [tookIn, answer?_eq_some h]
  cases refusal <;> rfl

namespace AtRest

/-- **At rest everybody has been told**, and those whose jobs were taken in know it. -/
theorem answer?_of_lt (hr : w.AtRest) (hd : w.Doors) {j : Nat} (hj : j < w.callers.length) :
    ∃ refusal, w.answer? j = some refusal := by
  obtain ⟨refusal, hc⟩ := hr.done hd (List.getElem_mem hj)
  refine ⟨refusal, ?_⟩
  rw [answer?, List.getElem?_eq_getElem hj, hc]

theorem tookIn_iff (hr : w.AtRest) (hd : w.Doors) {j : Nat} : w.tookIn j = true ↔ w.answer? j = some none := by
  constructor
  · intro h
    obtain ⟨c, hc, hin⟩ := (Option.any_eq_true _ _).1 h
    obtain ⟨refusal, hanswer⟩ := hr.answer?_of_lt hd (List.getElem?_eq_some_iff.1 hc).1
    rw [tookIn_of_answer? hanswer] at h
    rw [hanswer, Option.isNone_iff_eq_none.1 h]
  · intro h
    rw [tookIn_of_answer? h]
    rfl

theorem countP_isIn (hr : w.AtRest) (hd : w.Doors) :
    w.callers.countP (fun c => c.handover.isIn) = w.accepted.length := by
  rw [← length_filter_range]
  refine congrArg List.length (List.filter_congr fun j _ => ?_)
  rw [Bool.eq_iff_iff, decide_eq_true_eq]
  exact hr.tookIn_iff hd

theorem countP_isAccepted (hr : w.AtRest) (hd : w.Doors) :
    w.callers.countP (fun c => c.handover.isAccepted) = w.accepted.length := by
  rw [← hr.countP_isIn hd]
  refine List.countP_congr fun c hc => ?_
  obtain ⟨refusal, rfl⟩ := hr.done hd hc
  cases refusal <;> exact Iff.rfl

/-- **At rest a job that was taken in has been begun once and ended once.** -/
theorem ran (hr : w.AtRest) (hd : w.Doors) (hw : w.Custody) (j : Nat) :
    (w.begun.map Prod.snd).count j = (w.tookIn j).toNat ∧ (w.ended.map Prod.fst).count j = (w.tookIn j).toNat := by
  have honce := hw.once j
  have hends := hw.ends j
  rw [hr.queue_eq_nil hd, hr.countP_eq_zero (p := Worker.holds j) rfl rfl] at honce
  rw [hr.countP_eq_zero (p := Worker.runs j) rfl rfl] at hends
  rw [List.count_nil] at honce
  omega

/-- **At rest only jobs that were taken in have ended.** -/
theorem answer?_of_mem_ended (hr : w.AtRest) (hd : w.Doors) (hw : w.Custody) {e : Nat × Bool} (he : e ∈ w.ended) :
    w.answer? e.1 = some none := by
  have hpos : 0 < (w.ended.map Prod.fst).count e.1 := List.count_pos_iff.2 (List.mem_map_of_mem he)
  rw [(hr.ran hd hw e.1).2] at hpos
  cases htook : w.tookIn e.1 with
  | true => exact (hr.tookIn_iff hd).1 htook
  | false => simp [htook] at hpos

/-- **At rest the jobs that ended abnormally are those that were taken in and panicked.** -/
theorem countP_abnormal (hr : w.AtRest) (hd : w.Doors) (hw : w.Custody) :
    w.ended.countP Prod.snd = (w.accepted.filter fun j => decide ((j, true) ∈ w.ended)).length := by
  have honce : ((w.ended.filter Prod.snd).map Prod.fst).Nodup := by
    refine List.Nodup.sublist (List.filter_sublist.map _) (List.nodup_iff_count.2 fun j => ?_)
    rw [(hr.ran hd hw j).2]
    exact Bool.toNat_le _
  have haccepted : w.accepted.Nodup := List.nodup_range.sublist List.filter_sublist
  have hmem : ∀ j, j ∈ (w.ended.filter Prod.snd).map Prod.fst ↔
      j ∈ w.accepted.filter fun j => decide ((j, true) ∈ w.ended) := by
    intro j
    simp only [accepted, List.mem_map, List.mem_filter, List.mem_range, decide_eq_true_eq, Prod.exists,
      exists_and_right, exists_eq_right]
    constructor
    · intro hend
      have hanswer := hr.answer?_of_mem_ended hd hw hend
      exact ⟨⟨(List.getElem?_eq_some_iff.1 (answer?_eq_some hanswer)).1, hanswer⟩, hend⟩
    · rintro ⟨-, hend⟩
      exact hend
  have hperm := (List.perm_ext_iff_of_nodup honce (haccepted.sublist List.filter_sublist)).2 hmem
  rw [List.countP_eq_length_filter, ← hperm.length_eq, List.length_map]

end AtRest

/-! ## What a workshop guarantees -/

/-- What there is when nobody can make a move any more. -/
structure Finished (w : Workshop) : Prop where
  told : ∀ j < w.callers.length, ∃ refusal, w.answer? j = some refusal
  /-- A job that was taken in was begun by one worker, once, and it has ended. -/
  ran : ∀ j, w.answer? j = some none → ∃ i abnormally, w.begun.filter (fun b => decide (b.2 = j)) = [(i, j)] ∧
    w.ended.filter (fun e => decide (e.1 = j)) = [(j, abnormally)]
  queued : w.crew.counts.queued = 0
  active : w.crew.counts.active = 0
  completed : w.crew.counts.completed = w.crew.counts.submitted
  submitted : w.crew.counts.submitted = w.accepted.length
  panicked : w.crew.counts.panicked = (w.accepted.filter fun j => decide ((j, true) ∈ w.ended)).length
  left : w.closers ≠ [] → ∀ v ∈ w.crew.workers, v = .left

structure Orderly (size bound : Nat) (ms : List Move) (w : Workshop) : Prop where
  waiting : w.crew.queue.length ≤ bound
  notNegative : 0 ≤ w.crew.counts.active ∧ 0 ≤ w.crew.counts.queued ∧ 0 ≤ w.crew.counts.completed ∧
    0 ≤ w.crew.counts.panicked ∧ 0 ≤ w.crew.counts.submitted
  once : ∀ j, (w.begun.map Prod.snd).count j ≤ 1
  refused : ∀ j refusal, w.answer? j = some (some refusal) → j ∉ w.begun.map Prod.snd
  /-- The queue was full at a move of the caller. -/
  queueFull : ∀ j, w.answer? j = some (some .queueFull) → ∃ ms₁ ms₂ w₁, ms = ms₁ ++ .caller j :: ms₂ ∧
    (start size bound).run? ms₁ = some w₁ ∧ w₁.crew.queue.length = bound
  closed : ∀ j, w.answer? j = some (some .closed) → ∃ c ∈ w.closers, c ≠ .coming
  /-- Whoever comes makes so many moves at most. -/
  steps : ms.countP Move.isStep ≤ size + 13 * ms.count .handIn + 4 * ms.count .shutDown
  finished : w.AtRest → w.Finished

theorem AtRest.finished (hr : w.AtRest) (ht : w.Tallied) (hw : w.Custody) (hd : w.Doors) : w.Finished := by
  have hreceived := hr.countP_eq_zero (p := Worker.isReceived) rfl rfl
  have hactive := hr.countP_eq_zero (p := Worker.isActive) rfl rfl
  have hbusy := hr.countP_eq_zero (p := Worker.isBusy) rfl rfl
  have hcrashed := hr.countP_eq_zero (p := Worker.isCrashed) rfl rfl
  have hcounted : w.callers.countP (fun c => c.handover.isCounted) = 0 := by
    refine List.countP_eq_zero.2 fun c hc => ?_
    obtain ⟨refusal, rfl⟩ := hr.done hd hc
    exact Bool.false_ne_true
  have hqueued := ht.queued
  have hcompleted := ht.completed
  have hsubmitted := ht.submitted
  have hpanicked := ht.panicked
  rw [hr.queue_eq_nil hd, hreceived, hcounted] at hqueued
  rw [hr.queue_eq_nil hd, hbusy, hr.countP_isIn hd] at hcompleted
  rw [hr.countP_isAccepted hd] at hsubmitted
  rw [hcrashed, hr.countP_abnormal hd hw] at hpanicked
  simp only [List.length_nil, Int.ofNat_zero, Int.add_zero] at hqueued hcompleted hpanicked
  refine ⟨fun j hj => hr.answer?_of_lt hd hj, fun j hj => ?_, hqueued, by rw [ht.active, hactive]; rfl,
    hcompleted.trans hsubmitted.symm, hsubmitted, hpanicked, fun hclosers v hv => hr.left hd hclosers hv⟩
  obtain ⟨hbegun, hended⟩ := hr.ran hd hw j
  rw [(hr.tookIn_iff hd).2 hj] at hbegun hended
  obtain ⟨⟨i, j₁⟩, rfl, hfilter⟩ := exists_filter_eq_singleton hbegun
  obtain ⟨⟨j₂, abnormally⟩, heq, hfilter'⟩ := exists_filter_eq_singleton hended
  obtain rfl : j₂ = j₁ := heq
  exact ⟨i, abnormally, hfilter, hfilter'⟩

theorem sum_effort (ms : List Move) : (ms.map Move.effort).sum = 13 * ms.count .handIn + 4 * ms.count .shutDown := by
  induction ms with
  | nil => rfl
  | cons m ms ih =>
    rw [List.map_cons, List.sum_cons, ih, List.count_cons, List.count_cons]
    cases m <;> simp [Move.effort] <;> omega

theorem effort_start (size bound : Nat) : (start size bound).effort = size := by
  simp [effort, start, Crew.start, Worker.effort]

theorem counts_step (h : w.Step m w') : w.crew.counts.completed ≤ w'.crew.counts.completed ∧
    w.crew.counts.panicked ≤ w'.crew.counts.panicked := by
  cases h with
  | caller hc hturn => cases hturn <;> exact ⟨Int.le_refl _, Int.le_refl _⟩
  | closer hc hshutting => cases hshutting <;> exact ⟨Int.le_refl _, Int.le_refl _⟩
  | worker hv hlabour => cases hlabour <;> constructor <;> dsimp only <;> omega
  | _ => exact ⟨Int.le_refl _, Int.le_refl _⟩

/-- **What a workshop guarantees, whatever order the moves in it come in.** -/
theorem orderly_of_run {size bound : Nat} (hsize : 0 < size) {ms : List Move}
    (h : (start size bound).run? ms = some w) : w.Orderly size bound ms := by
  have hsound : ∀ {ms : List Move} {w : Workshop}, (start size bound).run? ms = some w →
      w.Doors ∧ w.crew.bound = bound := fun h =>
    ⟨run?_keeps Doors.step h (.start hsize bound),
      run?_keeps (P := fun w => w.crew.bound = bound) (fun hb hs => (bound_step hs).trans hb) h rfl⟩
  have ht : w.Tallied := run?_keeps Tallied.step h (tallied_start size bound)
  have hw : w.Custody := run?_keeps Custody.step h (custody_start size bound)
  obtain ⟨hd, hbound⟩ := hsound h
  have hgrown : 0 ≤ w.crew.counts.completed ∧ 0 ≤ w.crew.counts.panicked :=
    run?_keeps (P := fun w => 0 ≤ w.crew.counts.completed ∧ 0 ≤ w.crew.counts.panicked)
      (fun hw hs => ⟨Int.le_trans hw.1 (counts_step hs).1, Int.le_trans hw.2 (counts_step hs).2⟩) h
      ⟨Int.le_refl 0, Int.le_refl 0⟩
  refine ⟨hbound ▸ hd.room, ?_, fun j => ?_, fun j refusal hj => ?_, fun j hj => ?_, fun j hj => ?_, ?_,
    fun hr => hr.finished ht hw hd⟩
  · have hqueued := ht.queued
    have hactive := ht.active
    have hsubmitted := ht.submitted
    omega
  · have honce := hw.once j
    have hle := Bool.toNat_le (w.tookIn j)
    omega
  · have honce := hw.once j
    rw [tookIn_of_answer? hj] at honce
    refine List.count_eq_zero.1 ?_
    simp only [Option.isNone_some, Bool.toNat_false] at honce
    omega
  · have hbounced : w.isBounced j = true := by
      rw [isBounced, answer?_eq_some hj]
      rfl
    rcases isBounced_run h hbounced with hstart | ⟨ms₁, ms₂, w₁, heq, hrun, hfull⟩
    · cases hstart
    · obtain ⟨hd₁, hbound₁⟩ := hsound hrun
      have hroom := hd₁.room
      exact ⟨ms₁, ms₂, w₁, heq, hrun, by omega⟩
  · have hclosing := hd.refusal _ (List.mem_of_getElem? (answer?_eq_some hj)) rfl
    obtain ⟨c, hc, hbegun⟩ := List.countP_pos_iff.1 (hd.begun.1 hclosing)
    refine ⟨c, hc, ?_⟩
    rintro rfl
    cases hbegun
  · have heffort := effort_run h
    rw [effort_start, sum_effort] at heffort
    omega

/-- One worker and room for one job.  A second job finds the queue full; the first ends abnormally; a third waits when
the crew is closed, and a fourth comes too late. -/
def busyMoves : List Move :=
  [.handIn, .caller 0, .caller 0, .caller 0, .caller 0, .handIn, .caller 1, .caller 0, .caller 0, .caller 1, .caller 1,
    .caller 1, .caller 1, .caller 1, .worker 0, .worker 0, .worker 0, .finish 0 true, .handIn, .caller 2, .caller 2,
    .caller 2, .caller 2, .shutDown, .closer 0, .caller 2, .caller 2, .closer 0, .closer 0, .closer 0, .handIn,
    .caller 3, .worker 0, .worker 0, .worker 0, .worker 0, .worker 0, .worker 0, .finish 0 false, .worker 0, .worker 0,
    .worker 0]

def afterwards : Workshop :=
  ⟨⟨[.left], [], 1, ⟨0, 0, 2, 1, 2⟩, true, true⟩,
    [.outside (.over none), .outside (.over (some .queueFull)), .outside (.over none), .outside (.over (some .closed))],
    [.gone], [(0, 0), (0, 2)], [(0, true), (2, false)]⟩

theorem atRest_afterwards : afterwards.AtRest := by
  intro m hm
  cases m with
  | handIn => cases hm
  | shutDown => cases hm
  | caller k => rcases k with _ | _ | _ | _ | k <;> rfl
  | closer k => rcases k with _ | k <;> rfl
  | worker i => rcases i with _ | i <;> rfl
  | finish i abnormally => rcases i with _ | i <;> rfl

theorem orderly_of_run_busy : (start 1 1).run? busyMoves = some afterwards ∧ afterwards.Orderly 1 1 busyMoves ∧
    afterwards.Finished ∧ afterwards.accepted = [0, 2] := by
  have hrun : (start 1 1).run? busyMoves = some afterwards := rfl
  have horderly := orderly_of_run (by decide) hrun
  exact ⟨hrun, horderly, horderly.finished atRest_afterwards, rfl⟩

end Workshop
end BitmapWorks
