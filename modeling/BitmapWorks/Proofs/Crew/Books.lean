import BitmapWorks.Proofs.Crew.Workshop
/-!
# Books — what the counts of a crew count, and where each job is

Every step keeps three books.  The counts are those of the queue, of the workers and of the callers (`Tallied`).  A job
that was taken in is in the queue, with a worker who has not begun it, or in the book of those that have begun, and in
one of these places once (`Custody`).  The crew is closed by one closer, workers leave only after it has hung up, and
the queue is empty when the last one does (`Doors`).
-/
namespace BitmapWorks

namespace Worker

variable {J : Type}

def isReceived : Worker J → Bool
  | received _ => true
  | _ => false

def isActive : Worker J → Bool
  | running _ | crashed | returned => true
  | _ => false

def isBusy : Worker J → Bool
  | idle | left => false
  | _ => true

def isCrashed : Worker J → Bool
  | crashed => true
  | _ => false

def holds (j : Nat) : Worker Nat → Bool
  | received job | between job => decide (job = j)
  | _ => false

def runs (j : Nat) (v : Worker Nat) : Bool := decide (v.current? = some j)

end Worker

namespace Handover

variable {J : Type}

def isCounted : Handover J → Bool
  | counted _ | bounced | stranded => true
  | _ => false

def isIn : Handover J → Bool
  | queued | «over» none => true
  | _ => false

/-- Whether the caller was told that the job was taken in. -/
def isAccepted : Handover J → Bool
  | «over» none => true
  | _ => false

def isClosed : Handover J → Bool
  | stranded | «over» (some .closed) => true
  | _ => false

def job? : Handover J → Option J
  | start job | seen job | counted job => some job
  | _ => none

end Handover

def Caller.isProper : Caller → Bool
  | outside (.start _) | outside (.seen _) | outside (.over _) => true
  | outside _ | inside (.start _) => false
  | inside _ => true

namespace Closer

def hasBegun : Closer → Bool
  | coming => false
  | _ => true

def isPending : Closer → Bool
  | first | holding => true
  | _ => false

end Closer

namespace Workshop

variable {w w' : Workshop} {m : Move} {c c' : Caller} {v v' : Worker Nat} {queue : List Nat} {counts : Counts}

/-! ## The counts -/

/-- What the counts count. -/
structure Tallied (w : Workshop) : Prop where
  queued : w.crew.counts.queued = w.crew.queue.length + w.crew.workers.countP Worker.isReceived
    + w.callers.countP (·.handover.isCounted)
  active : w.crew.counts.active = w.crew.workers.countP Worker.isActive
  submitted : w.crew.counts.submitted = w.callers.countP (·.handover.isAccepted)
  completed : w.crew.counts.completed + w.crew.queue.length + w.crew.workers.countP Worker.isBusy
    = w.callers.countP (·.handover.isIn)
  panicked : w.crew.counts.panicked + w.crew.workers.countP Worker.isCrashed = w.ended.countP Prod.snd

/-- **A turn of a caller changes the counts as it changes the caller and the queue.** -/
theorem Turn.tally (h : w.Turn c queue counts c') :
    counts.queued + w.crew.queue.length + c.handover.isCounted.toNat
      = w.crew.counts.queued + queue.length + c'.handover.isCounted.toNat ∧
    counts.active = w.crew.counts.active ∧ counts.completed = w.crew.counts.completed ∧
    counts.panicked = w.crew.counts.panicked ∧
    counts.submitted + c.handover.isAccepted.toNat = w.crew.counts.submitted + c'.handover.isAccepted.toNat ∧
    queue.length + c.handover.isIn.toNat = w.crew.queue.length + c'.handover.isIn.toNat := by
  cases h with
  | left => exact ⟨rfl, rfl, rfl, rfl, rfl, rfl⟩
  | _ => simp [Caller.handover, Handover.isCounted, Handover.isAccepted, Handover.isIn] <;> omega

/-- **Labour changes the counts as it changes the worker and the queue.** -/
theorem Labour.tally (h : w.Labour v queue counts v') :
    counts.queued + w.crew.queue.length + v.isReceived.toNat
      = w.crew.counts.queued + queue.length + v'.isReceived.toNat ∧
    counts.active + v.isActive.toNat = w.crew.counts.active + v'.isActive.toNat ∧
    counts.submitted = w.crew.counts.submitted ∧
    counts.completed + queue.length + v'.isBusy.toNat
      = w.crew.counts.completed + w.crew.queue.length + v.isBusy.toNat ∧
    counts.panicked + v'.isCrashed.toNat = w.crew.counts.panicked + v.isCrashed.toNat := by
  cases h <;>
    simp_all [Worker.isReceived, Worker.isActive, Worker.isBusy, Worker.isCrashed] <;> omega

theorem countP_start {p : Worker Nat → Bool} (hp : p .idle = false) (size bound : Nat) :
    (start size bound).crew.workers.countP p = 0 := by
  refine List.countP_eq_zero.2 fun v hv => ?_
  rw [List.eq_of_mem_replicate hv, hp]
  exact Bool.false_ne_true

theorem tallied_start (size bound : Nat) : (start size bound).Tallied := by
  constructor
  · rw [countP_start (p := Worker.isReceived) rfl]
    rfl
  · rw [countP_start (p := Worker.isActive) rfl]
    rfl
  · rfl
  · rw [countP_start (p := Worker.isBusy) rfl]
    rfl
  · rw [countP_start (p := Worker.isCrashed) rfl]
    rfl

theorem Tallied.step (ht : w.Tallied) (h : w.Step m w') : w'.Tallied := by
  obtain ⟨hqueued, hactive, hsubmitted, hcompleted, hpanicked⟩ := ht
  cases h with
  | handIn =>
    constructor <;> simp only [List.countP_append, List.countP_singleton] <;> assumption
  | shutDown => exact ⟨hqueued, hactive, hsubmitted, hcompleted, hpanicked⟩
  | @caller k c queue counts c' hc hturn =>
    have hcounted := countP_set_add (p := fun c => c.handover.isCounted) hc c'
    have haccepted := countP_set_add (p := fun c => c.handover.isAccepted) hc c'
    have hin := countP_set_add (p := fun c => c.handover.isIn) hc c'
    obtain ⟨hq, ha, hco, hp, hs, hl⟩ := hturn.tally
    constructor <;> dsimp only <;> omega
  | closer hc hshutting => cases hshutting <;> exact ⟨hqueued, hactive, hsubmitted, hcompleted, hpanicked⟩
  | @worker i v queue counts v' hv hlabour =>
    have hreceived := countP_set_add (p := Worker.isReceived) hv v'
    have hworking := countP_set_add (p := Worker.isActive) hv v'
    have hbusy := countP_set_add (p := Worker.isBusy) hv v'
    have hcrashed := countP_set_add (p := Worker.isCrashed) hv v'
    obtain ⟨hq, ha, hs, hco, hp⟩ := hlabour.tally
    constructor <;> dsimp only <;> omega
  | @finish i job abnormally hv =>
    have hreceived := countP_set_add (p := Worker.isReceived) hv (if abnormally then .crashed else .returned)
    have hworking := countP_set_add (p := Worker.isActive) hv (if abnormally then .crashed else .returned)
    have hbusy := countP_set_add (p := Worker.isBusy) hv (if abnormally then .crashed else .returned)
    have hcrashed := countP_set_add (p := Worker.isCrashed) hv (if abnormally then .crashed else .returned)
    cases abnormally <;>
      simp [Worker.isReceived, Worker.isActive, Worker.isBusy, Worker.isCrashed] at hreceived hworking hbusy hcrashed <;>
      constructor <;> simp [List.countP_append] <;> omega

/-! ## Where each job is -/

def tookIn (w : Workshop) (j : Nat) : Bool := (w.callers[j]?).any fun c => c.handover.isIn

/-- Whether the job that is still a caller's has the number of the caller. -/
def IsOwn (callers : List Caller) : Prop :=
  ∀ (k : Nat) (c : Caller), callers[k]? = some c → ∀ j, c.handover.job? = some j → j = k

/-- Where each job is: once in one place if it was taken in, and nowhere otherwise. -/
structure Custody (w : Workshop) : Prop where
  own : IsOwn w.callers
  once : ∀ j, w.crew.queue.count j + w.crew.workers.countP (Worker.holds j) + (w.begun.map Prod.snd).count j
    = (w.tookIn j).toNat
  ends : ∀ j, (w.ended.map Prod.fst).count j + w.crew.workers.countP (Worker.runs j) = (w.begun.map Prod.snd).count j

/-- **A turn of a caller puts its job into the queue, or leaves the queue and the caller's job as they are.** -/
theorem Turn.custody (h : w.Turn c queue counts c') :
    (queue = w.crew.queue ∧ c'.handover.isIn = c.handover.isIn ∧
      ∀ j, c'.handover.job? = some j → c.handover.job? = some j) ∨
    ∃ job, queue = w.crew.queue ++ [job] ∧ c.handover.job? = some job ∧ c.handover.isIn = false ∧
      c'.handover.isIn = true ∧ c'.handover.job? = none := by
  cases h with
  | queued => exact .inr ⟨_, rfl, rfl, rfl, rfl, rfl⟩
  | left => exact .inl ⟨rfl, rfl, fun _ h => h⟩
  | _ => exact .inl ⟨rfl, rfl, by simp [Caller.handover, Handover.job?]⟩

/-- **Labour moves a job on from the queue to a worker, or from a worker who has it in hand to one who runs it.** -/
theorem Labour.custody (h : w.Labour v queue counts v') (j : Nat) :
    queue.count j + (v'.holds j).toNat + (v'.runs j).toNat = w.crew.queue.count j + (v.holds j).toNat ∧
    v.runs j = false ∧ (v'.current?.toList).count j = (v'.runs j).toNat := by
  cases h with
  | @receives job rest hqueue =>
    refine ⟨?_, rfl, rfl⟩
    rw [hqueue, List.count_cons]
    by_cases hj : job = j <;> simp [Worker.holds, Worker.runs, Worker.current?, hj]
  | @begins job =>
    refine ⟨?_, rfl, ?_⟩ <;> by_cases hj : job = j <;> simp [Worker.holds, Worker.runs, Worker.current?, hj]
  | _ => exact ⟨rfl, rfl, rfl⟩

theorem custody_start (size bound : Nat) : (start size bound).Custody := by
  refine ⟨fun k c hc => (by cases hc), fun j => ?_, fun j => ?_⟩
  · rw [countP_start (p := Worker.holds j) rfl]
    rfl
  · rw [countP_start (p := Worker.runs j) rfl]
    rfl

theorem tookIn_concat (w : Workshop) (job j : Nat) :
    tookIn { w with callers := w.callers ++ [.outside (.start job)] } j = w.tookIn j := by
  unfold tookIn
  dsimp only
  rw [List.getElem?_append]
  split
  · rfl
  · next hj =>
    rw [List.getElem?_eq_none (Nat.not_lt.1 hj)]
    cases j - w.callers.length <;> rfl

theorem tookIn_set (w : Workshop) (crew : Crew Nat) {k : Nat} (hc : w.callers[k]? = some c) (c' : Caller) (j : Nat) :
    tookIn { w with crew, callers := w.callers.set k c' } j = if k = j then c'.handover.isIn else w.tookIn j := by
  obtain ⟨hk, -⟩ := List.getElem?_eq_some_iff.1 hc
  unfold tookIn
  dsimp only
  split
  · next hkj =>
    rw [← hkj, List.getElem?_set_self hk]
    rfl
  · next hkj => rw [List.getElem?_set_ne hkj]

theorem IsOwn.concat {callers : List Caller} (h : IsOwn callers) :
    IsOwn (callers ++ [.outside (.start callers.length)]) := by
  intro k c hc j hj
  rw [List.getElem?_append] at hc
  split at hc
  · exact h k c hc j hj
  · next hk =>
    obtain ⟨hlt, hget⟩ := List.getElem?_eq_some_iff.1 hc
    simp only [List.getElem_singleton] at hget
    rw [List.length_singleton] at hlt
    subst hget
    obtain rfl := Option.some.inj hj
    omega

theorem IsOwn.set {callers : List Caller} {k : Nat} (h : IsOwn callers) (hc : callers[k]? = some c)
    (hjob : ∀ j, c'.handover.job? = some j → c.handover.job? = some j) : IsOwn (callers.set k c') := by
  intro i d hd j hj
  by_cases hk : k = i
  · subst hk
    rw [List.getElem?_set_self (List.getElem?_eq_some_iff.1 hc).1] at hd
    obtain rfl := Option.some.inj hd
    exact h k c hc j (hjob j hj)
  · rw [List.getElem?_set_ne hk] at hd
    exact h i d hd j hj

namespace Custody

theorem caller (hw : w.Custody) {k : Nat} (hc : w.callers[k]? = some c) (hturn : w.Turn c queue counts c') :
    Custody { w with crew := { w.crew with queue, counts }, callers := w.callers.set k c' } := by
  obtain ⟨hown, honce, hends⟩ := hw
  rcases hturn.custody with ⟨rfl, hin, hjob⟩ | ⟨job, rfl, hjob, hin, hin', hjob'⟩
  · refine ⟨hown.set hc hjob, fun j => ?_, hends⟩
    have h := honce j
    rw [tookIn_set w _ hc]
    split
    · next hk =>
      subst hk
      rw [tookIn, hc] at h
      rw [hin]
      exact h
    · exact h
  · obtain rfl := hown k c hc job hjob
    refine ⟨hown.set hc fun j hj => by simp [hjob'] at hj, fun j => ?_, hends⟩
    have h := honce j
    rw [tookIn_set w _ hc]
    dsimp only
    rw [List.count_append, List.count_singleton]
    by_cases hk : job = j
    · subst hk
      rw [tookIn, hc] at h
      simp only [Option.any_some, hin, Bool.toNat_false] at h
      simp only [hin', Bool.toNat_true, beq_self_eq_true, if_true]
      omega
    · simp only [beq_iff_eq, if_neg hk]
      exact h

theorem worker (hw : w.Custody) {i : Nat} (hv : w.crew.workers[i]? = some v) (hlabour : w.Labour v queue counts v') :
    Custody { w with
      crew := { w.crew with workers := w.crew.workers.set i v', queue, counts }
      begun := w.begun ++ (v'.current?.map fun job => (i, job)).toList } := by
  obtain ⟨hown, honce, hends⟩ := hw
  have hbegun : ∀ j, ((w.begun ++ (v'.current?.map fun job => (i, job)).toList).map Prod.snd).count j
      = (w.begun.map Prod.snd).count j + (v'.runs j).toNat := by
    intro j
    rw [List.map_append, List.count_append, ← (hlabour.custody j).2.2]
    cases v'.current? <;> rfl
  refine ⟨hown, fun j => ?_, fun j => ?_⟩
  · have h := honce j
    have hholds := countP_set_add (p := Worker.holds j) hv v'
    obtain ⟨hmoved, -, -⟩ := hlabour.custody j
    show queue.count j + (w.crew.workers.set i v').countP (Worker.holds j) + _ = (w.tookIn j).toNat
    rw [hbegun]
    omega
  · have h := hends j
    have hruns := countP_set_add (p := Worker.runs j) hv v'
    obtain ⟨-, hnot, -⟩ := hlabour.custody j
    rw [hnot] at hruns
    dsimp only
    rw [hbegun]
    simp only [Bool.toNat_false] at hruns
    omega

theorem finish (hw : w.Custody) {i job : Nat} (hv : w.crew.workers[i]? = some (.running job)) (abnormally : Bool) :
    Custody { w with
      crew := { w.crew with workers := w.crew.workers.set i (if abnormally then .crashed else .returned) }
      ended := w.ended ++ [(job, abnormally)] } := by
  obtain ⟨hown, honce, hends⟩ := hw
  have hnone : ∀ j, Worker.holds j (if abnormally then .crashed else .returned) = false ∧
      Worker.runs j (if abnormally then .crashed else .returned) = false := by
    intro j
    cases abnormally <;> exact ⟨rfl, rfl⟩
  refine ⟨hown, fun j => ?_, fun j => ?_⟩
  · have h := honce j
    have hholds := countP_set_add (p := Worker.holds j) hv (if abnormally then .crashed else .returned)
    rw [(hnone j).1] at hholds
    show w.crew.queue.count j + (w.crew.workers.set i _).countP (Worker.holds j) + _ = (w.tookIn j).toNat
    rw [Nat.add_right_cancel hholds]
    exact h
  · have h := hends j
    have hruns := countP_set_add (p := Worker.runs j) hv (if abnormally then .crashed else .returned)
    have hjob : Worker.runs j (.running job) = decide (job = j) := by simp [Worker.runs, Worker.current?]
    rw [(hnone j).2, hjob] at hruns
    dsimp only
    rw [List.map_append, List.count_append, List.map_singleton, List.count_singleton, ← h]
    by_cases hj : job = j <;> simp [hj] at hruns ⊢ <;> omega

theorem step (hw : w.Custody) (h : w.Step m w') : w'.Custody := by
  cases h with
  | handIn =>
    refine ⟨hw.own.concat, fun j => ?_, hw.ends⟩
    rw [tookIn_concat]
    exact hw.once j
  | shutDown => exact ⟨hw.own, hw.once, hw.ends⟩
  | caller hc hturn => exact hw.caller hc hturn
  | closer hc hshutting => cases hshutting <;> exact ⟨hw.own, hw.once, hw.ends⟩
  | worker hv hlabour => exact hw.worker hv hlabour
  | finish hv => exact hw.finish hv _

end Custody

/-! ## Closing -/

/-- How the crew is closed, and that no job is left behind in the queue. -/
structure Doors (w : Workshop) : Prop where
  manned : 0 < w.crew.workers.length
  room : w.crew.queue.length ≤ w.crew.bound
  proper : ∀ c ∈ w.callers, c.isProper = true
  begun : w.crew.closing = true ↔ 0 < w.closers.countP Closer.hasBegun
  /-- Once the crew is closing, one closer is about to hang up or has done so. -/
  winner : w.closers.countP Closer.isPending + w.crew.hungUp.toNat = w.crew.closing.toNat
  leaving : ∀ v ∈ w.crew.workers, v.isGone = true → w.crew.hungUp = true
  nothingLeft : w.crew.isDeserted = true → w.crew.queue = []
  refusal : ∀ c ∈ w.callers, c.handover.isClosed = true → w.crew.closing = true

theorem Turn.proper (h : w.Turn c queue counts c') : c'.isProper = true := by cases h <;> rfl

theorem Turn.isClosed (h : w.Turn c queue counts c') (hclosed : c'.handover.isClosed = true) :
    c.handover.isClosed = true ∨ w.crew.closing = true ∨ w.crew.hungUp = true ∨ w.crew.isDeserted = true := by
  cases h with
  | turnedAway hclosing => exact .inr (.inl hclosing)
  | tooLate hhung => exact .inr (.inr (.inl hhung))
  | stranded hdeserted => exact .inr (.inr (.inr hdeserted))
  | deserted => exact .inl rfl
  | left => exact .inl hclosed
  | _ => cases hclosed

/-- A worker leaves only when the queue is empty and somebody has hung up. -/
theorem Labour.gone (h : w.Labour v queue counts v') :
    (v'.isGone = true → queue = [] ∧ w.crew.hungUp = true) ∧ queue.length ≤ w.crew.queue.length := by
  cases h with
  | receives hqueue => exact ⟨nofun, by simp [hqueue]⟩
  | leaves hqueue hhung => exact ⟨fun _ => ⟨hqueue, hhung⟩, Nat.le_refl _⟩
  | _ => exact ⟨nofun, Nat.le_refl _⟩

/-- **The move of a closer leaves the crew closing**, and hangs up only if the closer was about to. -/
theorem Shutting.tally {crew : Crew Nat} {c c' : Closer} (h : w.Shutting c crew c')
    (hfirst : c.isPending = true → w.crew.hungUp = false) :
    (crew.workers = w.crew.workers ∧ crew.queue = w.crew.queue ∧ crew.bound = w.crew.bound) ∧ c'.hasBegun = true ∧
    (c.hasBegun = false ∧ crew.closing = true ∨ c.hasBegun = true ∧ crew.closing = w.crew.closing) ∧
    (w.crew.hungUp = true → crew.hungUp = true) ∧
    c'.isPending.toNat + crew.hungUp.toNat + w.crew.closing.toNat
      = c.isPending.toNat + w.crew.hungUp.toNat + crew.closing.toNat := by
  cases h with
  | late hclosing => exact ⟨⟨rfl, rfl, rfl⟩, rfl, .inl ⟨rfl, hclosing⟩, id, rfl⟩
  | begun hclosing =>
    exact ⟨⟨rfl, rfl, rfl⟩, rfl, .inl ⟨rfl, rfl⟩, id, by simp [hclosing, Closer.isPending, Crew.refuse]; omega⟩
  | entered => exact ⟨⟨rfl, rfl, rfl⟩, rfl, .inr ⟨rfl, rfl⟩, id, rfl⟩
  | hungUp =>
    exact ⟨⟨rfl, rfl, rfl⟩, rfl, .inr ⟨rfl, rfl⟩, fun _ => rfl, by simp [hfirst rfl, Closer.isPending, Crew.hangUp]⟩
  | left => exact ⟨⟨rfl, rfl, rfl⟩, rfl, .inr ⟨rfl, rfl⟩, id, rfl⟩

namespace Doors

theorem not_hungUp (hd : w.Doors) {c : Closer} (hc : c ∈ w.closers) (hpending : c.isPending = true) :
    w.crew.hungUp = false := by
  have hpos : 0 < w.closers.countP Closer.isPending := List.countP_pos_iff.2 ⟨c, hc, hpending⟩
  have hwinner := hd.winner
  have hle := Bool.toNat_le w.crew.closing
  cases hhung : w.crew.hungUp with
  | false => rfl
  | true =>
    rw [hhung, Bool.toNat_true] at hwinner
    omega

theorem start {size : Nat} (hsize : 0 < size) (bound : Nat) : (Workshop.start size bound).Doors := by
  refine ⟨List.length_replicate.symm ▸ hsize, Nat.zero_le _, nofun, ⟨nofun, nofun⟩, rfl, fun v hv hgone => ?_,
    fun _ => rfl, nofun⟩
  rw [List.eq_of_mem_replicate hv] at hgone
  cases hgone

theorem closing_of_hungUp (hd : w.Doors) (hhung : w.crew.hungUp = true) : w.crew.closing = true := by
  have h := hd.winner
  rw [hhung] at h
  cases hclosing : w.crew.closing with
  | true => rfl
  | false =>
    rw [hclosing] at h
    exact absurd h (Nat.succ_ne_zero _)

theorem hungUp_of_isDeserted (hd : w.Doors) (hdeserted : w.crew.isDeserted = true) :
    w.crew.hungUp = true := by
  obtain ⟨v, hv⟩ := List.exists_mem_of_length_pos hd.manned
  exact hd.leaving v hv (List.all_eq_true.1 hdeserted v hv)

theorem handIn (hd : w.Doors) : Doors { w with callers := w.callers ++ [.outside (.start w.callers.length)] } := by
  refine { hd with proper := fun c hc => ?_, refusal := fun c hc hclosed => ?_ }
  · rcases List.mem_append.1 hc with hc | hc
    · exact hd.proper c hc
    · rw [List.mem_singleton.1 hc]
      rfl
  · rcases List.mem_append.1 hc with hc | hc
    · exact hd.refusal c hc hclosed
    · rw [List.mem_singleton.1 hc] at hclosed
      cases hclosed

theorem shutDown (hd : w.Doors) : Doors { w with closers := w.closers ++ [.coming] } := by
  refine { hd with begun := ?_, winner := ?_ }
  · rw [List.countP_append]
    exact hd.begun
  · rw [List.countP_append]
    exact hd.winner

/-- A caller puts a job into the queue only while there is room and somebody to take it out. -/
theorem caller (hd : w.Doors) {k : Nat} (hc : w.callers[k]? = some c) (hturn : w.Turn c queue counts c') :
    Doors { w with crew := { w.crew with queue, counts }, callers := w.callers.set k c' } := by
  refine { hd with room := ?_, proper := fun d hmem => ?_, nothingLeft := fun hdeserted => ?_,
                   refusal := fun d hmem hclosed => ?_ }
  · cases hturn with
    | queued hcrowded hroom => exact (List.length_append ..).trans_le hroom
    | _ => exact hd.room
  · rcases List.mem_or_eq_of_mem_set hmem with hmem | rfl
    · exact hd.proper d hmem
    · exact hturn.proper
  · have hdeserted' : w.crew.isDeserted = true := hdeserted
    cases hturn with
    | queued hcrowded =>
      rw [hcrowded] at hdeserted'
      cases hdeserted'
    | _ => exact hd.nothingLeft hdeserted'
  · show w.crew.closing = true
    rcases List.mem_or_eq_of_mem_set hmem with hmem | rfl
    · exact hd.refusal d hmem hclosed
    · rcases hturn.isClosed hclosed with hclosed | hclosing | hhung | hdeserted
      · exact hd.refusal c (List.mem_of_getElem? hc) hclosed
      · exact hclosing
      · exact hd.closing_of_hungUp hhung
      · exact hd.closing_of_hungUp (hd.hungUp_of_isDeserted hdeserted)

/-- A closer that has begun finds the crew closing, and leaves it so. -/
theorem closer (hd : w.Doors) {k : Nat} {c c' : Closer} {crew : Crew Nat} (hc : w.closers[k]? = some c)
    (hshutting : w.Shutting c crew c') : Doors { w with crew, closers := w.closers.set k c' } := by
  obtain ⟨hi, -⟩ := List.getElem?_eq_some_iff.1 hc
  obtain ⟨⟨hworkers, hqueue, hbound⟩, hbegun, hclosing, hhung, hkeeps⟩ :=
    hshutting.tally (hd.not_hungUp (List.mem_of_getElem? hc))
  have hclosed : crew.closing = true := by
    rcases hclosing with ⟨-, hclosed⟩ | ⟨hhas, heq⟩
    · exact hclosed
    · exact heq.trans (hd.begun.2 (List.countP_pos_iff.2 ⟨c, List.mem_of_getElem? hc, hhas⟩))
  have hpending := countP_set_add (p := Closer.isPending) hc c'
  have hwinner := hd.winner
  constructor
  · exact hworkers ▸ hd.manned
  · exact (hqueue ▸ hbound ▸ hd.room : crew.queue.length ≤ crew.bound)
  · exact hd.proper
  · exact ⟨fun _ => List.countP_pos_iff.2 ⟨c', List.mem_set hi c', hbegun⟩, fun _ => hclosed⟩
  · dsimp only
    omega
  · intro v hv hgone
    exact hhung (hd.leaving v (hworkers ▸ hv) hgone)
  · intro hdeserted
    have hdeserted' : w.crew.isDeserted = true := by
      unfold Crew.isDeserted at hdeserted ⊢
      exact hworkers ▸ hdeserted
    exact hqueue.trans (hd.nothingLeft hdeserted')
  · exact fun _ _ _ => hclosed

theorem worker (hd : w.Doors) {i : Nat} (hv : w.crew.workers[i]? = some v) (hlabour : w.Labour v queue counts v') :
    Doors { w with
      crew := { w.crew with workers := w.crew.workers.set i v', queue, counts }
      begun := w.begun ++ (v'.current?.map fun job => (i, job)).toList } := by
  obtain ⟨hi, -⟩ := List.getElem?_eq_some_iff.1 hv
  obtain ⟨hgone, hshorter⟩ := hlabour.gone
  refine { hd with manned := List.length_set.symm ▸ hd.manned, room := Nat.le_trans hshorter hd.room,
                   leaving := fun u hu hleft => ?_, nothingLeft := fun hdeserted => ?_ }
  · rcases List.mem_or_eq_of_mem_set hu with hu | rfl
    · exact hd.leaving u hu hleft
    · exact (hgone hleft).2
  · exact (hgone (List.all_eq_true.1 hdeserted v' (List.mem_set hi v'))).1

theorem finish (hd : w.Doors) {i job : Nat} (hv : w.crew.workers[i]? = some (.running job)) (abnormally : Bool) :
    Doors { w with
      crew := { w.crew with workers := w.crew.workers.set i (if abnormally then .crashed else .returned) }
      ended := w.ended ++ [(job, abnormally)] } := by
  obtain ⟨hi, -⟩ := List.getElem?_eq_some_iff.1 hv
  have hstays : Worker.isGone (if abnormally then (.crashed : Worker Nat) else .returned) = false := by
    cases abnormally <;> rfl
  refine { hd with manned := List.length_set.symm ▸ hd.manned, leaving := fun u hu hleft => ?_,
                   nothingLeft := fun hdeserted => ?_ }
  · rcases List.mem_or_eq_of_mem_set hu with hu | rfl
    · exact hd.leaving u hu hleft
    · rw [hstays] at hleft
      cases hleft
  · have hall := List.all_eq_true.1 hdeserted _ (List.mem_set hi _)
    rw [hstays] at hall
    cases hall

theorem step (hd : w.Doors) (h : w.Step m w') : w'.Doors := by
  cases h with
  | handIn => exact hd.handIn
  | shutDown => exact hd.shutDown
  | caller hc hturn => exact hd.caller hc hturn
  | closer hc hshutting => exact hd.closer hc hshutting
  | worker hv hlabour => exact hd.worker hv hlabour
  | finish hv => exact hd.finish hv _

end Doors

end Workshop
end BitmapWorks
