import BitmapWorks.Crew
import Mathlib.Algebra.BigOperators.Group.Multiset.Basic
import Mathlib.Algebra.GroupWithZero.Nat
/-!
# Jobs — what a crew has in hand, move by move

Handing in puts a job in or leaves the crew's jobs as they are (`submit_cases`).  The moves of a worker between two jobs
pass jobs on without adding or losing any (`hand_advance?`), and a worker that runs a job changes or ends that one only
(`hand_of_running?`).
-/
namespace BitmapWorks
namespace Crew

variable {J : Type}

/-- **Handing in puts the job at the end of the queue, or is refused and leaves all jobs alone.** -/
theorem submit_cases (c : Crew J) (job : J) :
    (∃ counts, c.submit job = (none, { c with queue := c.queue ++ [job], counts })) ∨
      ∃ r counts, c.submit job = (some r, { c with counts }) := by
  obtain ⟨workers, queue, bound, counts, closing, hungUp⟩ := c
  cases closing with
  | true => exact .inr ⟨.closed, counts, rfl⟩
  | false =>
    cases hungUp with
    | true => exact .inr ⟨.closed, counts, rfl⟩
    | false =>
      by_cases hgone : workers.all Worker.isGone = true
      · refine .inr ⟨.closed, { counts with queued := counts.queued + 1 - 1 }, ?_⟩
        simp only [submit, handOver, isDeserted, Bool.false_eq_true, if_false, if_pos hgone]
      by_cases hroom : queue.length < bound
      · refine .inl ⟨{ counts with queued := counts.queued + 1, submitted := counts.submitted + 1 }, ?_⟩
        simp only [submit, handOver, isDeserted, Bool.false_eq_true, if_false, if_neg hgone, if_pos hroom]
      · refine .inr ⟨.queueFull, { counts with queued := counts.queued + 1 - 1 }, ?_⟩
        simp only [submit, handOver, isDeserted, Bool.false_eq_true, if_false, if_neg hgone, if_neg hroom]

def hand (c : Crew J) : Multiset J := ↑c.jobs

theorem hand_start (size bound : Nat) : (start size bound : Crew J).hand = 0 := by
  have hidle : (List.replicate size (Worker.idle : Worker J)).filterMap Worker.job? = [] :=
    List.filterMap_eq_nil_iff.2 fun w hw => by rw [List.eq_of_mem_replicate hw]; rfl
  unfold hand jobs start
  rw [hidle]
  rfl

theorem hand_submit {c : Crew J} {job : J} (h : (c.submit job).1 = none) : (c.submit job).2.hand = job ::ₘ c.hand := by
  rcases submit_cases c job with ⟨counts, hc⟩ | ⟨r, counts, hc⟩
  · rw [hc]
    unfold hand jobs
    rw [Multiset.cons_coe, Multiset.coe_eq_coe, List.append_assoc]
    exact List.perm_middle
  · rw [hc] at h
    cases h

theorem hand_submit_refused {c : Crew J} {job : J} {r : Refusal} (h : (c.submit job).1 = some r) :
    (c.submit job).2.hand = c.hand := by
  rcases submit_cases c job with ⟨counts, hc⟩ | ⟨r, counts, hc⟩
  · rw [hc] at h
    cases h
  · rw [hc]
    rfl

theorem perm_filterMap_set {ws : List (Worker J)} {i : Nat} {w w' : Worker J} (h : ws[i]? = some w) :
    ((Worker.job? w).toList ++ (ws.set i w').filterMap Worker.job?).Perm
      ((Worker.job? w').toList ++ ws.filterMap Worker.job?) := by
  induction ws generalizing i with
  | nil => cases h
  | cons x ws ih =>
    have hcons : ∀ (y : Worker J) (l : List (Worker J)),
        (y :: l).filterMap Worker.job? = (Worker.job? y).toList ++ l.filterMap Worker.job? := by
      intro y l
      cases hy : (Worker.job? y) with
      | none => rw [List.filterMap_cons_none hy, Option.toList_none, List.nil_append]
      | some j => rw [List.filterMap_cons_some hy, Option.toList_some, List.singleton_append]
    cases i with
    | zero =>
      obtain rfl : x = w := Option.some.inj h
      rw [List.set_cons_zero, hcons, hcons]
      exact List.perm_append_comm_assoc ..
    | succ i =>
      rw [List.set_cons_succ, hcons, hcons]
      refine (List.perm_append_comm_assoc ..).trans (((ih h).append_left _).trans ?_)
      exact List.perm_append_comm_assoc ..

/-- **A worker that changes its state exchanges the job it had for the job it has.** -/
theorem hand_setWorker {c : Crew J} {i : Nat} {w : Worker J} (w' : Worker J) (h : c.workers[i]? = some w) :
    ↑(Worker.job? w).toList + (c.setWorker i w').hand = ↑(Worker.job? w').toList + c.hand := by
  unfold hand jobs setWorker
  rw [← Multiset.coe_add, ← Multiset.coe_add, add_left_comm, Multiset.coe_add,
    Multiset.coe_eq_coe.2 (perm_filterMap_set h), ← Multiset.coe_add, add_left_comm]

theorem hand_setWorker_counts {c : Crew J} {i : Nat} {w w' : Worker J} (counts : Counts) (h : c.workers[i]? = some w)
    (hsame : Worker.job? w' = Worker.job? w) : ({ c with counts }.setWorker i w').hand = c.hand := by
  have hset := hand_setWorker w' h
  rw [hsame] at hset
  exact Multiset.add_right_inj.1 hset

/-- **The moves of a worker that runs no job neither add nor lose a job.** -/
theorem hand_advance? {c c' : Crew J} {i : Nat} (h : c.advance? i = some c') : c'.hand = c.hand := by
  unfold advance? at h
  split at h
  · rename_i hw
    split at h
    · rename_i job rest hqueue
      cases h
      have hset := hand_setWorker (c := { c with queue := rest }) (.received job) hw
      have hqueue' : c.hand = job ::ₘ ({ c with queue := rest } : Crew J).hand := by
        unfold hand jobs
        rw [hqueue]
        rfl
      rw [hqueue']
      simpa [Worker.job?] using hset
    · split at h
      · cases h
        simpa [Worker.job?] using hand_setWorker .left hw
      · cases h
  · rename_i job hw
    cases h
    exact hand_setWorker_counts _ hw rfl
  · rename_i job hw
    cases h
    exact hand_setWorker_counts _ hw rfl
  · rename_i hw
    cases h
    exact hand_setWorker_counts _ hw rfl
  · rename_i hw
    cases h
    exact hand_setWorker_counts _ hw rfl
  · rename_i hw
    cases h
    exact hand_setWorker_counts _ hw rfl
  · cases h

/-- **A worker that runs a job changes or ends that job only.** -/
theorem hand_of_running? {c : Crew J} {i : Nat} {job : J} (h : c.running? i = some job) (abnormally : Bool) :
    c.hand = job ::ₘ (c.finish i abnormally).hand ∧
      ∀ job', (c.keepRunning i job').hand = job' ::ₘ (c.finish i abnormally).hand := by
  have hw : c.workers[i]? = some (.running job) := by
    unfold running? at h
    split at h
    · rename_i hw
      cases h
      exact hw
    · cases h
  have hends : c.hand = job ::ₘ (c.finish i abnormally).hand := by
    have hset := hand_setWorker (if abnormally then .crashed else .returned) hw
    cases abnormally <;> simpa [Worker.job?, finish] using hset.symm
  refine ⟨hends, fun job' => ?_⟩
  have hset := hand_setWorker (.running job') hw
  rw [hends] at hset
  simpa [Worker.job?, keepRunning] using hset

end Crew
end BitmapWorks
