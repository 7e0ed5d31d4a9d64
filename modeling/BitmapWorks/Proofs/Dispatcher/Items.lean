import BitmapWorks.Proofs.Dispatcher.Effort
import Mathlib.Data.Multiset.Range
/-!
# Items — a task that is spread over partitions

The partitions of a task draw its items from one cursor, in any order of their moves, and the caller may have to count
off partitions that never start.  Every item below the cursor was passed on or is held by a worker (`Spread.drawn`), the
cursor overshoots at most once for each partition (`Spread.room`), and the partitions leave no item behind unless a fault
or a shutdown stops them (`Spread.left`).
-/
namespace BitmapWorks

variable {W B V : Type} {bh : Behaviour W B V} {id : Nat}

/-! ## Weights of partitions -/

def Errand.draws : Errand → Nat
  | part _ .finish | part _ .post => 0
  | part _ _ => 1
  | single _ _ => 0

def Chore.due : Chore → Nat
  | abandon _ _ _ => 1
  | _ => 0

def Errand.due : Errand → Nat
  | part _ .finish => 1
  | _ => 0

/-- The item that an errand holds and has not passed on. -/
def Errand.held : Errand → Multiset Nat
  | part _ (.call item) => {item}
  | _ => 0

def Chore.completes : Chore → Nat
  | complete _ => 1
  | _ => 0

def Event.item? : Event V → Option Nat
  | called _ item => some item
  | _ => none

namespace Strand

def draws : Strand B V → Nat := weigh Chore.work Errand.draws

def due : Strand B V → Nat := weigh Chore.due Errand.due

def completions (c : Cell B V) (s : Strand B V) : Nat :=
  (s.chores.map Chore.completes).sum + s.posted + if c.settlement.claimed = true then 1 else 0

/-- The items that were passed on or are held. -/
def items (s : Strand B V) : Multiset Nat := ↑(s.story.filterMap Event.item?) + (s.errands.map Errand.held).sum

end Strand

/-- How the items of a task that is spread over so many partitions are used up. -/
structure Spread (n partitions : Nat) (c : Cell B V) (s : Strand B V) (f : Fanout) : Prop where
  fanout : c.fanout = some f
  length : f.cursor.length = n
  room : (f.cursor.next - n) + s.draws ≤ partitions
  drawn : s.items = Multiset.range (min f.cursor.next n)
  left : c.fault = none → c.forced = false → f.cursor.next < n → s.due = 0 ∧ s.work ≠ 0

/-- A task on partitions has no work once all of them are handed in and over. -/
theorem Kinds.work_eq_zero {c : Cell B V} {s : Strand B V} (h : Kinds c s) (hfanout : c.fanout ≠ none)
    (hparts : (s.chores.map Chore.parts).sum = 0) (herrands : s.errands = 0) : s.work = 0 := by
  have hsingle : (s.chores.map Chore.single).sum = 0 := by
    have hzero := h.parts hfanout
    simp only [Strand.weigh] at hzero
    omega
  have hzero : (s.chores.map Chore.work).sum = 0 := List.sum_eq_zero fun x hx => by
    obtain ⟨chore, hchore, rfl⟩ := List.mem_map.1 hx
    have hpart : chore.parts = 0 := List.sum_eq_zero_iff.1 hparts _ (List.mem_map_of_mem hchore)
    have hone : chore.single = 0 := List.sum_eq_zero_iff.1 hsingle _ (List.mem_map_of_mem hchore)
    cases chore with
    | submit => cases hone
    | submitPart | abandon => cases hpart
    | _ => rfl
  simp [Strand.work, Strand.weigh, hzero, herrands]

theorem Errand.held_eq_zero {e : Errand} (h : e.work = 0) : e.held = 0 := by
  cases e with
  | single id phase => rfl
  | part id phase =>
    cases phase with
    | call item => cases h
    | _ => rfl

theorem Strand.work_of_mem {s : Strand B V} (h : s.work = 0) {e : Errand} (he : e ∈ s.errands) : e.work = 0 := by
  have hsum : (s.errands.map Errand.work).sum = 0 := by
    simp only [Strand.work, Strand.weigh] at h
    omega
  exact Multiset.sum_eq_zero_iff.1 hsum _ (Multiset.mem_map_of_mem _ he)

/-! ## Turns -/

/-- **What a turn does to the items**: a partition draws the item of the cursor, or finds the cursor past the end and is
over; it passes its item on; or nothing is drawn and nothing passed. -/
theorem Turn.items {n : Note} {c c' : Cell B V} {e : Errand} {next : Multiset Errand} {posted : Nat}
    {events : List (Event V)} (h : Turn bh id n c e c' next posted events) :
    (∃ f, c.fanout = some f ∧ f.cursor.next < f.cursor.length ∧
      c'.fanout = some { f with cursor := f.cursor.fetch.2 } ∧ e.draws = 1 ∧ e.held = 0 ∧ events = [] ∧
      (next.map Errand.draws).sum = 1 ∧ (next.map Errand.held).sum = {f.cursor.next}) ∨
    (∃ f, c.fanout = some f ∧ f.cursor.length ≤ f.cursor.next ∧
      c'.fanout = some { f with cursor := f.cursor.fetch.2 } ∧ e.draws = 1 ∧ e.held = 0 ∧ events = [] ∧
      (next.map Errand.draws).sum = 0 ∧ (next.map Errand.held).sum = 0) ∨
    (∃ item, e.held = {item} ∧ events = [.called id item] ∧ (next.map Errand.held).sum = 0 ∧
      (next.map Errand.draws).sum = e.draws ∧ c' = c) ∨
    (e.isSingle = 1) ∨
    (e.held = 0 ∧ events = [] ∧ (next.map Errand.held).sum = 0 ∧ (next.map Errand.draws).sum ≤ e.draws ∧
      c'.fanout.map Fanout.cursor = c.fanout.map Fanout.cursor) := by
  cases h with
  | takeUp | tooLate | call | bodyless | «return» | record | post => exact .inr (.inr (.inr (.inl rfl)))
  | @fetch c f hf hnext => exact .inl ⟨f, hf, hnext, rfl, rfl, rfl, rfl, by simp [Errand.draws], by simp [Errand.held]⟩
  | @overrun c f hf hnext =>
    exact .inr (.inl ⟨f, hf, hnext, rfl, rfl, rfl, rfl, by simp [Errand.draws], by simp [Errand.held]⟩)
  | @partCall c item =>
    exact .inr (.inr (.inl ⟨item, rfl, rfl, by simp [Errand.held], by simp [Errand.draws], rfl⟩))
  | finish hf | finishLast hf =>
    exact .inr (.inr (.inr (.inr
      ⟨rfl, rfl, by simp [Errand.held], by simp [Errand.draws], by simp [hf, Fanout.finish]⟩)))
  | _ => exact .inr (.inr (.inr (.inr ⟨rfl, rfl, by simp [Errand.held], by simp [Errand.draws], rfl⟩)))

/-- A partition that works for a task that nothing stops, with items left, goes on. -/
theorem Turn.goes_on {n : Note} {c c' : Cell B V} {e : Errand} {next : Multiset Errand} {posted : Nat}
    {events : List (Event V)} {f : Fanout} (h : Turn bh id n c e c' next posted events)
    (hbusy : e.work = 1 → c.body ≠ none ∧ (c.stage = .queued ∨ c.stage = .running)) (hfault : c.fault = none)
    (hforced : c.forced = false) (hf : c.fanout = some f) (hnext : f.cursor.next < f.cursor.length) (hdue : e.due = 0)
    (hpart : e.isSingle = 0) : (next.map Errand.due).sum = 0 ∧ (next.map Errand.work).sum = e.work := by
  cases h with
  | takeUp | tooLate | call | bodyless | «return» | record | post => cases hpart
  | nothingToHold hbody | partBodyless hbody => exact absurd hbody (hbusy rfl).1
  | partTooLate hqueued hrunning => exact ((hbusy rfl).2.elim hqueued hrunning).elim
  | stop hstop =>
    rw [Cell.shouldStop, hfault, hforced] at hstop
    cases hstop
  | exhausted hempty => exact absurd hnext (Nat.not_lt.2 (hempty f hf))
  | overrun hf' hempty =>
    rw [hf] at hf'
    cases hf'
    exact absurd hnext (Nat.not_lt.2 hempty)
  | unspread hnone | nothingToFinish hnone =>
    rw [hf] at hnone
    cases hnone
  | finish | finishLast => cases hdue
  | _ => exact ⟨by simp [Errand.due], by simp [Errand.work]⟩

theorem Strand.Sound.not_forced {s : Strand B V} (h : s.Sound) {c : Cell B V} (hc : s.cell = some c)
    (hfault : c.fault = none) : c.forced = false := by
  by_contra hforced
  exact ((h.staged c hc).forced (Bool.eq_true_of_not_eq_false hforced)).2 hfault

theorem Strand.Sound.busy {s : Strand B V} (h : s.Sound) {c : Cell B V} (hc : s.cell = some c)
    (hforced : c.forced = false) (hwork : s.work ≠ 0) : c.body ≠ none ∧ (c.stage = .queued ∨ c.stage = .running) := by
  have hstaged := h.staged c hc
  have htokens := h.tokens c hc hforced
  have hopen := (htokens.of_work hwork).2
  have hdone : c.stage ≠ .done := fun hdone => by simp [hstaged.done hdone] at hopen
  refine ⟨mt hstaged.body.1 hdone, ?_⟩
  cases hstage : c.stage with
  | created => exact absurd hstage hstaged.checked.1
  | validating => exact absurd hstage hstaged.checked.2
  | rejected => exact absurd (htokens.rejected hstage) hwork
  | queued => exact .inl rfl
  | running => exact .inr rfl
  | completing => rcases hstaged.completing hstage with h | h <;> simp_all
  | done => exact absurd hstage hdone

/-- As long as no fault and no shutdown stops a task in front of its end, no partition is over and work is left. -/
theorem Spread.left_turn {k partitions : Nat} {n : Note} {c c' : Cell B V} {e : Errand} {next : Multiset Errand}
    {posted p : Nat} {events st : List (Event V)} {cs : List Chore} {es : Multiset Errand} {f : Fanout}
    (hturn : Turn bh id n c e c' next posted events) (hs : Strand.Sound ⟨some c, cs, p, e ::ₘ es, st⟩)
    (h : Spread k partitions c ⟨some c, cs, p, e ::ₘ es, st⟩ f) (hfault' : c'.fault = none) (hforced' : c'.forced = false)
    (hnext : f.cursor.next < k) :
    Strand.due ⟨some c', cs, p + posted, next + es, events ++ st⟩ = 0 ∧
      Strand.work ⟨some c', cs, p + posted, next + es, events ++ st⟩ ≠ 0 := by
  have hfault : c.fault = none := by
    rw [hturn.fault.1] at hfault'
    exact (Option.or_eq_none_iff.1 hfault').1
  have hforced : c.forced = false := hturn.keeps.1 ▸ hforced'
  have hlength := h.length
  obtain ⟨hdue, hwork⟩ := h.left hfault hforced hnext
  have hbusy := hs.busy rfl hforced hwork
  simp only [Strand.due, Strand.weigh, Multiset.map_cons, Multiset.sum_cons] at hdue
  obtain ⟨hdue', hwork'⟩ := hturn.goes_on (fun _ => hbusy) hfault hforced h.fanout (by omega) (by omega)
    ((hs.kinds c rfl).isSingle_eq_zero (by simp [h.fanout]))
  simp only [Strand.work, Strand.weigh, Multiset.map_cons, Multiset.sum_cons] at hwork
  simp only [Strand.due, Strand.work, Strand.weigh, Multiset.map_add, Multiset.sum_add]
  omega

theorem Spread.turn {k partitions : Nat} {n : Note} {c c' : Cell B V} {e : Errand} {next : Multiset Errand}
    {posted p : Nat} {events st : List (Event V)} {cs : List Chore} {es : Multiset Errand} {f : Fanout}
    (hturn : Turn bh id n c e c' next posted events) (hs : Strand.Sound ⟨some c, cs, p, e ::ₘ es, st⟩)
    (h : Spread k partitions c ⟨some c, cs, p, e ::ₘ es, st⟩ f) :
    ∃ f', Spread k partitions c' ⟨some c', cs, p + posted, next + es, events ++ st⟩ f' := by
  have hpart := (hs.kinds c rfl).isSingle_eq_zero (by simp [h.fanout])
  have hleft : ∀ f' : Fanout, f.cursor.next ≤ f'.cursor.next → c'.fault = none → c'.forced = false →
      f'.cursor.next < k → Strand.due ⟨some c', cs, p + posted, next + es, events ++ st⟩ = 0 ∧
        Strand.work ⟨some c', cs, p + posted, next + es, events ++ st⟩ ≠ 0 :=
    fun f' hmono hfault hforced hnext => h.left_turn hturn hs hfault hforced (Nat.lt_of_le_of_lt hmono hnext)
  obtain ⟨hfanout, hlength, hroom, hdrawn, -⟩ := h
  simp only [Strand.draws, Strand.weigh, Multiset.map_cons, Multiset.sum_cons] at hroom
  simp only [Strand.items, Multiset.map_cons, Multiset.sum_cons] at hdrawn
  rcases hturn.items with ⟨f', hf', hnext, hfanout', hdraws, hheld, rfl, hdraws', hheld'⟩ |
    ⟨f', hf', hnext, hfanout', hdraws, hheld, rfl, hdraws', hheld'⟩ | ⟨item, hheld, rfl, hheld', hdraws, rfl⟩ | hsingle |
    ⟨hheld, rfl, hheld', hdraws, hfanout'⟩
  · obtain rfl : f = f' := Option.some.inj (hfanout.symm.trans hf')
    rw [hlength] at hnext
    refine ⟨_, hfanout', hlength, ?_, ?_, hleft _ (Nat.le_succ _)⟩
    · show (f.cursor.next + 1 - k) + _ ≤ partitions
      simp only [Strand.draws, Strand.weigh, Multiset.map_add, Multiset.sum_add]
      omega
    · show _ = Multiset.range (min (f.cursor.next + 1) k)
      rw [Nat.min_eq_left (Nat.le_of_lt hnext), hheld, zero_add] at hdrawn
      rw [Nat.min_eq_left hnext, Multiset.range_succ, ← hdrawn]
      simp only [Strand.items, Multiset.map_add, Multiset.sum_add, hheld', List.nil_append]
      rw [add_left_comm, Multiset.singleton_add]
  · obtain rfl : f = f' := Option.some.inj (hfanout.symm.trans hf')
    rw [hlength] at hnext
    refine ⟨_, hfanout', hlength, ?_, ?_, hleft _ (Nat.le_succ _)⟩
    · show (f.cursor.next + 1 - k) + _ ≤ partitions
      simp only [Strand.draws, Strand.weigh, Multiset.map_add, Multiset.sum_add]
      omega
    · show _ = Multiset.range (min (f.cursor.next + 1) k)
      rw [Nat.min_eq_right hnext, hheld, zero_add] at hdrawn
      rw [Nat.min_eq_right (Nat.le_succ_of_le hnext), ← hdrawn]
      simp only [Strand.items, Multiset.map_add, Multiset.sum_add, hheld', List.nil_append, zero_add]
  · refine ⟨f, hfanout, hlength, ?_, ?_, hleft f (Nat.le_refl _)⟩
    · simp only [Strand.draws, Strand.weigh, Multiset.map_add, Multiset.sum_add]
      omega
    · have hpassed : (.called id item :: st).filterMap Event.item? = item :: st.filterMap Event.item? := rfl
      rw [← hdrawn]
      simp only [Strand.items, Multiset.map_add, Multiset.sum_add, hheld, hheld', List.singleton_append, zero_add]
      rw [hpassed, ← Multiset.cons_coe, ← Multiset.singleton_add, add_assoc, add_left_comm]
  · omega
  · rw [hfanout] at hfanout'
    obtain ⟨f', hf', hcursor⟩ := Option.map_eq_some_iff.1 hfanout'
    have hnext : f'.cursor.next = f.cursor.next := congrArg Cursor.next hcursor
    refine ⟨f', hf', (congrArg Cursor.length hcursor).trans hlength, ?_, ?_, hleft f' (Nat.le_of_eq hnext.symm)⟩
    · simp only [Strand.draws, Strand.weigh, Multiset.map_add, Multiset.sum_add]
      omega
    · rw [hnext, ← hdrawn]
      simp only [Strand.items, Multiset.map_add, Multiset.sum_add, hheld, hheld', List.nil_append, zero_add]

theorem Spread.congr {k partitions : Nat} {c c' : Cell B V} {s s' : Strand B V} {f f' : Fanout}
    (h : Spread k partitions c s f) (hfanout : c'.fanout = some f') (hcursor : f'.cursor = f.cursor)
    (hdraws : s'.draws ≤ s.draws) (hitems : s'.items = s.items)
    (hleft : c'.fault = none → c'.forced = false → f.cursor.next < k →
      c.fault = none ∧ c.forced = false ∧ (s.due = 0 ∧ s.work ≠ 0 → s'.due = 0 ∧ s'.work ≠ 0)) :
    Spread k partitions c' s' f' := by
  refine ⟨hfanout, by rw [hcursor]; exact h.length, ?_, by rw [hcursor, hitems]; exact h.drawn, ?_⟩
  · have hroom := h.room
    rw [hcursor]
    omega
  · intro hfault hforced hnext
    rw [hcursor] at hnext
    obtain ⟨hfault', hforced', hkeeps⟩ := hleft hfault hforced hnext
    exact hkeeps (h.left hfault' hforced' hnext)

theorem Strand.Step.spread_items {k partitions : Nat} {n : Note} {s s' : Strand B V} (h : Strand.Step bh id n s s')
    (hs : s.Sound) {c : Cell B V} {f : Fanout} (hc : s.cell = some c) (hspread : Spread k partitions c s f) :
    ∃ c' f', s'.cell = some c' ∧ Spread k partitions c' s' f' := by
  cases h with
  | reject | letIn | spread => cases hc
  | turn es hturn =>
    obtain rfl := Option.some.inj hc
    obtain ⟨f', hspread'⟩ := hspread.turn hturn hs
    exact ⟨_, f', rfl, hspread'⟩
  | receive =>
    exact ⟨c, f, hc, hspread.congr hspread.fanout rfl (by simp [Strand.draws, Strand.weigh, Chore.work]) rfl
      fun hfault hforced _ => ⟨hfault, hforced, by simp [Strand.due, Strand.work, Strand.weigh, Chore.due, Chore.work]⟩⟩
  | submit | refuse =>
    obtain rfl := Option.some.inj hc
    have hzero := (hs.kinds _ rfl).parts (by simp [hspread.fanout])
    simp [Strand.weigh, Chore.single] at hzero
  | submitted hnext =>
    obtain rfl := Option.some.inj hc
    refine ⟨_, f, rfl, hspread.congr hspread.fanout rfl ?_ rfl fun hfault hforced _ => ⟨hfault, hforced, ?_⟩⟩
    · simp [Strand.draws, Strand.weigh]
    · simp [Strand.due, Strand.work, Strand.weigh, Chore.due, Chore.work, Nat.sub_eq_zero_of_le hnext]
  | submitPart hnext =>
    obtain rfl := Option.some.inj hc
    refine ⟨_, f, rfl, hspread.congr hspread.fanout rfl ?_ ?_ fun hfault hforced _ => ⟨hfault, hforced, ?_⟩⟩
    · simp [Strand.draws, Strand.weigh, Chore.work, Errand.draws]
      omega
    · simp [Strand.items, Errand.held]
    · simp [Strand.due, Strand.work, Strand.weigh, Chore.due, Chore.work, Errand.due, Errand.work]
      intro hdue hdue' _
      exact ⟨hdue, hdue'⟩
  | refusePart fault hnext =>
    obtain rfl := Option.some.inj hc
    refine ⟨_, f, rfl, hspread.congr hspread.fanout rfl ?_ rfl fun hfault => ?_⟩
    · simp [Strand.draws, Strand.weigh, Chore.work]
    · exact absurd hfault (by simp [Cell.offer])
  | @abandoned c cs p es st last =>
    obtain rfl := Option.some.inj hc
    refine ⟨_, f, rfl, hspread.congr hspread.fanout rfl ?_ rfl fun hfault hforced _ => ⟨hfault, hforced, ?_⟩⟩
    · cases last <;> simp [Strand.draws, Strand.weigh, Chore.work]
    · cases last <;> simp [Strand.due, Strand.work, Strand.weigh, Chore.due, Chore.work]
  | @abandon c cs p es st left last f' hf =>
    obtain rfl := Option.some.inj hc
    obtain rfl : f = f' := Option.some.inj (hspread.fanout.symm.trans hf)
    refine ⟨_, f.finish.2, rfl, hspread.congr rfl rfl ?_ rfl fun hfault hforced _ => ⟨hfault, hforced, ?_⟩⟩
    · simp [Strand.draws, Strand.weigh, Chore.work]
    · simp [Strand.due, Strand.work, Strand.weigh, Chore.due, Chore.work]
  | unspread hnone =>
    obtain rfl := Option.some.inj hc
    rw [hspread.fanout] at hnone
    cases hnone
  | force hqueued =>
    obtain rfl := Option.some.inj hc
    refine ⟨_, f, rfl, hspread.congr hspread.fanout rfl ?_ rfl fun _ hforced => ?_⟩
    · simp [Strand.draws, Strand.weigh, Chore.work]
    · cases hforced
  | @conclude c cs p es st b outcome asked settlement event hbody hending hnotice =>
    obtain rfl := Option.some.inj hc
    refine ⟨_, f, rfl, hspread.congr hspread.fanout rfl ?_ ?_ fun hfault hforced _ => ⟨hfault, hforced, ?_⟩⟩
    · simp [Strand.draws, Strand.weigh, Chore.work]
    · simp only [Strand.items]
      cases hnotice <;> cases hending <;> rfl
    · simp [Strand.due, Strand.work, Strand.weigh, Chore.due, Chore.work]
  | bodyless hbody hnotice =>
    exact absurd ((hs.staged _ rfl).body.1 hbody) (hs.staged _ rfl).of_conclude.2.1
  | _ =>
    obtain rfl := Option.some.inj hc
    refine ⟨_, f, rfl, hspread.congr hspread.fanout rfl ?_ rfl fun hfault hforced _ => ⟨hfault, hforced, ?_⟩⟩
    · simp [Strand.draws, Strand.weigh, Chore.work]
    · simp [Strand.due, Strand.work, Strand.weigh, Chore.due, Chore.work]

theorem Strand.Step.spread_start {k partitions : Nat} {n : Note} {s s' : Strand B V} (h : Strand.Step bh id n s s')
    (hrooted : s.Rooted) (hnone : s.cell = none) (hplan : s'.cell.bind Cell.fanout = some (.start k partitions)) :
    ∃ c, s'.cell = some c ∧ Spread k partitions c s' (.start k partitions) ∧ s'.completions c = 0 ∧
      s'.effort c = 6 * k + 8 * partitions + 1 := by
  cases h with
  | reject | letIn => cases hplan
  | spread b sink k' count hsink hitems hcount =>
    obtain ⟨rfl, rfl, rfl, rfl⟩ := hrooted rfl
    have hstart : Fanout.start k' count = .start k partitions := Option.some.inj hplan
    obtain rfl : k' = k := congrArg (fun f => f.cursor.length) hstart
    obtain rfl : count = partitions := Int.ofNat.inj (congrArg Fanout.pending hstart)
    refine ⟨_, rfl, ⟨rfl, rfl, ?_, ?_, fun _ _ _ => ⟨?_, ?_⟩⟩, ?_, ?_⟩
    · simp [Fanout.start, Cursor.ofLength, Strand.draws, Strand.weigh, Chore.work]
    · simp [Fanout.start, Cursor.ofLength, Strand.items, Event.item?]
    · simp [Strand.due, Strand.weigh, Chore.due]
    · simp [Strand.work, Strand.weigh, Chore.work]
      omega
    · simp [Strand.completions, Chore.completes, Cell.fresh, Settlement.fresh]
    · simp [Strand.effort, Strand.weigh, Chore.effort, Cell.itemsLeft, Fanout.start, Cursor.ofLength]
      omega
  | receive =>
    rw [hnone] at hplan
    cases hplan
  | _ => cases hnone

/-! ## Completions -/

theorem Turn.completions {n : Note} {c c' : Cell B V} {e : Errand} {next : Multiset Errand} {posted : Nat}
    {events : List (Event V)} (h : Turn bh id n c e c' next posted events) (hpart : e.isSingle = 0) :
    posted = if n.signals = true then 1 else 0 := by
  cases h with
  | takeUp | tooLate | call | bodyless | «return» | record | post => cases hpart
  | _ => rfl

/-- **The completions of a task are those that the notes signal**, as long as no shutdown forces it. -/
theorem Strand.Step.completions {n : Note} {s s' : Strand B V} (h : Strand.Step bh id n s s') (hs : s.Sound)
    {c c' : Cell B V} (hc : s.cell = some c) (hc' : s'.cell = some c') (hfanout : c.fanout ≠ none)
    (hforced : c'.forced = false) :
    s'.completions c' = s.completions c + if n.signals = true then 1 else 0 := by
  cases h with
  | reject | letIn | spread => cases hc
  | turn es hturn =>
    obtain rfl := Option.some.inj hc
    obtain rfl := Option.some.inj hc'
    have hposted := hturn.completions ((hs.kinds _ rfl).isSingle_eq_zero hfanout)
    simp only [Strand.completions, hturn.settlement_eq]
    omega
  | submit | refuse =>
    obtain rfl := Option.some.inj hc
    have hzero := (hs.kinds _ rfl).parts hfanout
    simp [Strand.weigh, Chore.single] at hzero
  | receive =>
    obtain rfl := Option.some.inj (hc.symm.trans hc')
    simp [Strand.completions, Chore.completes, Note.quiet]
    omega
  | late hclaimed =>
    obtain rfl := Option.some.inj hc
    obtain rfl := Option.some.inj hc'
    have hsignals := (hs.tokens _ rfl hforced).signals
    rw [if_pos hclaimed] at hsignals
    simp [Strand.signals, Strand.weigh, Chore.signals] at hsignals
    split at hsignals <;> omega
  | claim hclaimed =>
    obtain rfl := Option.some.inj hc
    obtain rfl := Option.some.inj hc'
    simp [Strand.completions, Chore.completes, Note.quiet, Cell.claim, hclaimed]
    omega
  | conclude hbody hending hnotice | bodyless hbody hnotice =>
    obtain rfl := Option.some.inj hc
    obtain rfl := Option.some.inj hc'
    simp [Strand.completions, Chore.completes, Note.quiet, Cell.close, hnotice.spec.2]
  | force =>
    obtain rfl := Option.some.inj hc'
    cases hforced
  | @abandoned c cs p es st last =>
    obtain rfl := Option.some.inj hc
    obtain rfl := Option.some.inj hc'
    cases last <;> simp [Strand.completions, Chore.completes, Note.signal, Note.part]
    omega
  | _ =>
    obtain rfl := Option.some.inj hc
    obtain rfl := Option.some.inj hc'
    simp [Strand.completions, Chore.completes, Note.quiet, Note.offer, Note.part, Cell.offer]

theorem Strand.completions_le {c : Cell B V} {s : Strand B V} :
    s.completions c ≤ s.signals + if c.settlement.claimed = true then 1 else 0 := by
  have hle : (s.chores.map Chore.completes).sum ≤ (s.chores.map Chore.signals).sum :=
    List.sum_le_sum fun chore _ => by cases chore <;> simp [Chore.completes, Chore.signals]
  simp only [Strand.completions, Strand.signals, Strand.weigh]
  omega

/-- Whose partitions are all handed in and whose errands are over has no completion to come. -/
theorem Strand.le_completions {c : Cell B V} {s : Strand B V} (hchores : (s.chores.map Chore.parts).sum = 0)
    (herrands : s.errands = 0) : s.signals + (if c.settlement.claimed = true then 1 else 0) ≤ s.completions c := by
  have hle : (s.chores.map Chore.signals).sum ≤ (s.chores.map fun chore => chore.completes + chore.parts).sum :=
    List.sum_le_sum fun chore _ => by
      cases chore with
      | abandon id left last => cases last <;> simp [Chore.completes, Chore.signals, Chore.parts]
      | _ => simp [Chore.completes, Chore.signals, Chore.parts]
  rw [List.sum_map_add, hchores] at hle
  simp only [Strand.completions, Strand.signals, Strand.weigh, herrands, Multiset.map_zero, Multiset.sum_zero]
  omega

section

variable {c : Cell B V} {s : Strand B V}

/-- **A task that no shutdown forces has one completion at most.** -/
theorem Strand.Sound.completions_le_one (h : s.Sound) (hc : s.cell = some c) (hforced : c.forced = false) :
    s.completions c ≤ 1 := by
  have hle := s.completions_le (c := c)
  rw [(h.tokens c hc hforced).signals] at hle
  exact hle.trans (by split <;> omega)

theorem Strand.Sound.work_eq_zero (h : s.Sound) (hc : s.cell = some c) (hforced : c.forced = false)
    (hsome : s.completions c ≠ 0) : s.work = 0 := by
  have hsignals := (h.tokens c hc hforced).signals
  have hle := s.completions_le (c := c)
  by_contra hwork
  rw [if_neg hwork] at hsignals
  omega

/-- **A task on partitions has its completion once all of them are handed in and over.** -/
theorem Strand.Sound.completions_eq_one (h : s.Sound) (hc : s.cell = some c) (hforced : c.forced = false)
    (hfanout : c.fanout ≠ none) (hchores : ∀ chore ∈ s.chores, chore.parts = 0) (herrands : s.errands = 0) :
    s.completions c = 1 := by
  have hparts : (s.chores.map Chore.parts).sum = 0 := List.sum_eq_zero fun x hx => by
    obtain ⟨chore, hchore, rfl⟩ := List.mem_map.1 hx
    exact hchores chore hchore
  have hsignals := (h.tokens c hc hforced).signals
  rw [if_pos ((h.kinds c hc).work_eq_zero hfanout hparts herrands)] at hsignals
  have hle := h.completions_le_one hc hforced
  have hge := s.le_completions (c := c) hparts herrands
  omega

theorem Strand.Sound.active_eq_zero (h : s.Sound) (hc : s.cell = some c)
    (hsome : c.forced = false → s.completions c ≠ 0) : s.active = 0 := by
  cases hforced : c.forced with
  | false =>
    have hle := s.active_le_work
    rw [h.work_eq_zero hc hforced (hsome hforced)] at hle
    exact Nat.le_zero.1 hle
  | true =>
    refine h.active c hc fun hrunning => ?_
    rcases ((h.staged c hc).forced hforced).1 with hstage | hstage <;> rw [hrunning] at hstage <;> cases hstage

end

theorem Strand.Step.forced {n : Note} {s s' : Strand B V} (h : Strand.Step bh id n s s') {c c' : Cell B V}
    (hc : s.cell = some c) (hc' : s'.cell = some c') (hforced : c'.forced = false) : c.forced = false := by
  cases h with
  | reject | letIn | spread => cases hc
  | turn es hturn =>
    obtain rfl := Option.some.inj hc
    obtain rfl := Option.some.inj hc'
    exact hturn.keeps.1 ▸ hforced
  | receive =>
    obtain rfl := Option.some.inj (hc.symm.trans hc')
    exact hforced
  | force =>
    obtain rfl := Option.some.inj hc'
    cases hforced
  | _ =>
    obtain rfl := Option.some.inj hc
    obtain rfl := Option.some.inj hc'
    exact hforced

/-! ## Runs -/

/-- **Throughout a run the items are kept track of, and the notes signal the completions** of a task that no shutdown
forces. -/
theorem Strand.Run.spread {k partitions : Nat} {ns : List Note} {s₀ s : Strand B V} (h : Strand.Run bh id s₀ ns s)
    (hs : s₀.Sound) {c₀ : Cell B V} {f₀ : Fanout} (hc₀ : s₀.cell = some c₀) (hspread₀ : Spread k partitions c₀ s₀ f₀)
    (hnone : s₀.completions c₀ = 0) :
    ∃ c f, s.cell = some c ∧ Spread k partitions c s f ∧
      (c.forced = false → s.completions c = ns.countP Note.signals) := by
  induction h with
  | refl => exact ⟨c₀, f₀, hc₀, hspread₀, fun _ => hnone⟩
  | @snoc ns n s s' hrun hlead ih =>
    obtain ⟨c, f, hc, hspread, hcount⟩ := ih
    rw [List.countP_append]
    rcases hlead with ⟨rfl, rfl⟩ | hstep
    · exact ⟨c, f, hc, hspread, hcount⟩
    · have hsound := hrun.sound hs
      obtain ⟨c', f', hc', hspread'⟩ := hstep.spread_items hsound hc hspread
      refine ⟨c', f', hc', hspread', fun hforced => ?_⟩
      rw [hstep.completions hsound hc hc' (by simp [hspread.fanout]) hforced, hcount (hstep.forced hc hc' hforced),
        List.countP_singleton]

/-- **Once no work is left of a task that nothing stops, every item was passed on.** -/
theorem Spread.perm {k partitions : Nat} {c : Cell B V} {s : Strand B V} {f : Fanout} (h : Spread k partitions c s f)
    (hwork : s.work = 0) (hfault : c.fault = none) (hforced : c.forced = false) :
    (s.story.filterMap Event.item?).Perm (List.range k) := by
  have hend : k ≤ f.cursor.next := by
    by_contra hnext
    exact (h.left hfault hforced (Nat.not_le.1 hnext)).2 hwork
  have hheld : (s.errands.map Errand.held).sum = 0 := Multiset.sum_eq_zero fun x hx => by
    obtain ⟨e, he, rfl⟩ := Multiset.mem_map.1 hx
    exact Errand.held_eq_zero (Strand.work_of_mem hwork he)
  have hdrawn := h.drawn
  rw [Strand.items, hheld, add_zero, Nat.min_eq_right hend] at hdrawn
  exact Multiset.coe_eq_coe.1 hdrawn

/-- How a task of so many items on so many partitions is served, from the notes of its run. -/
structure Served (n partitions : Nat) (c : Cell B V) (s : Strand B V) (notes : List Note) : Prop where
  /-- The cursor stays in the range of a machine word if the count of the items and of the partitions does. -/
  cursor : ∃ f, c.fanout = some f ∧ f.cursor.length = n ∧ f.cursor.next ≤ n + partitions
  below : ∀ item ∈ s.story.filterMap Event.item?, item < n
  once : (s.story.filterMap Event.item?).Nodup
  /-- The moves for the partitions come to an end. -/
  ends : notes.countP Note.moves ≤ 6 * n + 8 * partitions + 1
  /-- At most one completion is run or posted, and one is when the partitions are over. -/
  atMostOne : c.forced = false → notes.countP Note.signals ≤ 1
  one : c.forced = false → (∀ chore ∈ s.chores, chore.parts = 0) → s.errands = 0 → notes.countP Note.signals = 1
  /-- Once a completion is run or posted, every call that began has returned. -/
  returned : notes.countP Note.signals ≠ 0 → ∀ e ∈ s.errands, e.active = 0
  all : c.forced = false → c.fault = none → notes.countP Note.signals ≠ 0 →
    (s.story.filterMap Event.item?).Perm (List.range n)

theorem Spread.served {k partitions : Nat} {c : Cell B V} {s : Strand B V} {f : Fanout} {notes : List Note}
    (h : Spread k partitions c s f) (hs : s.Sound) (hc : s.cell = some c)
    (hcount : c.forced = false → s.completions c = notes.countP Note.signals)
    (hmoves : notes.countP Note.moves ≤ 6 * k + 8 * partitions + 1) : Served k partitions c s notes := by
  have hpassed : ↑(s.story.filterMap Event.item?) ≤ Multiset.range (min f.cursor.next k) := by
    rw [← h.drawn]
    exact Multiset.le_add_right _ _
  refine ⟨⟨f, h.fanout, h.length, ?_⟩, fun item hitem => ?_, ?_, hmoves, fun hforced => ?_,
    fun hforced hchores herrands => ?_, fun hsome e he => ?_, fun hforced hfault hsome => ?_⟩
  · have hroom := h.room
    omega
  · have hlt := Multiset.mem_range.1 (Multiset.mem_of_le hpassed (Multiset.mem_coe.2 hitem))
    omega
  · exact Multiset.coe_nodup.1 (Multiset.nodup_of_le hpassed (Multiset.nodup_range _))
  · rw [← hcount hforced]
    exact hs.completions_le_one hc hforced
  · rw [← hcount hforced]
    exact hs.completions_eq_one hc hforced (by simp [h.fanout]) hchores herrands
  · exact Strand.active_eq_zero (hs.active_eq_zero hc fun hforced => hcount hforced ▸ hsome) he
  · exact h.perm (hs.work_eq_zero hc hforced (hcount hforced ▸ hsome)) hfault hforced

namespace Dispatcher

variable {d₀ d₁ d : Dispatcher W B V}

/-- **A task that is spread over partitions passes each item on at most once, and completes once.**  Take any run up to
the call that takes the task in and plans its partitions, and any run behind that: whichever partitions the crew refuses,
however the partitions take turns with each other, with the caller and with all other tasks. -/
theorem items_of_run (hbh : bh.Returns) {world : W} {s : Settings} {processors : Nat} {admission : Admission}
    {checkpoints : Bool} (hstart : start world s processors admission checkpoints = .ok d₀) {as₁ : List (Act W B V)}
    (has₁ : ∀ a ∈ as₁, a.returns = true) (hrun₁ : d₀.run? bh as₁ = some d₁) {b : B} {sink : Sink}
    (hsink : sink ≠ .callback true) {n partitions : Nat}
    (hplan : ((d₁.spawn bh b sink).cells[d₁.cells.length]?).bind Cell.fanout = some (.start n partitions))
    {as₂ : List (Act W B V)} (has₂ : ∀ a ∈ as₂, a.returns = true) (hrun₂ : (d₁.spawn bh b sink).run? bh as₂ = some d) :
    ∃ c, d.cells[d₁.cells.length]? = some c ∧
      Served n partitions c (d.strand d₁.cells.length) ((d₁.spawn bh b sink).notes bh d₁.cells.length as₂) ∧
      (∀ (i : Nat) (phase : PartPhase), d.crew.running? i = some (.part d₁.cells.length phase) →
        (∀ item b, phase = .calling item → c.body = some b → bh.ready d.world b item = true) →
        d.act? bh (.move (.worker i)) ≠ none) ∧
      ∀ (chore : Chore) (rest : List Chore), d.agenda = chore :: rest → chore.parts ≠ 0 →
        d.act? bh (.move .caller) ≠ none := by
  obtain ⟨hheld₀, -⟩ := start_spec hstart
  obtain ⟨hheld₁, -⟩ := weave_run hbh hheld₀ has₁ hrun₁
  have hnone : (d₁.strand d₁.cells.length).cell = none := List.getElem?_eq_none (Nat.le_refl _)
  have hstep : Strand.Step bh d₁.cells.length (d₁.note bh d₁.cells.length (.spawn b sink))
      (d₁.strand d₁.cells.length) ((d₁.spawn bh b sink).strand d₁.cells.length) := by
    refine (leads_spawn b hsink _).resolve_left fun hquiet => ?_
    have hcell : (d₁.spawn bh b sink).cells[d₁.cells.length]? = none := (congrArg Strand.cell hquiet.2).trans hnone
    rw [hcell] at hplan
    cases hplan
  obtain ⟨hheld, -⟩ := weave hbh hheld₁ (a := .spawn b sink) (decide_eq_true hsink) rfl
  obtain ⟨-, -, hruns⟩ := weave_run hbh hheld has₂ hrun₂
  have hsound := hstep.sound (Strand.sound_of_none (hheld₁.rooted _) hnone)
  obtain ⟨c₀, hc₀, hspread₀, hopen, heffort⟩ := hstep.spread_start (hheld₁.rooted _) hnone hplan
  obtain ⟨c, f, hc, hspread, hcount⟩ := (hruns _).spread hsound hc₀ hspread₀ hopen
  have hmoves : ((d₁.spawn bh b sink).notes bh d₁.cells.length as₂).countP Note.moves ≤ 6 * n + 8 * partitions + 1 := by
    obtain ⟨c', -, hle⟩ := (hruns _).effort hc₀
    omega
  refine ⟨c, hc, hspread.served ((hruns _).sound hsound) hc hcount hmoves, fun i phase hrun hready => ?_,
    fun chore rest hagenda hparts => ?_⟩
  · exact act?_worker_ne_none hrun hc hready
  · exact act?_caller_ne_none hagenda hparts

def duet : Rehearsal := .ofChorus ⟨2, none, false, 0, []⟩

/-- Two workers sing a duet by turns. -/
def duetActs : List (Act World Rehearsal Recital) :=
  List.replicate 3 (.move .caller) ++ (List.replicate 16 [.move (.worker 0), .move (.worker 1)]).flatten ++
    [.move (.worker 1)]

theorem duetActs_returns : ∀ a ∈ duetActs, a.returns = true := by
  simp [duetActs, Act.returns, or_imp, forall_and]

theorem items_of_run_duet : ∃ d₀ d c, rehearsalRoom = .ok d₀ ∧ (∀ a ∈ duetActs, a.returns = true) ∧
    ((d₀.spawn Rehearsal.behaviour duet .promise).cells[d₀.cells.length]?).bind Cell.fanout = some (.start 2 2) ∧
    (d₀.spawn Rehearsal.behaviour duet .promise).run? Rehearsal.behaviour duetActs = some d ∧
    d.cells[d₀.cells.length]? = some c ∧ c.forced = false ∧ c.fault = none ∧
    Served 2 2 c (d.strand d₀.cells.length)
      ((d₀.spawn Rehearsal.behaviour duet .promise).notes Rehearsal.behaviour d₀.cells.length duetActs) ∧
    ((d.strand d₀.cells.length).story.filterMap Event.item?).Perm (List.range 2) := by
  have hends : (rehearsalRoom.toOption.bind fun d₀ =>
      ((d₀.spawn Rehearsal.behaviour duet .promise).run? Rehearsal.behaviour duetActs).bind fun d =>
        (d.cells[d₀.cells.length]?).map fun c => (c.forced, c.fault,
          ((d₀.spawn Rehearsal.behaviour duet .promise).cells[d₀.cells.length]?).bind Cell.fanout,
          ((d₀.spawn Rehearsal.behaviour duet .promise).notes Rehearsal.behaviour d₀.cells.length duetActs).countP
            Note.signals)) = some (false, none, some (.start 2 2), 1) := by decide +kernel
  obtain ⟨d₀, hroom, hends⟩ := Option.bind_eq_some_iff.1 hends
  obtain ⟨d, hrun, hends⟩ := Option.bind_eq_some_iff.1 hends
  obtain ⟨c, hc, hends⟩ := Option.map_eq_some_iff.1 hends
  obtain ⟨hforced, hends⟩ := Prod.mk.inj hends
  obtain ⟨hfault, hends⟩ := Prod.mk.inj hends
  obtain ⟨hplan, hsignals⟩ := Prod.mk.inj hends
  have hstart := eq_ok_of_toOption hroom
  have hbefore : ∀ a ∈ ([] : List (Act World Rehearsal Recital)), a.returns = true := by simp
  obtain ⟨c', hc', hserved, -⟩ := items_of_run rehearsal_returns hstart hbefore rfl (by simp) hplan duetActs_returns hrun
  obtain rfl := Option.some.inj (hc.symm.trans hc')
  exact ⟨d₀, d, c, hstart, duetActs_returns, hplan, hrun, hc, hforced, hfault, hserved,
    hserved.all hforced hfault (by rw [hsignals]; decide)⟩

end Dispatcher
end BitmapWorks
