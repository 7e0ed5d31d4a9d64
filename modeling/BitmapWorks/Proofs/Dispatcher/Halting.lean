import BitmapWorks.Proofs.Dispatcher.Items
/-!
# Halting — the calls that start behind a fault

A partition looks whether its task has a fault before it draws an item, and not again before it calls.  So behind the
first fault only partitions that have looked in front of it still call, each of them once (`Strand.Run.calls_of_fault`).
The partition whose call left the fault is not one of them, and neither is one that the crew refused, and a shutdown
forces no task that has been taken up (`Strand.Run.halts`).
-/
namespace BitmapWorks

variable {W B V : Type} {bh : Behaviour W B V} {id : Nat}

/-- Whether a partition has looked whether to stop, and the call that it looked for has not started. -/
def Errand.armed : Errand → Nat
  | part _ .load | part _ .fetch | part _ (.call _) => 1
  | _ => 0

theorem Errand.armed_le_draws (e : Errand) : e.armed ≤ e.draws := by
  cases e with
  | single id phase => exact Nat.zero_le _
  | part id phase => cases phase <;> simp [armed, draws]

theorem Errand.armed_le_active (e : Errand) : e.armed ≤ e.active := by
  cases e with
  | single id phase => exact Nat.zero_le _
  | part id phase => cases phase <;> simp [armed, active]

namespace Strand

def armed (s : Strand B V) : Nat := (s.errands.map Errand.armed).sum

def calls (s : Strand B V) : List Nat := (s.story.filterMap Event.item?).reverse

theorem armed_le_active (s : Strand B V) : s.armed ≤ s.active :=
  Nat.le_add_left_of_le (Multiset.sum_map_le_sum_map _ _ fun e _ => e.armed_le_active)

theorem sum_armed_le (es : Multiset Errand) : (es.map Errand.armed).sum ≤ (es.map Errand.draws).sum :=
  Multiset.sum_map_le_sum_map _ _ fun e _ => e.armed_le_draws

end Strand

/-! ## Turns -/

/-- **What a turn does to the armed**: one of them calls and is armed no more; or nobody calls, and a partition gets armed
only if there is no fault. -/
theorem Turn.armed {n : Note} {c c' : Cell B V} {e : Errand} {next : Multiset Errand} {posted : Nat}
    {events : List (Event V)} (h : Turn bh id n c e c' next posted events) (hpart : e.isSingle = 0) :
    (∃ item, events = [.called id item] ∧ (next.map Errand.armed).sum + 1 = e.armed) ∨
    (events = [] ∧ (c.fault ≠ none → (next.map Errand.armed).sum ≤ e.armed)) := by
  cases h with
  | takeUp | tooLate | call | bodyless | «return» | record | post => cases hpart
  | partCall => exact .inl ⟨_, rfl, by simp [Errand.armed]⟩
  | look hstop =>
    refine .inr ⟨rfl, fun hfault => ?_⟩
    rw [Cell.shouldStop, Option.isSome_iff_ne_none.2 hfault] at hstop
    cases hstop
  | _ => exact .inr ⟨rfl, fun _ => by simp [Errand.armed]⟩

/-- Whoever records a fault is a partition that works, and is not armed behind it. -/
theorem Turn.records {n : Note} {c c' : Cell B V} {e : Errand} {next : Multiset Errand} {posted : Nat}
    {events : List (Event V)} (h : Turn bh id n c e c' next posted events) (hpart : e.isSingle = 0) :
    c'.fault = c.fault ∨ (e.draws = 1 ∧ (next.map Errand.armed).sum = 0) := by
  cases h with
  | takeUp | tooLate | call | bodyless | «return» | record | post => cases hpart
  | partReturn | partRecord => exact .inr ⟨rfl, by simp [Errand.armed]⟩
  | _ => exact .inl rfl

/-! ## Steps -/

/-- **With a fault there are always fewer armed partitions than partitions.** -/
theorem Strand.Step.armed_le {k partitions : Nat} {n : Note} {s s' : Strand B V} (h : Strand.Step bh id n s s')
    (hs : s.Sound) {c c' : Cell B V} {f : Fanout} (hc : s.cell = some c) (hc' : s'.cell = some c')
    (hspread : Spread k partitions c s f) (harmed : c.fault ≠ none → s.armed ≤ partitions - 1) :
    c'.fault ≠ none → s'.armed ≤ partitions - 1 := by
  intro hfault
  cases h with
  | reject | letIn | spread => cases hc
  | @turn n c e c' next posted events cs p st es hturn =>
    obtain rfl := Option.some.inj hc
    obtain rfl := Option.some.inj hc'
    have hpart := (hs.kinds _ rfl).isSingle_eq_zero (by simp [hspread.fanout])
    simp only [Strand.armed, Multiset.map_cons, Multiset.sum_cons] at harmed
    simp only [Strand.armed, Multiset.map_add, Multiset.sum_add]
    by_cases hbefore : c.fault = none
    · -- the fault is new, so this partition draws nothing more, and the others are no more than all but one
      obtain ⟨hdraws, hnext⟩ := (hturn.records hpart).resolve_left fun hsame => hfault (hsame.trans hbefore)
      have hroom := hspread.room
      simp only [Strand.draws, Strand.weigh, Multiset.map_cons, Multiset.sum_cons] at hroom
      have hle := Strand.sum_armed_le es
      omega
    · have hle := harmed hbefore
      rcases hturn.armed hpart with ⟨item, -, hcall⟩ | ⟨-, hquiet⟩
      · omega
      · have hnext := hquiet hbefore
        omega
  | receive =>
    obtain rfl := Option.some.inj (hc.symm.trans hc')
    exact harmed hfault
  | submit | refuse =>
    obtain rfl := Option.some.inj hc
    have hzero := (hs.kinds _ rfl).parts (by simp [hspread.fanout])
    simp [Strand.weigh, Chore.single] at hzero
  | submitPart hnext =>
    obtain rfl := Option.some.inj hc
    obtain rfl := Option.some.inj hc'
    simpa [Strand.armed, Errand.armed] using harmed hfault
  | @refusePart c cs p es st next count fault hnext =>
    obtain rfl := Option.some.inj hc
    have hroom := hspread.room
    simp only [Strand.draws, Strand.weigh, List.map_cons, List.sum_cons, Chore.work] at hroom
    have hle := Strand.sum_armed_le es
    simp only [Strand.armed]
    omega
  | @force c cs p es st hqueued =>
    obtain rfl := Option.some.inj hc
    have hidle := hs.active _ rfl (by rw [hqueued]; decide)
    have hle := Strand.armed_le_active (⟨some c, cs, p, es, st⟩ : Strand B V)
    exact (hle.trans (Nat.le_of_eq hidle)).trans (Nat.zero_le _)
  | _ =>
    obtain rfl := Option.some.inj hc
    obtain rfl := Option.some.inj hc'
    exact harmed hfault

/-- **Behind a fault each call is one of an armed partition.** -/
theorem Strand.Step.calls_of_fault {n : Note} {s s' : Strand B V} (h : Strand.Step bh id n s s') (hs : s.Sound)
    {c : Cell B V} (hc : s.cell = some c) (hfanout : c.fanout ≠ none) (hfault : c.fault ≠ none) :
    ∃ later, s'.calls = s.calls ++ later ∧ later.length + s'.armed ≤ s.armed := by
  cases h with
  | reject | letIn | spread => cases hc
  | @turn n c e c' next posted events cs p st es hturn =>
    obtain rfl := Option.some.inj hc
    simp only [Strand.armed, Multiset.map_cons, Multiset.map_add, Multiset.sum_cons, Multiset.sum_add]
    rcases hturn.armed ((hs.kinds _ rfl).isSingle_eq_zero hfanout) with ⟨item, rfl, hcall⟩ | ⟨rfl, hquiet⟩
    · refine ⟨[item], List.reverse_cons, ?_⟩
      rw [List.length_singleton]
      omega
    · refine ⟨[], (List.append_nil _).symm, ?_⟩
      have hnext := hquiet hfault
      rw [List.length_nil]
      omega
  | submitPart =>
    refine ⟨[], (List.append_nil _).symm, ?_⟩
    simp [Strand.armed, Errand.armed]
  | submit =>
    refine ⟨[], (List.append_nil _).symm, ?_⟩
    simp [Strand.armed, Errand.armed]
  | conclude hbody hending hnotice =>
    refine ⟨[], ?_, Nat.le_of_eq (Nat.zero_add _)⟩
    cases hnotice <;> cases hending <;> exact (List.append_nil _).symm
  | bodyless hbody hnotice =>
    refine ⟨[], ?_, Nat.le_of_eq (Nat.zero_add _)⟩
    cases hnotice <;> exact (List.append_nil _).symm
  | _ => exact ⟨[], (List.append_nil _).symm, Nat.le_of_eq (Nat.zero_add _)⟩

/-! ## Runs -/

theorem Strand.Run.calls_of_fault {k partitions : Nat} {ns : List Note} {s₀ s : Strand B V}
    (h : Strand.Run bh id s₀ ns s) (hs : s₀.Sound) {c₀ : Cell B V} {f₀ : Fanout} (hc₀ : s₀.cell = some c₀)
    (hspread₀ : Spread k partitions c₀ s₀ f₀) (hfault₀ : c₀.fault ≠ none) :
    ∃ c f, s.cell = some c ∧ Spread k partitions c s f ∧ c.fault ≠ none ∧
      ∃ later, s.calls = s₀.calls ++ later ∧ later.length + s.armed ≤ s₀.armed := by
  induction h with
  | refl => exact ⟨c₀, f₀, hc₀, hspread₀, hfault₀, [], (List.append_nil _).symm, Nat.le_of_eq (Nat.zero_add _)⟩
  | @snoc ns n s s' hrun hlead ih =>
    obtain ⟨c, f, hc, hspread, hfault, later, hcalls, harmed⟩ := ih
    rcases hlead with ⟨-, rfl⟩ | hstep
    · exact ⟨c, f, hc, hspread, hfault, later, hcalls, harmed⟩
    · obtain ⟨c', f', hc', hspread'⟩ := hstep.spread_items (hrun.sound hs) hc hspread
      obtain ⟨more, hmore, hfewer⟩ := hstep.calls_of_fault (hrun.sound hs) hc (by simp [hspread.fanout]) hfault
      have hkept := hstep.fault
      rw [hc, hc', Option.bind_some, Option.bind_some, or_eq_self hfault] at hkept
      refine ⟨c', f', hc', hspread', by rwa [hkept], later ++ more, ?_, ?_⟩
      · rw [hmore, hcalls, List.append_assoc]
      · rw [List.length_append]
        omega

theorem Strand.Leads.halts {k partitions : Nat} {n : Note} {s s' : Strand B V} (h : Strand.Leads bh id n s s')
    (hs : s.Sound) {c : Cell B V} {f : Fanout} (hc : s.cell = some c) (hspread : Spread k partitions c s f)
    (harmed : c.fault ≠ none → s.armed ≤ partitions - 1) :
    ∃ c' f', s'.cell = some c' ∧ Spread k partitions c' s' f' ∧ (c'.fault ≠ none → s'.armed ≤ partitions - 1) := by
  rcases h with ⟨-, rfl⟩ | hstep
  · exact ⟨c, f, hc, hspread, harmed⟩
  · obtain ⟨c', f', hc', hspread'⟩ := hstep.spread_items hs hc hspread
    exact ⟨c', f', hc', hspread', hstep.armed_le hs hc hc' hspread harmed⟩

/-- **Throughout a run there are fewer armed partitions than partitions once there is a fault.** -/
theorem Strand.Run.halts {k partitions : Nat} {ns : List Note} {s₀ s : Strand B V} (h : Strand.Run bh id s₀ ns s)
    (hs : s₀.Sound) {c₀ : Cell B V} {f₀ : Fanout} (hc₀ : s₀.cell = some c₀) (hspread₀ : Spread k partitions c₀ s₀ f₀)
    (hnone : c₀.fault = none) :
    ∃ c f, s.cell = some c ∧ Spread k partitions c s f ∧ (c.fault ≠ none → s.armed ≤ partitions - 1) := by
  induction h with
  | refl => exact ⟨c₀, f₀, hc₀, hspread₀, fun hfault => absurd hnone hfault⟩
  | snoc hrun hlead ih =>
    obtain ⟨c, f, hc, hspread, harmed⟩ := ih
    exact hlead.halts (hrun.sound hs) hc hspread harmed

end BitmapWorks
