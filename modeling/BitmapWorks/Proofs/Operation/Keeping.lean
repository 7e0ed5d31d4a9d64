import BitmapWorks.Proofs.Operation.Apart
/-!
# Keeping — what a task has until it is settled

A task has its body until that is used up, and then perhaps an outcome that waits in its promise.  If each call of the
work leaves a body that fits, and who uses it up gets a right outcome, then every deed of the task leaves what it should
(`Keeps.deed`), other tasks leave it alone (`Does.keeps`), and whatever the task is settled with in a run was right when
it was handed over (`handed_of_run`).
-/
namespace BitmapWorks

/-- Whether the body of a task fits a shelf, and an outcome that waits in its promise is right there. -/
structure Keeps (fits : Shelf → Operation → Prop) (right : Shelf → Except Fault Product → Prop) (s : Shelf)
    (h : Holding Operation Product) : Prop where
  body : ∀ b, h.body = some b → fits s b
  waiting : ∀ outcome, h.promise.waiting = some outcome → right s outcome
  /-- No outcome waits while the body is there. -/
  quiet : h.body ≠ none → h.promise.waiting = none

namespace Keeps

variable {fits : Shelf → Operation → Prop} {right : Shelf → Except Fault Product → Prop}
variable {c : Cell Operation Product} {w w' : World} {stopping : Bool} {hd : Holding Operation Product}
variable {told : Option (Except Fault Product)}

theorem of_used {s : Shelf} {p : Promise (Except Fault Product)}
    (hwaiting : ∀ outcome, p.waiting = some outcome → right s outcome) : Keeps fits right s ⟨none, p⟩ :=
  ⟨(fun _ hb => nomatch hb), hwaiting, fun h => absurd rfl h⟩

/-- What a task has stays as it should be as long as the bitmaps that the task has made stay as they are. -/
theorem congr {s s' : Shelf} {h : Holding Operation Product} (hkeeps : Keeps fits right s h)
    (hfits : ∀ b, (∀ n ∈ b.made, s'.get? n = s.get? n) → fits s b → fits s' b)
    (hright : ∀ outcome, (∀ n ∈ Product.namesOf outcome, s'.get? n = s.get? n) → right s outcome → right s' outcome)
    (hsame : ∀ n ∈ h.made, s'.get? n = s.get? n) : Keeps fits right s' h := by
  refine ⟨fun b hb => ?_, fun outcome hwaiting => ?_, hkeeps.quiet⟩
  · exact hfits b (fun n hn => hsame n (Holding.mem_made.2 (.inl ⟨b, hb, hn⟩))) (hkeeps.body b hb)
  · refine hright outcome (fun n hn => hsame n (Holding.mem_made.2 (.inr ?_))) (hkeeps.waiting outcome hwaiting)
    rw [Promise.names, hwaiting]
    exact hn

/-- **Every deed of a task leaves what it should**, and what the task is settled with is right.  It is settled when its
body is used up, unless a shutdown has begun. -/
theorem deed (hkeeps : Keeps fits right w.shelf c.holding)
    (hwork : ∀ b item, c.body = some b → fits w.shelf b →
      fits (Operation.work w b item).world.shelf (Operation.work w b item).body)
    (hcloses : ∀ b outcome w', c.body = some b → c.settlement.claimed = true →
      Closes Operation.behaviour c.fault w b outcome w' → right w.shelf outcome ∧ right w'.shelf outcome)
    (hdeed : Deed Operation.behaviour stopping c w w' hd told) :
    Keeps fits right w'.shelf hd ∧
    (∀ outcome, told = some outcome → right w.shelf outcome ∧
      (c.settlement.promise.dropped = false → right w'.shelf outcome)) ∧
    (c.body ≠ none → hd.body = none → stopping = false → told ≠ none) := by
  cases hdeed with
  | @work b item hbody =>
    have hquiet : c.settlement.promise.waiting = none := hkeeps.quiet (by simp [Cell.holding, hbody])
    refine ⟨⟨fun b' hb' => ?_, fun outcome hwaiting => ?_, fun _ => hquiet⟩, fun _ heq => (by cases heq),
      fun _ hnone => by cases hnone⟩
    · obtain rfl := Option.some.inj hb'
      exact hwork b item hbody (hkeeps.body b hbody)
    · cases hquiet.symm.trans hwaiting
  | @conclude b outcome w₁ w₂ p told hbody hclaimed hends hsettles =>
    have hquiet : c.settlement.promise.waiting = none := hkeeps.quiet (by simp [Cell.holding, hbody])
    obtain ⟨hbefore, hafter⟩ := hcloses b outcome w₁ hbody hclaimed hends
    have hnone : ∀ (s : Shelf) (p : Promise (Except Fault Product)), p.waiting = none → Keeps fits right s ⟨none, p⟩ :=
      fun s p hp => .of_used fun outcome hwaiting => by cases hp.symm.trans hwaiting
    cases hsettles with
    | kept =>
      refine ⟨.of_used fun outcome' hwaiting => ?_, fun outcome' heq => ?_, fun _ _ _ heq => by cases heq⟩
      · obtain rfl := Option.some.inj hwaiting
        exact hafter
      · obtain rfl := Option.some.inj heq
        exact ⟨hbefore, fun _ => hafter⟩
    | called =>
      refine ⟨hnone _ _ hquiet, fun outcome' heq => ?_, fun _ _ _ heq => by cases heq⟩
      obtain rfl := Option.some.inj heq
      exact ⟨hbefore, fun _ => hafter⟩
    | lost hdropped =>
      refine ⟨hnone _ _ hquiet, fun outcome' heq => ?_, fun _ _ _ heq => by cases heq⟩
      obtain rfl := Option.some.inj heq
      refine ⟨hbefore, fun hkept => ?_⟩
      rw [hdropped] at hkept
      cases hkept
    | discarded hstopping hp =>
      refine ⟨hnone _ _ ?_, fun _ heq => (by cases heq), fun _ _ hopen => ?_⟩
      · rcases hp with rfl | rfl
        · exact hquiet
        · rfl
      · rw [hopen] at hstopping
        cases hstopping
  | ask hp =>
    refine ⟨⟨hkeeps.body, fun outcome hwaiting => ?_, fun hbody => ?_⟩, fun _ heq => (by cases heq),
      fun hbody hnone _ => absurd hnone hbody⟩
    · rcases hp with hp | hp
      · exact hkeeps.waiting outcome (hp.symm.trans hwaiting)
      · cases hp.symm.trans hwaiting
    · rcases hp with hp | hp
      · exact hp.trans (hkeeps.quiet hbody)
      · exact hp
  | forget =>
    refine ⟨⟨fun b hbody => ?_, fun _ heq => (by cases heq), fun _ => rfl⟩, fun _ heq => (by cases heq),
      fun hbody hnone _ => absurd hnone hbody⟩
    -- nothing waits beside a body, so nothing is dropped here
    have hbody' : c.body = some b := hbody
    have hquiet : c.settlement.promise.waiting = none := hkeeps.quiet (by simp [Cell.holding, hbody'])
    rw [hquiet]
    exact hkeeps.body b hbody

end Keeps

namespace Dispatcher

variable {d d' : Dispatcher World Operation Product} {a : Act World Operation Product} {id : Nat}
variable {c c' : Cell Operation Product}

/-- **What a task has and is settled with, from one act to the next**: others leave its bitmaps alone, and for the deeds
of the task itself the hypothesis tells. -/
theorem Does.keeps (h : Does Operation.behaviour d d' a) (hapart : d.Apart) (hdiscreet : d.Discreet a)
    (hc : d.cells[id]? = some c) (hc' : d'.cells[id]? = some c') {keeps : Shelf → Holding Operation Product → Prop}
    {right : Shelf → Except Fault Product → Prop}
    (hcongr : (∀ n ∈ c.holding.made, d'.world.shelf.get? n = d.world.shelf.get? n) → keeps d'.world.shelf c.holding)
    (hdeed : ∀ hd told, Deed Operation.behaviour d.admission.gate.stopping c d.world d'.world hd told →
      keeps d'.world.shelf hd ∧
      (∀ outcome, told = some outcome → right d.world.shelf outcome ∧
        (c.settlement.promise.dropped = false → right d'.world.shelf outcome)) ∧
      (c.body ≠ none → hd.body = none → d.admission.gate.stopping = false → told ≠ none)) :
    keeps d'.world.shelf c'.holding ∧
    ((a = .move .caller → d.admission.gate.stopping = false) →
      (c.body = none → ∃ outcome, (id, outcome) ∈ d.outcomes) →
      c'.body = none → ∃ outcome, (id, outcome) ∈ d'.outcomes) ∧
    ∀ outcome, (id, outcome) ∈ d'.outcomes → (id, outcome) ∈ d.outcomes ∨
      (right d.world.shelf outcome ∧ (c.settlement.promise.dropped = false → right d'.world.shelf outcome)) := by
  have hafter : d'.holding id = some c'.holding := holding_of_cells hc' rfl
  rcases h.at hapart hdiscreet hc with ⟨hsame, hshelf, hnew⟩ | ⟨hd, told, hdone, hmover, hholding, houtcomes⟩
  · have heq : c'.holding = c.holding := Option.some.inj (hafter.symm.trans hsame)
    refine ⟨heq ▸ hcongr hshelf, fun _ hsettled hbody => ?_, fun outcome hmem => .inl ((hnew outcome).1 hmem)⟩
    obtain ⟨outcome, hmem⟩ := hsettled ((congrArg Holding.body heq).symm.trans hbody)
    exact ⟨outcome, (hnew outcome).2 hmem⟩
  · obtain rfl : c'.holding = hd := Option.some.inj (hafter.symm.trans hholding)
    obtain ⟨hkeeps, htold, hends⟩ := hdeed _ told hdone
    refine ⟨hkeeps, fun hopen hsettled hbody => ?_, fun outcome hmem => ?_⟩
    · rw [houtcomes]
      by_cases hbefore : c.body = none
      · obtain ⟨outcome, hmem⟩ := hsettled hbefore
        exact ⟨outcome, List.mem_append_right _ hmem⟩
      · obtain ⟨outcome, rfl⟩ :=
          Option.ne_none_iff_exists'.1 (hends hbefore hbody (hopen (hmover hbefore hbody)))
        exact ⟨outcome, List.mem_append_left _ (List.mem_singleton_self _)⟩
    · rw [houtcomes] at hmem
      rcases List.mem_append.1 hmem with hmem | hmem
      · obtain ⟨outcome', htold', heq⟩ := Option.map_eq_some_iff.1 (Option.mem_toList.1 hmem)
        cases heq
        exact .inr (htold _ htold')
      · exact .inl hmem

/-- What happens where a task is settled with an outcome: the outcome is right, and stays so while the caller gets it,
unless its promise was dropped. -/
structure Presented (right : Shelf → Except Fault Product → Prop) (id : Nat) (d d' : Dispatcher World Operation Product)
    (outcome : Except Fault Product) : Prop where
  before : .settled id outcome ∉ d.history
  settled : .settled id outcome ∈ d'.history
  delivered : right d.world.shelf outcome
  kept : ∀ c, d.cells[id]? = some c → c.settlement.promise.dropped = false → right d'.world.shelf outcome

/-- **In a run each outcome that a task is settled with is handed over by one act.**  If the acts of the run preserve how
the task stands, and each of them settles the task with right outcomes only, then all new outcomes were right where they
were handed over. -/
theorem handed_of_run {right : Shelf → Except Fault Product → Prop}
    {stands : Dispatcher World Operation Product → Cell Operation Product → Prop}
    {allowed : Dispatcher World Operation Product → Act World Operation Product → Prop}
    (hcell : ∀ {d c}, stands d c → d.cells[id]? = some c)
    (hact : ∀ {d c d' a}, stands d c → allowed d a → d.act? Operation.behaviour a = some d' → ∃ c', stands d' c' ∧
      ∀ outcome, (id, outcome) ∈ d'.outcomes → (id, outcome) ∈ d.outcomes ∨
        (right d.world.shelf outcome ∧ (c.settlement.promise.dropped = false → right d'.world.shelf outcome)))
    {as : List (Act World Operation Product)} (h : stands d c) (hallowed : Along Operation.behaviour allowed d as)
    (hrun : d.run? Operation.behaviour as = some d') :
    (∃ c', stands d' c') ∧ ∀ outcome, .settled id outcome ∈ d'.history → .settled id outcome ∈ d.history ∨
      ∃ before a after d₁ d₂, as = before ++ a :: after ∧ d.run? Operation.behaviour before = some d₁ ∧
        d₁.act? Operation.behaviour a = some d₂ ∧ Presented right id d₁ d₂ outcome := by
  induction as generalizing d c with
  | nil =>
    obtain rfl := Option.some.inj hrun
    exact ⟨⟨c, h⟩, fun outcome hmem => .inl hmem⟩
  | cons a as ih =>
    obtain ⟨d₁, hfirst, hrest⟩ := Option.bind_eq_some_iff.1 hrun
    obtain ⟨hallowed₁, hallowed₂⟩ := hallowed
    rw [hfirst] at hallowed₂
    obtain ⟨c₁, h₁, hhanded⟩ := hact h hallowed₁ hfirst
    obtain ⟨hends, houtcomes⟩ := ih h₁ hallowed₂ hrest
    refine ⟨hends, fun outcome hmem => ?_⟩
    rcases houtcomes outcome hmem with hmem | ⟨before, a', after, d₂, d₃, rfl, hbefore, hact', hpresented⟩
    · by_cases hold : .settled id outcome ∈ d.history
      · exact .inl hold
      · obtain ⟨hright, hkept⟩ :=
          (hhanded outcome (mem_outcomes.2 hmem)).resolve_left fun h => hold (mem_outcomes.1 h)
        refine .inr ⟨[], a, as, d, d₁, rfl, rfl, hfirst, hold, hmem, hright, fun c' hc' => ?_⟩
        obtain rfl := Option.some.inj ((hcell h).symm.trans hc')
        exact hkept
    · refine .inr ⟨a :: before, a', after, d₂, d₃, rfl, ?_, hact', hpresented⟩
      rw [run?, hfirst]
      exact hbefore

end Dispatcher
end BitmapWorks
