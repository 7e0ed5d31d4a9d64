import BitmapWorks.Proofs.Dispatcher.Tokens
/-!
# Story — what happens to a task, in order

A task is prepared, its calls start, its tally is flushed, it is cleaned up, its result is asked for if it has no fault,
and it is settled: its story is at all times the part of that order that its flags tell (`Tale`).  Its fault is the first
that was offered to it (`Strand.Step.fault`), and a task that the caller barred is never called (`Barred`).
-/
namespace BitmapWorks

variable {W B V : Type} {bh : Behaviour W B V} {id : Nat}

/-! ## Tales -/

/-- How the story of a task goes on behind its calls, the latest first. -/
inductive Told (id : Nat) (c : Cell B V) : List (Event V) → Prop
  | working : c.settlement.claimed = false → Told id c []
  | flushed (tally : Int) : c.settlement.claimed = true → c.stage ≠ .done → Told id c [.flushed id tally]
  | closed {outcome asked event} (tally : Int) : c.stage = .done → Ending id c outcome asked →
    event = .settled id outcome ∨ event = .discarded id →
    Told id c (event :: (asked ++ [.cleanedUp id, .flushed id tally]))

def Errand.toCome : Errand → Nat
  | single _ .takeUp | single _ .call => 1
  | _ => 0

def Strand.toCome : Strand B V → Nat := weigh Chore.single Errand.toCome

/-- The story of a task with such calls, and how it goes on behind them. -/
structure Tale (id : Nat) (c : Cell B V) (s : Strand B V) (calls : List Nat)
    (ending : List (Event V)) : Prop where
  story : s.story = ending ++ (calls.map (Event.called id) ++ [.prepared id])
  told : Told id c ending
  begun : c.stage = .rejected ∨ c.stage = .queued → calls = []
  once : c.fanout = none → calls.length + s.toCome ≤ 1

theorem Ending.congr {c c' : Cell B V} {outcome : Except Fault V} {asked : List (Event V)}
    (h : Ending id c outcome asked) (hfault : c'.fault = c.fault) : Ending id c' outcome asked := by
  cases h with
  | fault hc => exact .fault (hfault.trans hc)
  | result hc => exact .result (hfault.trans hc)

theorem Told.congr {c c' : Cell B V} {ending : List (Event V)} (h : Told id c ending)
    (hclaimed : c'.settlement.claimed = c.settlement.claimed) (hstage : c.settlement.claimed = true → c'.stage = c.stage)
    (hdone : c.stage = .done → c.settlement.claimed = true ∧ c'.fault = c.fault) : Told id c' ending := by
  cases h with
  | working hopen => exact .working (hclaimed.trans hopen)
  | flushed tally hwon hnot => exact .flushed tally (hclaimed.trans hwon) (by rw [hstage hwon]; exact hnot)
  | closed tally hstop hending hevent =>
    obtain ⟨hwon, hfault⟩ := hdone hstop
    exact .closed tally ((hstage hwon).trans hstop) (hending.congr hfault) hevent

/-- **Who has work left and is done has a fault**, since only a shutdown lets a task end in front of its work. -/
theorem Strand.Sound.fault_of_done {s : Strand B V} (h : s.Sound) {c : Cell B V} (hc : s.cell = some c)
    (hwork : s.work ≠ 0) (hdone : c.stage = .done) : c.fault ≠ none := by
  have hstaged := h.staged c hc
  cases hforced : c.forced with
  | true => exact (hstaged.forced hforced).2
  | false => exact absurd ((h.tokens c hc hforced).work_eq_zero (hstaged.done hdone)) hwork

theorem or_eq_self {fault offered : Option Fault} (h : fault ≠ none) : fault.or offered = fault := by
  cases fault with
  | none => exact absurd rfl h
  | some _ => rfl

/-- Offering a fault to a task that still has work leaves its story as it is. -/
theorem Told.offer {s : Strand B V} {c : Cell B V} {ending : List (Event V)} (h : Told id c ending) (hs : s.Sound)
    (hc : s.cell = some c) (hwork : s.work ≠ 0) (fault : Option Fault) : Told id (c.offer fault) ending :=
  h.congr rfl (fun _ => rfl) fun hdone =>
    ⟨(hs.staged c hc).done hdone, or_eq_self (hs.fault_of_done hc hwork hdone)⟩

/-- **What a turn does to the story**: it starts a call of a task that is running, or adds nothing to it; and the fault
of a task changes only while the task is running. -/
theorem Turn.tale {n : Note} {c c' : Cell B V} {e : Errand} {next : Multiset Errand} {posted : Nat}
    {events : List (Event V)} (h : Turn bh id n c e c' next posted events) :
    ((∃ item, events = [.called id item] ∧ e.active = 1 ∧ (next.map Errand.toCome).sum + 1 ≤ e.toCome + e.isPart) ∨
      (events = [] ∧ (next.map Errand.toCome).sum ≤ e.toCome)) ∧
    (c'.fault = c.fault ∨ e.active = 1) ∧
    (c'.stage = c.stage ∨ c.stage = .queued ∧ c'.stage = .running) := by
  cases h with
  | takeUp hstage | partTakeUp hstage =>
    refine ⟨.inr ⟨rfl, by simp [Errand.toCome]⟩, .inl rfl, ?_⟩
    rcases hstage with hstage | hstage
    · exact .inr ⟨hstage, rfl⟩
    · exact .inl hstage.symm
  | call => exact ⟨.inl ⟨0, rfl, rfl, by simp [Errand.toCome]⟩, .inl rfl, .inl rfl⟩
  | partCall => exact ⟨.inl ⟨_, rfl, rfl, by simp [Errand.toCome, Errand.isPart]⟩, .inl rfl, .inl rfl⟩
  | «return» | record | partReturn | partRecord => exact ⟨.inr ⟨rfl, by simp [Errand.toCome]⟩, .inr rfl, .inl rfl⟩
  | _ => exact ⟨.inr ⟨rfl, by simp [Errand.toCome]⟩, .inl rfl, .inl rfl⟩

theorem Strand.Sound.running_of_active {s : Strand B V} (h : s.Sound) {c : Cell B V} (hc : s.cell = some c)
    (hactive : s.active ≠ 0) : c.stage = .running := by
  by_contra hstage
  exact hactive (h.active c hc hstage)

theorem Told.eq_nil {c : Cell B V} {ending : List (Event V)} (h : Told id c ending) {cs : List Chore}
    (hstaged : Staged c cs) (hopen : c.stage.isOpen = true) : ending = [] := by
  have hclaimed := (hstaged.of_isOpen hopen).1
  cases h with
  | working => rfl
  | flushed tally hwon => rw [hclaimed] at hwon; cases hwon
  | closed tally hdone => rw [hstaged.done hdone] at hclaimed; cases hclaimed

theorem Told.not_called {c : Cell B V} {ending : List (Event V)} (h : Told id c ending) (item : Nat) :
    .called id item ∉ ending := by
  cases h with
  | working => simp
  | flushed => simp
  | closed tally hdone hending hevent =>
    rcases hevent with rfl | rfl <;> cases hending <;> simp

theorem Tale.turn {n : Note} {c c' : Cell B V} {e : Errand} {next : Multiset Errand} {posted p : Nat}
    {events st ending : List (Event V)} {cs : List Chore} {es : Multiset Errand} {calls : List Nat}
    (hturn : Turn bh id n c e c' next posted events) (hs : Strand.Sound ⟨some c, cs, p, e ::ₘ es, st⟩)
    (h : Tale id c ⟨some c, cs, p, e ::ₘ es, st⟩ calls ending) :
    ∃ calls', Tale id c' ⟨some c', cs, p + posted, next + es, events ++ st⟩ calls' ending := by
  obtain ⟨hstory, htold, hbegun, honce⟩ := h
  obtain ⟨hevents, hfault, hstage⟩ := hturn.tale
  have hstaged := hs.staged c rfl
  have hrunning : e.active = 1 → c.stage = .running := fun hactive => by
    refine hs.running_of_active rfl ?_
    simp [Strand.active, Strand.weigh, hactive]
  have htold' : Told id c' ending := by
    refine htold.congr (by rw [hturn.settlement_eq]) (fun hwon => ?_) fun hdone => ⟨hstaged.done hdone, ?_⟩
    · rcases hstage with hstage | ⟨hqueued, -⟩
      · exact hstage
      · rw [(hstaged.of_isOpen (Staged.isOpen_of_queued (.inl hqueued))).1] at hwon
        cases hwon
    · rcases hfault with hfault | hactive
      · exact hfault
      · rw [hrunning hactive] at hdone
        cases hdone
  have hbegun' : c'.stage = .rejected ∨ c'.stage = .queued → c.stage = .rejected ∨ c.stage = .queued := fun hearly => by
    rcases hstage with hsame | ⟨-, hsame⟩
    · rw [← hsame]
      exact hearly
    · rw [hsame] at hearly
      rcases hearly with hearly | hearly <;> cases hearly
  have hsingle := fun hnone => (hs.kinds c rfl).single hnone
  simp only [Strand.weigh, Multiset.map_cons, Multiset.sum_cons] at hsingle
  simp only [Strand.toCome, Strand.weigh, Multiset.map_cons, Multiset.sum_cons] at honce
  rcases hevents with ⟨item, rfl, hactive, htoCome⟩ | ⟨rfl, htoCome⟩
  · have hrun := hrunning hactive
    obtain rfl := htold.eq_nil hstaged (Staged.isOpen_of_queued (.inr hrun))
    refine ⟨item :: calls, ?_, htold', fun hearly => ?_, fun hnone => ?_⟩
    · exact congrArg (List.cons (.called id item)) hstory
    · have hearly' := hbegun' hearly
      rw [hrun] at hearly'
      rcases hearly' with hearly' | hearly' <;> cases hearly'
    · have hnone' := hturn.fanout_eq_none.1 hnone
      have hparts := hsingle hnone'
      have hroom := honce hnone'
      simp only [Strand.toCome, Strand.weigh, Multiset.map_add, Multiset.sum_add, List.length_cons]
      omega
  · refine ⟨calls, hstory, htold', fun hearly => hbegun (hbegun' hearly), fun hnone => ?_⟩
    have hroom := honce (hturn.fanout_eq_none.1 hnone)
    simp only [Strand.toCome, Strand.weigh, Multiset.map_add, Multiset.sum_add]
    omega

section

variable {c : Cell B V} {cs : List Chore} {p next count left : Nat} {es : Multiset Errand} {st : List (Event V)}
  {calls : List Nat} {ending : List (Event V)}

/-- Chores and errands of a task come and go without a word, as long as they bring no call. -/
theorem Tale.pass {s s' : Strand B V} (h : Tale id c s calls ending) (hstory : s'.story = s.story)
    (htoCome : s'.toCome ≤ s.toCome) : Tale id c s' calls ending :=
  ⟨hstory.trans h.story, h.told, h.begun, fun hnone => Nat.le_trans (Nat.add_le_add_left htoCome _) (h.once hnone)⟩

theorem Tale.refuse (h : Tale id c ⟨some c, .submit id :: cs, p, es, st⟩ calls ending)
    (hs : Strand.Sound ⟨some c, .submit id :: cs, p, es, st⟩) (fault : Fault) :
    Tale id (c.offer (some fault)) ⟨some (c.offer (some fault)), .complete id :: cs, p, es, st⟩ calls ending := by
  refine ⟨h.story, h.told.offer hs rfl ?_ _, h.begun, fun hnone => ?_⟩
  · simp [Strand.work, Strand.weigh, Chore.work]
  · have hroom := h.once hnone
    simp [Strand.toCome, Strand.weigh, Chore.single] at hroom ⊢
    omega

theorem Tale.refusePart (h : Tale id c ⟨some c, .submitPart id next count :: cs, p, es, st⟩ calls ending)
    (hs : Strand.Sound ⟨some c, .submitPart id next count :: cs, p, es, st⟩) (fault : Fault) (hnext : next < count) :
    Tale id (c.offer (some fault)) ⟨some (c.offer (some fault)), .abandon id left false :: cs, p, es, st⟩ calls ending := by
  refine ⟨h.story, h.told.offer hs rfl ?_ _, h.begun, fun hnone => ?_⟩
  · simp [Strand.work, Strand.weigh, Chore.work]
    omega
  · simpa [Strand.toCome, Strand.weigh, Chore.single] using h.once hnone

theorem Tale.force (h : Tale id c ⟨some c, cs, p, es, st⟩ calls ending) (hstaged : Staged c cs)
    (hqueued : c.stage = .queued) (fault : Fault) :
    Tale id { c.offer (some fault) with stage := .completing, forced := true }
      ⟨some { c.offer (some fault) with stage := .completing, forced := true }, .complete id :: cs, p, es, st⟩ calls [] := by
  have hopen := Staged.isOpen_of_queued (.inl hqueued)
  obtain rfl := h.told.eq_nil hstaged hopen
  refine ⟨h.story, .working (hstaged.of_isOpen hopen).1, fun hearly => ?_, fun hnone => ?_⟩
  · rcases hearly with hearly | hearly <;> cases hearly
  · simpa [Strand.toCome, Strand.weigh, Chore.single] using h.once hnone

theorem Tale.claim (h : Tale id c ⟨some c, .complete id :: cs, p, es, st⟩ calls ending)
    (hstaged : Staged c (.complete id :: cs)) (hclaimed : c.settlement.claimed = false) :
    Tale id c.claim ⟨some c.claim, .conclude id :: cs, p, es, .flushed id c.tally :: st⟩ calls [.flushed id c.tally] := by
  have hending : ending = [] := by
    cases h.told with
    | working => rfl
    | flushed tally hwon =>
      rw [hclaimed] at hwon
      cases hwon
    | closed tally hdone =>
      rw [hstaged.done hdone] at hclaimed
      cases hclaimed
  subst hending
  refine ⟨congrArg (List.cons _) h.story, .flushed _ rfl (by simp [Cell.claim]), fun hearly => ?_, fun hnone => ?_⟩
  · rcases hearly with hearly | hearly <;> cases hearly
  · simpa [Strand.toCome, Strand.weigh, Chore.single] using h.once hnone

/-- A conclusion behind the flush cleans up and says how the task ends. -/
theorem Tale.conclude {outcome : Except Fault V} {asked : List (Event V)} {settlement : Settlement (Except Fault V)}
    {event : Event V} (h : Tale id c ⟨some c, .conclude id :: cs, p, es, st⟩ calls ending)
    (hstaged : Staged c (.conclude id :: cs)) (hending : Ending id c outcome asked)
    (hnotice : Notice id c.settlement outcome settlement event) :
    ∃ ending', Tale id (c.close settlement)
      ⟨some (c.close settlement), cs, p, es, event :: (asked ++ .cleanedUp id :: st)⟩ calls ending' := by
  obtain ⟨hstory, htold, -, honce⟩ := h
  obtain ⟨hwon, hnot, -⟩ := hstaged.of_conclude
  cases htold with
  | working hopen =>
    rw [hwon] at hopen
    cases hopen
  | closed tally hdone => exact absurd hdone hnot
  | flushed tally =>
    have hending' : Ending id (c.close settlement) outcome asked := hending.congr rfl
    refine ⟨event :: (asked ++ [.cleanedUp id, .flushed id tally]), ?_, .closed tally rfl hending' ?_,
      fun hearly => ?_, fun hnone => ?_⟩
    · show event :: (asked ++ .cleanedUp id :: st) = _
      have hst : st = .flushed id tally :: (calls.map (Event.called id) ++ [.prepared id]) := hstory
      rw [hst, List.cons_append, List.append_assoc]
      rfl
    · cases hnotice with
      | settled => exact .inl rfl
      | discarded => exact .inr rfl
    · rcases hearly with hearly | hearly <;> cases hearly
    · simpa [Strand.toCome, Strand.weigh, Chore.single] using honce hnone

end

/-- **Every step takes the story of a task on, in order.** -/
theorem Strand.Step.tale {n : Note} {s s' : Strand B V} (h : Strand.Step bh id n s s') (hs : s.Sound)
    (ht : ∀ c, s.cell = some c → ∃ calls ending, Tale id c s calls ending) :
    ∀ c, s'.cell = some c → ∃ calls ending, Tale id c s' calls ending := by
  intro c' hc'
  cases h with
  | reject | letIn | spread =>
    obtain ⟨rfl, -, rfl, rfl⟩ := hs.rooted rfl
    obtain rfl := Option.some.inj hc'
    refine ⟨[], [], rfl, .working rfl, fun _ => rfl, fun _ => ?_⟩
    simp [Strand.toCome, Strand.weigh, Chore.single]
  | turn es hturn =>
    obtain rfl := Option.some.inj hc'
    obtain ⟨calls, ending, htale⟩ := ht _ rfl
    obtain ⟨calls', htale'⟩ := htale.turn hturn hs
    exact ⟨calls', ending, htale'⟩
  | receive =>
    obtain ⟨calls, ending, htale⟩ := ht c' hc'
    exact ⟨calls, ending, htale.pass rfl (by simp [Strand.toCome, Strand.weigh, Chore.single])⟩
  | refuse fault =>
    obtain rfl := Option.some.inj hc'
    obtain ⟨calls, ending, htale⟩ := ht _ rfl
    exact ⟨calls, ending, htale.refuse hs fault⟩
  | refusePart fault hnext =>
    obtain rfl := Option.some.inj hc'
    obtain ⟨calls, ending, htale⟩ := ht _ rfl
    exact ⟨calls, ending, htale.refusePart hs fault hnext⟩
  | force hqueued =>
    obtain rfl := Option.some.inj hc'
    obtain ⟨calls, ending, htale⟩ := ht _ rfl
    exact ⟨calls, [], htale.force (hs.staged _ rfl) hqueued _⟩
  | claim hclaimed =>
    obtain rfl := Option.some.inj hc'
    obtain ⟨calls, ending, htale⟩ := ht _ rfl
    exact ⟨calls, _, htale.claim (hs.staged _ rfl) hclaimed⟩
  | conclude hbody hending hnotice =>
    obtain rfl := Option.some.inj hc'
    obtain ⟨calls, ending, htale⟩ := ht _ rfl
    exact ⟨calls, htale.conclude (hs.staged _ rfl) hending hnotice⟩
  | bodyless hbody =>
    exact absurd ((hs.staged _ rfl).body.1 hbody) (hs.staged _ rfl).of_conclude.2.1
  | @abandoned c cs p es st last =>
    obtain rfl := Option.some.inj hc'
    obtain ⟨calls, ending, htale⟩ := ht _ rfl
    refine ⟨calls, ending, htale.pass rfl ?_⟩
    cases last <;> simp [Strand.toCome, Strand.weigh, Chore.single]
  | abandon hf =>
    obtain rfl := Option.some.inj hc'
    obtain ⟨calls, ending, hstory, htold, hbegun, -⟩ := ht _ rfl
    refine ⟨calls, ending, hstory, ?_, hbegun, fun hnone => ?_⟩
    · exact htold.congr rfl (fun _ => rfl) fun hdone => ⟨(hs.staged _ rfl).done hdone, rfl⟩
    · cases hnone
  | promise promise =>
    obtain rfl := Option.some.inj hc'
    obtain ⟨calls, ending, hstory, htold, hbegun, honce⟩ := ht _ rfl
    refine ⟨calls, ending, hstory, ?_, hbegun, honce⟩
    exact htold.congr rfl (fun _ => rfl) fun hdone => ⟨(hs.staged _ rfl).done hdone, rfl⟩
  | submit =>
    obtain rfl := Option.some.inj hc'
    obtain ⟨calls, ending, htale⟩ := ht _ rfl
    refine ⟨calls, ending, htale.pass rfl ?_⟩
    simp [Strand.toCome, Strand.weigh, Chore.single, Errand.toCome]
    omega
  | _ =>
    obtain rfl := Option.some.inj hc'
    obtain ⟨calls, ending, htale⟩ := ht _ rfl
    exact ⟨calls, ending, htale.pass rfl (by simp [Strand.toCome, Strand.weigh, Chore.single, Errand.toCome])⟩

/-! ## Faults -/

theorem Turn.fault {n : Note} {c c' : Cell B V} {e : Errand} {next : Multiset Errand} {posted : Nat}
    {events : List (Event V)} (h : Turn bh id n c e c' next posted events) :
    c'.fault = c.fault.or n.offered ∧ n.bars = false := by
  cases h <;> simp [Note.quiet, Note.offer, Note.signal, Note.part, Cell.afterWork, Cell.offer]

/-- **A step offers a fault to a task, which keeps the fault that it has.** -/
theorem Strand.Step.fault {n : Note} {s s' : Strand B V} (h : Strand.Step bh id n s s') :
    s'.cell.bind Cell.fault = (s.cell.bind Cell.fault).or n.offered := by
  cases h with
  | turn es hturn => exact hturn.fault.1
  | _ => simp [Note.quiet, Note.offer, Note.bar, Note.signal, Note.part, Cell.fresh, Cell.offer, Cell.claim, Cell.close]

theorem Strand.Run.fault {ns : List Note} {s₀ s : Strand B V} (h : Strand.Run bh id s₀ ns s) :
    s.cell.bind Cell.fault = (s₀.cell.bind Cell.fault).or (ns.findSome? Note.offered) := by
  induction h with
  | refl => simp
  | @snoc ns n s s' hrun hlead ih =>
    rw [List.findSome?_append, ← Option.or_assoc, ← ih]
    rcases hlead with ⟨rfl, rfl⟩ | hstep
    · simp [Note.quiet]
    · simp [hstep.fault]

/-! ## Barred tasks -/

/-- Whether a task was never called and will not be: it is past its running, or its one call will not come. -/
structure Barred (id : Nat) (c : Cell B V) (s : Strand B V) : Prop where
  uncalled : ∀ item, .called id item ∉ s.story
  late : (c.stage ≠ .queued ∧ c.stage ≠ .running) ∨ (c.fanout = none ∧ s.toCome = 0)

/-- **Who is called was taken up**, and is a partition or had its one call in front of it. -/
theorem Strand.Step.called {n : Note} {s s' : Strand B V} (h : Strand.Step bh id n s s') {item : Nat}
    (hcalled : .called id item ∈ s'.story) (hnew : .called id item ∉ s.story) :
    s.active ≠ 0 ∧ (s.weigh Chore.parts Errand.isPart ≠ 0 ∨ s.toCome ≠ 0) := by
  cases h with
  | turn es hturn =>
    obtain ⟨⟨item', hevents, hactive, htoCome⟩ | ⟨hevents, -⟩, -, -⟩ := hturn.tale
    · simp only [Strand.active, Strand.toCome, Strand.weigh, Multiset.map_cons, Multiset.sum_cons]
      omega
    · rw [hevents] at hcalled
      exact absurd hcalled hnew
  | @conclude c cs p es st b outcome asked settlement event hbody hending hnotice =>
    refine absurd ?_ hnew
    have hevent : event ≠ .called id item := by cases hnotice <;> simp
    have hasked : .called id item ∉ asked := by cases hending <;> simp
    simpa [hevent.symm, hasked] using hcalled
  | bodyless hbody hnotice =>
    refine absurd ?_ hnew
    cases hnotice <;> simpa using hcalled
  | _ => exact absurd (by simpa using hcalled) hnew

theorem Strand.Step.toCome_le {n : Note} {s s' : Strand B V} (h : Strand.Step bh id n s s') {c c' : Cell B V}
    (hc : s.cell = some c) (hc' : s'.cell = some c') :
    s'.toCome ≤ s.toCome ∧ (c'.fanout = none ↔ c.fanout = none) := by
  cases h with
  | reject | letIn | spread => cases hc
  | receive =>
    obtain rfl := Option.some.inj (hc.symm.trans hc')
    simp [Strand.toCome, Strand.weigh, Chore.single]
  | turn es hturn =>
    obtain rfl := Option.some.inj hc
    obtain rfl := Option.some.inj hc'
    refine ⟨?_, hturn.fanout_eq_none⟩
    simp only [Strand.toCome, Strand.weigh, Multiset.map_cons, Multiset.sum_cons, Multiset.map_add, Multiset.sum_add]
    cases hturn <;> simp [Errand.toCome]
  | @abandoned c cs p es st last =>
    obtain rfl := Option.some.inj hc
    obtain rfl := Option.some.inj hc'
    cases last <;> simp [Strand.toCome, Strand.weigh, Chore.single]
  | submit =>
    obtain rfl := Option.some.inj hc
    obtain rfl := Option.some.inj hc'
    simp [Strand.toCome, Strand.weigh, Chore.single, Errand.toCome]
    omega
  | abandon hf =>
    obtain rfl := Option.some.inj hc
    obtain rfl := Option.some.inj hc'
    simp [Strand.toCome, Strand.weigh, Chore.single, hf]
  | _ =>
    obtain rfl := Option.some.inj hc
    obtain rfl := Option.some.inj hc'
    simp [Strand.toCome, Strand.weigh, Chore.single, Errand.toCome, Cell.offer, Cell.claim, Cell.close]

theorem Strand.Step.cell_ne_none {n : Note} {s s' : Strand B V} (h : Strand.Step bh id n s s') {c : Cell B V}
    (hc : s.cell = some c) : ∃ c', s'.cell = some c' := by
  cases h with
  | receive => exact ⟨c, hc⟩
  | _ => exact ⟨_, rfl⟩

theorem Strand.Step.barred {n : Note} {s s' : Strand B V} (h : Strand.Step bh id n s s') (hs : s.Sound) {c : Cell B V}
    (hc : s.cell = some c) (hbarred : Barred id c s) : ∃ c', s'.cell = some c' ∧ Barred id c' s' := by
  obtain ⟨c', hc'⟩ := h.cell_ne_none hc
  obtain ⟨htoCome, hfanout⟩ := h.toCome_le hc hc'
  have hchecked := (hs.staged c hc).checked
  refine ⟨c', hc', fun item hcalled => ?_, ?_⟩
  · obtain ⟨hactive, hkind⟩ := h.called hcalled (hbarred.uncalled item)
    rcases hbarred.late with ⟨-, hrunning⟩ | ⟨hnone, hzero⟩
    · exact hrunning (hs.running_of_active hc hactive)
    · have hparts := (hs.kinds c hc).single hnone
      omega
  · rcases hbarred.late with ⟨hqueued, hrunning⟩ | ⟨hnone, hzero⟩
    · rcases h.stage_next hs.staged hc hc' with hsame | hnext
      · rw [hsame]
        exact .inl ⟨hqueued, hrunning⟩
      · revert hnext hchecked hqueued hrunning
        generalize c.stage = stage
        generalize c'.stage = stage'
        intro hchecked hqueued hrunning hnext
        cases hnext <;> simp_all
    · exact .inr ⟨hfanout.2 hnone, by omega⟩

/-- **An act that bars a task does so in time**: the task was never called and will not be. -/
theorem Strand.Step.bars {n : Note} {s s' : Strand B V} (h : Strand.Step bh id n s s') (hs : s.Sound)
    (ht : ∀ c, s.cell = some c → ∃ calls ending, Tale id c s calls ending) (hbars : n.bars = true) :
    ∃ c', s'.cell = some c' ∧ Barred id c' s' := by
  cases h with
  | reject b sink fault hsink =>
    obtain ⟨rfl, -, rfl, rfl⟩ := hs.rooted rfl
    exact ⟨_, rfl, by simp, .inl ⟨by simp, by simp⟩⟩
  | @refuse c cs p es st fault =>
    obtain ⟨calls, ending, hstory, htold, hbegun, honce⟩ := ht c rfl
    have hnone : c.fanout = none := by
      by_contra hsome
      have hzero := (hs.kinds c rfl).parts hsome
      simp [Strand.weigh, Chore.single] at hzero
    have hroom := honce hnone
    simp only [Strand.toCome, Strand.weigh, List.map_cons, List.sum_cons, Chore.single] at hroom
    obtain rfl : calls = [] := List.eq_nil_of_length_eq_zero (by omega)
    refine ⟨_, rfl, fun item hcalled => ?_, .inr ⟨hnone, ?_⟩⟩
    · have hmem : .called id item ∈ ending ++ [Event.prepared id] := hstory ▸ hcalled
      rcases List.mem_append.1 hmem with hmem | hmem
      · exact htold.not_called item hmem
      · simp at hmem
    · simp only [Strand.toCome, Strand.weigh, List.map_cons, List.sum_cons, Chore.single]
      omega
  | @force c cs p es st hqueued =>
    obtain ⟨calls, ending, hstory, htold, hbegun, honce⟩ := ht c rfl
    obtain rfl := hbegun (.inr hqueued)
    obtain rfl := htold.eq_nil (hs.staged c rfl) (Staged.isOpen_of_queued (.inl hqueued))
    refine ⟨_, rfl, ?_, .inl ⟨by simp, by simp⟩⟩
    show ∀ item, .called id item ∉ st
    rw [show st = [.prepared id] from hstory]
    simp
  | turn es hturn =>
    rw [hturn.fault.2] at hbars
    cases hbars
  | _ => cases hbars

end BitmapWorks
