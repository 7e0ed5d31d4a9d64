import BitmapWorks.Proofs.Dispatcher.Items
import BitmapWorks.Proofs.Operation.Frame
/-!
# Progress — how far the decoding of many inputs is

The partitions of a task decode its items in any order, and stop when one of them fails.  At all times, as long as no
failure is recorded, each item that was called is still in its call, or has filled its slot, or a failure waits to be
recorded (`Progress.called`).  So once no work is left and no failure was recorded, every slot is filled
(`Progress.collect`), and every fault that is recorded is one that decoding an item gives (`Progress.fault`).
-/
namespace BitmapWorks

variable {items : List (Bytes × Format)} {id : Nat}

/-! ## Bodies -/

/-- Whether a fault is what decoding one of the items gives. -/
def FaultOf (items : List (Bytes × Format)) (fault : Fault) : Prop :=
  ∃ item ∈ items, Decoding.decode 0 item.1 item.2 = .error fault

namespace Operation

structure Decodes (items : List (Bytes × Format)) (o : Operation) : Prop where
  request : ∃ inputs concurrency, o.request = .deserializeMany inputs concurrency
  assignment : o.assignment = some (.decodeMany items)
  guarded : o.guarded = none
  length : o.slots.length = items.length
  bitmaps : ∀ product, some product ∈ o.slots → ∃ n, product = .bitmap n

def Filled (o : Operation) (item : Nat) : Prop := ∃ n, o.slots[item]? = some (some (.bitmap n))

theorem perform_decodeMany {item : Nat} {bytes : Bytes} {f : Format} (hitem : items[item]? = some (bytes, f))
    (w : World) : perform w item (.decodeMany items) = perform w item (.decode bytes f) := by
  unfold perform
  dsimp only
  rw [hitem]

theorem Decodes.spent {o : Operation} (h : o.Decodes items) : o.request.spent = o.request := by
  obtain ⟨inputs, concurrency, hrequest⟩ := h.request
  rw [hrequest]
  rfl

/-- **A call for an item fills its slot with a new bitmap, or fails as decoding the item does.** -/
theorem work_decodes {o : Operation} (h : o.Decodes items) (w : World) {item : Nat} {bytes : Bytes} {f : Format}
    (hitem : items[item]? = some (bytes, f)) :
    (∃ fault, Decoding.decode 0 bytes f = .error fault ∧ work w o item = ⟨w, o, 0, none, .failed fault⟩) ∨
    ∃ content, Decoding.decode 0 bytes f = .ok content ∧ work w o item =
      ⟨{ w with shelf := (w.shelf.put content (some content.footprint)).2 },
        { o with slots := o.slots.set item (some (.bitmap w.shelf.numbers)) }, Ledger.entry content.footprint, none,
        .done⟩ := by
  cases hdecode : Decoding.decode 0 bytes f with
  | error fault =>
    have hperform : perform w item (.decodeMany items) = (.error fault, w, 0) := by
      rw [perform_decodeMany hitem, perform, hdecode]
      rfl
    refine .inl ⟨fault, rfl, ?_⟩
    rw [work_eq h.assignment, hperform, h.spent]
  | ok content =>
    have hperform : perform w item (.decodeMany items) = (.ok (.bitmap w.shelf.numbers),
        { w with shelf := (w.shelf.put content (some content.footprint)).2 }, content.footprint) := by
      rw [perform_decodeMany hitem, perform, hdecode]
      rfl
    refine .inr ⟨content, rfl, ?_⟩
    rw [work_eq h.assignment, hperform, h.spent]

theorem Decodes.set {o : Operation} (h : o.Decodes items) (item n : Nat) :
    Decodes items { o with slots := o.slots.set item (some (.bitmap n)) } := by
  refine ⟨h.request, h.assignment, h.guarded, List.length_set.trans h.length, fun product hslot => ?_⟩
  rcases List.mem_or_eq_of_mem_set hslot with hslot | heq
  · exact h.bitmaps product hslot
  · exact ⟨n, Option.some.inj heq⟩

/-- A call keeps what is decoded, and fills the slot of its item unless it fails. -/
theorem Decodes.work {o : Operation} (h : o.Decodes items) (w : World) {item : Nat} (hitem : item < items.length) :
    (Operation.work w o item).body.Decodes items ∧ (Operation.work w o item).recorded = none ∧
      (∀ item', o.Filled item' → (Operation.work w o item).body.Filled item') ∧
      ((Operation.work w o item).outcome = .done ∧ (Operation.work w o item).body.Filled item ∨
        ∃ fault, (Operation.work w o item).outcome = .failed fault ∧ FaultOf items fault) := by
  have hentry : items[item]? = some (items[item].1, items[item].2) := List.getElem?_eq_getElem hitem
  rcases work_decodes h w hentry with ⟨fault, hdecode, hwork⟩ | ⟨content, hdecode, hwork⟩
  · rw [hwork]
    exact ⟨h, rfl, fun _ hfilled => hfilled, .inr ⟨fault, rfl, items[item], List.getElem_mem hitem, hdecode⟩⟩
  · have hself : (o.slots.set item (some (.bitmap w.shelf.numbers)))[item]? = some (some (.bitmap w.shelf.numbers)) :=
      List.getElem?_set_self (by rw [h.length]; exact hitem)
    rw [hwork]
    refine ⟨h.set item _, rfl, fun item' hfilled => ?_, .inl ⟨rfl, _, hself⟩⟩
    by_cases heq : item = item'
    · subst heq
      exact ⟨_, hself⟩
    · obtain ⟨n, hn⟩ := hfilled
      exact ⟨n, (List.getElem?_set_ne heq).trans hn⟩

theorem exists_map_of_filled : ∀ {slots : List (Option Product)}, (∀ slot ∈ slots, ∃ n, slot = some (.bitmap n)) →
    ∃ ns : List Nat, slots = ns.map fun n => some (.bitmap n)
  | [], _ => ⟨[], rfl⟩
  | slot :: slots, h => by
    obtain ⟨n, rfl⟩ := h slot (List.mem_cons_self ..)
    obtain ⟨ns, rfl⟩ := exists_map_of_filled fun slot hslot => h slot (List.mem_cons_of_mem _ hslot)
    exact ⟨n :: ns, rfl⟩

/-- **Slots that are all filled give their bitmaps in order.** -/
theorem Decodes.collect {o : Operation} (h : o.Decodes items) (hfilled : ∀ item < items.length, o.Filled item) :
    ∃ ns, Operation.collect 0 o.slots = .ok ns ∧ o.slots = ns.map fun n => some (.bitmap n) := by
  obtain ⟨ns, hslots⟩ : ∃ ns : List Nat, o.slots = ns.map fun n => some (.bitmap n) := by
    refine exists_map_of_filled fun slot hslot => ?_
    obtain ⟨item, hitem, rfl⟩ := List.mem_iff_getElem.1 hslot
    obtain ⟨n, hn⟩ := hfilled item (h.length ▸ hitem)
    exact ⟨n, Option.some.inj ((List.getElem?_eq_getElem hitem).symm.trans hn)⟩
  exact ⟨ns, by rw [hslots, collect_map], hslots⟩

end Operation

/-! ## Errands in the middle of an item -/

def Errand.holdsItem : Errand → Bool
  | part _ (.call _) | part _ (.calling _) | part _ (.record _) => true
  | _ => false

theorem mem_add_of_holdsItem {e : Errand} (h : e.holdsItem = true) {es es' : Multiset Errand}
    (hes : ∀ e' ∈ es, e'.holdsItem = false) : e ∈ es + es' ↔ e ∈ es' := by
  rw [Multiset.mem_add]
  refine ⟨fun hmem => hmem.resolve_left fun hmem => ?_, .inr⟩
  rw [hes e hmem] at h
  cases h

theorem mem_cons_of_holdsItem {e e₀ : Errand} (h : e.holdsItem = true) (h₀ : e₀.holdsItem = false)
    {es : Multiset Errand} : e ∈ e₀ ::ₘ es ↔ e ∈ es := by
  rw [← Multiset.singleton_add]
  exact mem_add_of_holdsItem h (by simpa using h₀)

/-! ## Progress -/

structure Progress (items : List (Bytes × Format)) (id : Nat) (c : Cell Operation Product)
    (s : Strand Operation Product) : Prop where
  body : ∀ b, c.body = some b → b.Decodes items
  fault : ∀ fault, c.fault = some fault → FaultOf items fault
  drawn : ∀ item, .part id (.call item) ∈ s.errands ∨ .part id (.calling item) ∈ s.errands → item < items.length
  ended : ∀ outcome fault, .part id (.record outcome) ∈ s.errands → outcome.fault? = some fault → FaultOf items fault
  /-- Who was called is in the call, or has filled the slot, or a failure waits to be recorded. -/
  called : c.fault = none → ∀ item ∈ s.story.filterMap Event.item?, .part id (.calling item) ∈ s.errands ∨
    (∀ b, c.body = some b → b.Filled item) ∨ ∃ outcome, .part id (.record outcome) ∈ s.errands ∧ outcome.fault? ≠ none

namespace Progress

variable {c c' : Cell Operation Product} {s s' : Strand Operation Product}

/-- What is not about an item, its call or its slot makes no difference. -/
theorem congr (h : Progress items id c s) (hbody : ∀ b, c'.body = some b → c.body = some b)
    (hfault : ∀ fault, c'.fault = some fault → FaultOf items fault) (hnone : c'.fault = none → c.fault = none)
    (herrands : ∀ e : Errand, e.holdsItem = true → (e ∈ s'.errands ↔ e ∈ s.errands))
    (hcalls : s'.story.filterMap Event.item? = s.story.filterMap Event.item?) : Progress items id c' s' := by
  refine ⟨fun b hb => h.body b (hbody b hb), hfault, fun item hmem => ?_, fun outcome fault hmem => ?_,
    fun hnone' item hcalled => ?_⟩
  · rw [herrands _ rfl, herrands _ rfl] at hmem
    exact h.drawn item hmem
  · rw [herrands _ rfl] at hmem
    exact h.ended outcome fault hmem
  · rcases h.called (hnone hnone') item (hcalls ▸ hcalled) with hcalling | hfilled | ⟨outcome, hmem, houtcome⟩
    · exact .inl ((herrands _ rfl).2 hcalling)
    · exact .inr (.inl fun b hb => hfilled b (hbody b hb))
    · exact .inr (.inr ⟨outcome, (herrands _ rfl).2 hmem, houtcome⟩)

/-- **A call that returns has filled the slot of its item, or leaves a failure to be recorded.** -/
theorem returned {b : Operation} {k p : Nat} {world : World} {cs : List Chore} {es : Multiset Errand}
    {st : List (Event Product)} (h : Progress items id c ⟨some c, cs, p, .part id (.calling k) ::ₘ es, st⟩)
    (hbody : c.body = some b) (hbody' : ∀ b', c'.body = some b' → b' = (Operation.work world b k).body)
    (hnone : c'.fault = none → c.fault = none) (hfault : ∀ fault, c'.fault = some fault → FaultOf items fault) :
    Progress items id c' ⟨some c', cs, p, {.part id (.record (Operation.work world b k).outcome)} + es, st⟩ := by
  obtain ⟨hdecodes, -, hkeeps, hends⟩ := (h.body b hbody).work world (h.drawn k (.inr (by simp)))
  refine ⟨fun b' hb' => hbody' b' hb' ▸ hdecodes, hfault, fun item hmem => ?_, fun outcome fault hmem houtcome => ?_,
    fun hnone' item hcalled => ?_⟩
  · refine h.drawn item ?_
    simp at hmem ⊢
    tauto
  · rcases Multiset.mem_add.1 hmem with hmem | hmem
    · obtain rfl : outcome = (Operation.work world b k).outcome :=
        PartPhase.record.inj (Errand.part.inj (Multiset.mem_singleton.1 hmem)).2
      rcases hends with ⟨hdone, -⟩ | ⟨fault', hfailed, hfaultOf⟩
      · rw [hdone] at houtcome
        cases houtcome
      · rw [hfailed] at houtcome
        cases houtcome
        exact hfaultOf
    · exact h.ended outcome fault (Multiset.mem_cons_of_mem hmem) houtcome
  · rcases h.called (hnone hnone') item hcalled with hcalling | hfilled | ⟨outcome, hmem, houtcome⟩
    · rcases Multiset.mem_cons.1 hcalling with heq | hcalling
      · obtain rfl : item = k := PartPhase.calling.inj (Errand.part.inj heq).2
        rcases hends with ⟨-, hfilled⟩ | ⟨fault, hfailed, -⟩
        · exact .inr (.inl fun b' hb' => hbody' b' hb' ▸ hfilled)
        · refine .inr (.inr ⟨(Operation.work world b item).outcome, ?_, by simp [hfailed, Outcome.fault?]⟩)
          exact Multiset.mem_add.2 (.inl (Multiset.mem_singleton_self _))
      · exact .inl (Multiset.mem_add.2 (.inr hcalling))
    · exact .inr (.inl fun b' hb' => hbody' b' hb' ▸ hkeeps item (hfilled b hbody))
    · exact .inr (.inr ⟨outcome, Multiset.mem_add.2 (.inr (by simpa using hmem)), houtcome⟩)

theorem turn {n : Note} {e : Errand} {next : Multiset Errand} {posted p : Nat} {events st : List (Event Product)}
    {cs : List Chore} {es : Multiset Errand} (h : Progress items id c ⟨some c, cs, p, e ::ₘ es, st⟩)
    (hturn : Turn Operation.behaviour id n c e c' next posted events) (hpart : e.isSingle = 0)
    (hlength : ∀ f, c.fanout = some f → f.cursor.length = items.length)
    (hfault : ∀ fault, c'.fault = some fault → FaultOf items fault) :
    Progress items id c' ⟨some c', cs, p + posted, next + es, events ++ st⟩ := by
  have hnone : c'.fault = none → c.fault = none := fun hnone => by
    rw [hturn.fault.1] at hnone
    exact (Option.or_eq_none_iff.1 hnone).1
  cases hturn with
  | takeUp | tooLate | call | bodyless | «return» | record | post => cases hpart
  | @fetch _ f hf hnext =>
    refine ⟨h.body, h.fault, fun item hmem => ?_, fun outcome fault hmem => ?_, fun hnone' item hcalled => ?_⟩
    · by_cases heq : item = f.cursor.next
      · rw [heq, ← hlength f hf]
        exact hnext
      · refine h.drawn item ?_
        simpa [heq] using hmem
    · exact h.ended outcome fault (by simpa using hmem)
    · simpa using h.called hnone' item hcalled
  | @partCall _ k =>
    refine ⟨h.body, h.fault, fun item hmem => ?_, fun outcome fault hmem => ?_, fun hnone' item hcalled => ?_⟩
    · refine h.drawn item ?_
      simp at hmem ⊢
      tauto
    · exact h.ended outcome fault (by simpa using hmem)
    · rcases List.mem_cons.1 hcalled with heq | hcalled
      · subst heq
        exact .inl (by simp)
      · have hbefore := h.called hnone' item hcalled
        simp at hbefore ⊢
        tauto
  | @partBodyless _ k hbody =>
    refine ⟨h.body, h.fault, fun item hmem => ?_, fun outcome fault hmem => ?_, fun hnone' item hcalled => ?_⟩
    · refine h.drawn item ?_
      simp at hmem ⊢
      tauto
    · exact h.ended outcome fault (by simpa using hmem)
    · refine .inr (.inl fun b hb => ?_)
      rw [hbody] at hb
      cases hb
  | partReturn world hbody => exact h.returned hbody (fun b' hb' => (Option.some.inj hb').symm) hnone hfault
  | partRecord outcome =>
    refine ⟨h.body, hfault, fun item hmem => ?_, fun outcome' fault hmem => ?_, fun hnone' item hcalled => ?_⟩
    · refine h.drawn item ?_
      simpa using hmem
    · refine h.ended outcome' fault ?_
      simp at hmem ⊢
      tauto
    · rcases h.called (hnone hnone') item hcalled with hcalling | hfilled | ⟨outcome', hmem, houtcome⟩
      · exact .inl (by simpa using hcalling)
      · exact .inr (.inl hfilled)
      · -- the failure that waits is another one: this one would have been recorded
        refine .inr (.inr ⟨outcome', ?_, houtcome⟩)
        have hoffered : outcome.fault? = none := (Option.or_eq_none_iff.1 hnone').2
        have hne : outcome' ≠ outcome := fun heq => houtcome (heq ▸ hoffered)
        simpa [hne] using hmem
  | _ =>
    refine h.congr (fun b hb => hb) hfault hnone (fun e he => ?_) rfl
    rw [mem_cons_of_holdsItem he rfl, mem_add_of_holdsItem he (by simp [Errand.holdsItem])]

/-- **Every step keeps track of the decoding**, if the fault that it offers is one of decoding an item. -/
theorem step {n : Note} (h : Progress items id c s) (hstep : Strand.Step Operation.behaviour id n s s') (hs : s.Sound)
    (hc : s.cell = some c) (hc' : s'.cell = some c')
    (hfanout : ∃ f, c.fanout = some f ∧ f.cursor.length = items.length)
    (hoffered : ∀ fault, n.offered = some fault → FaultOf items fault) : Progress items id c' s' := by
  have hor : c'.fault = c.fault.or n.offered := by simpa [hc, hc'] using hstep.fault
  have hfault : ∀ fault, c'.fault = some fault → FaultOf items fault := fun fault hsome => by
    rw [hor, Option.or_eq_some_iff] at hsome
    rcases hsome with hsome | ⟨-, hsome⟩
    · exact h.fault fault hsome
    · exact hoffered fault hsome
  have hnone : c'.fault = none → c.fault = none := fun hnone => by
    rw [hor] at hnone
    exact (Option.or_eq_none_iff.1 hnone).1
  cases hstep with
  | reject | letIn | spread => cases hc
  | turn es hturn =>
    obtain rfl := Option.some.inj hc
    obtain rfl := Option.some.inj hc'
    obtain ⟨f, hf, hlength⟩ := hfanout
    have hpart := (hs.kinds _ rfl).isSingle_eq_zero (by simp [hf])
    exact h.turn hturn hpart (fun f' hf' => by rwa [← Option.some.inj (hf.symm.trans hf')]) hfault
  | receive =>
    obtain rfl := Option.some.inj (hc.symm.trans hc')
    exact h.congr (fun _ hb => hb) hfault hnone (fun _ _ => .rfl) rfl
  | submit | submitPart =>
    obtain rfl := Option.some.inj hc
    obtain rfl := Option.some.inj hc'
    exact h.congr (fun _ hb => hb) hfault hnone (fun e he => mem_cons_of_holdsItem he rfl) rfl
  | claim =>
    obtain rfl := Option.some.inj hc
    obtain rfl := Option.some.inj hc'
    exact h.congr (fun _ hb => hb) hfault hnone (fun _ _ => .rfl) rfl
  | @conclude c cs p es st b outcome asked settlement event hbody hending hnotice =>
    obtain rfl := Option.some.inj hc
    obtain rfl := Option.some.inj hc'
    refine h.congr (fun _ hb => nomatch hb) hfault hnone (fun _ _ => .rfl) ?_
    cases hnotice <;> cases hending <;> rfl
  | bodyless hbody hnotice =>
    obtain rfl := Option.some.inj hc
    obtain rfl := Option.some.inj hc'
    refine h.congr (fun _ hb => nomatch hb) hfault hnone (fun _ _ => .rfl) ?_
    cases hnotice <;> rfl
  | _ =>
    obtain rfl := Option.some.inj hc
    obtain rfl := Option.some.inj hc'
    exact h.congr (fun _ hb => hb) hfault hnone (fun _ _ => .rfl) rfl

/-- **Who concludes a task without a fault finds every slot filled.** -/
theorem collect {partitions : Nat} {f : Fanout} {b : Operation} (h : Progress items id c s) (hs : s.Sound)
    (hspread : Spread items.length partitions c s f) (hc : s.cell = some c) (hclaimed : c.settlement.claimed = true)
    (hfault : c.fault = none) (hbody : c.body = some b) :
    ∃ ns, Operation.collect 0 b.slots = .ok ns ∧ b.slots = ns.map fun n => some (.bitmap n) := by
  have hforced := hs.not_forced hc hfault
  -- the claim is made when no partition has work left, so no item is in hand
  have hwork := (hs.tokens c hc hforced).work_eq_zero hclaimed
  have hover : ∀ phase, .part id phase ∈ s.errands → (Errand.part id phase).work = 0 := fun phase =>
    Strand.work_of_mem hwork
  refine (h.body b hbody).collect fun item hitem => ?_
  have hpassed : item ∈ s.story.filterMap Event.item? :=
    (hspread.perm hwork hfault hforced).mem_iff.2 (List.mem_range.2 hitem)
  rcases h.called hfault item hpassed with hcalling | hfilled | ⟨outcome, hmem, -⟩
  · cases hover _ hcalling
  · exact hfilled b hbody
  · cases hover _ hmem

end Progress
end BitmapWorks
