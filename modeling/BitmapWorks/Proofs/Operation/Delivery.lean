import BitmapWorks.Proofs.Decoding.Faults
import BitmapWorks.Proofs.Operation.Keeping
import BitmapWorks.Proofs.Operation.Progress
/-!
# Delivery — what the decoding of many inputs delivers

The bitmaps in the slots of a task that decodes many inputs show at all times what decoding its items gives, and so do
those of an outcome that waits in its promise (`Kept`).  Every deed of the task keeps it so, and an outcome that the
task is settled with is all of its bitmaps in order, or the fault of one of its items (`Kept.deed`).
-/
namespace BitmapWorks

variable {items : List (Bytes × Format)}

/-! ## Outcomes -/

def Shelf.Shows (s : Shelf) (n : Nat) (content : Content) : Prop := (s.get? n).map Slot.content = some content

def Shelf.ShowsItem (s : Shelf) (item : Bytes × Format) (n : Nat) : Prop :=
  ∃ content, Decoding.decode 0 item.1 item.2 = .ok content ∧ s.Shows n content

/-- What decoding many items may give: a bitmap for each item, in their order, or the fault of an item that fails. -/
inductive Delivered (items : List (Bytes × Format)) (s : Shelf) : Except Fault Product → Prop
  | decoded {ns} : List.Forall₂ s.ShowsItem items ns → Delivered items s (.ok (.bitmaps ns))
  | failed {fault} : FaultOf items fault → Delivered items s (.error fault)

theorem Shelf.ShowsItem.congr {s s' : Shelf} {item : Bytes × Format} {n : Nat} (h : s.ShowsItem item n)
    (hsame : s'.get? n = s.get? n) : s'.ShowsItem item n := by
  obtain ⟨content, hdecode, hshows⟩ := h
  exact ⟨content, hdecode, by rwa [Shelf.Shows, hsame]⟩

theorem Shelf.ShowsItem.frame {s s' : Shelf} {item : Bytes × Format} {n : Nat} (h : s.ShowsItem item n)
    (hframe : Shelf.Frame [] s s') : s'.ShowsItem item n := by
  have hshown := h
  obtain ⟨content, -, hshows⟩ := hshown
  obtain ⟨slot, hslot, -⟩ := Option.map_eq_some_iff.1 hshows
  exact h.congr (hframe.same n (Shelf.lt_numbers hslot) (List.not_mem_nil))

theorem Delivered.congr {s s' : Shelf} {outcome : Except Fault Product} (h : Delivered items s outcome)
    (hsame : ∀ n ∈ Product.namesOf outcome, s'.get? n = s.get? n) : Delivered items s' outcome := by
  cases h with
  | failed hfault => exact .failed hfault
  | @decoded ns hshows =>
    refine .decoded ?_
    have hsame' : ∀ n ∈ ns, s'.get? n = s.get? n := hsame
    clear hsame
    induction hshows with
    | nil => exact .nil
    | cons hitem hshows ih =>
      exact .cons (hitem.congr (hsame' _ (List.mem_cons_self ..))) (ih fun n hn => hsame' n (List.mem_cons_of_mem _ hn))

/-- **If every item can be decoded, all bitmaps are delivered in order, and otherwise the fault of an item that
cannot.** -/
theorem delivered_iff {s : Shelf} {outcome : Except Fault Product} : Delivered items s outcome ↔
    ((∀ item ∈ items, ∃ content, Decoding.decode 0 item.1 item.2 = .ok content) →
      ∃ ns, outcome = .ok (.bitmaps ns) ∧ List.Forall₂ s.ShowsItem items ns) ∧
    ((∃ item ∈ items, ∃ fault, Decoding.decode 0 item.1 item.2 = .error fault) →
      ∃ fault, outcome = .error fault ∧ FaultOf items fault) := by
  constructor
  · rintro (@⟨ns, hshows⟩ | @⟨fault, hfault⟩)
    · refine ⟨fun _ => ⟨ns, rfl, hshows⟩, fun ⟨item, hitem, fault, hfails⟩ => ?_⟩
      obtain ⟨i, hi, rfl⟩ := List.mem_iff_getElem.1 hitem
      obtain ⟨content, hdecode, -⟩ := (List.forall₂_iff_get.1 hshows).2 i hi ((List.Forall₂.length_eq hshows) ▸ hi)
      cases hfails.symm.trans hdecode
    · refine ⟨fun hall => ?_, fun _ => ⟨fault, rfl, hfault⟩⟩
      obtain ⟨item, hitem, hfails⟩ := hfault
      obtain ⟨content, hdecode⟩ := hall item hitem
      cases hfails.symm.trans hdecode
  · rintro ⟨hall, hsome⟩
    by_cases hfails : ∃ item ∈ items, ∃ fault, Decoding.decode 0 item.1 item.2 = .error fault
    · obtain ⟨fault, rfl, hfault⟩ := hsome hfails
      exact .failed hfault
    · obtain ⟨ns, rfl, hshows⟩ := hall fun item hitem => by
        cases hdecode : Decoding.decode 0 item.1 item.2 with
        | ok content => exact ⟨content, rfl⟩
        | error fault => exact absurd ⟨item, hitem, fault, hdecode⟩ hfails
      exact .decoded hshows

theorem Delivered.ne_internal {s : Shelf} {outcome : Except Fault Product} (h : Delivered items s outcome)
    (what : String) : outcome ≠ .error (.internal what) := by
  rintro rfl
  cases h with
  | failed hfault =>
    obtain ⟨item, -, hdecode⟩ := hfault
    exact Decoding.decode_ne_internal 0 item.1 item.2 what hdecode

/-! ## What a task keeps -/

structure Kept (items : List (Bytes × Format)) (s : Shelf) (h : Holding Operation Product) : Prop where
  slots : ∀ b, h.body = some b → ∀ (item n : Nat), b.slots[item]? = some (some (Product.bitmap n)) →
    ∃ entry : Bytes × Format, items[item]? = some entry ∧ s.ShowsItem entry n
  waiting : ∀ outcome, h.promise.waiting = some outcome → Delivered items s outcome
  /-- No outcome waits while the body is there. -/
  quiet : h.body ≠ none → h.promise.waiting = none

namespace Kept

variable {s s' : Shelf} {h h' : Holding Operation Product}

theorem keeps_iff : Kept items s h ↔ Keeps (fun s b => ∀ (item n : Nat), b.slots[item]? = some (some (Product.bitmap n)) →
    ∃ entry : Bytes × Format, items[item]? = some entry ∧ s.ShowsItem entry n) (Delivered items) s h :=
  ⟨fun h => ⟨h.slots, h.waiting, h.quiet⟩, fun h => ⟨h.body, h.waiting, h.quiet⟩⟩

theorem congr (hkept : Kept items s h) (hsame : ∀ n ∈ h.made, s'.get? n = s.get? n) : Kept items s' h := by
  refine keeps_iff.2 ((keeps_iff.1 hkept).congr (fun b hmade hslots item n hslot => ?_)
    (fun outcome hnames hdelivered => hdelivered.congr hnames) hsame)
  obtain ⟨entry, hentry, hshows⟩ := hslots item n hslot
  refine ⟨entry, hentry, hshows.congr (hmade n ?_)⟩
  exact Operation.mem_made.2 ⟨.bitmap n, List.mem_of_getElem? hslot, List.mem_singleton_self n⟩

end Kept

/-! ## Deeds of the task -/

namespace Operation

/-- A call for an item puts what decoding the item gives into its slot, and disturbs no bitmap. -/
theorem Decodes.shows {b : Operation} (h : b.Decodes items) (w : World) (k : Nat) {item n : Nat}
    (hslot : (Operation.work w b k).body.slots[item]? = some (some (Product.bitmap n))) :
    b.slots[item]? = some (some (Product.bitmap n)) ∨
    ∃ entry : Bytes × Format, items[item]? = some entry ∧ (Operation.work w b k).world.shelf.ShowsItem entry n := by
  cases hentry : items[k]? with
  | none =>
    have hwork : Operation.work w b k = ⟨w, b, 0, none, .failed (.internal "no such item")⟩ := by
      rw [work_eq h.assignment, perform, hentry, h.spent]
    rw [hwork] at hslot
    exact .inl hslot
  | some entry =>
    rcases work_decodes h w hentry with ⟨fault, -, hwork⟩ | ⟨content, hdecode, hwork⟩
    · rw [hwork] at hslot
      exact .inl hslot
    · rw [hwork] at hslot ⊢
      by_cases heq : k = item
      · subst heq
        have hk : k < b.slots.length := h.length ▸ (List.getElem?_eq_some_iff.1 hentry).1
        obtain rfl : w.shelf.numbers = n :=
          Product.bitmap.inj (Option.some.inj (Option.some.inj ((List.getElem?_set_self hk).symm.trans hslot)))
        refine .inr ⟨entry, hentry, content, hdecode, ?_⟩
        obtain ⟨-, -, -, hget⟩ := w.shelf.put_spec content (some content.footprint)
        show ((w.shelf.put content (some content.footprint)).2.get? w.shelf.numbers).map Slot.content = some content
        rw [hget]
        rfl
      · exact .inl ((List.getElem?_set_ne heq).symm.trans hslot)

/-- **A body whose slots are filled gives their bitmaps**, and nothing changes. -/
theorem Decodes.closes {b : Operation} (h : b.Decodes items) {ns : List Nat}
    (hcollect : Operation.collect 0 b.slots = .ok ns) {w w' : World} {outcome : Except Fault Product}
    (hcloses : Closes behaviour none w b outcome w') : outcome = .ok (.bitmaps ns) ∧ w' = w := by
  obtain ⟨inputs, concurrency, hrequest⟩ := h.request
  have hclean : cleanUp w b = (w, { b with guarded := none }) := by rw [cleanUp, h.guarded]
  have hresult : result w { b with guarded := none } = (.ok (.bitmaps ns), w) := by
    unfold result dropRequest
    dsimp only
    rw [hrequest]
    dsimp only [Request.bitmap?, Request.charge?, World.uncharge]
    rw [hcollect]
  cases hcloses with
  | asked hasked =>
    have hasked' : some (result (cleanUp w b).1 (cleanUp w b).2).1 = some outcome := hasked
    rw [hclean, hresult] at hasked'
    refine ⟨(Option.some.inj hasked').symm, ?_⟩
    show (result (cleanUp w b).1 (cleanUp w b).2).2 = w
    rw [hclean, hresult]

end Operation

theorem Kept.decoded {s : Shelf} {h : Holding Operation Product} (hkept : Kept items s h) {b : Operation}
    (hbody : h.body = some b) (hdecodes : b.Decodes items) {ns : List Nat}
    (hslots : b.slots = ns.map fun n => some (.bitmap n)) : Delivered items s (.ok (.bitmaps ns)) := by
  have hlength : items.length = ns.length := by rw [← hdecodes.length, hslots, List.length_map]
  refine .decoded (List.forall₂_iff_get.2 ⟨hlength, fun i hi hn => ?_⟩)
  have hslot : b.slots[i]? = some (some (Product.bitmap ns[i])) := by
    rw [hslots, List.getElem?_map, List.getElem?_eq_getElem hn]
    rfl
  obtain ⟨entry, hentry, hshows⟩ := hkept.slots b hbody i ns[i] hslot
  obtain rfl : items[i] = entry := Option.some.inj ((List.getElem?_eq_getElem hi).symm.trans hentry)
  exact hshows

section

variable {id partitions : Nat} {c : Cell Operation Product} {s : Strand Operation Product} {f : Fanout}
variable {stopping : Bool} {w w' : World} {hd : Holding Operation Product}
variable {outcome : Except Fault Product} {told : Option (Except Fault Product)}

/-- **A task that decodes ends with all of its bitmaps, or with the fault of one of its items.** -/
theorem Kept.closes (hkept : Kept items w.shelf c.holding) (hprogress : Progress items id c s) (hs : s.Sound)
    (hspread : Spread items.length partitions c s f) (hc : s.cell = some c) {b : Operation} (hbody : c.body = some b)
    (hclaimed : c.settlement.claimed = true) (hcloses : Closes Operation.behaviour c.fault w b outcome w') :
    Delivered items w.shelf outcome ∧ Delivered items w'.shelf outcome := by
  cases hfault : c.fault with
  | some fault =>
    rw [hfault] at hcloses
    cases hcloses with
    | failed => exact ⟨.failed (hprogress.fault fault hfault), .failed (hprogress.fault fault hfault)⟩
  | none =>
    rw [hfault] at hcloses
    obtain ⟨ns, hcollect, hslots⟩ := hprogress.collect hs hspread hc hclaimed hfault hbody
    obtain ⟨rfl, rfl⟩ := (hprogress.body b hbody).closes hcollect hcloses
    have hdecoded := hkept.decoded hbody (hprogress.body b hbody) hslots
    exact ⟨hdecoded, hdecoded⟩

/-- **Every deed of a task that decodes keeps its bitmaps as they should be**, and what it is settled with is delivered.
It is settled when its body is used up, unless a shutdown has begun. -/
theorem Kept.deed (hkept : Kept items w.shelf c.holding) (hprogress : Progress items id c s) (hs : s.Sound)
    (hspread : Spread items.length partitions c s f) (hc : s.cell = some c)
    (hdeed : Deed Operation.behaviour stopping c w w' hd told) :
    Kept items w'.shelf hd ∧
    (∀ outcome, told = some outcome → Delivered items w.shelf outcome ∧
      (c.settlement.promise.dropped = false → Delivered items w'.shelf outcome)) ∧
    (c.body ≠ none → hd.body = none → stopping = false → told ≠ none) := by
  rw [keeps_iff]
  refine (keeps_iff.1 hkept).deed (fun b k hbody hslots item n hslot => ?_) (fun b outcome w' hbody hclaimed hcloses => ?_)
    hdeed
  · rcases (hprogress.body b hbody).shows w k hslot with hslot | hnew
    · obtain ⟨entry, hentry, hshows⟩ := hslots item n hslot
      exact ⟨entry, hentry, hshows.frame (Operation.work_spec w b k).1⟩
    · exact hnew
  · exact hkept.closes hprogress hs hspread hc hbody hclaimed hcloses

end

end BitmapWorks
