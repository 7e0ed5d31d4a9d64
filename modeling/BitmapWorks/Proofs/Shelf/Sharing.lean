import BitmapWorks.Proofs.Shelf.Handles
/-!
# Sharing — handles are references to shared sets

The desk and the catalogue agree (`Agrees`) as long as each slot counts the handles and guards that are alive
(`Shelf.Counts`) and shows the members of its set (`Slot.Shows`).  Every request keeps that and is answered alike
(`Agrees.step`), and so is every sequence of them (`Agrees.run`).  Catalogues that differ only in which sets are used in
place answer alike as well (`Catalogue.Alike.run`), so it does not matter where the values of a handle come from.
-/
namespace BitmapWorks

/-! ## What a slot shows -/

namespace Holders

variable {o : Holders} {h g i : Nat}

theorem handle?_eq : o.handle? h = some i ↔ o.handles[h]? = some (some i) := Option.join_eq_some_iff

theorem guard?_eq : o.guard? g = some i ↔ o.guards[g]? = some (some i) := Option.join_eq_some_iff

end Holders

/-- A handle of serializer output holds what the encoding shows in place. -/
theorem Origin.content_view {b : Bitmap} (rules : b.valid = true) {f : Format} (inPlace : f.isFrozen = true)
    (base copyBase : Nat) : ∃ content, (Origin.view b rules f inPlace base copyBase).content = .ok content ∧
      content.isView = true ∧ content.bitmap = Frozen.view (Encoding.encode b f) f := by
  obtain ⟨w, hw, hvisible, -⟩ := Encoding.serialize_spec rules f base
  obtain ⟨⟨content, hdecode, hview, hcontent⟩, -⟩ := Decoding.decode_encode_of_isFrozen rules inPlace copyBase
  refine ⟨content, ?_, hview, hcontent⟩
  show (do Decoding.decode copyBase (← Encoding.serialize base b f).visible f) = _
  rw [hw]
  show Decoding.decode copyBase w.visible f = _
  rw [hvisible, hdecode]

/-- **A new handle holds a valid bitmap with the members that it is said to have**, also where it looks at bytes in
place. -/
theorem Origin.content_spec (o : Origin) (hfits : o.Fits) : ∃ content, o.content = .ok content ∧
    content.bitmap.valid = true ∧ content.bitmap.members = o.members ∧ content.isView = o.isView := by
  cases o with
  | fresh => exact ⟨.owned .empty, rfl, rfl, Bitmap.members_empty, rfl⟩
  | values vs => exact ⟨.owned (.ofList vs), rfl, Bitmap.valid_ofList vs, Bitmap.members_ofList vs, rfl⟩
  | owned b rules => exact ⟨.owned b, rfl, rules, rfl, rfl⟩
  | view b rules f inPlace base copyBase =>
    obtain ⟨content, hcontent, hview, hb⟩ := Origin.content_view rules inPlace base copyBase
    rw [Decoding.view_encode rules inPlace hfits] at hb
    exact ⟨content, hcontent, hb ▸ rules, congrArg Bitmap.members hb, hview⟩

structure Slot.Shows (t : Slot) (e : Entry) : Prop where
  valid : t.bitmap.valid = true
  members : t.bitmap.members = e.members
  isView : t.content.isView = e.isView

namespace Slot.Shows

variable {t t' : Slot} {e e' : Entry}

theorem reply (h : t.Shows e) (q : Question) : t.reply q = e.reply t.isFrozen q := by
  cases q with
  | contains v =>
    show Answer.yes (t.bitmap.contains v) = .yes (decide (v ∈ e.members))
    rw [Bitmap.contains_eq_decide h.valid, ← h.members]
    simp only [Bitmap.mem_members]
  | card =>
    show Answer.count t.bitmap.card = .count e.members.card
    rw [← h.members, Bitmap.card_members h.valid]
  | isEmpty =>
    show Answer.yes t.bitmap.isEmpty = .yes (decide (e.members = ∅))
    rw [← h.members, Bitmap.isEmpty, ← Bitmap.card_members h.valid]
    simp only [← Finset.card_eq_zero, beq_eq_decide]
  | values =>
    show Answer.listed t.bitmap.values = .listed (e.members.sort (· ≤ ·))
    rw [← h.members, Bitmap.sort_members h.valid]
  | isView => exact congrArg Answer.inPlace h.isView
  | isFrozen => rfl

theorem same (h : t.Shows e) (h' : t'.Shows e') : t.bitmap.sameValues t'.bitmap = decide (e.members = e'.members) := by
  rw [Bitmap.sameValues_eq_decide h.valid h'.valid]
  simp only [h.members, h'.members]

theorem apply (h : t.Shows e) (c : Change) : (t.apply c).Shows ⟨c.onSet e.members, false⟩ := by
  obtain ⟨hvalid, hmembers⟩ := c.apply_spec h.valid
  exact ⟨hvalid, by rw [← h.members, ← hmembers]; rfl, rfl⟩

theorem congr (h : t.Shows e) (hcontent : t'.content = t.content) : t'.Shows e := by
  have hb : t'.bitmap = t.bitmap := congrArg Content.bitmap hcontent
  exact ⟨hb ▸ h.valid, hb ▸ h.members, hcontent ▸ h.isView⟩

end Slot.Shows

/-! ## Counting -/

/-- Whether slots count the holders in a list, where a slot that is not there counts none. -/
def Shelf.Counts (s : Shelf) (count : Slot → Nat) (holders : List (Option Nat)) : Prop :=
  ∀ n, (s.get? n).elim 0 count = holders.count (some n)

namespace Shelf.Counts

variable {s : Shelf} {count : Slot → Nat} {l : List (Option Nat)} {i h : Nat} {t : Slot} {f : Slot → Slot}

theorem pos_iff (hs : s.Counts count l) (ht : s.get? i = some t) : 0 < count t ↔ some i ∈ l := by
  have hi := hs i
  rw [ht] at hi
  rw [← List.count_pos_iff, ← hi]
  rfl

theorem modify (hs : s.Counts count l) (hf : ∀ t, s.get? i = some t → count (f t) = count t) :
    (s.modify i f).Counts count l := by
  intro n
  rw [get?_modify, ← hs]
  split
  · next hn =>
    subst hn
    cases ht : s.get? i with
    | none => rfl
    | some t => exact hf t ht
  · rfl

theorem gain (hs : s.Counts count l) (ht : s.get? i = some t) (hf : ∀ t, count (f t) = count t + 1) :
    (s.modify i f).Counts count (l ++ [some i]) := by
  intro n
  rw [get?_modify, List.count_append, ← hs, List.count_singleton]
  by_cases hn : i = n
  · subst hn
    simp [ht, hf]
  · simp [hn]

theorem lose (hs : s.Counts count l) (hl : l[h]? = some (some i)) (hf : ∀ t, count (f t) = count t - 1) :
    (s.modify i f).Counts count (l.set h none) := by
  intro n
  obtain ⟨hlt, hi⟩ := List.getElem?_eq_some_iff.1 hl
  rw [get?_modify, List.count_set hlt, hi, ← hs]
  by_cases hn : i = n
  · subst hn
    cases s.get? i <;> simp [hf]
  · simp [hn]

theorem clear (hs : s.Counts count l) (ht : s.get? i = some t) (hzero : count t = 0) :
    Counts ⟨s.slots.set i none⟩ count l := by
  intro n
  rw [get?_clear, ← hs]
  split
  · next hn =>
    rw [← hn, ht]
    exact hzero.symm
  · rfl

theorem put (hs : s.Counts count l) (c : Content) :
    (s.put c none).2.Counts count (l ++ List.replicate (count (.ofContent c none)) (some s.numbers)) := by
  intro n
  rw [get?_put, List.count_append, ← hs, List.count_replicate]
  by_cases hn : n = s.numbers
  · subst hn
    simp [get?_of_le s (Nat.le_refl _)]
  · simp [hn, Ne.symm hn]

end Shelf.Counts

/-! ## Agreement -/

/-- **A desk and a catalogue agree**: they have the same holders, and each slot counts them and shows its set. -/
structure Agrees (d : Desk) (c : Catalogue) : Prop where
  holders : d.holders = c.holders
  numbers : d.shelf.numbers = c.sets.length
  handles : d.shelf.Counts Slot.handles c.holders.handles
  guards : d.shelf.Counts Slot.guards c.holders.guards
  shows : ∀ n t, d.shelf.get? n = some t → ∃ e, c.sets[n]? = some e ∧ t.Shows e

namespace Agrees

variable {d : Desk} {c : Catalogue} {h k g i : Nat} {t : Slot} {e : Entry}

theorem empty : Agrees .empty .empty := ⟨rfl, rfl, fun _ => rfl, fun _ => rfl, nofun⟩

theorem isFrozen (ha : Agrees d c) (ht : d.shelf.get? i = some t) : t.isFrozen = c.isFrozen i := by
  unfold Slot.isFrozen Catalogue.isFrozen
  simp only [ha.guards.pos_iff ht]

/-- **A handle that is alive finds a slot and the set that it shows.** -/
theorem found (ha : Agrees d c) (hh : c.holders.handle? h = some i) :
    ∃ t e, d.shelf.get? i = some t ∧ c.sets[i]? = some e ∧ t.Shows e := by
  have hpos : 0 < c.holders.handles.count (some i) :=
    List.count_pos_iff.2 (List.mem_of_getElem? (Holders.handle?_eq.1 hh))
  rw [← ha.handles] at hpos
  cases ht : d.shelf.get? i with
  | none =>
    rw [ht] at hpos
    exact absurd hpos (Nat.lt_irrefl 0)
  | some t =>
    obtain ⟨e, he, hshows⟩ := ha.shows i t ht
    exact ⟨t, e, rfl, he, hshows⟩

/-- **The desk and the catalogue look up a handle alike.** -/
theorem look (ha : Agrees d c) (h : Nat) : d.look h = none ∧ c.look h = none ∨
    ∃ i t e, d.look h = some (i, t) ∧ c.look h = some (i, e) ∧ d.shelf.get? i = some t ∧ c.sets[i]? = some e ∧
      t.Shows e := by
  unfold Desk.look Catalogue.look
  rw [ha.holders]
  cases hh : c.holders.handle? h with
  | none => exact .inl ⟨rfl, rfl⟩
  | some i =>
    obtain ⟨t, e, ht, he, hshows⟩ := ha.found hh
    exact .inr ⟨i, t, e, by simp [ht], by simp [he], ht, he, hshows⟩

theorem hold (ha : Agrees d c) {f : Slot → Slot} (hf : ∀ t, (f t).content = t.content) {o : Holders}
    (hhandles : (d.shelf.modify i f).Counts Slot.handles o.handles)
    (hguards : (d.shelf.modify i f).Counts Slot.guards o.guards) :
    Agrees ⟨d.shelf.modify i f, o⟩ { c with holders := o } := by
  refine ⟨rfl, (List.length_modify ..).trans ha.numbers, hhandles, hguards, fun n t ht => ?_⟩
  rw [Shelf.get?_modify] at ht
  split at ht
  · obtain ⟨t', ht', rfl⟩ := Option.map_eq_some_iff.1 ht
    obtain ⟨e, he, hshows⟩ := ha.shows n t' ht'
    exact ⟨e, he, hshows.congr (hf t')⟩
  · exact ha.shows n t ht

/-- A slot without holders is counted for nobody, so it may be cleared. -/
theorem settle (ha : Agrees d c) (i : Nat) : Agrees ⟨(d.shelf.settle i).2, d.holders⟩ c := by
  rcases d.shelf.settle_cases i with ⟨heq, -⟩ | ⟨t, ht, hhandles, hguards, heq⟩
  · rw [heq]
    exact ha
  rw [heq]
  refine ⟨ha.holders, List.length_set.trans ha.numbers, ha.handles.clear ht hhandles, ha.guards.clear ht hguards,
    fun n t' ht' => ?_⟩
  rw [Shelf.get?_clear] at ht'
  split at ht'
  · cases ht'
  · exact ha.shows n t' ht'

theorem addHandle (ha : Agrees d c) (ht : d.shelf.get? i = some t) :
    Agrees ⟨d.shelf.hold i, d.holders.addHandle i⟩ { c with holders := c.holders.addHandle i } := by
  rw [ha.holders]
  apply ha.hold
  · intro _
    rfl
  · exact ha.handles.gain ht fun _ => rfl
  · exact ha.guards.modify fun _ _ => rfl

theorem addGuard (ha : Agrees d c) (ht : d.shelf.get? i = some t) :
    Agrees ⟨d.shelf.freeze i, d.holders.addGuard i⟩ { c with holders := c.holders.addGuard i } := by
  rw [ha.holders]
  apply ha.hold
  · intro _
    rfl
  · exact ha.handles.modify fun _ _ => rfl
  · exact ha.guards.gain ht fun _ => rfl

theorem dropHandle (ha : Agrees d c) (hh : c.holders.handle? h = some i) :
    Agrees ⟨(d.shelf.drop i).2, d.holders.dropHandle h⟩ { c with holders := c.holders.dropHandle h } := by
  rw [ha.holders]
  have hlost : Agrees ⟨d.shelf.modify i fun t => { t with handles := t.handles - 1 }, c.holders.dropHandle h⟩
      { c with holders := c.holders.dropHandle h } := by
    apply ha.hold
    · intro _
      rfl
    · exact ha.handles.lose (Holders.handle?_eq.1 hh) fun _ => rfl
    · exact ha.guards.modify fun _ _ => rfl
  exact hlost.settle i

theorem dropGuard (ha : Agrees d c) (hg : c.holders.guard? g = some i) :
    Agrees ⟨(d.shelf.unfreeze i).2, d.holders.dropGuard g⟩ { c with holders := c.holders.dropGuard g } := by
  rw [ha.holders]
  have hlost : Agrees ⟨d.shelf.modify i fun t => { t with guards := t.guards - 1 }, c.holders.dropGuard g⟩
      { c with holders := c.holders.dropGuard g } := by
    apply ha.hold
    · intro _
      rfl
    · exact ha.handles.modify fun _ _ => rfl
    · exact ha.guards.lose (Holders.guard?_eq.1 hg) fun _ => rfl
  exact hlost.settle i

theorem place (ha : Agrees d c) {content : Content} (hvalid : content.bitmap.valid = true)
    (hmembers : content.bitmap.members = e.members) (hview : content.isView = e.isView) :
    (d.place content).1 = (c.place e).1 ∧ Agrees (d.place content).2 (c.place e).2 := by
  obtain ⟨hnumber, hnumbers, -, -⟩ := d.shelf.put_spec content none
  have hhandles := ha.handles.put content
  rw [ha.numbers] at hhandles
  refine ⟨congrArg (fun o : Holders => Answer.handle o.handles.length) ha.holders, ?_, ?_, hhandles, ?_,
    fun n t ht => ?_⟩
  · show d.holders.addHandle (d.shelf.put content none).1 = c.holders.addHandle c.sets.length
    rw [ha.holders, hnumber, ha.numbers]
  · show (d.shelf.put content none).2.numbers = (c.sets ++ [e]).length
    rw [hnumbers, ha.numbers, List.length_append, List.length_singleton]
  · have hguards := ha.guards.put content
    rwa [show Slot.guards (.ofContent content none) = 0 from rfl, List.replicate_zero, List.append_nil] at hguards
  · show ∃ e', (c.sets ++ [e])[n]? = some e' ∧ t.Shows e'
    have ht' : (d.shelf.put content none).2.get? n = some t := ht
    rw [Shelf.get?_put] at ht'
    split at ht'
    · next hn =>
      obtain rfl := Option.some.inj ht'
      refine ⟨e, ?_, hvalid, hmembers, hview⟩
      rw [hn, ha.numbers, List.getElem?_concat_length]
    · obtain ⟨e', he', hshows⟩ := ha.shows n t ht'
      refine ⟨e', ?_, hshows⟩
      rw [List.getElem?_append_left (List.getElem?_eq_some_iff.1 he').1]
      exact he'

theorem change (ha : Agrees d c) (ht : d.shelf.get? i = some t) (he : c.sets[i]? = some e) (hshows : t.Shows e)
    (x : Change) : Agrees { d with shelf := d.shelf.modify i fun _ => t.apply x }
      { c with sets := c.sets.set i ⟨x.onSet e.members, false⟩ } := by
  obtain ⟨hlt, -⟩ := List.getElem?_eq_some_iff.1 he
  have hsame : ∀ u, d.shelf.get? i = some u → t = u := fun u hu => Option.some.inj (ht.symm.trans hu)
  refine ⟨ha.holders, ?_, ha.handles.modify fun u hu => by rw [← hsame u hu]; rfl,
    ha.guards.modify fun u hu => by rw [← hsame u hu]; rfl, fun n t' ht' => ?_⟩
  · show (d.shelf.slots.modify i _).length = (c.sets.set i _).length
    rw [List.length_modify, List.length_set]
    exact ha.numbers
  · show ∃ e', (c.sets.set i _)[n]? = some e' ∧ _
    rw [Shelf.get?_modify] at ht'
    split at ht'
    · next hn =>
      subst hn
      rw [ht] at ht'
      obtain rfl := Option.some.inj ht'
      exact ⟨_, List.getElem?_set_self hlt, hshows.apply x⟩
    · next hn =>
      rw [List.getElem?_set_ne hn]
      exact ha.shows n t' ht'

/-- **A request is answered alike, and the desk and the catalogue still agree.** -/
theorem step (ha : Agrees d c) (q : Desk.Request) (hfits : q.Fits) :
    (d.step q).1 = (c.step q).1 ∧ Agrees (d.step q).2 (c.step q).2 := by
  cases q with
  | bring o =>
    obtain ⟨content, hcontent, hvalid, hmembers, hview⟩ := o.content_spec hfits
    simp only [Desk.step, Catalogue.step, hcontent]
    exact ha.place hvalid hmembers hview
  | clone h =>
    rcases ha.look h with ⟨hd, hc⟩ | ⟨i, t, e, hd, hc, ht, -, -⟩ <;> simp only [Desk.step, Catalogue.step, hd, hc]
    · exact ⟨trivial, ha⟩
    · exact ⟨by rw [ha.holders], ha.addHandle ht⟩
  | snapshot h =>
    rcases ha.look h with ⟨hd, hc⟩ | ⟨i, t, e, hd, hc, -, -, hshows⟩ <;> simp only [Desk.step, Catalogue.step, hd, hc]
    · exact ⟨trivial, ha⟩
    · exact ha.place hshows.valid hshows.members rfl
  | drop h =>
    simp only [Desk.step, Catalogue.step, ha.holders]
    cases hh : c.holders.handle? h with
    | none => exact ⟨rfl, ha⟩
    | some i => exact ⟨rfl, ha.holders ▸ ha.dropHandle hh⟩
  | freeze h =>
    rcases ha.look h with ⟨hd, hc⟩ | ⟨i, t, e, hd, hc, ht, -, -⟩ <;> simp only [Desk.step, Catalogue.step, hd, hc]
    · exact ⟨trivial, ha⟩
    · exact ⟨by rw [ha.holders], ha.addGuard ht⟩
  | unfreeze g =>
    simp only [Desk.step, Catalogue.step, ha.holders]
    cases hg : c.holders.guard? g with
    | none => exact ⟨rfl, ha⟩
    | some i => exact ⟨rfl, ha.holders ▸ ha.dropGuard hg⟩
  | change h x =>
    rcases ha.look h with ⟨hd, hc⟩ | ⟨i, t, e, hd, hc, ht, he, hshows⟩ <;>
      simp only [Desk.step, Catalogue.step, hd, hc]
    · exact ⟨trivial, ha⟩
    have hfrozen := ha.isFrozen ht
    cases hstate : t.isFrozen with
    | true =>
      rw [hstate] at hfrozen
      rw [← hfrozen, Shelf.change_of_frozen ht hstate]
      exact ⟨rfl, ha⟩
    | false =>
      rw [hstate] at hfrozen
      rw [← hfrozen, Shelf.change_of_not_frozen ht hstate, x.isNew_eq hshows.valid, hshows.members]
      exact ⟨rfl, ha.change ht he hshows x⟩
  | ask h q =>
    rcases ha.look h with ⟨hd, hc⟩ | ⟨i, t, e, hd, hc, ht, -, hshows⟩ <;> simp only [Desk.step, Catalogue.step, hd, hc]
    · exact ⟨trivial, ha⟩
    · exact ⟨by rw [hshows.reply, ha.isFrozen ht], ha⟩
  | same h k =>
    rcases ha.look h with ⟨hd, hc⟩ | ⟨i, t, e, hd, hc, ht, he, hshows⟩ <;>
      rcases ha.look k with ⟨hd', hc'⟩ | ⟨j, u, e', hd', hc', hu, he', hshows'⟩ <;>
      simp only [Desk.step, Catalogue.step, hd, hc, hd', hc']
    · exact ⟨trivial, ha⟩
    · exact ⟨trivial, ha⟩
    · exact ⟨trivial, ha⟩
    refine ⟨?_, ha⟩
    rw [Shelf.same, ht, hu]
    show Answer.yes (i == j || t.bitmap.sameValues u.bitmap) = _
    rw [hshows.same hshows']
    by_cases hij : i = j
    · -- a handle of the same slot is not compared value by value
      subst hij
      obtain rfl := Option.some.inj (he.symm.trans he')
      simp
    · simp [hij]

theorem run (qs : List Desk.Request) (hfits : ∀ q ∈ qs, q.Fits) : ∀ {d : Desk} {c : Catalogue}, Agrees d c →
    (d.run qs).1 = (c.run qs).1 ∧ Agrees (d.run qs).2 (c.run qs).2 := by
  induction qs with
  | nil =>
    intro d c ha
    exact ⟨rfl, ha⟩
  | cons q qs ih =>
    intro d c ha
    obtain ⟨hfirst, hrest⟩ := List.forall_mem_cons.1 hfits
    obtain ⟨hanswer, ha'⟩ := ha.step q hfirst
    obtain ⟨hanswers, hend⟩ := ih hrest ha'
    exact ⟨List.cons_eq_cons.2 ⟨hanswer, hanswers⟩, hend⟩

end Agrees

/-! ## Views and bitmaps of their own -/

/-- The answer apart from whether a bitmap is used in place. -/
def Answer.contents : Answer → Answer
  | inPlace _ => inPlace false
  | a => a

/-- Whether requests are the same, apart from where the values of a new handle come from. -/
inductive Desk.Request.Alike : Desk.Request → Desk.Request → Prop
  | same (q : Desk.Request) : Alike q q
  | bring {o o' : Origin} (h : o.members = o'.members) : Alike (.bring o) (.bring o')

namespace Catalogue

structure Alike (c c' : Catalogue) : Prop where
  holders : c.holders = c'.holders
  members : c.sets.map Entry.members = c'.sets.map Entry.members

namespace Alike

variable {c c' : Catalogue} {e e' : Entry}

theorem length (ha : c.Alike c') : c.sets.length = c'.sets.length := by
  have h := congrArg List.length ha.members
  rwa [List.length_map, List.length_map] at h

theorem look (ha : c.Alike c') (h : Nat) : c.look h = none ∧ c'.look h = none ∨
    ∃ i e e', c.look h = some (i, e) ∧ c'.look h = some (i, e') ∧ e.members = e'.members := by
  unfold Catalogue.look
  rw [ha.holders]
  cases c'.holders.handle? h with
  | none => exact .inl ⟨rfl, rfl⟩
  | some i =>
    have hi := congrArg (·[i]?) ha.members
    simp only [List.getElem?_map] at hi
    cases he : c.sets[i]? with
    | none =>
      rw [he] at hi
      have he' := Option.map_eq_none_iff.1 hi.symm
      exact .inl ⟨by simp [he], by simp [he']⟩
    | some e =>
      rw [he] at hi
      obtain ⟨e', he', hsame⟩ := Option.map_eq_some_iff.1 hi.symm
      exact .inr ⟨i, e, e', by simp [he], by simp [he'], hsame.symm⟩

theorem isFrozen (ha : c.Alike c') (i : Nat) : c.isFrozen i = c'.isFrozen i := by
  unfold Catalogue.isFrozen
  rw [ha.holders]

theorem reply (hsame : e.members = e'.members) (frozen : Bool) (q : Question) :
    (e.reply frozen q).contents = (e'.reply frozen q).contents := by
  cases q <;> simp [Entry.reply, Answer.contents, hsame]

theorem place (ha : c.Alike c') {e e' : Entry} (hsame : e.members = e'.members) :
    (c.place e).1 = (c'.place e').1 ∧ (c.place e).2.Alike (c'.place e').2 := by
  refine ⟨congrArg (fun o : Holders => Answer.handle o.handles.length) ha.holders, ?_, ?_⟩
  · show c.holders.addHandle c.sets.length = c'.holders.addHandle c'.sets.length
    rw [ha.holders, ha.length]
  · show (c.sets ++ [e]).map Entry.members = (c'.sets ++ [e']).map Entry.members
    simp [ha.members, hsame]

theorem hold (ha : c.Alike c') (o : Holders) : Alike { c with holders := o } { c' with holders := o } :=
  ⟨rfl, ha.members⟩

theorem set (ha : c.Alike c') (i : Nat) (hsame : e.members = e'.members) :
    Alike { c with sets := c.sets.set i e } { c' with sets := c'.sets.set i e' } := by
  refine ⟨ha.holders, ?_⟩
  show (c.sets.set i e).map Entry.members = (c'.sets.set i e').map Entry.members
  rw [List.map_set, List.map_set, ha.members, hsame]

/-- **Alike requests to alike catalogues are answered alike, apart from what is used in place.** -/
theorem step (ha : c.Alike c') {q q' : Desk.Request} (hq : q.Alike q') :
    (c.step q).1.contents = (c'.step q').1.contents ∧ (c.step q).2.Alike (c'.step q').2 := by
  cases hq with
  | @bring o o' hsame =>
    have hentry : Entry.members ⟨o.members, o.isView⟩ = Entry.members ⟨o'.members, o'.isView⟩ := hsame
    obtain ⟨hanswer, hplaced⟩ := ha.place hentry
    exact ⟨congrArg Answer.contents hanswer, hplaced⟩
  | same q =>
    cases q with
    | bring o =>
      obtain ⟨hanswer, hplaced⟩ := ha.place (Eq.refl (Entry.members ⟨o.members, o.isView⟩))
      exact ⟨congrArg Answer.contents hanswer, hplaced⟩
    | clone h =>
      rcases ha.look h with ⟨hc, hc'⟩ | ⟨i, e, e', hc, hc', -⟩ <;> simp only [Catalogue.step, hc, hc']
      · exact ⟨trivial, ha⟩
      · exact ⟨by rw [ha.holders], ha.holders ▸ ha.hold _⟩
    | snapshot h =>
      rcases ha.look h with ⟨hc, hc'⟩ | ⟨i, e, e', hc, hc', hsame⟩ <;> simp only [Catalogue.step, hc, hc']
      · exact ⟨trivial, ha⟩
      · have hentry : Entry.members ⟨e.members, false⟩ = Entry.members ⟨e'.members, false⟩ := hsame
        obtain ⟨hanswer, hplaced⟩ := ha.place hentry
        exact ⟨congrArg Answer.contents hanswer, hplaced⟩
    | drop h =>
      simp only [Catalogue.step, ha.holders]
      cases c'.holders.handle? h with
      | none => exact ⟨rfl, ha⟩
      | some i => exact ⟨rfl, ha.hold _⟩
    | freeze h =>
      rcases ha.look h with ⟨hc, hc'⟩ | ⟨i, e, e', hc, hc', -⟩ <;> simp only [Catalogue.step, hc, hc']
      · exact ⟨trivial, ha⟩
      · exact ⟨by rw [ha.holders], ha.holders ▸ ha.hold _⟩
    | unfreeze g =>
      simp only [Catalogue.step, ha.holders]
      cases c'.holders.guard? g with
      | none => exact ⟨rfl, ha⟩
      | some i => exact ⟨rfl, ha.hold _⟩
    | change h x =>
      rcases ha.look h with ⟨hc, hc'⟩ | ⟨i, e, e', hc, hc', hsame⟩ <;> simp only [Catalogue.step, hc, hc']
      · exact ⟨trivial, ha⟩
      rw [ha.isFrozen i]
      cases c'.isFrozen i with
      | true => exact ⟨rfl, ha⟩
      | false => exact ⟨by rw [hsame]; rfl, ha.set i (congrArg x.onSet hsame)⟩
    | ask h q =>
      rcases ha.look h with ⟨hc, hc'⟩ | ⟨i, e, e', hc, hc', hsame⟩ <;> simp only [Catalogue.step, hc, hc']
      · exact ⟨trivial, ha⟩
      · exact ⟨by rw [ha.isFrozen, reply hsame], ha⟩
    | same h k =>
      rcases ha.look h with ⟨hc, hc'⟩ | ⟨i, e, e', hc, hc', hsame⟩ <;>
        rcases ha.look k with ⟨hk, hk'⟩ | ⟨j, u, u', hk, hk', hsame'⟩ <;>
        simp only [Catalogue.step, hc, hc', hk, hk']
      · exact ⟨trivial, ha⟩
      · exact ⟨trivial, ha⟩
      · exact ⟨trivial, ha⟩
      · exact ⟨by simp only [hsame, hsame'], ha⟩

theorem run {qs qs' : List Desk.Request} (hqs : List.Forall₂ Desk.Request.Alike qs qs') :
    ∀ {c c' : Catalogue}, c.Alike c' → (c.run qs).1.map Answer.contents = (c'.run qs').1.map Answer.contents := by
  induction hqs with
  | nil =>
    intro c c' _
    rfl
  | cons hq _ ih =>
    intro c c' ha
    obtain ⟨hanswer, ha'⟩ := ha.step hq
    exact List.cons_eq_cons.2 ⟨hanswer, ih ha'⟩

end Alike
end Catalogue

namespace Desk

def after (qs : List Request) : Desk := (empty.run qs).2

def answers (qs : List Request) : List Answer := (empty.run qs).1

/-- **Handles are references to shared sets.**  Every sequence of requests is answered as by the catalogue of sets.  At
any time a change through a handle is refused just if some guard of its bitmap is alive, and the desk stays as it was
then; otherwise the members are changed as a set, and the bitmap is one of its own even if it has the same members as
before.  Where the values of a handle came from shows in nothing but whether they are used in place.  All this is said of
handles to bytes only if these can say where the bodies start. -/
theorem answers_eq (qs : List Request) (hfits : ∀ q ∈ qs, q.Fits) :
    answers qs = (Catalogue.empty.run qs).1 ∧
    (∀ h i x, (after qs).holders.handle? h = some i → ∃ t, (after qs).shelf.get? i = some t ∧
      (some i ∈ (after qs).holders.guards → (after qs).step (.change h x) = (.changed (.error .frozen), after qs)) ∧
      (some i ∉ (after qs).holders.guards → ∃ t',
        (after qs).step (.change h x) = (.changed (.ok (x.isNewTo t.bitmap.members)),
          { after qs with shelf := (after qs).shelf.modify i fun _ => t' }) ∧
        t'.bitmap.members = x.onSet t.bitmap.members ∧ t'.content.isView = false)) ∧
    ∀ qs', List.Forall₂ Request.Alike qs qs' → (∀ q ∈ qs', q.Fits) →
      (answers qs).map Answer.contents = (answers qs').map Answer.contents := by
  have hanswers : ∀ qs, (∀ q ∈ qs, q.Fits) → answers qs = (Catalogue.empty.run qs).1 := fun qs hfits =>
    (Agrees.empty.run qs hfits).1
  have ha : Agrees (after qs) (Catalogue.empty.run qs).2 := (Agrees.empty.run qs hfits).2
  refine ⟨hanswers qs hfits, fun h i x hh => ?_, fun qs' hqs hfits' => ?_⟩
  · obtain ⟨t, e, ht, -, hshows⟩ := ha.found (ha.holders ▸ hh)
    have hlook : (after qs).look h = some (i, t) := by simp [look, hh, ht]
    refine ⟨t, ht, fun hguard => ?_, fun hguard => ⟨t.apply x, ?_, (x.apply_spec hshows.valid).2, rfl⟩⟩
    · have hfrozen : t.isFrozen = true := (ha.isFrozen ht).trans (decide_eq_true (ha.holders ▸ hguard))
      simp only [step, hlook, Shelf.change_of_frozen ht hfrozen]
    · have hfree : t.isFrozen = false := (ha.isFrozen ht).trans (decide_eq_false (ha.holders ▸ hguard))
      simp only [step, hlook, Shelf.change_of_not_frozen ht hfree, x.isNew_eq hshows.valid]
  · rw [hanswers qs hfits, hanswers qs' hfits']
    exact Catalogue.Alike.run hqs ⟨rfl, rfl⟩

/-- A view that is cloned and frozen, and changed through the clone once in vain and once to no effect. -/
def lent : List Request :=
  [.bring (.view ⟨[(0, .array #[1, 2])]⟩ (by decide) .frozenPortable rfl 3 5), .clone 0, .freeze 0,
    .change 1 (.add 3), .ask 0 .isView, .unfreeze 0, .change 1 (.add 2), .ask 0 .card, .ask 0 .isView]

theorem fits_lent : ∀ q ∈ lent, q.Fits := by
  have hview : Portable.addressable ⟨[(0, .array #[1, 2])]⟩ = true :=
    Portable.addressable_of_plain (by decide) (by simp [Bitmap.Plain, Container.isRuns])
  simp [lent, Request.Fits, Origin.Fits, hview]

theorem answers_eq_lent : (∀ q ∈ lent, q.Fits) ∧ answers lent = [.handle 0, .handle 1, .guard 0,
      .changed (.error .frozen), .inPlace true, .dropped, .changed (.ok false), .count 2, .inPlace false] ∧
    (after lent).holders.handle? 0 = some 0 ∧
    ∃ t', (after lent).step (.change 0 .clear) = (.changed (.ok false),
        { after lent with shelf := (after lent).shelf.modify 0 fun _ => t' }) ∧ t'.bitmap.members = ∅ := by
  obtain ⟨hanswers, hchange, -⟩ := answers_eq lent fits_lent
  have hholders : (after lent).holders = ⟨[some 0, some 0], [none]⟩ := (Agrees.empty.run lent fits_lent).2.holders
  have hhandle : (after lent).holders.handle? 0 = some 0 := by
    rw [hholders]
    rfl
  obtain ⟨t, -, -, hfree⟩ := hchange 0 0 .clear hhandle
  obtain ⟨t', hstep, hmembers, -⟩ := hfree (by rw [hholders]; decide)
  exact ⟨fits_lent, hanswers, hhandle, t', hstep, hmembers⟩

/-- What a handle answers, and one that is made of given values, when they are asked for their values and compared. -/
theorem answers_beside_values {o : Origin} {content : Content} (ho : o.content = .ok content) (vs : List UInt32) :
    answers [.bring o, .ask 0 .values, .bring (.values vs), .ask 1 .values, .same 0 1] =
      [.handle 0, .listed content.bitmap.values, .handle 1, .listed (Bitmap.ofList vs).values,
        .yes (content.bitmap.sameValues (.ofList vs))] := by
  simp only [answers, run, step, ho]
  rfl

/-- **A handle to bytes that cannot say where the bodies start lists less than was serialized**, and is not even equal to
one that is made of what it lists. -/
theorem shredded_lists_less :
    answers [.bring (.view Portable.shredded Portable.valid_shredded .frozenPortable rfl 0 0), .ask 0 .values,
        .bring (.values Portable.frayed.values), .ask 1 .values, .same 0 1] =
      [.handle 0, .listed Portable.frayed.values, .handle 1, .listed Portable.frayed.values, .yes false] ∧
    Portable.frayed.values ≠ Portable.shredded.values := by
  have hvalues : (Bitmap.ofList Portable.frayed.values).values = Portable.frayed.values := by
    rw [Portable.values_frayed]
    exact Bitmap.values_ofList_values (Portable.valid_shards (by decide))
  obtain ⟨content, hcontent, -, hshows⟩ :=
    Origin.content_view Portable.valid_shredded (f := .frozenPortable) rfl 0 0
  rw [Decoding.view_encode_shredded] at hshows
  refine ⟨?_, Portable.values_frayed_ne⟩
  rw [answers_beside_values hcontent, hshows, hvalues, Portable.sameValues_frayed]

end Desk
end BitmapWorks
