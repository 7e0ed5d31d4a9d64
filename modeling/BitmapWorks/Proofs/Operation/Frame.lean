import BitmapWorks.Operation
import BitmapWorks.Proofs.Shelf.Slots
/-!
# Frame — which bitmaps an operation touches

An operation names bitmaps: the one that its request reads, and those that it has made.  What is done for an operation
touches no other bitmaps (`Shelf.Frame`), and what it makes is new (`Operation.work_spec`).
-/
namespace BitmapWorks

open BitmapWorks.Shelf (Frame)

/-! ## Names -/

def Product.names : Product → List Nat
  | bitmap n => [n]
  | bitmaps ns => ns
  | _ => []

/-- The numbers of the bitmaps that come with an answer. -/
def Product.namesOf : Except Fault Product → List Nat
  | .ok product => product.names
  | .error _ => []

namespace Operation

def made (o : Operation) : List Nat := o.slots.flatMap fun slot => (slot.map Product.names).getD []

def lent (o : Operation) : List Nat := o.request.bitmap?.toList ++ o.guarded.toList

@[simp] theorem bitmap?_spent (r : Request) : r.spent.bitmap? = r.bitmap? := by
  cases r <;> rfl

def names (o : Operation) : List Nat := o.lent ++ o.made

theorem mem_made {o : Operation} {n : Nat} : n ∈ o.made ↔ ∃ product, some product ∈ o.slots ∧ n ∈ product.names := by
  unfold made
  rw [List.mem_flatMap]
  constructor
  · rintro ⟨slot, hslot, hn⟩
    cases slot with
    | none => simp at hn
    | some product => exact ⟨product, hslot, hn⟩
  · rintro ⟨product, hslot, hn⟩
    exact ⟨some product, hslot, hn⟩

/-! ## Dropping -/

@[simp] theorem shelf_uncharge (w : World) (charge : Option Nat) : (w.uncharge charge).shelf = w.shelf := by
  cases charge <;> rfl

theorem frame_release (w : World) (p : Product) : Frame p.names w.shelf (p.release w).shelf := by
  cases p with
  | buffer window charge =>
    show Frame [] w.shelf (w.uncharge charge).shelf
    rw [shelf_uncharge]
    exact .refl _ _
  | text bytes charge => exact .refl _ _
  | saved bytes => exact .refl _ _
  | bitmap n => exact w.shelf.frame_drop n
  | bitmaps ns =>
    show Frame ns w.shelf (ns.foldl World.letGo w).shelf
    induction ns generalizing w with
    | nil => exact .refl _ _
    | cons n ns ih =>
      have hfirst : Frame [n] w.shelf (w.letGo n).shelf := w.shelf.frame_drop n
      rw [List.foldl_cons]
      exact (hfirst.mono (by simp)).trans ((ih (w.letGo n)).mono (List.subset_cons_self n ns))

theorem frame_releaseAll (w : World) (slots : List (Option Product)) :
    Frame (slots.flatMap fun slot => (slot.map Product.names).getD []) w.shelf (releaseAll w slots).shelf := by
  unfold releaseAll
  induction slots generalizing w with
  | nil => exact .refl _ _
  | cons slot slots ih =>
    rw [List.foldl_cons, List.flatMap_cons]
    refine Frame.trans ?_ ((ih _).mono (List.subset_append_right _ _))
    cases slot with
    | none => exact .refl _ _
    | some product => exact (frame_release w product).mono (List.subset_append_left _ _)

theorem frame_dropRequest (w : World) (r : Request) : Frame r.bitmap?.toList w.shelf (dropRequest w r).shelf := by
  unfold dropRequest
  rw [shelf_uncharge]
  cases r.bitmap? with
  | none => exact .refl _ _
  | some n => exact w.shelf.frame_drop n

theorem frame_cleanUp (w : World) (o : Operation) : Frame o.lent w.shelf (cleanUp w o).1.shelf := by
  unfold cleanUp
  cases h : o.guarded with
  | none => exact .refl _ _
  | some n => exact (w.shelf.frame_unfreeze n).mono (by simp [lent, h])

theorem frame_discard (w : World) (o : Operation) : Frame o.names w.shelf (discard w o).shelf := by
  have hclean := (frame_cleanUp w o).mono (List.subset_append_left o.lent o.made)
  have hdrop := frame_dropRequest (cleanUp w o).1 o.request
  refine hclean.trans ((hdrop.mono ?_).trans ((frame_releaseAll _ o.slots).mono ?_))
  · exact fun n hn => List.mem_append_left _ (List.mem_append_left _ hn)
  · exact List.subset_append_right _ _

theorem names_cleanUp (w : World) (o : Operation) :
    (cleanUp w o).2.names ⊆ o.names ∧ (cleanUp w o).2.made = o.made := by
  refine ⟨fun n hn => ?_, rfl⟩
  simp only [cleanUp, names, lent, made, Option.toList_none, List.append_nil, List.mem_append] at hn ⊢
  rcases hn with hn | hn
  · exact .inl (.inl hn)
  · exact .inr hn

/-! ## Results -/

theorem collect_map (ns : List Nat) (n : Nat) : collect n (ns.map fun i => some (.bitmap i)) = .ok ns := by
  induction ns generalizing n with
  | nil => rfl
  | cons i ns ih =>
    rw [List.map_cons, collect, ih]
    rfl

theorem eq_of_collect : ∀ {slots : List (Option Product)} {n : Nat} {ns : List Nat}, collect n slots = .ok ns →
    slots = ns.map fun i => some (.bitmap i)
  | [], n, ns, h => by
    cases h
    rfl
  | none :: rest, n, ns, h => by cases h
  | some product :: rest, n, ns, h => by
    cases product with
    | bitmap i =>
      rw [collect] at h
      cases hrest : collect (n + 1) rest with
      | error fault =>
        rw [hrest] at h
        cases h
      | ok js =>
        rw [hrest] at h
        cases h
        rw [eq_of_collect hrest]
        rfl
    | _ => cases h

/-- **The result of an operation comes with bitmaps that the operation has made.** -/
theorem result_spec (w : World) (o : Operation) : Frame o.names w.shelf (result w o).2.shelf ∧
    ∀ n ∈ Product.namesOf (result w o).1, n ∈ o.made := by
  have hdrop : Frame o.names w.shelf (dropRequest w o.request).shelf :=
    (frame_dropRequest w o.request).mono fun n hn => List.mem_append_left _ (List.mem_append_left _ hn)
  have hall := (frame_releaseAll (dropRequest w o.request) o.slots).mono (List.subset_append_right o.lent o.made)
  unfold result
  dsimp only
  split
  · split
    · rename_i ns hcollect
      refine ⟨hdrop, fun n hn => ?_⟩
      rw [mem_made, eq_of_collect hcollect]
      exact ⟨.bitmap n, List.mem_map_of_mem hn, List.mem_singleton_self n⟩
    · exact ⟨hdrop.trans hall, nofun⟩
  · split
    · rename_i product hslots
      refine ⟨hdrop, fun n hn => ?_⟩
      rw [mem_made, hslots]
      exact ⟨product, List.mem_singleton_self _, hn⟩
    · exact ⟨hdrop, nofun⟩

/-! ## Work -/

/-- Whether what is done disturbs no bitmap, and the bitmaps of its answer are new. -/
structure Fresh (w : World) (answer : Except Fault Product) (w' : World) : Prop where
  frame : Frame [] w.shelf w'.shelf
  new : ∀ n ∈ Product.namesOf answer, w.shelf.numbers ≤ n ∧ n < w'.shelf.numbers

theorem Fresh.of_nameless {w w' : World} {answer : Except Fault Product} (hshelf : w'.shelf = w.shelf)
    (hnames : Product.namesOf answer = []) : Fresh w answer w' := by
  refine ⟨hshelf ▸ .refl _ _, fun n hn => ?_⟩
  rw [hnames] at hn
  cases hn

theorem fresh_store (w : World) (content : Except Fault Content) :
    Fresh w (perform.store w content).1 (perform.store w content).2.1 := by
  cases content with
  | error fault => exact .of_nameless rfl rfl
  | ok c =>
    obtain ⟨hnumber, hgrows, hframe, -⟩ := w.shelf.put_spec c (some c.footprint)
    refine ⟨hframe, fun n hn => ?_⟩
    obtain rfl : n = w.shelf.numbers := List.mem_singleton.1 hn
    exact ⟨Nat.le_refl _, Nat.lt_of_lt_of_eq (Nat.lt_succ_self _) hgrows.symm⟩

theorem fresh_perform (w : World) (item : Nat) (a : Assignment) :
    Fresh w (perform w item a).1 (perform w item a).2.1 := by
  cases a with
  | serialize i f target =>
    cases target with
    | none =>
      rw [perform]
      cases Encoding.serialize 0 (w.bitmap i) f <;> exact .of_nameless rfl rfl
    | some target =>
      rw [perform]
      cases serializeInto (w.bitmap i) f target.window with
      | error fault => exact .of_nameless (shelf_uncharge w target.charge) rfl
      | ok window => exact .of_nameless rfl rfl
  | save i path f =>
    refine .of_nameless rfl ?_
    rw [perform]
    obtain ⟨answer, files⟩ := w.files.save (w.bitmap i) path f
    cases answer <;> rfl
  | render i style => exact .of_nameless rfl rfl
  | decode bytes f => exact fresh_store w _
  | load path f => exact fresh_store w _
  | decodeMany items =>
    rw [perform]
    cases items[item]? with
    | none => exact .of_nameless rfl rfl
    | some entry => exact fresh_store w _
  | build values => exact fresh_store w _

theorem work_eq {o : Operation} {a : Assignment} (h : o.assignment = some a) (w : World) (item : Nat) :
    work w o item = match perform w item a with
      | (.error fault, w, _) => ⟨w, { o with request := o.request.spent }, 0, none, .failed fault⟩
      | (.ok product, w, bytes) =>
        ⟨w, { o with request := o.request.spent, slots := o.slots.set item (some product) }, Ledger.entry bytes, none,
          .done⟩ := by
  obtain ⟨request, assignment, guarded, slots⟩ := o
  cases h
  rfl

/-- **A call of the work disturbs no bitmap, and what it adds to the body is new.** -/
theorem work_spec (w : World) (o : Operation) (item : Nat) :
    Frame [] w.shelf (work w o item).world.shelf ∧ (work w o item).body.lent = o.lent ∧
      ∀ n ∈ (work w o item).body.made,
        n ∈ o.made ∨ (w.shelf.numbers ≤ n ∧ n < (work w o item).world.shelf.numbers) := by
  unfold work
  cases o.assignment with
  | none => exact ⟨.refl _ _, rfl, fun n hn => .inl hn⟩
  | some a =>
    have hfresh := fresh_perform w item a
    dsimp only
    generalize perform w item a = done at hfresh ⊢
    obtain ⟨answer, world, bytes⟩ := done
    have hlent : o.request.spent.bitmap?.toList ++ o.guarded.toList = o.lent := by rw [bitmap?_spent, lent]
    cases answer with
    | error fault => exact ⟨hfresh.frame, hlent, fun n hn => .inl hn⟩
    | ok product =>
      refine ⟨hfresh.frame, hlent, fun n hn => ?_⟩
      obtain ⟨product', hslot, hnames⟩ := mem_made.1 hn
      rcases List.mem_or_eq_of_mem_set hslot with hslot | heq
      · exact .inl (mem_made.2 ⟨product', hslot, hnames⟩)
      · obtain rfl := Option.some.inj heq
        exact .inr (hfresh.new n hnames)

theorem recorded_work (w : World) (o : Operation) (item : Nat) : (work w o item).recorded = none := by
  unfold work
  cases o.assignment with
  | none => rfl
  | some a =>
    dsimp only
    obtain ⟨answer, world, bytes⟩ := perform w item a
    cases answer <;> rfl

/-! ## Preparing -/

theorem prepare_ofRequest_error {r : Request} {fault : Fault} (h : r.resolve = .error fault) (w : World) :
    prepare w (ofRequest r) = (.error fault, w, ofRequest r) := by
  have hrequest : (ofRequest r).request.resolve = .error fault := h
  unfold prepare
  rw [hrequest]

theorem prepare_ofRequest_ok {r : Request} {a : Assignment} (h : r.resolve = .ok a) (w : World) :
    prepare w (ofRequest r) = (.ok (), (match r.bitmap? with
      | some i => w.freeze i
      | none => w), ⟨r, some a, r.bitmap?, List.replicate a.slots none⟩) := by
  have hrequest : (ofRequest r).request.resolve = .ok a := h
  unfold prepare
  rw [hrequest]
  rfl

/-- **Preparing a request touches the bitmap that is read, and makes nothing.** -/
theorem prepare_spec (w : World) (r : Request) :
    Frame r.bitmap?.toList w.shelf (prepare w (ofRequest r)).2.1.shelf ∧
      (prepare w (ofRequest r)).2.2.names ⊆ r.bitmap?.toList ∧ (prepare w (ofRequest r)).2.2.made = [] := by
  cases hresolve : r.resolve with
  | error fault =>
    rw [prepare_ofRequest_error hresolve]
    exact ⟨.refl _ _, by simp [names, lent, made, ofRequest], rfl⟩
  | ok a =>
    rw [prepare_ofRequest_ok hresolve]
    have hempty : (Operation.mk r (some a) r.bitmap? (List.replicate a.slots none)).made = [] := by simp [made]
    refine ⟨?_, ?_, hempty⟩
    · cases r.bitmap? with
      | none => exact .refl _ _
      | some i => exact w.shelf.frame_modify i _
    · rw [names, hempty, List.append_nil]
      exact List.append_subset.2 ⟨List.Subset.refl _, List.Subset.refl _⟩

end Operation
end BitmapWorks
