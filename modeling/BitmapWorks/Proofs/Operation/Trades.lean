import BitmapWorks.Proofs.Dispatcher.Craft
import BitmapWorks.Proofs.Operation.Assets
/-!
# Trades — what operations own, and what they do with it

A request owns a handle of its bitmap and the charge of its buffer; a body owns these, its guard, and the products in its
slots; a product owns the charge or the handles that come with it.  Preparing a body, working on it, cleaning it up,
asking it for its result, and dropping any of these are trades of such assets.

A call of the work may also end abnormally (`faltering`).  Whatever a call does, it is one of a few things (`Call`), if
it is for a slot that is vacant; and that is so for every call that is ever made (`vacant_of_wrought`).
-/
namespace BitmapWorks

/-! ## Owners -/

namespace Product

def assets : Product → Multiset Asset
  | buffer _ charge => Asset.ofCharge charge
  | text _ bytes => {.charge bytes}
  | saved _ => 0
  | bitmap n => {.handle n}
  | bitmaps ns => ↑(ns.map Asset.handle)

def assetsOf : Except Fault Product → Multiset Asset
  | .ok product => product.assets
  | .error _ => 0

end Product

def Request.assets (r : Request) : Multiset Asset := Asset.ofHandle r.bitmap? + Asset.ofCharge r.charge?

namespace Operation

def slotAssets (slots : List (Option Product)) : Multiset Asset := (slots.map fun slot => slot.elim 0 Product.assets).sum

def assets (o : Operation) : Multiset Asset := o.request.assets + Asset.ofGuard o.guarded + slotAssets o.slots

@[simp] theorem slotAssets_replicate (n : Nat) : slotAssets (List.replicate n none) = 0 := by
  simp [slotAssets]

/-! ## Guards are with bodies only -/

theorem guard_notMem_request (r : Request) (n : Nat) : .guard n ∉ r.assets := by
  intro h
  rcases Multiset.mem_add.1 h with h | h
  · cases hbitmap : r.bitmap? <;> rw [hbitmap] at h <;> simp [Asset.ofHandle] at h
  · cases hcharge : r.charge? <;> rw [hcharge] at h <;> simp [Asset.ofCharge] at h

theorem guard_notMem_product (p : Product) (n : Nat) : .guard n ∉ p.assets := by
  cases p with
  | buffer window charge => cases charge <;> simp [Product.assets, Asset.ofCharge]
  | _ => simp [Product.assets]

theorem guard_notMem_assetsOf (outcome : Except Fault Product) (n : Nat) : .guard n ∉ Product.assetsOf outcome := by
  cases outcome with
  | error fault => exact Multiset.notMem_zero _
  | ok product => exact guard_notMem_product product n

theorem guard_notMem_slots (slots : List (Option Product)) (n : Nat) : .guard n ∉ slotAssets slots := by
  intro h
  obtain ⟨slot, -, hmem⟩ := mem_sum_map.1 h
  cases slot with
  | none => exact absurd hmem (Multiset.notMem_zero _)
  | some product => exact guard_notMem_product product n hmem

/-! ## Dropping -/

theorem trade_release (w : World) (p : Product) : Trade w (p.release w) p.assets 0 0 := by
  cases p with
  | buffer window charge => exact w.trade_uncharge charge
  | text bytes charge => exact w.trade_discharge charge
  | saved bytes => exact .refl w 0
  | bitmap n => exact w.trade_letGo n
  | bitmaps ns =>
    show Trade w (ns.foldl World.letGo w) ↑(ns.map Asset.handle) 0 0
    induction ns generalizing w with
    | nil => exact .refl w 0
    | cons n ns ih => exact (w.trade_letGo n).seq (ih (w.letGo n))

theorem trade_releaseAll (w : World) (slots : List (Option Product)) :
    Trade w (releaseAll w slots) (slotAssets slots) 0 0 := by
  unfold releaseAll
  induction slots generalizing w with
  | nil => exact .refl w 0
  | cons slot slots ih =>
    rw [List.foldl_cons, slotAssets, List.map_cons, List.sum_cons]
    cases slot with
    | none => exact (Trade.refl w 0).seq (ih w)
    | some product => exact (trade_release w product).seq (ih _)

theorem trade_dropRequest (w : World) (r : Request) : Trade w (dropRequest w r) r.assets 0 0 := by
  unfold dropRequest Request.assets
  cases r.bitmap? with
  | none => exact (Trade.refl w 0).seq (w.trade_uncharge _)
  | some n => exact (w.trade_letGo n).seq (World.trade_uncharge _ _)

/-- **Cleaning up gives the guard back**, and nothing else. -/
theorem trade_cleanUp (w : World) (o : Operation) :
    Trade w (cleanUp w o).1 o.assets (cleanUp w o).2.assets 0 := by
  have hguard : Trade w (cleanUp w o).1 (Asset.ofGuard o.guarded) 0 0 := by
    unfold cleanUp
    cases o.guarded with
    | none => exact .refl w 0
    | some n => exact w.trade_unfreeze n
  refine (hguard.frame (o.request.assets + slotAssets o.slots)).cast ?_ ?_ rfl
  · rw [assets, add_comm o.request.assets, add_assoc]
  · show o.request.assets + 0 + slotAssets o.slots = 0 + (o.request.assets + slotAssets o.slots)
    rw [add_zero, zero_add]

theorem trade_discard (w : World) (o : Operation) : Trade w (discard w o) o.assets 0 0 := by
  have hrest : Trade (cleanUp w o).1 (discard w o) (cleanUp w o).2.assets 0 0 :=
    ((trade_dropRequest _ o.request).seq (trade_releaseAll _ o.slots)).cast (by
      show o.request.assets + 0 + slotAssets o.slots = _
      rw [add_zero]) rfl rfl
  exact ((trade_cleanUp w o).trans hrest).cast rfl rfl rfl

/-! ## Results -/

theorem slotAssets_bitmaps (ns : List Nat) :
    slotAssets (ns.map fun n => some (.bitmap n)) = ↑(ns.map Asset.handle) := by
  induction ns with
  | nil => rfl
  | cons n ns ih =>
    rw [slotAssets, List.map_cons, List.map_cons, List.sum_cons]
    show {Asset.handle n} + slotAssets _ = _
    rw [ih]
    rfl

/-- Whether a body has one slot at most, unless it decodes many items. -/
def Slotted (o : Operation) : Prop :=
  (∃ inputs concurrency, o.request = .deserializeMany inputs concurrency) ∨ o.slots.length ≤ 1

/-- **The result of a body comes with what was in its slots**, and the rest of what the body owns is dropped. -/
theorem trade_result {o : Operation} (hslots : o.Slotted) (hguard : o.guarded = none) (w : World) :
    Trade w (result w o).2 o.assets (Product.assetsOf (result w o).1) 0 := by
  have hdrop : Trade w (dropRequest w o.request) o.assets (slotAssets o.slots) 0 := by
    refine ((trade_dropRequest w o.request).frame (slotAssets o.slots)).cast ?_ (zero_add _).symm rfl
    rw [assets, hguard]
    exact congrArg (· + slotAssets o.slots) (add_zero _)
  unfold result
  dsimp only
  split
  · split
    · rename_i ns hcollect
      refine hdrop.cast rfl ?_ rfl
      rw [eq_of_collect hcollect, slotAssets_bitmaps]
      rfl
    · exact (hdrop.trans (trade_releaseAll _ _)).cast rfl rfl rfl
  · rename_i hmany
    split
    · rename_i product hproduct
      refine hdrop.cast rfl ?_ rfl
      rw [hproduct]
      exact (add_zero _).symm
    · rename_i hnot
      -- neither a slot that is filled, nor more than one: there is nothing to drop
      refine hdrop.cast rfl ?_ rfl
      have hone : o.slots.length ≤ 1 := hslots.resolve_left fun ⟨inputs, concurrency, heq⟩ => hmany inputs concurrency heq
      match hslots : o.slots, hone with
      | [], _ => rfl
      | [none], _ => rfl
      | [some product], _ => exact absurd hslots (hnot product)

/-! ## Preparing -/

/-- **Preparing a request gives it a guard of its bitmap**, or nothing if it is refused. -/
theorem trade_prepare (w : World) (r : Request) :
    Trade w (prepare w (ofRequest r)).2.1 r.assets (prepare w (ofRequest r)).2.2.assets 0 := by
  have hplain : (ofRequest r).assets = r.assets := by
    show r.assets + 0 + 0 = r.assets
    rw [add_zero, add_zero]
  cases hresolve : r.resolve with
  | error fault =>
    rw [prepare_ofRequest_error hresolve]
    exact (Trade.refl w r.assets).cast rfl hplain rfl
  | ok a =>
    rw [prepare_ofRequest_ok hresolve]
    have hbody : ∀ bitmap : Option Nat, (Operation.mk r (some a) bitmap (List.replicate a.slots none)).assets =
        r.assets + Asset.ofGuard bitmap := fun bitmap => by
      rw [assets, slotAssets_replicate, add_zero]
    rw [hbody]
    unfold Request.assets
    cases r.bitmap? with
    | none => exact (Trade.refl w _).cast rfl (add_zero _) rfl
    | some n =>
      refine ((w.trade_freeze n).frame (Asset.ofCharge r.charge?)).cast rfl ?_ rfl
      show {Asset.handle n} + Asset.ofCharge r.charge? + {Asset.guard n} = {Asset.guard n} + {Asset.handle n} + _
      rw [add_comm _ {Asset.guard n}, add_assoc]

end Operation

/-! ## Calls -/

def Assignment.target? : Assignment → Option Target
  | serialize _ _ target => target
  | _ => none

inductive Request.Becomes : Request → Assignment → Prop
  | serialize {i selector f target} : selector.resolve = .ok f →
    Becomes (.serialize i selector target) (.serialize i f target)
  | save {i path format f} : checkPath path = .ok () → FileFormat.ofName format = .ok f →
    Becomes (.serializeFile i path format) (.save i path f)
  | render {i name style} : TextStyle.ofName name = .ok style → Becomes (.toText i name) (.render i style)
  | decode {bytes selector f} : selector.resolve = .ok f → Becomes (.deserialize bytes selector) (.decode bytes f)
  | load {path format f} : checkPath path = .ok () → FileFormat.ofName format = .ok f →
    Becomes (.deserializeFile path format) (.load path f)
  | decodeMany {inputs concurrency items} : items.length = inputs.length →
    Becomes (.deserializeMany inputs concurrency) (.decodeMany items)
  | build {values} : Becomes (.fromValues values) (.build values)

theorem ok_of_bind {α β : Type} {x : Except Fault α} {f : α → Except Fault β} {b : β} (h : (x >>= f) = .ok b) :
    ∃ a, x = .ok a ∧ f a = .ok b := by
  cases x with
  | error fault => cases h
  | ok a => exact ⟨a, rfl, h⟩

theorem length_of_mapM {α β : Type} {f : α → Except Fault β} {l : List α} {l' : List β} (h : l.mapM f = .ok l') :
    l'.length = l.length := by
  induction l generalizing l' with
  | nil =>
    cases h
    rfl
  | cons a l ih =>
    rw [List.mapM_cons] at h
    obtain ⟨b, -, h⟩ := ok_of_bind h
    obtain ⟨rest, hrest, h⟩ := ok_of_bind h
    cases h
    rw [List.length_cons, List.length_cons, ih hrest]

theorem Request.becomes_of_resolve {r : Request} {a : Assignment} (h : r.resolve = .ok a) : r.Becomes a := by
  cases r with
  | serialize i selector target =>
    obtain ⟨f, hf, h⟩ := ok_of_bind h
    cases h
    exact .serialize hf
  | serializeFile i path format =>
    obtain ⟨⟨⟩, hpath, h⟩ := ok_of_bind h
    obtain ⟨f, hf, h⟩ := ok_of_bind h
    cases h
    exact .save hpath hf
  | toText i name =>
    obtain ⟨style, hstyle, h⟩ := ok_of_bind h
    cases h
    exact .render hstyle
  | deserialize bytes selector =>
    obtain ⟨f, hf, h⟩ := ok_of_bind h
    cases h
    exact .decode hf
  | deserializeFile path format =>
    obtain ⟨⟨⟩, hpath, h⟩ := ok_of_bind h
    obtain ⟨f, hf, h⟩ := ok_of_bind h
    cases h
    exact .load hpath hf
  | deserializeMany inputs concurrency =>
    unfold resolve at h
    dsimp only at h
    split at h
    · cases h
    · obtain ⟨items, hitems, h⟩ := ok_of_bind h
      cases h
      exact .decodeMany (length_of_mapM hitems)
  | fromValues values =>
    cases h
    exact .build

namespace Operation

/-- Operations of which some calls end abnormally: the function tells which, and with what message.  What the call has
taken is dropped. -/
def faltering (trips : World → Operation → Nat → Option (Option String)) : Behaviour World Operation Product :=
  { behaviour with
    work := fun w o item => match trips w o item with
      | none => work w o item
      | some message =>
        ⟨w.uncharge o.request.charge?, { o with request := o.request.spent }, 0, none, .panicked message⟩ }

theorem work_faltering (trips : World → Operation → Nat → Option (Option String)) (w : World) (o : Operation)
    (item : Nat) : (faltering trips).work w o item = match trips w o item with
      | none => work w o item
      | some message =>
        ⟨w.uncharge o.request.charge?, { o with request := o.request.spent }, 0, none, .panicked message⟩ := rfl

/-- What doing an item of an assignment gives, with the world afterwards and the bytes that are charged. -/
inductive Yields (w : World) (a : Assignment) : Except Fault Product → World → Nat → Prop
  /-- Nothing is given, and the buffer that was to be written to is dropped. -/
  | failed {fault} (files : FileSystem) :
    Yields w a (.error fault) (({ w with files } : World).uncharge (a.target?.bind Target.charge)) 0
  /-- What is given is in the buffer that was to be written to, or in a file. -/
  | written {product} (files : FileSystem) : a.target? ≠ none ∨ product.assets = 0 →
    product.assets = Asset.ofCharge (a.target?.bind Target.charge) → product.names = [] →
    Yields w a (.ok product) { w with files } 0
  /-- What is given has memory of its own. -/
  | charged {product bytes} : a.target? = none → product.assets = {.charge bytes} → product.names = [] →
    Yields w a (.ok product) w bytes
  /-- A new bitmap is given. -/
  | placed {content} : a.target? = none →
    Yields w a (.ok (.bitmap w.shelf.numbers)) (w.place content (some content.footprint)).2 content.footprint

variable {w : World} {o : Operation} {a : Assignment} {item : Nat}

theorem yields_store (htarget : a.target? = none) (w : World) (content : Except Fault Content) :
    Yields w a (perform.store w content).1 (perform.store w content).2.1 (perform.store w content).2.2 := by
  cases content with
  | error fault =>
    have hfailed : Yields w a (.error fault) _ 0 := .failed w.files
    rw [htarget] at hfailed
    exact hfailed
  | ok content => exact .placed htarget

/-- **Whatever an assignment asks for, what it gives is paid for.** -/
theorem yields_perform (w : World) (item : Nat) (a : Assignment) :
    Yields w a (perform w item a).1 (perform w item a).2.1 (perform w item a).2.2 := by
  cases a with
  | serialize i f target =>
    cases target with
    | none =>
      rw [perform]
      cases Encoding.serialize 0 (w.bitmap i) f with
      | error fault => exact .failed w.files
      | ok window => exact .charged rfl rfl rfl
    | some target =>
      rw [perform]
      cases serializeInto (w.bitmap i) f target.window with
      | error fault => exact .failed w.files
      | ok window => exact .written w.files (.inl (Option.some_ne_none target)) rfl rfl
  | save i path f =>
    rw [perform]
    obtain ⟨answer, files⟩ := w.files.save (w.bitmap i) path f
    cases answer with
    | error fault => exact .failed files
    | ok bytes => exact .written files (.inr rfl) rfl rfl
  | render i style => exact .charged rfl rfl rfl
  | decode bytes f => exact yields_store rfl w _
  | load path f => exact yields_store rfl w _
  | decodeMany items =>
    rw [perform]
    cases items[item]? with
    | none => exact .failed w.files
    | some entry => exact yields_store rfl w _
  | build values => exact yields_store rfl w _

theorem item_lt_of_perform (hitem : item = 0 ∨ ∃ items, a = .decodeMany items) {product : Product}
    (h : (perform w item a).1 = .ok product) : item < a.slots := by
  rcases hitem with rfl | ⟨items, rfl⟩
  · cases a with
    | decodeMany items =>
      show 0 < items.length
      cases items with
      | nil => cases h
      | cons entry items => exact Nat.succ_pos _
    | _ => exact Nat.one_pos
  · show item < items.length
    by_contra hlt
    rw [perform, List.getElem?_eq_none (Nat.not_lt.1 hlt)] at h
    cases h

/-! ## Bodies -/

structure Vacant (o : Operation) (item : Nat) : Prop where
  length : ∀ a, o.assignment = some a → o.slots.length = a.slots
  single : ∀ a, o.assignment = some a → item = 0 ∨ ∃ items, a = .decodeMany items
  charge : ∀ a, o.assignment = some a → o.request.charge? = a.target?.bind Target.charge
  empty : ∀ product, o.slots[item]? ≠ some (some product)

/-- What a call for an item of a body does: the world and the body afterwards, and the tally. -/
inductive Call (w : World) (o : Operation) (item : Nat) : World → Operation → Int → Prop
  | unassigned : o.assignment = none → Call w o item w o 0
  | failed (files : FileSystem) : Call w o item (({ w with files } : World).uncharge o.request.charge?)
    { o with request := o.request.spent } 0
  | filled {a product w' bytes} : o.assignment = some a → Yields w a (.ok product) w' bytes →
    o.request.charge? = a.target?.bind Target.charge → o.slots[item]? = some none →
    Call w o item w' { o with request := o.request.spent, slots := o.slots.set item (some product) } (Ledger.entry bytes)

/-- **What a call does whose slot is vacant.** -/
theorem Vacant.call (h : o.Vacant item) (trips : World → Operation → Nat → Option (Option String)) (w : World) :
    Call w o item ((faltering trips).work w o item).world ((faltering trips).work w o item).body
      ((faltering trips).work w o item).tally := by
  rw [work_faltering]
  cases trips w o item with
  | some message => exact .failed w.files
  | none =>
    cases ha : o.assignment with
    | none =>
      have hnone : work w o item = ⟨w, o, 0, none, .failed (.internal "nothing is assigned")⟩ := by
        rw [work, ha]
      rw [hnone]
      exact .unassigned ha
    | some a =>
      have hyields := yields_perform w item a
      have hroom : ∀ product, (perform w item a).1 = .ok product → item < a.slots := fun _ =>
        item_lt_of_perform (h.single a ha)
      rw [work_eq ha]
      generalize perform w item a = done at hyields hroom ⊢
      obtain ⟨answer, w', bytes⟩ := done
      cases answer with
      | error fault =>
        cases hyields
        rw [← h.charge a ha]
        exact .failed _
      | ok product =>
        refine .filled ha hyields (h.charge a ha) ?_
        have hlt : item < o.slots.length := h.length a ha ▸ hroom product rfl
        have hempty := h.empty
        rw [List.getElem?_eq_getElem hlt] at hempty ⊢
        cases hslot : o.slots[item] with
        | none => rfl
        | some product' => exact absurd (congrArg some hslot) (hempty product')

/-! ## What a call pays for -/

theorem assets_spent (r : Request) : r.assets = Asset.ofCharge r.charge? + r.spent.assets := by
  have hspent : r.spent.charge? = none := by cases r <;> rfl
  rw [Request.assets, Request.assets, hspent, bitmap?_spent, add_comm]
  exact congrArg (_ + ·) (add_zero _).symm

theorem slotAssets_set {slots : List (Option Product)} (h : slots[item]? = some none) (product : Product) :
    slotAssets (slots.set item (some product)) = product.assets + slotAssets slots := by
  obtain ⟨rest, hbefore, hafter⟩ := exists_sum_set h fun slot => slot.elim 0 Product.assets
  rw [slotAssets, slotAssets, hbefore, hafter]
  exact congrArg (_ + ·) (zero_add rest).symm

theorem trade_files (w : World) (files : FileSystem) : Trade w { w with files } 0 0 0 :=
  ⟨.refl _, fun _ _ h => ⟨h.handles, h.guards, h.held, h.total.trans (by rw [Int.add_zero])⟩⟩

theorem trade_allocate (w : World) (bytes : Nat) : Trade w w 0 {.charge bytes} (Ledger.entry bytes) := by
  refine ⟨.refl _, fun rest pending h => ⟨fun n => ?_, fun n => ?_, h.held, ?_⟩⟩
  · rw [h.handles]
    simp
  · rw [h.guards]
    simp
  · rw [h.total, Multiset.singleton_add, Asset.total_cons, zero_add, Asset.bytes]
    congr 1
    omega

theorem Yields.trade {product : Product} {w' : World} {bytes : Nat} (h : Yields w a (.ok product) w' bytes) :
    Trade w w' (Asset.ofCharge (a.target?.bind Target.charge)) product.assets (Ledger.entry bytes) := by
  cases h with
  | written _ htarget hassets hnames =>
    rw [hassets]
    exact ((trade_files w _).frame _).cast (zero_add _).symm (zero_add _).symm rfl
  | charged htarget hassets hnames =>
    rw [hassets, htarget]
    exact trade_allocate w bytes
  | placed htarget =>
    rw [htarget]
    exact w.trade_place _ _

/-- **What a call makes is paid for by the buffer that came with the request and by its tally.** -/
theorem Call.trade {w' : World} {o' : Operation} {tally : Int} (h : Call w o item w' o' tally) :
    Trade w w' o.assets o'.assets tally := by
  cases h with
  | unassigned => exact .refl w _
  | failed files =>
    refine ((((trade_files w files).frame _).trans
      ((World.trade_uncharge _ o.request.charge?).cast (zero_add _) rfl rfl)).frame
      (o.request.spent.assets + Asset.ofGuard o.guarded + slotAssets o.slots)).cast ?_ ?_ rfl
    · rw [zero_add, assets, assets_spent, add_assoc, add_assoc, add_assoc]
    · rw [zero_add, assets]
  | @filled a product w' bytes ha hyields hcharge hslot =>
    refine (hyields.trade.frame (o.request.spent.assets + Asset.ofGuard o.guarded + slotAssets o.slots)).cast ?_ ?_ rfl
    · rw [assets, assets_spent, hcharge, add_assoc, add_assoc, add_assoc]
    · rw [assets, slotAssets_set hslot, add_left_comm]

/-! ## How bodies come about -/

/-- The bodies that a request may start with: it is refused, or its names are resolved and its bitmap is frozen. -/
inductive Started (r : Request) : Operation → Prop
  | refused : Started r (ofRequest r)
  | ready {a : Assignment} : r.resolve = .ok a → Started r ⟨r, some a, r.bitmap?, List.replicate a.slots none⟩

theorem started_prepare (w : World) (r : Request) : Started r (prepare w (ofRequest r)).2.2 := by
  cases hresolve : r.resolve with
  | error fault =>
    rw [prepare_ofRequest_error hresolve]
    exact .refused
  | ok a =>
    rw [prepare_ofRequest_ok hresolve]
    exact .ready hresolve

theorem Started.slotAssets_eq {r : Request} (h : Started r o) : slotAssets o.slots = 0 := by
  cases h with
  | refused => rfl
  | ready => exact slotAssets_replicate _

/-- Whether a body comes from another by calls for these items. -/
structure Descends (o₀ : Operation) (items : List Nat) (o : Operation) : Prop where
  assignment : o.assignment = o₀.assignment
  guarded : o.guarded = o₀.guarded
  request : o.request = o₀.request ∨ o.request = o₀.request.spent
  length : o.slots.length = o₀.slots.length
  filled : ∀ k product, o.slots[k]? = some (some product) → k ∈ items ∨ o₀.slots[k]? = some (some product)

theorem spent_spent (r : Request) : r.spent.spent = r.spent := by
  cases r <;> rfl

variable {trips : World → Operation → Nat → Option (Option String)} {o₀ : Operation} {items : List Nat}

theorem body_work (trips : World → Operation → Nat → Option (Option String)) (w : World) (o : Operation) (item : Nat) :
    ((faltering trips).work w o item).body = o ∨
      ((faltering trips).work w o item).body = { o with request := o.request.spent } ∨
      ∃ product, ((faltering trips).work w o item).body =
        { o with request := o.request.spent, slots := o.slots.set item (some product) } := by
  rw [work_faltering]
  cases trips w o item with
  | some message => exact .inr (.inl rfl)
  | none =>
    dsimp only
    unfold work
    cases o.assignment with
    | none => exact .inl rfl
    | some a =>
      dsimp only
      obtain ⟨answer, w', bytes⟩ := perform w item a
      cases answer with
      | error fault => exact .inr (.inl rfl)
      | ok product => exact .inr (.inr ⟨product, rfl⟩)

theorem descends_of_wrought (h : Wrought (faltering trips) o₀ items o) : Descends o₀ items o := by
  induction h with
  | refl => exact ⟨rfl, rfl, .inl rfl, rfl, fun _ _ h => .inr h⟩
  | @work items o w item hwrought ih =>
    have hrequest : o.request.spent = o₀.request.spent := by
      rcases ih.request with heq | heq
      · rw [heq]
      · rw [heq, spent_spent]
    rcases body_work trips w o item with heq | heq | ⟨product, heq⟩
    · rw [heq]
      exact ⟨ih.assignment, ih.guarded, ih.request, ih.length,
        fun k product hslot => (ih.filled k product hslot).imp_left (List.mem_cons_of_mem item)⟩
    · rw [heq]
      exact ⟨ih.assignment, ih.guarded, .inr hrequest, ih.length,
        fun k product hslot => (ih.filled k product hslot).imp_left (List.mem_cons_of_mem item)⟩
    · rw [heq]
      refine ⟨ih.assignment, ih.guarded, .inr hrequest, List.length_set.trans ih.length, fun k product' hslot => ?_⟩
      by_cases hk : item = k
      · exact .inl (hk ▸ List.mem_cons_self ..)
      · have hold : o.slots[k]? = some (some product') := (List.getElem?_set_ne hk).symm.trans hslot
        exact (ih.filled k product' hold).imp_left (List.mem_cons_of_mem item)

/-- **Every call that is made is for a vacant slot**: nobody has worked on its item before. -/
theorem vacant_of_wrought {r : Request} (hstart : Started r o₀) (h : Wrought (faltering trips) o₀ items o)
    (hnot : item ∉ items) (hitem : items = [] ∧ item = 0 ∨ ∃ n, (faltering trips).items o₀ = some n ∧ item < n) :
    o.Vacant item := by
  have hdescends := descends_of_wrought h
  cases hstart with
  | refused =>
    have hnone : o.assignment = none := hdescends.assignment
    have hslots : o.slots = [] := List.eq_nil_of_length_eq_zero hdescends.length
    refine ⟨fun a ha => ?_, fun a ha => ?_, fun a ha => ?_, fun product => by rw [hslots]; exact nofun⟩
    all_goals
      rw [hnone] at ha
      cases ha
  | @ready a hresolve =>
    have hbecomes := Request.becomes_of_resolve hresolve
    have ha : o.assignment = some a := hdescends.assignment
    have hitem' : item = 0 ∨ ∃ items, a = .decodeMany items := by
      rcases hitem with ⟨-, hzero⟩ | ⟨n, hn, -⟩
      · exact .inl hzero
      · cases hbecomes with
        | decodeMany => exact .inr ⟨_, rfl⟩
        | _ => cases hn
    have hcharge : o.request.charge? = a.target?.bind Target.charge := by
      rcases hitem with ⟨rfl, -⟩ | ⟨n, hn, -⟩
      · -- the body is still the one that was prepared
        cases h
        cases hbecomes with
        | @serialize i selector f target hf => cases target <;> rfl
        | _ => rfl
      · cases hbecomes with
        | decodeMany => rcases hdescends.request with heq | heq <;> rw [heq] <;> rfl
        | _ => cases hn
    refine ⟨fun a' ha' => ?_, fun a' ha' => ?_, fun a' ha' => ?_, fun product hslot => ?_⟩
    · obtain rfl := Option.some.inj (ha.symm.trans ha')
      exact hdescends.length.trans List.length_replicate
    · obtain rfl := Option.some.inj (ha.symm.trans ha')
      exact hitem'
    · obtain rfl := Option.some.inj (ha.symm.trans ha')
      exact hcharge
    · rcases hdescends.filled item product hslot with hmem | hslot
      · exact hnot hmem
      · cases List.eq_of_mem_replicate (List.mem_of_getElem? hslot)

theorem slotted_of_wrought {r : Request} (hstart : Started r o₀) (h : Wrought (faltering trips) o₀ items o) :
    o.Slotted := by
  have hdescends := descends_of_wrought h
  cases hstart with
  | refused => exact .inr (hdescends.length.trans_le (Nat.zero_le 1))
  | @ready a hresolve =>
    have hlength : o.slots.length = a.slots := hdescends.length.trans List.length_replicate
    cases Request.becomes_of_resolve hresolve with
    | @decodeMany inputs concurrency items hitems =>
      exact .inl ⟨inputs, concurrency, hdescends.request.elim id id⟩
    | _ => exact .inr (Nat.le_of_eq hlength)

end Operation
end BitmapWorks
