import BitmapWorks.Proofs.Operation.Scene
/-!
# Provenance — where the bitmaps on a shelf come from

A bitmap with a charge was made by a task.  Its handle stays in a slot of the task's body until the task is done, and then
goes to whoever gets the outcome, or is dropped.  So each number on the shelf is made by one task that is in flight, or was
given by one task that is done, or has no charge; whoever else holds a bitmap, holds one that was given or has no charge
(`Scene.Traced`).
-/
namespace BitmapWorks

variable {trips : World → Operation → Nat → Option (Option String)}

namespace Asset

def number? : Asset → Option Nat
  | handle n | guard n => some n
  | charge _ => none

def handle? : Asset → Option Nat
  | handle n => some n
  | _ => none

def bitmaps (s : Multiset Asset) : Multiset Nat := s.filterMap handle?

@[simp] theorem bitmaps_zero : bitmaps 0 = 0 := rfl

@[simp] theorem bitmaps_add (s t : Multiset Asset) : bitmaps (s + t) = bitmaps s + bitmaps t :=
  Multiset.filterMap_add handle? s t

theorem mem_bitmaps {s : Multiset Asset} {n : Nat} : n ∈ bitmaps s ↔ .handle n ∈ s := by
  unfold bitmaps
  rw [Multiset.mem_filterMap]
  constructor
  · rintro ⟨a, ha, hn⟩
    cases a with
    | handle m =>
      obtain rfl := Option.some.inj hn
      exact ha
    | _ => cases hn
  · exact fun h => ⟨_, h, rfl⟩

theorem bitmaps_le {s t : Multiset Asset} (h : s ≤ t) : bitmaps s ≤ bitmaps t :=
  Multiset.filterMap_le_filterMap handle? h

@[simp] theorem bitmaps_ofCharge (charge : Option Nat) : bitmaps (ofCharge charge) = 0 := by
  cases charge <;> rfl

def About (s : Multiset Asset) (n : Nat) : Prop := ∃ a ∈ s, a.number? = some n

theorem about_add {s t : Multiset Asset} {n : Nat} : About (s + t) n ↔ About s n ∨ About t n := by
  simp only [About, Multiset.mem_add, or_and_right, exists_or]

theorem not_about_zero (n : Nat) : ¬About 0 n := fun ⟨_, ha, _⟩ => absurd ha (Multiset.notMem_zero _)

theorem About.mono {s t : Multiset Asset} {n : Nat} (h : About s n) (hle : s ≤ t) : About t n :=
  let ⟨a, ha, hn⟩ := h
  ⟨a, Multiset.mem_of_le hle ha, hn⟩

theorem about_handle {a : Asset} {m n : Nat} (ha : a.number? = some n) (h : About {a, .handle n} m) :
    About {.handle n} m := by
  obtain ⟨b, hb, hm⟩ := h
  refine ⟨.handle n, Multiset.mem_singleton_self _, ?_⟩
  rcases Multiset.mem_cons.1 hb with rfl | hb
  · exact ha.symm.trans hm
  · exact Multiset.mem_singleton.1 hb ▸ hm

theorem about_assetsOf {outcome : Except Fault Product} {n : Nat} (h : About (Product.assetsOf outcome) n) :
    n ∈ bitmaps (Product.assetsOf outcome) := by
  obtain ⟨a, ha, hn⟩ := h
  cases a with
  | handle m =>
    obtain rfl := Option.some.inj hn
    exact mem_bitmaps.2 ha
  | guard m => exact absurd ha (Operation.guard_notMem_assetsOf outcome m)
  | charge bytes => cases hn

end Asset

/-! ## What is in slots, and what is not -/

/-- What a body owns besides what is in its slots. -/
def Operation.loose (o : Operation) : Multiset Asset := o.request.assets + Asset.ofGuard o.guarded

def Cell.loose (c : Cell Operation Product) : Multiset Asset :=
  c.body.elim 0 Operation.loose + c.settlement.promise.waiting.elim 0 Product.assetsOf

def Cell.made (c : Cell Operation Product) : Multiset Nat :=
  c.body.elim 0 fun o => Asset.bitmaps (Operation.slotAssets o.slots)

namespace Dispatcher

def loose (d : Dispatcher World Operation Product) : Multiset Asset := (d.cells.map Cell.loose).sum

def made (d : Dispatcher World Operation Product) : Multiset Nat := (d.cells.map Cell.made).sum

def given (d : Dispatcher World Operation Product) : Multiset Nat :=
  (d.outcomes.map fun settled => Asset.bitmaps (Product.assetsOf settled.2)).sum

end Dispatcher

theorem Cell.assets_eq (c : Cell Operation Product) :
    c.assets = c.loose + c.body.elim 0 fun o => Operation.slotAssets o.slots := by
  rw [assets, loose]
  cases c.body with
  | none => exact (add_zero _).symm
  | some o => exact add_right_comm _ _ _

theorem Dispatcher.loose_or_made {d : Dispatcher World Operation Product} {n : Nat} (h : Asset.About d.assets n) :
    Asset.About d.loose n ∨ n ∈ d.made := by
  obtain ⟨a, ha, hn⟩ := h
  obtain ⟨c, hc, hmem⟩ := mem_sum_map.1 ha
  rw [c.assets_eq] at hmem
  rcases Multiset.mem_add.1 hmem with hmem | hmem
  · exact .inl ⟨a, mem_sum_map.2 ⟨c, hc, hmem⟩, hn⟩
  · refine .inr (mem_sum_map.2 ⟨c, hc, ?_⟩)
    unfold Cell.made
    cases hbody : c.body with
    | none =>
      rw [hbody] at hmem
      exact absurd hmem (Multiset.notMem_zero _)
    | some o =>
      rw [hbody] at hmem
      cases a with
      | handle m =>
        obtain rfl := Option.some.inj hn
        exact Asset.mem_bitmaps.2 hmem
      | guard m => exact absurd hmem (Operation.guard_notMem_slots _ m)
      | charge bytes => cases hn

theorem Dispatcher.mem_of_made {d : Dispatcher World Operation Product} {n : Nat} (h : n ∈ d.made) :
    .handle n ∈ d.assets := by
  obtain ⟨c, hc, hmem⟩ := mem_sum_map.1 h
  refine mem_sum_map.2 ⟨c, hc, ?_⟩
  rw [c.assets_eq]
  refine Multiset.mem_add.2 (.inr ?_)
  unfold Cell.made at hmem
  cases hbody : c.body with
  | none =>
    rw [hbody] at hmem
    exact absurd hmem (Multiset.notMem_zero _)
  | some o =>
    rw [hbody] at hmem
    exact Asset.mem_bitmaps.1 hmem

/-! ## Acts -/

open Asset (About)

/-- What an act does to bitmaps: one goes from a slot to an outcome, or is dropped, or it is new and in a slot; and what
is loose was so before, or the caller has paid it, or it was just given. -/
structure Passes (d d' : Dispatcher World Operation Product) (paid gained : Multiset Asset) : Prop where
  given : d.given ≤ d'.given
  names : d'.made + d'.given ≤ d.made + d.given ∨
    d'.made + d'.given = d.world.shelf.numbers ::ₘ (d.made + d.given) ∧
      d.world.shelf.numbers < d'.world.shelf.numbers
  loose : ∀ n, About (gained + d'.loose) n → About (paid + d.loose) n ∨ n ∈ d'.given

theorem Operation.assetsOf_result (w : World) (o : Operation) :
    Product.assetsOf (result w o).1 ≤ slotAssets o.slots := by
  unfold result
  dsimp only
  split
  · split
    · rename_i ns hcollect
      rw [eq_of_collect hcollect, slotAssets_bitmaps]
      exact le_refl _
    · exact Multiset.zero_le _
  · split
    · rename_i product hslots
      rw [hslots]
      exact Multiset.le_add_right _ _
    · exact Multiset.zero_le _

theorem Closes.assetsOf_le {w w' : World} {o : Operation} {fault : Option Fault} {outcome : Except Fault Product}
    (h : Closes (Operation.faltering trips) fault w o outcome w') :
    Product.assetsOf outcome ≤ Operation.slotAssets o.slots := by
  cases h with
  | failed => exact Multiset.zero_le _
  | asked hresult =>
    obtain rfl := Option.some.inj hresult
    exact Operation.assetsOf_result _ (Operation.cleanUp w o).2

/-- **What a call makes is in a slot**, and new. -/
theorem Operation.Call.passes {w w' : World} {o o' : Operation} {item : Nat} {tally : Int}
    (h : Call w o item w' o' tally) : o'.loose ≤ o.loose ∧
      (Asset.bitmaps (slotAssets o'.slots) = Asset.bitmaps (slotAssets o.slots) ∨
        Asset.bitmaps (slotAssets o'.slots) = w.shelf.numbers ::ₘ Asset.bitmaps (slotAssets o.slots) ∧
          w.shelf.numbers < w'.shelf.numbers) := by
  have hspent : o.request.spent.assets + Asset.ofGuard o.guarded ≤ o.loose := by
    rw [loose, assets_spent o.request, add_assoc]
    exact Multiset.le_add_left _ _
  cases h with
  | unassigned => exact ⟨le_refl _, .inl rfl⟩
  | failed => exact ⟨hspent, .inl rfl⟩
  | filled ha hyields hcharge hslot =>
    refine ⟨hspent, ?_⟩
    rw [slotAssets_set hslot, Asset.bitmaps_add]
    cases hyields with
    | written _ htarget hassets hnames =>
      rw [hassets, Asset.bitmaps_ofCharge, zero_add]
      exact .inl rfl
    | charged htarget hassets hnames =>
      rw [hassets]
      exact .inl (zero_add _)
    | @placed content htarget =>
      exact .inr ⟨Multiset.singleton_add _ _,
        Nat.lt_of_lt_of_eq (Nat.lt_succ_self _) (w.shelf.put_spec content (some content.footprint)).2.1.symm⟩

namespace Dispatcher

variable {d d' : Dispatcher World Operation Product} {a : Act World Operation Product} {c c' : Cell Operation Product}
variable {id : Nat} {paid gained : Multiset Asset}

theorem given_of_level (h : Level d d') : d'.given = d.given := by
  rw [given, h.outcomes, given]

theorem given_of_told {told : Option (Except Fault Product)} (h : d'.outcomes = (told.map (id, ·)).toList ++ d.outcomes) :
    d'.given = (told.elim 0 fun outcome => Asset.bitmaps (Product.assetsOf outcome)) + d.given := by
  rw [given, h, given]
  cases told with
  | none => exact (zero_add _).symm
  | some outcome => rfl

theorem passes_same (hcells : d'.cells = d.cells) (hgiven : d'.given = d.given)
    (hgained : ∀ n, About gained n → About paid n) : Passes d d' paid gained := by
  refine ⟨le_of_eq hgiven.symm, .inl (le_of_eq ?_), fun n hn => .inl ?_⟩
  · rw [made, hcells, hgiven, made]
  · rw [loose, hcells] at hn
    rw [loose, Asset.about_add]
    exact (Asset.about_add.1 hn).imp_left (hgained n)

theorem passes_set {told : Multiset Nat} (hc : d.cells[id]? = some c) (hcells : d'.cells = d.cells.set id c')
    (hgiven : d'.given = told + d.given)
    (hnames : c'.made + told ≤ c.made ∨ c'.made + told = d.world.shelf.numbers ::ₘ c.made ∧
      d.world.shelf.numbers < d'.world.shelf.numbers)
    (hloose : ∀ n, About (gained + c'.loose) n → About (paid + c.loose) n ∨ n ∈ told) : Passes d d' paid gained := by
  obtain ⟨rest, hbefore, hafter⟩ := exists_sum_set hc Cell.made
  obtain ⟨others, hbefore', hafter'⟩ := exists_sum_set hc Cell.loose
  have hmade : d'.made + d'.given = c'.made + told + (rest + d.given) := by
    rw [made, hcells, hafter, hgiven, add_add_add_comm]
  have hmade' : d.made + d.given = c.made + (rest + d.given) := by
    rw [made, hbefore, add_assoc]
  refine ⟨hgiven ▸ Multiset.le_add_left _ _, ?_, fun n hn => ?_⟩
  · rw [hmade, hmade']
    refine hnames.imp (fun hle => Multiset.add_le_add_right hle) fun ⟨heq, hgrows⟩ => ⟨?_, hgrows⟩
    rw [heq, Multiset.cons_add]
  · rw [loose, hcells, hafter', ← add_assoc] at hn
    rw [loose, hbefore', ← add_assoc, hgiven]
    rcases Asset.about_add.1 hn with hn | hn
    · exact (hloose n hn).imp (fun h => Asset.about_add.2 (.inl h)) fun h => Multiset.mem_add.2 (.inl h)
    · exact .inl (Asset.about_add.2 (.inr hn))

theorem passes_set_of_level (hc : d.cells[id]? = some c) (hcells : d'.cells = d.cells.set id c') (hlevel : Level d d')
    (hnames : c'.made ≤ c.made ∨ c'.made = d.world.shelf.numbers ::ₘ c.made ∧
      d.world.shelf.numbers < d'.world.shelf.numbers)
    (hloose : gained + c'.loose ≤ paid + c.loose) : Passes d d' paid gained :=
  passes_set hc hcells ((given_of_level hlevel).trans (zero_add _).symm) (by rwa [add_zero])
    fun n hn => .inl (hn.mono hloose)

theorem passes_concat (hcells : d'.cells = d.cells ++ [c]) (hgiven : d'.given = d.given) (hmade : c.made = 0)
    (hloose : ∀ n, About c.loose n → About paid n) : Passes d d' paid 0 := by
  refine ⟨le_of_eq hgiven.symm, .inl (le_of_eq ?_), fun n hn => .inl ?_⟩
  · rw [made, hcells, hgiven, List.map_append, List.sum_append, List.map_singleton, List.sum_singleton, hmade, add_zero,
      made]
  · rw [zero_add, loose, hcells, List.map_append, List.sum_append, List.map_singleton, List.sum_singleton,
      Asset.about_add] at hn
    exact Asset.about_add.2 (hn.symm.imp_left (hloose n))

theorem about_prepared {w : World} {r : Request} {n : Nat}
    (h : About (Operation.prepare w (.ofRequest r)).2.2.loose n) : About r.assets n := by
  have hloose : ∀ n, About (Operation.loose ⟨r, none, none, []⟩) n → About r.assets n := fun n hn => by
    rw [Operation.loose, Asset.about_add] at hn
    exact hn.resolve_right (Asset.not_about_zero n)
  cases hresolve : r.resolve with
  | error fault =>
    rw [Operation.prepare_ofRequest_error hresolve] at h
    exact hloose n h
  | ok a =>
    rw [Operation.prepare_ofRequest_ok hresolve] at h
    rcases Asset.about_add.1 h with h | ⟨asset, hmem, hn⟩
    · exact h
    · cases hbitmap : r.bitmap? with
      | none =>
        rw [hbitmap] at hmem
        exact absurd hmem (Multiset.notMem_zero _)
      | some m =>
        rw [hbitmap] at hmem
        obtain rfl := Multiset.mem_singleton.1 hmem
        refine ⟨.handle m, ?_, hn⟩
        rw [Request.assets, hbitmap]
        exact Multiset.mem_add.2 (.inl (Multiset.mem_singleton_self _))

theorem made_prepared (w : World) (r : Request) (sink : Sink) :
    (Cell.fresh (Operation.prepare w (.ofRequest r)).2.2 sink).made = 0 := by
  show Asset.bitmaps (Operation.slotAssets (Operation.prepare w (.ofRequest r)).2.2.slots) = 0
  rw [(Operation.started_prepare w r).slotAssets_eq, Asset.bitmaps_zero]

theorem about_told {told : Option (Except Fault Product)} {n : Nat} (h : About (told.elim 0 Product.assetsOf) n) :
    n ∈ told.elim 0 fun outcome => Asset.bitmaps (Product.assetsOf outcome) := by
  cases told with
  | none => exact absurd h (Asset.not_about_zero n)
  | some outcome => exact Asset.about_assetsOf h

/-- What a task had made is given with its outcome, or is not there any more. -/
theorem passes_conclude {o : Operation} {outcome : Except Fault Product} {w : World}
    {settlement : Settlement (Except Fault Product)} {told : Option (Except Fault Product)} {late : Bool}
    (hquiet : c.settlement.promise.waiting = none) (hc : d.cells[id]? = some c) (hbody : c.body = some o)
    (hcloses : Closes (Operation.faltering trips) c.fault d.world o outcome w)
    (hputs : Puts (Operation.faltering trips) late w c.settlement outcome d'.world settlement told)
    (hcells : d'.cells = d.cells.set id (c.close settlement))
    (houtcomes : d'.outcomes = (told.map (id, ·)).toList ++ d.outcomes) :
    Passes d d' (Act.paid (.move .caller)) (Act.gained d d' (.move .caller)) := by
  refine passes_set hc hcells (given_of_told houtcomes) (.inl ?_) fun n hn =>
    .inr (about_told (Asset.About.mono ?_ (hputs.le_told hquiet)))
  · rw [Cell.made, Cell.made, hbody]
    refine le_trans (le_of_eq (zero_add _)) ?_
    rw [hputs.told_eq]
    split
    · exact Multiset.zero_le _
    · exact Asset.bitmaps_le hcloses.assetsOf_le
  · rw [Act.gained, called_of_told hc houtcomes, Cell.loose] at hn
    exact (zero_add (settlement.promise.waiting.elim 0 Product.assetsOf)) ▸ hn

theorem Trading.passes (h : d.Trading trips) (hdeal : Deal (Operation.faltering trips) d d' a)
    (hrequest : ∀ o sink, a = .spawn o sink → ∃ r, o = .ofRequest r) (hsurround : ∀ w, a ≠ .surround w) :
    Passes d d' a.paid (a.gained d d') := by
  cases hdeal with
  | idle hidles hasked hworld hcells hlevel =>
    obtain ⟨hpaid, hgained⟩ := gained_of_idle hidles hasked hlevel.outcomes
    refine passes_same hcells (given_of_level hlevel) fun n hn => ?_
    rw [hgained] at hn
    exact absurd hn (Asset.not_about_zero n)
  | @stir m id c c' hc halike hcells hworld hlevel =>
    refine passes_set_of_level hc hcells hlevel (.inl (le_of_eq ?_)) (le_of_eq ?_)
    · rw [Cell.made, halike.body, Cell.made]
    · rw [Act.gained, called_of_same hlevel.outcomes, Cell.loose, halike.body, halike.settlement]
      rfl
  | @work i id c o item hc hbody hrun hcells hworld hlevel =>
    obtain ⟨-, o₀, ⟨r, hstart⟩, items, hwrought, hnot, hitem⟩ := h.making.call hc hbody hrun
    obtain ⟨hloose, hnames⟩ := ((Operation.vacant_of_wrought hstart hwrought hnot hitem).call trips d.world).passes
    refine passes_set_of_level hc hcells hlevel ?_ ?_
    · rw [hworld, Cell.made, Cell.made, hbody]
      exact hnames.imp_left le_of_eq
    · rw [Act.gained, called_of_same hlevel.outcomes, Cell.loose, Cell.loose, hbody]
      exact Multiset.add_le_add_left (Multiset.add_le_add_right hloose)
  | @credit id c hc hclaimed hcells hworld hlevel =>
    refine passes_set_of_level hc hcells hlevel (.inl (le_refl _)) (le_of_eq ?_)
    rw [Act.gained, called_of_same hlevel.outcomes]
    rfl
  | @conclude id c o outcome w settlement told hc hbody hclaimed hhead hcloses hputs hcells hregistry hadmission
      houtcomes =>
    have hquiet : c.settlement.promise.waiting = none :=
      h.quiet id _ (holding_of_cells hc rfl) fun hnone => by cases hbody.symm.trans hnone
    exact passes_conclude hquiet hc hbody hcloses hputs hcells houtcomes
  | @take id c hc hcells hworld hlevel =>
    refine passes_set_of_level hc hcells hlevel (.inl (le_refl _)) (le_of_eq ?_)
    rw [Act.gained, Dispatcher.take, hc]
    refine ((add_left_comm _ _ _).trans ?_).trans (zero_add _).symm
    exact congrArg (c.body.elim 0 Operation.loose + ·) (assets_take _ .shuttingDown)
  | @poll id c hc hcells hworld hlevel =>
    refine passes_set_of_level hc hcells hlevel (.inl (le_refl _)) (le_of_eq ?_)
    rw [Act.gained, Dispatcher.poll, hc]
    refine ((add_left_comm _ _ _).trans ?_).trans (zero_add _).symm
    exact congrArg (c.body.elim 0 Operation.loose + ·) (assets_poll _ .shuttingDown)
  | @forget id c hc hcells hworld hlevel =>
    refine passes_set_of_level hc hcells hlevel (.inl (le_refl _)) ?_
    exact Multiset.add_le_add_left (Multiset.add_le_add_left (Multiset.zero_le _))
  | @reject o sink fault hchecked hcells hworld hregistry houtcomes =>
    obtain ⟨r, rfl⟩ := hrequest o sink rfl
    refine passes_concat hcells ?_ (made_prepared d.world r sink) fun n hn => about_prepared (w := d.world) ?_
    · rw [given, houtcomes, given]
    · exact (Asset.about_add.1 hn).resolve_right (Asset.not_about_zero n)
  | @letIn o sink fanout hchecked hinside hcells hworld hregistry hadmission houtcomes =>
    obtain ⟨r, rfl⟩ := hrequest o sink rfl
    refine passes_concat hcells ?_ (made_prepared d.world r sink) fun n hn => about_prepared (w := d.world) ?_
    · rw [given, houtcomes, given]
    · exact (Asset.about_add.1 hn).resolve_right (Asset.not_about_zero n)
  | shutdown hworld hcells hregistry hadmission houtcomes =>
    exact passes_same hcells (by rw [given, houtcomes, given]) fun n hn => hn
  | @releaseValue v hworld hcells hlevel =>
    exact passes_same hcells (given_of_level hlevel) fun n hn => absurd hn (Asset.not_about_zero n)
  | surround => exact absurd rfl (hsurround _)
  | regate hworld hcells hregistry hadmission houtcomes =>
    exact passes_same hcells (by rw [given, houtcomes, given]) fun n hn => hn

end Dispatcher

/-! ## Gestures -/

section

variable {d d' : Dispatcher World Operation Product} {g : Gesture}

/-- **Every gesture passes bitmaps on**, and makes one at most, unless the caller brings one. -/
theorem Gesture.passes (h : d.Trading trips) (hbring : ∀ content, g ≠ .bring content)
    (hact : d.act? (Operation.faltering trips) (g.act d.world) = some d') : Passes d d' g.paid (g.gained d d') := by
  have hdeal := Dispatcher.deal_of_act faltering_returns h.making.regular.held h.making.regular.sound hact
  have hworld : ∀ {w : World} {paid gained : Multiset Asset}, d' = { d with world := w } →
      (∀ n, About gained n → About paid n) → Passes d d' paid gained := fun heq hgained => by
    subst heq
    exact Dispatcher.passes_same rfl rfl hgained
  cases g with
  | clone n => exact hworld (Option.some.inj hact).symm fun m hm => Asset.about_handle rfl hm
  | freeze n => exact hworld (Option.some.inj hact).symm fun m hm => Asset.about_handle rfl hm
  | unfreeze n => exact hworld (Option.some.inj hact).symm fun m hm => absurd hm (Asset.not_about_zero m)
  | change n c => exact hworld (Option.some.inj hact).symm fun m hm => hm
  | arrange files doors => exact hworld (Option.some.inj hact).symm fun m hm => hm
  | bring content => exact absurd rfl (hbring content)
  | _ => exact h.passes hdeal Gesture.request_act fun w heq => by cases heq

end

namespace Scene

variable {s s' : Scene} {g : Gesture} {n : Nat}

theorem Solvent.present (h : s.Solvent trips) (habout : About (s.estate + s.dispatcher.assets) n) :
    ∃ t, s.dispatcher.world.shelf.get? n = some t := by
  obtain ⟨a, ha, hn⟩ := habout
  have hmem : .handle n ∈ s.estate + s.dispatcher.assets ∨ .guard n ∈ s.estate + s.dispatcher.assets := by
    cases a with
    | handle m =>
      obtain rfl := Option.some.inj hn
      exact .inl ha
    | guard m =>
      obtain rfl := Option.some.inj hn
      exact .inr ha
    | charge bytes => cases hn
  obtain ⟨t, ht, -⟩ := h.books.present hmem
  exact ⟨t, ht⟩

theorem about_assets_of_loose (h : About (s.estate + s.dispatcher.loose) n) :
    About (s.estate + s.dispatcher.assets) n := by
  obtain ⟨a, ha, hn⟩ := h
  refine ⟨a, ?_, hn⟩
  rcases Multiset.mem_add.1 ha with ha | ha
  · exact Multiset.mem_add.2 (.inl ha)
  · obtain ⟨c, hc, hmem⟩ := mem_sum_map.1 ha
    refine Multiset.mem_add.2 (.inr (mem_sum_map.2 ⟨c, hc, ?_⟩))
    rw [c.assets_eq]
    exact Multiset.mem_add.2 (.inl hmem)

/-- **The charge of a bitmap stays what it is** as long as the bitmap is on the shelf. -/
theorem Solvent.bytes_step (h : s.Solvent trips) (hstep : s.step? (Operation.faltering trips) g = some s') :
    s.dispatcher.world.shelf.numbers ≤ s'.dispatcher.world.shelf.numbers ∧
      ∀ n < s.dispatcher.world.shelf.numbers, ∀ t, s'.dispatcher.world.shelf.get? n = some t →
        s'.dispatcher.world.shelf.bytes n = s.dispatcher.world.shelf.bytes n := by
  obtain ⟨-, -, hact, -⟩ := step_spec hstep
  by_cases hchange : ∃ m c, g = .change m c
  · obtain ⟨m, c, rfl⟩ := hchange
    have heq : s'.dispatcher.world.shelf = s.dispatcher.world.shelf.modify m fun t => (t.change c).2 :=
      (congrArg (·.world.shelf) (Option.some.inj hact).symm).trans (Shelf.change_eq _ m c)
    rw [heq]
    refine ⟨(Shelf.frame_modify _ m _).grows, fun n _ t _ => ?_⟩
    unfold Shelf.bytes
    rw [Shelf.get?_modify]
    split
    · cases s.dispatcher.world.shelf.get? n with
      | none => rfl
      | some t => exact congrArg (Option.elim · 0 Ledger.entry) (Shelf.keeps_change t c).2.2
    · rfl
  · have hages := (Gesture.trade h.trading (fun m c heq => hchange ⟨m, c, heq⟩) hact).ages
    refine ⟨hages.grows, fun n hn t ht => ?_⟩
    obtain ⟨t₀, ht₀, -, hcharge⟩ := hages.same n hn t ht
    unfold Shelf.bytes
    rw [ht, ht₀]
    exact congrArg (Option.elim · 0 Ledger.entry) hcharge

/-- Whether every bitmap with a charge has been made by one task, which still has it or has given it; and what is loose is
about bitmaps that were given or have no charge. -/
structure Traced (s : Scene) : Prop where
  once : (s.dispatcher.made + s.dispatcher.given).Nodup
  known : ∀ n ∈ s.dispatcher.made + s.dispatcher.given, n < s.dispatcher.world.shelf.numbers
  loose : ∀ n, About (s.estate + s.dispatcher.loose) n →
    n ∈ s.dispatcher.given ∨ s.dispatcher.world.shelf.bytes n = 0

/-- **A bitmap with a charge has been made by a task**, which still has it or has given it. -/
theorem Traced.covers (h : s.Traced) (hsolvent : s.Solvent trips) (hbytes : s.dispatcher.world.shelf.bytes n ≠ 0) :
    n ∈ s.dispatcher.made + s.dispatcher.given := by
  have hloose : About (s.estate + s.dispatcher.loose) n → n ∈ s.dispatcher.made + s.dispatcher.given := fun habout =>
    Multiset.mem_add.2 (.inr ((h.loose n habout).resolve_right hbytes))
  obtain ⟨t, ht⟩ : ∃ t, s.dispatcher.world.shelf.get? n = some t := by
    rw [← Option.ne_none_iff_exists']
    intro hnone
    rw [Shelf.bytes, hnone] at hbytes
    exact hbytes rfl
  have habout : About (s.estate + s.dispatcher.assets) n :=
    (hsolvent.books.mem_of_present ht).elim (fun hmem => ⟨_, hmem, rfl⟩) fun hmem => ⟨_, hmem, rfl⟩
  rcases Asset.about_add.1 habout with hestate | htasks
  · exact hloose (Asset.about_add.2 (.inl hestate))
  · rcases Dispatcher.loose_or_made htasks with htasks | hmade
    · exact hloose (Asset.about_add.2 (.inr htasks))
    · exact Multiset.mem_add.2 (.inl hmade)

/-- What is still about a bitmap, and was so before, leaves the bitmap with the charge it had. -/
theorem Traced.keeps (h : s.Traced) (hsolvent : s.Solvent trips)
    (hstep : s.step? (Operation.faltering trips) g = some s') (hbefore : About (s.estate + s.dispatcher.loose) n)
    (hafter : About (s'.estate + s'.dispatcher.loose) n) (hgiven : s.dispatcher.given ⊆ s'.dispatcher.given) :
    n ∈ s'.dispatcher.given ∨ s'.dispatcher.world.shelf.bytes n = 0 := by
  obtain ⟨t, ht⟩ := hsolvent.present (about_assets_of_loose hbefore)
  obtain ⟨t', ht'⟩ := (hsolvent.step hstep).present (about_assets_of_loose hafter)
  rw [(hsolvent.bytes_step hstep).2 n (Shelf.lt_numbers ht) t' ht']
  exact (h.loose n hbefore).imp_left fun hmem => hgiven hmem

theorem Traced.bring (h : s.Traced) (hsolvent : s.Solvent trips) {content : Content}
    (hstep : s.step? (Operation.faltering trips) (.bring content) = some s') : s'.Traced := by
  obtain ⟨-, -, hact, hestate⟩ := step_spec hstep
  have heq : s'.dispatcher = { s.dispatcher with world := (s.dispatcher.world.place content none).2 } :=
    (Option.some.inj hact).symm
  have hmade : s'.dispatcher.made = s.dispatcher.made := by rw [heq]; rfl
  have hgiven : s'.dispatcher.given = s.dispatcher.given := by rw [heq]; rfl
  have hloose : s'.dispatcher.loose = s.dispatcher.loose := by rw [heq]; rfl
  refine ⟨by rw [hmade, hgiven]; exact h.once, fun n hn => ?_, fun n hn => ?_⟩
  · rw [hmade, hgiven] at hn
    exact Nat.lt_of_lt_of_le (h.known n hn) (hsolvent.bytes_step hstep).1
  · by_cases hnew : n = s.dispatcher.world.shelf.numbers
    · have hworld : s'.dispatcher.world.shelf = (s.dispatcher.world.shelf.put content none).2 := by rw [heq]; rfl
      refine .inr ?_
      rw [Shelf.bytes, hworld, Shelf.get?_put, if_pos hnew]
      rfl
    · refine h.keeps hsolvent hstep ?_ hn (by rw [hgiven]; exact fun _ hmem => hmem)
      rw [hestate, hloose] at hn
      rcases Asset.about_add.1 hn with hn | hn
      · rcases Asset.about_add.1 hn with hn | ⟨a, ha, hn⟩
        · exact Asset.about_add.2 (.inl (hn.mono (Multiset.sub_le_self _ _)))
        · obtain rfl := Multiset.mem_singleton.1 (ha : a ∈ {Asset.handle s.dispatcher.world.shelf.numbers})
          exact absurd (Option.some.inj hn).symm hnew
      · exact Asset.about_add.2 (.inr hn)

theorem Traced.step (h : s.Traced) (hsolvent : s.Solvent trips)
    (hstep : s.step? (Operation.faltering trips) g = some s') : s'.Traced := by
  by_cases hbring : ∃ content, g = .bring content
  · obtain ⟨content, rfl⟩ := hbring
    exact h.bring hsolvent hstep
  obtain ⟨-, hpaid, hact, hestate⟩ := step_spec hstep
  have hgrows := (hsolvent.bytes_step hstep).1
  have hpasses := Gesture.passes hsolvent.trading (fun content heq => hbring ⟨content, heq⟩) hact
  have hgiven : s.dispatcher.given ⊆ s'.dispatcher.given := Multiset.subset_of_le hpasses.given
  refine ⟨?_, fun n hn => ?_, fun n hn => ?_⟩
  · rcases hpasses.names with hle | ⟨heq, -⟩
    · exact Multiset.nodup_of_le hle h.once
    · rw [heq, Multiset.nodup_cons]
      exact ⟨fun hmem => Nat.lt_irrefl _ (h.known _ hmem), h.once⟩
  · rcases hpasses.names with hle | ⟨heq, hlt⟩
    · exact Nat.lt_of_lt_of_le (h.known n (Multiset.mem_of_le hle hn)) hgrows
    · rw [heq] at hn
      rcases Multiset.mem_cons.1 hn with rfl | hn
      · exact hlt
      · exact Nat.lt_of_lt_of_le (h.known n hn) hgrows
  · have hafter := hn
    rw [hestate, add_assoc] at hn
    rcases Asset.about_add.1 hn with hn | hn
    · exact h.keeps hsolvent hstep (Asset.about_add.2 (.inl (hn.mono (Multiset.sub_le_self _ _)))) hafter hgiven
    · rcases hpasses.loose n hn with hn | hnow
      · refine h.keeps hsolvent hstep ?_ hafter hgiven
        exact Asset.about_add.2 ((Asset.about_add.1 hn).imp_left fun hn => hn.mono hpaid)
      · exact .inl hnow

theorem traced_start {files : FileSystem} {doors : List String} {settings : Settings} {processors : Nat}
    {admission : Admission} {checkpoints : Bool} {d : Dispatcher World Operation Product}
    (h : Dispatcher.start ⟨0, .empty, files, doors⟩ settings processors admission checkpoints = .ok d) :
    Traced ⟨0, d⟩ := by
  unfold Dispatcher.start at h
  split at h
  · cases h
  · obtain rfl := Except.ok.inj h
    exact ⟨Multiset.nodup_zero, fun n hn => absurd hn (Multiset.notMem_zero n), fun n hn =>
      absurd hn (Asset.not_about_zero n)⟩

end Scene
end BitmapWorks
