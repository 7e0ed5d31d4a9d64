import BitmapWorks.Proofs.Operation.Tallies
import Mathlib.Algebra.BigOperators.Group.Finset.Basic
/-!
# Dues — what the ledger's total counts

What completed tasks have given and nobody has dropped is due (`Scene.dues`): what the caller has, what it has lent to
tasks, what waits in promises, and the bitmaps that still have a holder.  A task that is neither in flight nor between its
claim and its end has nothing else; one that is in flight has what it has made, too, but its tally takes that off again
(`Cell.Tallied.dues`).  So the total counts what is due (`total_of_tour`).
-/
namespace BitmapWorks

variable {trips : World → Operation → Nat → Option (Option String)}

/-! ## Sums -/

namespace Asset

def charge? : Asset → Option Nat
  | charge bytes => some bytes
  | _ => none

def charges (s : Multiset Asset) : Multiset Nat := s.filterMap charge?

@[simp] theorem charges_zero : charges 0 = 0 := rfl

@[simp] theorem charges_add (s t : Multiset Asset) : charges (s + t) = charges s + charges t :=
  Multiset.filterMap_add charge? s t

theorem sum_charges (s : Multiset Asset) : ((charges s).map Ledger.entry).sum = total s := by
  induction s using Multiset.induction_on with
  | empty => rfl
  | cons a s ih =>
    rw [← Multiset.singleton_add, charges_add, Multiset.map_add, Multiset.sum_add, ih, Multiset.singleton_add,
      total_cons]
    cases a with
    | charge bytes => exact congrArg (· + total s) (Multiset.sum_singleton (Ledger.entry bytes))
    | _ => rfl

theorem total_sum {α : Type} (l : List α) (f : α → Multiset Asset) :
    total (l.map f).sum = (l.map fun x => total (f x)).sum := by
  induction l with
  | nil => rfl
  | cons x l ih => rw [List.map_cons, List.sum_cons, total_add, ih, List.map_cons, List.sum_cons]

end Asset

theorem Ledger.sum_entries_nonneg (s : Multiset Nat) : 0 ≤ (s.map Ledger.entry).sum := by
  refine Multiset.sum_nonneg fun entry hentry => ?_
  obtain ⟨bytes, -, rfl⟩ := Multiset.mem_map.1 hentry
  unfold Ledger.entry
  omega

theorem Ledger.wrap_sum_congr {α : Type} {l : List α} {f g : α → Int}
    (h : ∀ x ∈ l, Ledger.wrap (f x) = Ledger.wrap (g x)) :
    Ledger.wrap (l.map f).sum = Ledger.wrap (l.map g).sum := by
  induction l with
  | nil => rfl
  | cons x l ih =>
    rw [List.map_cons, List.sum_cons, List.map_cons, List.sum_cons, ← Ledger.wrap_add_wrap,
      ih fun y hy => h y (List.mem_cons_of_mem x hy), Ledger.wrap_add_wrap, Int.add_comm, ← Ledger.wrap_add_wrap,
      h x (List.mem_cons_self ..), Ledger.wrap_add_wrap, Int.add_comm]

namespace Shelf

variable {s : Shelf}

theorem charged_eq_range (s : Shelf) : s.charged = ((List.range s.numbers).map s.bytes).sum := by
  unfold charged
  congr 1
  refine List.ext_getElem? fun n => ?_
  rw [List.getElem?_map, List.getElem?_map]
  by_cases hn : n < s.numbers
  · rw [List.getElem?_range hn]
    unfold bytes get?
    obtain ⟨slot, hslot⟩ : ∃ slot, s.slots[n]? = some slot := ⟨_, List.getElem?_eq_getElem hn⟩
    rw [hslot, Option.map_some, Option.map_some, hslot]
    cases slot <;> rfl
  · rw [List.getElem?_eq_none (Nat.not_lt.1 hn), List.getElem?_eq_none (by simpa using hn)]
    rfl

/-- **All charges on a shelf are those of some bitmaps**, if no other bitmap has one. -/
theorem sum_bytes {names : Multiset Nat} (honce : names.Nodup) (hknown : ∀ n ∈ names, n < s.numbers)
    (hcovers : ∀ n, s.bytes n ≠ 0 → n ∈ names) : (names.map s.bytes).sum = s.charged := by
  rw [charged_eq_range]
  have hsubset : (⟨names, honce⟩ : Finset Nat) ⊆ Finset.range s.numbers := fun n hn =>
    Finset.mem_range.2 (hknown n hn)
  refine Finset.sum_subset hsubset fun n _ hnot => ?_
  by_contra hbytes
  exact hnot (hcovers n hbytes)

end Shelf

/-! ## What is due -/

/-- The charges that a task has from earlier tasks, or for the caller: those of the buffer that was lent to it, and of
the outcome that waits in its promise. -/
def Cell.dues (c : Cell Operation Product) : Multiset Nat :=
  Asset.charges (c.body.elim 0 Operation.borrowed + c.settlement.promise.waiting.elim 0 Product.assetsOf)

def Dispatcher.dues (d : Dispatcher World Operation Product) : Multiset Nat := (d.cells.map Cell.dues).sum

def Dispatcher.givenCharges (d : Dispatcher World Operation Product) : Multiset Nat :=
  (d.outcomes.map fun settled => Asset.charges (Product.assetsOf settled.2)).sum

/-- The charges of what completed tasks have given and nobody has dropped: of what the caller has, of what it has lent
to tasks, of what waits in promises, and of the bitmaps that somebody still holds. -/
def Scene.dues (s : Scene) : Multiset Nat :=
  Asset.charges s.estate + s.dispatcher.dues +
    s.dispatcher.given.filterMap fun n => (s.dispatcher.world.shelf.get? n).bind Slot.charge

/-! ## Where charges come from -/

theorem Asset.charges_le {s t : Multiset Asset} (h : s ≤ t) : charges s ≤ charges t :=
  Multiset.filterMap_le_filterMap charge? h

/-- **A call that is lent a buffer gives the charge on, or drops it.** -/
theorem Operation.Call.borrowed_le {w w' : World} {o o' : Operation} {item : Nat} {tally : Int}
    (h : Call w o item w' o' tally) : o'.borrowed ≤ o.borrowed := by
  have hspent : Asset.ofCharge o.request.spent.charge? = 0 := by cases o.request <;> rfl
  cases h with
  | unassigned => exact le_refl _
  | failed =>
    show Asset.ofCharge o.request.spent.charge? + (if o.borrows then slotAssets o.slots else 0) ≤ _
    rw [hspent, zero_add]
    exact Multiset.le_add_left _ _
  | @filled a product w' bytes ha hyields hcharge hslot =>
    have hborrows : o.borrows = a.target?.isSome := by rw [borrows, ha]; rfl
    show Asset.ofCharge o.request.spent.charge? +
      (if o.borrows then slotAssets (o.slots.set item (some product)) else 0) ≤ _
    rw [borrowed, hspent, zero_add, hborrows]
    split
    · rename_i htarget
      -- only what is written to the buffer that was lent is given then, and it has the charge of the buffer
      have hassets : product.assets = Asset.ofCharge o.request.charge? := by
        cases hyields with
        | written _ _ hassets => rw [hassets, hcharge]
        | charged hnone | placed hnone =>
          rw [hnone] at htarget
          cases htarget
      rw [slotAssets_set hslot, hassets]
    · exact Multiset.zero_le _

namespace Dispatcher

variable {d d' : Dispatcher World Operation Product} {a : Act World Operation Product} {c c' : Cell Operation Product}
variable {id : Nat} {paid gained : Multiset Asset}

structure Draws (d d' : Dispatcher World Operation Product) (paid gained : Multiset Asset) : Prop where
  le : Asset.charges gained + d'.dues + d.givenCharges ≤ Asset.charges paid + d.dues + d'.givenCharges

theorem givenCharges_of_level (h : Level d d') : d'.givenCharges = d.givenCharges := by
  rw [givenCharges, h.outcomes, givenCharges]

theorem givenCharges_of_told {told : Option (Except Fault Product)}
    (h : d'.outcomes = (told.map (id, ·)).toList ++ d.outcomes) :
    d'.givenCharges = Asset.charges (told.elim 0 Product.assetsOf) + d.givenCharges := by
  rw [givenCharges, h, givenCharges]
  cases told with
  | none => exact (zero_add _).symm
  | some outcome => rfl

theorem draws_same (hcells : d'.cells = d.cells) (houtcomes : d'.outcomes = d.outcomes)
    (hgained : Asset.charges gained ≤ Asset.charges paid) : Draws d d' paid gained := by
  refine ⟨?_⟩
  unfold dues givenCharges
  rw [hcells, houtcomes]
  exact Multiset.add_le_add_right (Multiset.add_le_add_right hgained)

theorem draws_set {told : Multiset Nat} (hc : d.cells[id]? = some c) (hcells : d'.cells = d.cells.set id c')
    (hgiven : d'.givenCharges = told + d.givenCharges)
    (h : Asset.charges gained + c'.dues ≤ Asset.charges paid + c.dues + told) : Draws d d' paid gained := by
  obtain ⟨rest, hbefore, hafter⟩ := exists_sum_set hc Cell.dues
  refine ⟨?_⟩
  rw [hgiven, dues, hcells, hafter, dues, hbefore]
  calc Asset.charges gained + (c'.dues + rest) + d.givenCharges
      = Asset.charges gained + c'.dues + (rest + d.givenCharges) := by rw [← add_assoc, add_assoc _ rest]
    _ ≤ Asset.charges paid + c.dues + told + (rest + d.givenCharges) := Multiset.add_le_add_right h
    _ = Asset.charges paid + (c.dues + rest) + (told + d.givenCharges) := by
      rw [← add_assoc (Asset.charges paid), add_add_add_comm]

theorem draws_concat (hcells : d'.cells = d.cells ++ [c]) (houtcomes : d'.outcomes = d.outcomes)
    (h : c.dues ≤ Asset.charges paid) : Draws d d' paid 0 := by
  refine ⟨?_⟩
  unfold dues givenCharges
  rw [hcells, houtcomes, List.map_append, List.sum_append, List.map_singleton, List.sum_singleton, Asset.charges_zero,
    zero_add, add_comm _ c.dues]
  exact Multiset.add_le_add_right (Multiset.add_le_add_right h)

theorem dues_prepared (w : World) (r : Request) (sink : Sink) :
    (Cell.fresh (Operation.prepare w (.ofRequest r)).2.2 sink).dues ≤ Asset.charges r.assets := by
  have hempty := (Operation.started_prepare w r).slotAssets_eq
  have hrequest : (Operation.prepare w (.ofRequest r)).2.2.request = r := by
    cases hresolve : r.resolve with
    | error fault => rw [Operation.prepare_ofRequest_error hresolve]; rfl
    | ok a => rw [Operation.prepare_ofRequest_ok hresolve]
  show Asset.charges ((Operation.prepare w (.ofRequest r)).2.2.borrowed + 0) ≤ _
  rw [Operation.borrowed, hempty, ite_self, add_zero, add_zero, hrequest, Request.assets]
  exact Asset.charges_le (Multiset.le_add_left _ _)

/-- **Every act gives charges on, or drops them**, and no charge comes up but with an outcome. -/
theorem Trading.draws (h : d.Trading trips) (hdeal : Deal (Operation.faltering trips) d d' a)
    (hrequest : ∀ o sink, a = .spawn o sink → ∃ r, o = .ofRequest r) (hsurround : ∀ w, a ≠ .surround w) :
    Draws d d' a.paid (a.gained d d') := by
  have hset : ∀ {id : Nat} {c c' : Cell Operation Product} {paid gained : Multiset Asset}, d.cells[id]? = some c →
      d'.cells = d.cells.set id c' → Level d d' → Asset.charges gained + c'.dues ≤ Asset.charges paid + c.dues →
      Draws d d' paid gained := fun hc hcells hlevel hle =>
    draws_set hc hcells ((givenCharges_of_level hlevel).trans (zero_add _).symm) (by rwa [add_zero])
  cases hdeal with
  | idle hidles hasked hworld hcells hlevel =>
    obtain ⟨hpaid, hgained⟩ := gained_of_idle hidles hasked hlevel.outcomes
    refine draws_same hcells hlevel.outcomes ?_
    rw [hgained]
    exact Multiset.zero_le _
  | @stir m id c c' hc halike hcells hworld hlevel =>
    refine hset hc hcells hlevel (le_of_eq ?_)
    rw [Act.gained, called_of_same hlevel.outcomes, Cell.dues, halike.body, halike.settlement]
    rfl
  | @work i id c o item hc hbody hrun hcells hworld hlevel =>
    obtain ⟨-, o₀, ⟨r, hstart⟩, items, hwrought, hnot, hitem⟩ := h.making.call hc hbody hrun
    have hcall := (Operation.vacant_of_wrought hstart hwrought hnot hitem).call trips d.world
    refine hset hc hcells hlevel ?_
    rw [Act.gained, called_of_same hlevel.outcomes, Cell.dues, Cell.dues, hbody]
    exact Multiset.add_le_add_left (Asset.charges_le (Multiset.add_le_add_right hcall.borrowed_le))
  | @credit id c hc hclaimed hcells hworld hlevel =>
    refine hset hc hcells hlevel (le_of_eq ?_)
    rw [Act.gained, called_of_same hlevel.outcomes]
    rfl
  | @conclude id c o outcome w settlement told hc hbody hclaimed hhead hcloses hputs hcells hregistry hadmission
      houtcomes =>
    have hquiet : c.settlement.promise.waiting = none :=
      h.quiet id _ (holding_of_cells hc rfl) fun hnone => by cases hbody.symm.trans hnone
    refine draws_set hc hcells (givenCharges_of_told houtcomes) (le_trans ?_ (Multiset.le_add_left _ _))
    rw [Act.gained, called_of_told hc houtcomes, Cell.dues, ← Asset.charges_add]
    refine Asset.charges_le (le_trans (le_of_eq ?_) (hputs.le_told hquiet))
    exact congrArg _ (zero_add _)
  | @take id c hc hcells hworld hlevel =>
    refine hset hc hcells hlevel (le_of_eq ?_)
    rw [Act.gained, Dispatcher.take, hc, Cell.dues, ← Asset.charges_add, add_left_comm]
    refine (congrArg (fun s => Asset.charges (c.body.elim 0 Operation.borrowed + s)) ?_).trans (zero_add _).symm
    exact assets_take _ .shuttingDown
  | @poll id c hc hcells hworld hlevel =>
    refine hset hc hcells hlevel (le_of_eq ?_)
    rw [Act.gained, Dispatcher.poll, hc, Cell.dues, ← Asset.charges_add, add_left_comm]
    refine (congrArg (fun s => Asset.charges (c.body.elim 0 Operation.borrowed + s)) ?_).trans (zero_add _).symm
    exact assets_poll _ .shuttingDown
  | @forget id c hc hcells hworld hlevel =>
    refine hset hc hcells hlevel (Multiset.add_le_add_left (Asset.charges_le ?_))
    exact Multiset.add_le_add_left (Multiset.zero_le _)
  | @reject o sink fault hchecked hcells hworld hregistry houtcomes =>
    obtain ⟨r, rfl⟩ := hrequest o sink rfl
    exact draws_concat hcells houtcomes (dues_prepared d.world r sink)
  | @letIn o sink fanout hchecked hinside hcells hworld hregistry hadmission houtcomes =>
    obtain ⟨r, rfl⟩ := hrequest o sink rfl
    exact draws_concat hcells houtcomes (dues_prepared d.world r sink)
  | shutdown hworld hcells hregistry hadmission houtcomes => exact draws_same hcells houtcomes (le_refl _)
  | @releaseValue v hworld hcells hlevel => exact draws_same hcells hlevel.outcomes (Multiset.zero_le _)
  | surround => exact absurd rfl (hsurround _)
  | regate hworld hcells hregistry hadmission houtcomes => exact draws_same hcells houtcomes (le_refl _)

end Dispatcher

theorem Gesture.draws {d d' : Dispatcher World Operation Product} {g : Gesture} (h : d.Trading trips)
    (hact : d.act? (Operation.faltering trips) (g.act d.world) = some d') :
    Dispatcher.Draws d d' g.paid (g.gained d d') := by
  have hdeal := Dispatcher.deal_of_act faltering_returns h.making.regular.held h.making.regular.sound hact
  have hworld : ∀ {w : World} {paid gained : Multiset Asset}, d' = { d with world := w } →
      Asset.charges gained = 0 → Dispatcher.Draws d d' paid gained := fun heq hnone => by
    subst heq
    exact Dispatcher.draws_same rfl rfl (hnone ▸ Multiset.zero_le _)
  cases g with
  | clone n => exact hworld (Option.some.inj hact).symm rfl
  | freeze n => exact hworld (Option.some.inj hact).symm rfl
  | unfreeze n => exact hworld (Option.some.inj hact).symm rfl
  | change n c => exact hworld (Option.some.inj hact).symm rfl
  | bring content => exact hworld (Option.some.inj hact).symm rfl
  | arrange files doors => exact hworld (Option.some.inj hact).symm rfl
  | _ => exact h.draws hdeal Gesture.request_act fun w heq => by cases heq

namespace Scene

/-- **What is due came with outcomes**: every charge that the caller has, that it has lent to a task, or that waits in a
promise is one of those that outcomes came with. -/
theorem drawn_step {s s' : Scene} {g : Gesture} (hsolvent : s.Solvent trips)
    (h : Asset.charges s.estate + s.dispatcher.dues ≤ s.dispatcher.givenCharges)
    (hstep : s.step? (Operation.faltering trips) g = some s') :
    Asset.charges s'.estate + s'.dispatcher.dues ≤ s'.dispatcher.givenCharges := by
  obtain ⟨-, hpaid, hact, hestate⟩ := step_spec hstep
  have hdraws := Gesture.draws hsolvent.trading hact
  have hbefore : Asset.charges s.estate = Asset.charges (s.estate - g.paid) + Asset.charges g.paid := by
    rw [← Asset.charges_add, tsub_add_cancel_of_le hpaid]
  refine Multiset.le_of_add_le_add_right (?_ : _ + s.dispatcher.givenCharges ≤ _)
  calc Asset.charges s'.estate + s'.dispatcher.dues + s.dispatcher.givenCharges
      = Asset.charges (s.estate - g.paid) +
          (Asset.charges (g.gained s.dispatcher s'.dispatcher) + s'.dispatcher.dues + s.dispatcher.givenCharges) := by
        rw [hestate, Asset.charges_add, add_assoc, add_assoc, add_assoc]
    _ ≤ Asset.charges (s.estate - g.paid) +
          (Asset.charges g.paid + s.dispatcher.dues + s'.dispatcher.givenCharges) := Multiset.add_le_add_left hdraws.le
    _ = Asset.charges s.estate + s.dispatcher.dues + s'.dispatcher.givenCharges := by
        rw [hbefore, add_assoc, add_assoc, add_assoc]
    _ ≤ s'.dispatcher.givenCharges + s.dispatcher.givenCharges := by
        rw [add_comm s'.dispatcher.givenCharges]
        exact Multiset.add_le_add_right h

end Scene

namespace Cell

variable {bytes : Nat → Int} {c : Cell Operation Product}

/-- **A task that is not between its claim and its end owes what it was lent, and what waits in its promise.** -/
theorem Tallied.dues (h : c.Tallied bytes) (hdone : c.settlement.claimed = true ↔ c.body = none) :
    Ledger.wrap (Asset.total c.assets + (c.made.map bytes).sum - c.tally) =
      Ledger.wrap (c.dues.map Ledger.entry).sum := by
  have hdues : (c.dues.map Ledger.entry).sum = Asset.total (c.body.elim 0 Operation.borrowed) +
      Asset.total (c.settlement.promise.waiting.elim 0 Product.assetsOf) := by
    rw [Cell.dues, Asset.sum_charges, Asset.total_add]
  rw [hdues, assets, Asset.total_add, made]
  cases hbody : c.body with
  | none =>
    rw [h.flushed (hdone.2 hbody)]
    congr 1
    exact (Int.sub_zero _).trans (Int.add_zero _)
  | some o =>
    have hopen : c.settlement.claimed = false :=
      Bool.eq_false_of_not_eq_true fun hwon => by cases (hdone.1 hwon).symm.trans hbody
    have hworth : Ledger.wrap (o.worth bytes - c.tally) = Ledger.wrap 0 := by
      have heq := h.worth hopen o hbody
      unfold Ledger.wrap at heq ⊢
      rw [← Int.sub_bmod_bmod, heq, Int.sub_bmod_bmod, Int.sub_self]
    show Ledger.wrap (Asset.total o.assets + _ + _ - _) = Ledger.wrap (Asset.total o.borrowed + _)
    rw [o.total_assets]
    have hsplit : ∀ waiting : Int, Asset.total o.borrowed + Asset.total o.fresh + waiting +
        ((Asset.bitmaps (Operation.slotAssets o.slots)).map bytes).sum - c.tally =
          Asset.total o.borrowed + waiting + (o.worth bytes - c.tally) := fun waiting => by
      rw [Operation.worth]
      omega
    refine (congrArg Ledger.wrap (hsplit _)).trans ?_
    rw [← Ledger.wrap_add_wrap, hworth, Ledger.wrap_add_wrap, Int.add_zero]

end Cell

theorem Shelf.sum_charges (s : Shelf) (names : Multiset Nat) :
    ((names.filterMap fun n => (s.get? n).bind Slot.charge).map Ledger.entry).sum = (names.map s.bytes).sum := by
  induction names using Multiset.induction_on with
  | empty => rfl
  | cons n names ih =>
    rw [Multiset.map_cons, Multiset.sum_cons, ← ih, Multiset.filterMap_cons, Multiset.map_add, Multiset.sum_add]
    congr 1
    unfold bytes Slot.bytes
    cases s.get? n with
    | none => rfl
    | some t =>
      obtain ⟨content, handles, guards, charge⟩ := t
      cases charge with
      | none => rfl
      | some charged => exact Multiset.sum_singleton (Ledger.entry charged)

theorem Ledger.sum_entries {α : Type} (l : List α) (f : α → Multiset Nat) :
    ((l.map f).sum.map Ledger.entry).sum = (l.map fun x => ((f x).map Ledger.entry).sum).sum := by
  induction l with
  | nil => rfl
  | cons x l ih => rw [List.map_cons, List.sum_cons, Multiset.map_add, Multiset.sum_add, ih, List.map_cons, List.sum_cons]

theorem Dispatcher.sum_made (d : Dispatcher World Operation Product) (bytes : Nat → Int) :
    (d.made.map bytes).sum = (d.cells.map fun c => (c.made.map bytes).sum).sum := by
  unfold made
  induction d.cells with
  | nil => rfl
  | cons c cells ih =>
    rw [List.map_cons, List.sum_cons, Multiset.map_add, Multiset.sum_add, ih, List.map_cons, List.sum_cons]

theorem sum_map_add_sub {α : Type} (l : List α) (f g h : α → Int) :
    (l.map f).sum + (l.map g).sum - (l.map h).sum = (l.map fun x => f x + g x - h x).sum := by
  induction l with
  | nil => rfl
  | cons x l ih =>
    simp only [List.map_cons, List.sum_cons]
    omega

namespace Scene

variable {s s' : Scene} {g : Gesture} {gs : List Gesture}

/-- A task that nobody is about to conclude has its body as long as nobody has claimed it. -/
theorem Solvent.claimed_iff (h : s.Solvent trips) (hquiet : ∀ id, .conclude id ∉ s.dispatcher.agenda) {id : Nat}
    {c : Cell Operation Product} (hc : s.dispatcher.cells[id]? = some c) :
    c.settlement.claimed = true ↔ c.body = none := by
  have hstaged := (h.trading.making.regular.sound id).staged c hc
  have hnone : ((s.dispatcher.strand id).chores.map Chore.concludes).sum = 0 := by
    refine List.sum_eq_zero fun m hm => ?_
    obtain ⟨chore, hchore, rfl⟩ := List.mem_map.1 hm
    cases chore with
    | conclude id' => exact absurd (List.mem_filter.1 hchore).1 (hquiet id')
    | _ => rfl
  rw [hstaged.body]
  exact hstaged.claimed_iff hnone

/-- **Whenever nobody is about to conclude a task, the total counts what is due.** -/
theorem Solvent.total_eq (h : s.Solvent trips) (htraced : s.Traced) (htallied : s.Tallied)
    (hquiet : ∀ id, .conclude id ∉ s.dispatcher.agenda) :
    s.dispatcher.world.total = Ledger.wrap (s.dues.map Ledger.entry).sum := by
  have hcells : Ledger.wrap (s.dispatcher.cells.map fun c => Asset.total c.assets +
      (c.made.map s.dispatcher.world.shelf.bytes).sum - c.tally).sum =
        Ledger.wrap (s.dispatcher.cells.map fun c => (c.dues.map Ledger.entry).sum).sum := by
    refine Ledger.wrap_sum_congr fun c hc => ?_
    obtain ⟨id, hid⟩ := List.getElem?_of_mem hc
    exact (htallied id c hid).dues (h.claimed_iff hquiet hid)
  -- the charges of the shelf are those of the bitmaps that tasks still have, and of those that they have given
  have hcharged := Shelf.sum_bytes htraced.once htraced.known fun n hn => htraced.covers h hn
  have hassets : Asset.total s.dispatcher.assets = (s.dispatcher.cells.map fun c => Asset.total c.assets).sum :=
    Asset.total_sum _ _
  have hdues : (s.dues.map Ledger.entry).sum = Asset.total s.estate +
      (s.dispatcher.given.map s.dispatcher.world.shelf.bytes).sum +
        (s.dispatcher.cells.map fun c => (c.dues.map Ledger.entry).sum).sum := by
    rw [dues, Dispatcher.dues, Multiset.map_add, Multiset.sum_add, Multiset.map_add, Multiset.sum_add, Asset.sum_charges,
      Ledger.sum_entries, Shelf.sum_charges]
    omega
  rw [Multiset.map_add, Multiset.sum_add, Dispatcher.sum_made] at hcharged
  rw [h.books.total, hdues, ← Ledger.wrap_add_wrap, ← hcells, Ledger.wrap_add_wrap, ← sum_map_add_sub, ← hcharged,
    Asset.total_add, hassets]
  congr 1
  unfold Dispatcher.pending
  omega

/-- **Nothing is due when everything has been dropped**: the caller owns nothing, no task is in flight, and nothing
waits in a promise. -/
theorem Solvent.dues_eq_zero (h : s.Solvent trips) (hestate : s.estate = 0)
    (hcells : ∀ c ∈ s.dispatcher.cells, c.body = none ∧ c.settlement.promise.waiting = none) : s.dues = 0 := by
  have hwaits : s.dispatcher.dues = 0 := by
    refine List.sum_eq_zero fun dues hmem => ?_
    obtain ⟨c, hc, rfl⟩ := List.mem_map.1 hmem
    obtain ⟨hbody, hwaiting⟩ := hcells c hc
    rw [Cell.dues, hbody, hwaiting]
    rfl
  have hbooks : s.dispatcher.world.Accounts 0 s.dispatcher.pending := by
    have hall := h.books
    unfold Books at hall
    rwa [hestate, Dispatcher.assets_eq_zero hcells, add_zero] at hall
  have hgiven : (s.dispatcher.given.filterMap fun n => (s.dispatcher.world.shelf.get? n).bind Slot.charge) = 0 := by
    refine Multiset.eq_zero_of_forall_notMem fun charge hmem => ?_
    obtain ⟨n, -, hcharge⟩ := (Multiset.mem_filterMap _ _).1 hmem
    rw [hbooks.get?_eq_none n] at hcharge
    cases hcharge
  rw [dues, hestate, hwaits, hgiven]
  rfl

structure Tracked (trips : World → Operation → Nat → Option (Option String)) (s : Scene) : Prop where
  solvent : s.Solvent trips
  traced : s.Traced
  tallied : s.Tallied
  drawn : Asset.charges s.estate + s.dispatcher.dues ≤ s.dispatcher.givenCharges

theorem Tracked.step (h : s.Tracked trips) (hstep : s.step? (Operation.faltering trips) g = some s') :
    s'.Tracked trips where
  solvent := h.solvent.step hstep
  traced := h.traced.step h.solvent hstep
  tallied := h.tallied.step h.traced h.solvent hstep
  drawn := drawn_step h.solvent h.drawn hstep

theorem tracked_start {files : FileSystem} {doors : List String} {settings : Settings} {processors : Nat}
    {admission : Admission} {checkpoints : Bool} {d : Dispatcher World Operation Product}
    (h : Dispatcher.start ⟨0, .empty, files, doors⟩ settings processors admission checkpoints = .ok d) :
    Tracked trips ⟨0, d⟩ := by
  refine ⟨solvent_start h, traced_start h, tallied_start h, ?_⟩
  unfold Dispatcher.start at h
  split at h
  · cases h
  · obtain rfl := Except.ok.inj h
    exact le_refl _

end Scene

/-- **The ledger counts what is due.**  However tasks are asked for, moved, completed, forced, refused and shut down, and
whatever the caller does with the values that it gets: the charges that are due came with the outcomes of completed
tasks, each of them once.  Whenever no task is between its claim and its end, as whenever the caller's agenda is empty,
the total is the sum of the charges that are due, in a signed word.  So it is that sum itself, and never negative, as long
as the sum fits; and it is zero once everything that was given has been dropped, as when the caller owns nothing, no task
is in flight and nothing waits. -/
theorem total_of_tour {files : FileSystem} {doors : List String} {settings : Settings} {processors : Nat}
    {admission : Admission} {checkpoints : Bool} {d : Dispatcher World Operation Product}
    (hstart : Dispatcher.start ⟨0, .empty, files, doors⟩ settings processors admission checkpoints = .ok d)
    {gs : List Gesture} {s : Scene} (htour : Scene.tour? (Operation.faltering trips) ⟨0, d⟩ gs = some s) :
    Asset.charges s.estate + s.dispatcher.dues ≤ s.dispatcher.givenCharges ∧ s.dispatcher.given.Nodup ∧
    ((∀ id, .conclude id ∉ s.dispatcher.agenda) →
      s.dispatcher.world.total = Ledger.wrap (s.dues.map Ledger.entry).sum ∧
      ((s.dues.map Ledger.entry).sum ≤ Ledger.mostBytes →
        s.dispatcher.world.total = (s.dues.map Ledger.entry).sum ∧ 0 ≤ s.dispatcher.world.total) ∧
      (s.dues = 0 → s.dispatcher.world.total = 0) ∧
      (s.estate = 0 → (∀ c ∈ s.dispatcher.cells, c.body = none ∧ c.settlement.promise.waiting = none) →
        s.dispatcher.world.total = 0)) := by
  have htracked : s.Tracked trips := Scene.tour_induction (fun _ _ _ hstep h => h.step hstep) htour
    (Scene.tracked_start hstart)
  refine ⟨htracked.drawn, Multiset.nodup_of_le (Multiset.le_add_left _ _) htracked.traced.once, fun hquiet => ?_⟩
  have htotal := htracked.solvent.total_eq htracked.traced htracked.tallied hquiet
  have hpositive := Ledger.sum_entries_nonneg s.dues
  have hdropped : s.dues = 0 → s.dispatcher.world.total = 0 := fun hdues => by
    rw [htotal, hdues]
    rfl
  refine ⟨htotal, fun hfits => ?_, hdropped, fun hestate hcells =>
    hdropped (htracked.solvent.dues_eq_zero hestate hcells)⟩
  have hwhole : s.dispatcher.world.total = (s.dues.map Ledger.entry).sum :=
    htotal.trans (Ledger.wrap_eq (Int.le_trans (Int.neg_nonpos_of_nonneg (Int.natCast_nonneg _)) hpositive) hfits)
  exact ⟨hwhole, hwhole ▸ hpositive⟩

def countingRoom : Except Refusal (Dispatcher World Operation Product) :=
  Dispatcher.start World.empty ⟨1, 2, 65536, 2, 1, 1, none⟩ 2 .fresh false

def countedTask : List Gesture :=
  .move .caller :: List.replicate 10 (.move (.worker 0)) ++ .pumpAll :: List.replicate 4 (.move .caller)

def countingGestures : List Gesture :=
  .spawn (.fromValues [5, 3]) .promise :: countedTask ++
    [.take 0, .clone 0, .spawn (.toText 0 "comma_separated_values") .promise] ++ countedTask

def droppingGestures : List Gesture := [.release (.bitmap 0), .take 1, .release (.text [51, 44, 53] 8)]

/-- A bitmap and a text that waits count until they are dropped. -/
theorem total_of_tour_counting : ∃ d s s', countingRoom = .ok d ∧
    Scene.tour? (Operation.faltering fun _ _ _ => none) ⟨0, d⟩ countingGestures = some s ∧
    Scene.tour? (Operation.faltering fun _ _ _ => none) ⟨0, d⟩ (countingGestures ++ droppingGestures) = some s' ∧
    s.dispatcher.agenda = [] ∧ s'.dispatcher.agenda = [] ∧
    s.dues = {8, 20} ∧ s.dispatcher.world.total = 28 ∧ s'.dues = 0 ∧ s'.dispatcher.world.total = 0 := by
  have hends : (countingRoom.toOption.bind fun d =>
      (Scene.tour? (Operation.faltering fun _ _ _ => none) ⟨0, d⟩ countingGestures).bind fun s =>
        (Scene.tour? (Operation.faltering fun _ _ _ => none) ⟨0, d⟩ (countingGestures ++ droppingGestures)).map fun s' =>
          decide (s.dispatcher.agenda.length = 0 ∧ s'.dispatcher.agenda.length = 0 ∧ s.dues = {8, 20} ∧ s'.dues = 0)) =
      some true := by
    decide +kernel
  obtain ⟨d, hroom, hends⟩ := Option.bind_eq_some_iff.1 hends
  obtain ⟨s, hcounted, hends⟩ := Option.bind_eq_some_iff.1 hends
  obtain ⟨s', hdropped, hends⟩ := Option.map_eq_some_iff.1 hends
  obtain ⟨hidle, hidle', hdues, hdues'⟩ := of_decide_eq_true hends
  have hstart : countingRoom = .ok d := Dispatcher.eq_ok_of_toOption hroom
  have hagenda := List.length_eq_zero_iff.1 hidle
  have hagenda' := List.length_eq_zero_iff.1 hidle'
  obtain ⟨-, -, hcounts⟩ := total_of_tour hstart hcounted
  obtain ⟨-, hsum, -⟩ := hcounts fun id hmem => by
    rw [hagenda] at hmem
    cases hmem
  obtain ⟨-, -, hcounts'⟩ := total_of_tour hstart hdropped
  obtain ⟨-, -, hzero, -⟩ := hcounts' fun id hmem => by
    rw [hagenda'] at hmem
    cases hmem
  rw [hdues] at hsum
  exact ⟨d, s, s', hstart, hcounted, hdropped, hagenda, hagenda', hdues, (hsum (by decide)).1, hdues', hzero hdues'⟩

end BitmapWorks
