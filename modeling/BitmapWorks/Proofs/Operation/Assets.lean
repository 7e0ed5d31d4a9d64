import BitmapWorks.Proofs.Lists
import BitmapWorks.Proofs.Operation.Frame
import Mathlib.Algebra.BigOperators.Group.Multiset.Basic
import Mathlib.Algebra.Order.Group.Nat
import Mathlib.Algebra.Ring.Int.Defs
/-!
# Assets — who holds the bitmaps of a world, and what its total counts

A handle of a bitmap, a guard of it, and the charge that comes with a buffer or a text are assets.  Each has one owner,
who may pass it on or drop it.  A world answers for assets (`World.Accounts`) if its shelf counts just their handles and
guards, and its total counts their charges and those of the bitmaps on the shelf, apart from tallies that are pending.

What happens to a world is a trade: some assets are paid, others are given for them, and all the rest of the assets
stay as they are (`Trade`).  The trades of small steps make up those of large ones (`Trade.trans`, `Trade.frame`).
-/
namespace BitmapWorks

inductive Asset where
  | handle (n : Nat)
  | guard (n : Nat)
  | charge (bytes : Nat)
  deriving DecidableEq, Repr

namespace Asset

def bytes : Asset → Int
  | charge bytes => Ledger.entry bytes
  | _ => 0

def total (s : Multiset Asset) : Int := (s.map bytes).sum

@[simp] theorem total_zero : total 0 = 0 := rfl

@[simp] theorem total_cons (a : Asset) (s : Multiset Asset) : total (a ::ₘ s) = a.bytes + total s := by
  rw [total, Multiset.map_cons, Multiset.sum_cons, total]

@[simp] theorem total_add (s t : Multiset Asset) : total (s + t) = total s + total t := by
  rw [total, Multiset.map_add, Multiset.sum_add, total, total]

def ofCharge (charge : Option Nat) : Multiset Asset := charge.elim 0 fun bytes => {.charge bytes}

def ofHandle (bitmap : Option Nat) : Multiset Asset := bitmap.elim 0 fun n => {.handle n}

def ofGuard (bitmap : Option Nat) : Multiset Asset := bitmap.elim 0 fun n => {.guard n}

end Asset

theorem mem_sum_map {α β : Type} {l : List α} {f : α → Multiset β} {b : β} : b ∈ (l.map f).sum ↔ ∃ x ∈ l, b ∈ f x := by
  induction l with
  | nil => simp
  | cons x l ih => simp [ih]

/-! ## Shelves -/

def Slot.bytes (t : Slot) : Int := t.charge.elim 0 Ledger.entry

namespace Shelf

variable {s : Shelf} {i n : Nat}

def bytes (s : Shelf) (n : Nat) : Int := (s.get? n).elim 0 Slot.bytes

def charged (s : Shelf) : Int := (s.slots.map fun slot => slot.elim 0 Slot.bytes).sum

/-- Whether bitmaps are what they were, as far as they are still on the shelf. -/
structure Ages (s s' : Shelf) : Prop where
  grows : s.numbers ≤ s'.numbers
  same : ∀ n < s.numbers, ∀ t', s'.get? n = some t' → ∃ t, s.get? n = some t ∧ t'.content = t.content ∧ t'.charge = t.charge

theorem Ages.refl (s : Shelf) : Ages s s := ⟨Nat.le_refl _, fun _ _ t ht => ⟨t, ht, rfl, rfl⟩⟩

theorem Ages.trans {s₁ s₂ : Shelf} (h : Ages s s₁) (h' : Ages s₁ s₂) : Ages s s₂ := by
  refine ⟨Nat.le_trans h.grows h'.grows, fun n hn t₂ ht₂ => ?_⟩
  obtain ⟨t₁, ht₁, hcontent₁, hcharge₁⟩ := h'.same n (Nat.lt_of_lt_of_le hn h.grows) t₂ ht₂
  obtain ⟨t, ht, hcontent, hcharge⟩ := h.same n hn t₁ ht₁
  exact ⟨t, ht, hcontent₁.trans hcontent, hcharge₁.trans hcharge⟩

theorem charged_modify (s : Shelf) (i : Nat) {f : Slot → Slot} (hf : ∀ t, (f t).charge = t.charge) :
    (s.modify i f).charged = s.charged := by
  unfold charged
  congr 1
  refine List.ext_getElem? fun n => ?_
  rw [List.getElem?_map, List.getElem?_map]
  unfold modify
  dsimp only
  rw [List.getElem?_modify]
  rcases s.slots[n]? with _ | _ | t
  · rfl
  · split <;> rfl
  · by_cases hi : i = n <;> simp [hi, Slot.bytes, hf]

theorem ages_modify (s : Shelf) (i : Nat) {f : Slot → Slot}
    (hf : ∀ t, (f t).content = t.content ∧ (f t).charge = t.charge) : Ages s (s.modify i f) := by
  refine ⟨(frame_modify s i f).grows, fun n _ t' ht' => ?_⟩
  rw [get?_modify] at ht'
  split at ht'
  · obtain ⟨t, ht, rfl⟩ := Option.map_eq_some_iff.1 ht'
    exact ⟨t, ht, hf t⟩
  · exact ⟨t', ht', rfl, rfl⟩

theorem charged_clear {t : Slot} (h : s.get? i = some t) :
    (Shelf.mk (s.slots.set i none)).charged = s.charged - t.bytes := by
  obtain ⟨slot, hslot, hheld⟩ := Option.bind_eq_some_iff.1 h
  obtain ⟨rest, hbefore, hafter⟩ := exists_sum_set hslot fun slot => slot.elim 0 Slot.bytes
  obtain rfl : slot = some t := hheld
  unfold charged
  rw [hbefore, hafter]
  show 0 + rest = t.bytes + rest - t.bytes
  omega

theorem charged_put (s : Shelf) (c : Content) (charge : Option Nat) :
    (s.put c charge).2.charged = s.charged + charge.elim 0 Ledger.entry := by
  unfold charged
  show ((s.slots ++ [some (Slot.ofContent c charge)]).map _).sum = _
  rw [List.map_append, List.sum_append, List.map_singleton, List.sum_singleton]
  rfl

theorem ages_clear (s : Shelf) (i : Nat) : Ages s ⟨s.slots.set i none⟩ := by
  refine ⟨Nat.le_of_eq List.length_set.symm, fun n _ t' ht' => ?_⟩
  rw [get?_clear] at ht'
  split at ht'
  · cases ht'
  · exact ⟨t', ht', rfl, rfl⟩

theorem ages_settle (s : Shelf) (i : Nat) : Ages s (s.settle i).2 := by
  rcases s.settle_cases i with ⟨hsettle, -⟩ | ⟨t, -, -, -, hsettle⟩
  · rw [hsettle]
    exact .refl s
  · rw [hsettle]
    exact s.ages_clear i

theorem entry_getD (t : Slot) : Ledger.entry (t.charge.getD 0) = t.bytes := by
  unfold Slot.bytes
  cases t.charge <;> rfl

end Shelf

/-! ## Worlds -/

/-- Whether a world answers for assets of all owners, and for tallies that are pending. -/
structure World.Accounts (w : World) (assets : Multiset Asset) (pending : Int) : Prop where
  handles : ∀ n, w.shelf.handles n = assets.count (.handle n)
  guards : ∀ n, w.shelf.guards n = assets.count (.guard n)
  held : ∀ n t, w.shelf.get? n = some t → t.isHeld = true
  total : w.total = Ledger.wrap (Asset.total assets + w.shelf.charged - pending)

namespace World.Accounts

variable {w : World} {assets : Multiset Asset} {pending : Int} {n : Nat}

theorem present (h : w.Accounts assets pending) (hmem : .handle n ∈ assets ∨ .guard n ∈ assets) :
    ∃ t, w.shelf.get? n = some t ∧ t.handles = assets.count (.handle n) ∧ t.guards = assets.count (.guard n) := by
  have hhandles := h.handles n
  have hguards := h.guards n
  cases hget : w.shelf.get? n with
  | none =>
    simp only [Shelf.handles, Shelf.guards, hget, Option.elim_none] at hhandles hguards
    rcases hmem with hmem | hmem <;> have hpos := Multiset.count_pos.2 hmem <;> omega
  | some t =>
    simp only [Shelf.handles, Shelf.guards, hget, Option.elim_some] at hhandles hguards
    exact ⟨t, rfl, hhandles, hguards⟩

theorem mem_of_present (h : w.Accounts assets pending) {t : Slot} (ht : w.shelf.get? n = some t) :
    .handle n ∈ assets ∨ .guard n ∈ assets := by
  have hheld := h.held n t ht
  have hhandles := h.handles n
  have hguards := h.guards n
  simp only [Shelf.handles, Shelf.guards, ht, Option.elim_some] at hhandles hguards
  simp only [Slot.isHeld, decide_eq_true_eq] at hheld
  rw [← Multiset.count_pos, ← Multiset.count_pos]
  omega

theorem get?_eq_none (h : w.Accounts 0 pending) (n : Nat) : w.shelf.get? n = none := by
  by_contra hget
  obtain ⟨t, ht⟩ := Option.ne_none_iff_exists'.1 hget
  rcases h.mem_of_present ht with hheld | hheld <;> exact Multiset.notMem_zero _ hheld

theorem congr_pending (h : w.Accounts assets pending) {pending' : Int}
    (heq : Ledger.wrap pending' = Ledger.wrap pending) : w.Accounts assets pending' := by
  refine ⟨h.handles, h.guards, h.held, h.total.trans ?_⟩
  unfold Ledger.wrap at heq ⊢
  rw [← Int.sub_bmod_bmod, ← heq, Int.sub_bmod_bmod]

/-- **One holder less of a bitmap**: if it was the last one, the bitmap is cleared and its charge is dropped. -/
theorem settle {shelf : Shelf} (hhandles : ∀ n, shelf.handles n = assets.count (.handle n))
    (hguards : ∀ n, shelf.guards n = assets.count (.guard n))
    (hheld : ∀ m t, m ≠ n → shelf.get? m = some t → t.isHeld = true)
    (htotal : w.total = Ledger.wrap (Asset.total assets + shelf.charged - pending)) :
    (({ w with shelf := (shelf.settle n).2 } : World).discharge (shelf.settle n).1).Accounts assets pending := by
  rcases shelf.settle_cases n with ⟨hsettle, hself⟩ | ⟨t, ht, hnone, hfree, hsettle⟩
  · rw [hsettle]
    refine ⟨hhandles, hguards, fun m t ht => ?_, ?_⟩
    · by_cases hm : m = n
      · exact hself t (hm ▸ ht)
      · exact hheld m t hm ht
    · show Ledger.released w.total 0 = Ledger.wrap (Asset.total assets + shelf.charged - pending)
      rw [htotal]
      simp [Ledger.released, Ledger.entry, Ledger.wrap]
  · rw [hsettle]
    refine ⟨fun m => ?_, fun m => ?_, fun m t' ht' => ?_, ?_⟩
    · rw [← hhandles]
      show (Shelf.get? ⟨shelf.slots.set n none⟩ m).elim 0 Slot.handles = (shelf.get? m).elim 0 Slot.handles
      rw [Shelf.get?_clear]
      split
      · rename_i hm
        rw [← hm, ht]
        exact hnone.symm
      · rfl
    · rw [← hguards]
      show (Shelf.get? ⟨shelf.slots.set n none⟩ m).elim 0 Slot.guards = (shelf.get? m).elim 0 Slot.guards
      rw [Shelf.get?_clear]
      split
      · rename_i hm
        rw [← hm, ht]
        exact hfree.symm
      · rfl
    · have hget : Shelf.get? ⟨shelf.slots.set n none⟩ m = some t' := ht'
      rw [Shelf.get?_clear] at hget
      split at hget
      · cases hget
      · rename_i hm
        exact hheld m t' (Ne.symm hm) hget
    · show Ledger.released w.total (t.charge.getD 0) =
        Ledger.wrap (Asset.total assets + (Shelf.mk (shelf.slots.set n none)).charged - pending)
      rw [Shelf.charged_clear ht, htotal, Ledger.released, Shelf.entry_getD]
      simp only [Ledger.wrap, Int.bmod_sub_bmod]
      congr 1
      omega

end World.Accounts

/-! ## Trades -/

/-- What happens to a world: bitmaps stay what they are, assets are paid and others given for them, and a tally becomes
pending. -/
structure Trade (w w' : World) (paid given : Multiset Asset) (tally : Int) : Prop where
  ages : w.shelf.Ages w'.shelf
  accounts : ∀ rest pending, w.Accounts (paid + rest) pending → w'.Accounts (given + rest) (pending + tally)

namespace Trade

variable {w w₁ w₂ : World} {paid given rest : Multiset Asset} {tally : Int}

theorem refl (w : World) (assets : Multiset Asset) : Trade w w assets assets 0 := by
  refine ⟨.refl _, fun rest pending h => ?_⟩
  rw [Int.add_zero]
  exact h

theorem trans {middle : Multiset Asset} {tally' : Int} (h : Trade w w₁ paid middle tally)
    (h' : Trade w₁ w₂ middle given tally') : Trade w w₂ paid given (tally + tally') := by
  refine ⟨h.ages.trans h'.ages, fun rest pending haccounts => ?_⟩
  rw [← Int.add_assoc]
  exact h'.accounts rest _ (h.accounts rest pending haccounts)

theorem frame (h : Trade w w₁ paid given tally) (rest : Multiset Asset) :
    Trade w w₁ (paid + rest) (given + rest) tally := by
  refine ⟨h.ages, fun rest' pending haccounts => ?_⟩
  rw [add_assoc] at haccounts ⊢
  exact h.accounts (rest + rest') pending haccounts

theorem cast {paid' given' : Multiset Asset} {tally' : Int} (h : Trade w w₁ paid given tally) (hpaid : paid' = paid)
    (hgiven : given' = given) (htally : tally' = tally) : Trade w w₁ paid' given' tally' := by
  subst hpaid hgiven htally
  exact h

theorem seq {paid' : Multiset Asset} (h : Trade w w₁ paid 0 0) (h' : Trade w₁ w₂ paid' 0 0) :
    Trade w w₂ (paid + paid') 0 0 :=
  ((h.frame paid').trans (h'.cast (zero_add paid') rfl rfl)).cast rfl rfl rfl

end Trade

namespace World

theorem trade_discharge (w : World) (bytes : Nat) : Trade w (w.discharge bytes) {Asset.charge bytes} 0 0 := by
  refine ⟨.refl _, fun rest pending h => ⟨fun n => ?_, fun n => ?_, h.held, ?_⟩⟩
  · refine (h.handles n).trans ?_
    simp
  · refine (h.guards n).trans ?_
    simp
  · show Ledger.released w.total bytes = Ledger.wrap (Asset.total (0 + rest) + w.shelf.charged - (pending + 0))
    rw [h.total, Ledger.released, Multiset.singleton_add, Asset.total_cons, zero_add]
    simp only [Ledger.wrap, Int.bmod_sub_bmod, Asset.bytes]
    congr 1
    omega

theorem trade_uncharge (w : World) (charge : Option Nat) : Trade w (w.uncharge charge) (Asset.ofCharge charge) 0 0 := by
  cases charge with
  | none => exact .refl w 0
  | some bytes => exact w.trade_discharge bytes

theorem Accounts.present_cons {w : World} {a : Asset} {rest : Multiset Asset} {pending : Int} {n : Nat}
    (h : w.Accounts ({a} + rest) pending) (ha : a = .handle n ∨ a = .guard n) : ∃ t, w.shelf.get? n = some t ∧
      t.handles = ({a} + rest : Multiset Asset).count (.handle n) ∧
      t.guards = ({a} + rest : Multiset Asset).count (.guard n) := by
  refine h.present ?_
  rcases ha with rfl | rfl
  · exact .inl (Multiset.mem_add.2 (.inl (Multiset.mem_singleton_self _)))
  · exact .inr (Multiset.mem_add.2 (.inl (Multiset.mem_singleton_self _)))

theorem Accounts.modify {w : World} {before : Multiset Asset} {pending : Int} {n : Nat} {t : Slot}
    (h : w.Accounts before pending) (ht : w.shelf.get? n = some t) (f : Slot → Slot) (after : Multiset Asset)
    (hhandles : (f t).handles = after.count (.handle n)) (hguards : (f t).guards = after.count (.guard n))
    (hothers : ∀ m ≠ n, after.count (.handle m) = before.count (.handle m) ∧
      after.count (.guard m) = before.count (.guard m)) :
    (∀ m, (w.shelf.modify n f).handles m = after.count (.handle m)) ∧
      (∀ m, (w.shelf.modify n f).guards m = after.count (.guard m)) ∧
      ∀ m t', m ≠ n → (w.shelf.modify n f).get? m = some t' → t'.isHeld = true := by
  refine ⟨fun m => ?_, fun m => ?_, fun m t' hm ht' => ?_⟩
  · rw [Shelf.handles_modify]
    split
    · rename_i hm
      rw [← hm, ht]
      exact hhandles
    · rename_i hm
      rw [(hothers m (Ne.symm hm)).1]
      exact h.handles m
  · rw [Shelf.guards_modify]
    split
    · rename_i hm
      rw [← hm, ht]
      exact hguards
    · rename_i hm
      rw [(hothers m (Ne.symm hm)).2]
      exact h.guards m
  · rw [Shelf.get?_modify, if_neg (Ne.symm hm)] at ht'
    exact h.held m t' ht'

/-- **A holder less of a bitmap.** -/
theorem trade_lose (w : World) (n : Nat) {f : Slot → Slot} {a : Asset}
    (hkeeps : ∀ t, (f t).content = t.content ∧ (f t).charge = t.charge) (ha : a = .handle n ∨ a = .guard n)
    (hhandles : ∀ t, (f t).handles = t.handles - if a = .handle n then 1 else 0)
    (hguards : ∀ t, (f t).guards = t.guards - if a = .guard n then 1 else 0) :
    Trade w (({ w with shelf := ((w.shelf.modify n f).settle n).2 } : World).discharge
      ((w.shelf.modify n f).settle n).1) {a} 0 0 := by
  refine ⟨(w.shelf.ages_modify n hkeeps).trans (Shelf.ages_settle _ n), fun rest pending h => ?_⟩
  obtain ⟨t, ht, hcount, hcount'⟩ := h.present_cons ha
  obtain ⟨hhandles', hguards', hheld⟩ := h.modify ht f (0 + rest)
    (by rw [hhandles, hcount]; rcases ha with rfl | rfl <;> simp)
    (by rw [hguards, hcount']; rcases ha with rfl | rfl <;> simp)
    fun m hm => by rcases ha with rfl | rfl <;> simp [hm]
  refine Accounts.settle hhandles' hguards' hheld ?_
  rw [Shelf.charged_modify _ _ fun t => (hkeeps t).2, h.total, Multiset.singleton_add, Asset.total_cons, zero_add]
  rcases ha with rfl | rfl <;> simp [Asset.bytes]

theorem trade_letGo (w : World) (n : Nat) : Trade w (w.letGo n) {.handle n} 0 0 :=
  w.trade_lose n (fun _ => ⟨rfl, rfl⟩) (.inl rfl) (fun _ => by simp) fun _ => by simp

theorem trade_unfreeze (w : World) (n : Nat) : Trade w (w.unfreeze n) {.guard n} 0 0 :=
  w.trade_lose n (fun _ => ⟨rfl, rfl⟩) (.inr rfl) (fun _ => by simp) fun _ => by simp

/-- **A new holder of a bitmap that is there.** -/
theorem trade_gain (w : World) (n : Nat) {f : Slot → Slot} {a : Asset}
    (hkeeps : ∀ t, (f t).content = t.content ∧ (f t).charge = t.charge) (ha : a = .handle n ∨ a = .guard n)
    (hhandles : ∀ t, (f t).handles = t.handles + if a = .handle n then 1 else 0)
    (hguards : ∀ t, (f t).guards = t.guards + if a = .guard n then 1 else 0) :
    Trade w { w with shelf := w.shelf.modify n f } {.handle n} {a, .handle n} 0 := by
  refine ⟨w.shelf.ages_modify n hkeeps, fun rest pending h => ?_⟩
  have hadd : ({a, .handle n} + rest : Multiset Asset) = a ::ₘ ({.handle n} + rest) := Multiset.cons_add a _ _
  rw [hadd]
  obtain ⟨t, ht, hcount, hcount'⟩ := h.present_cons (.inl rfl)
  obtain ⟨hhandles', hguards', hheld⟩ := h.modify ht f (a ::ₘ ({.handle n} + rest))
    (by rw [hhandles, hcount, Multiset.count_cons]; simp [eq_comm])
    (by rw [hguards, hcount', Multiset.count_cons]; simp [eq_comm])
    fun m hm => by rcases ha with rfl | rfl <;> simp [hm]
  refine ⟨hhandles', hguards', fun m t' ht' => ?_, ?_⟩
  · by_cases hm : m = n
    · subst hm
      rw [Shelf.get?_modify, if_pos rfl, ht] at ht'
      obtain rfl := Option.some.inj ht'
      have hheld := h.held m t ht
      simp only [Slot.isHeld, decide_eq_true_eq, hhandles, hguards] at hheld ⊢
      omega
    · exact hheld m t' hm ht'
  · show w.total = Ledger.wrap (Asset.total (a ::ₘ ({.handle n} + rest)) + (w.shelf.modify n f).charged - (pending + 0))
    rw [Shelf.charged_modify _ _ fun t => (hkeeps t).2, Asset.total_cons, h.total]
    rcases ha with rfl | rfl <;> simp [Asset.bytes]

theorem trade_hold (w : World) (n : Nat) : Trade w (w.hold n) {.handle n} {.handle n, .handle n} 0 :=
  w.trade_gain n (fun _ => ⟨rfl, rfl⟩) (.inl rfl) (fun _ => by simp) fun _ => by simp

theorem trade_freeze (w : World) (n : Nat) : Trade w (w.freeze n) {.handle n} {.guard n, .handle n} 0 :=
  w.trade_gain n (fun _ => ⟨rfl, rfl⟩) (.inr rfl) (fun _ => by simp) fun _ => by simp

/-- **A new bitmap**: its charge is in the total once the tally with its entry is. -/
theorem trade_place (w : World) (c : Content) (charge : Option Nat) :
    Trade w (w.place c charge).2 0 {.handle w.shelf.numbers} (charge.elim 0 Ledger.entry) := by
  have hget : ∀ n, (w.place c charge).2.shelf.get? n =
      if n = w.shelf.numbers then some (.ofContent c charge) else w.shelf.get? n := w.shelf.get?_put c charge
  have hblank := w.shelf.get?_of_le (Nat.le_refl w.shelf.numbers)
  obtain ⟨-, -, hframe, -⟩ := w.shelf.put_spec c charge
  refine ⟨⟨hframe.grows, fun n hn t' ht' => ?_⟩, fun rest pending h => ⟨fun n => ?_, fun n => ?_, fun n t ht => ?_, ?_⟩⟩
  · rw [hget, if_neg (Nat.ne_of_lt hn)] at ht'
    exact ⟨t', ht', rfl, rfl⟩
  · have hcount := h.handles n
    rw [Shelf.handles] at hcount ⊢
    rw [hget]
    split
    · rename_i hn
      rw [hn, hblank, zero_add] at hcount
      rw [hn, Multiset.count_add, ← hcount, Multiset.count_singleton_self]
      rfl
    · rename_i hn
      rw [hcount]
      simp [hn]
  · have hcount := h.guards n
    rw [Shelf.guards] at hcount ⊢
    rw [hget]
    split
    · rename_i hn
      rw [hn, hblank, zero_add] at hcount
      rw [hn, Multiset.count_add, ← hcount, Multiset.count_singleton, if_neg (by simp)]
      rfl
    · rw [hcount]
      simp
  · rw [hget] at ht
    split at ht
    · obtain rfl := Option.some.inj ht
      rfl
    · exact h.held n t ht
  · show w.total = Ledger.wrap (Asset.total ({.handle w.shelf.numbers} + rest) + (w.shelf.put c charge).2.charged -
      (pending + charge.elim 0 Ledger.entry))
    rw [h.total, Shelf.charged_put, Multiset.singleton_add, Asset.total_cons, zero_add]
    congr 1
    simp only [Asset.bytes]
    omega

theorem trade_credit (w : World) (tally : Int) : Trade w (w.credit tally) 0 0 (-tally) := by
  refine ⟨.refl _, fun rest pending h => ⟨h.handles, h.guards, h.held, ?_⟩⟩
  show Ledger.adjust w.total tally = Ledger.wrap (Asset.total (0 + rest) + w.shelf.charged - (pending + -tally))
  rw [h.total, Ledger.adjust]
  simp only [Ledger.wrap, Int.bmod_add_bmod]
  congr 1
  omega

end World
end BitmapWorks
