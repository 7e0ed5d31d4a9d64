import BitmapWorks.Proofs.Bitmap.Contents
import BitmapWorks.Proofs.Container.Erase
import Mathlib.Data.Finset.Sort
/-!
# Members — a bitmap as a finite set

What a valid bitmap holds is a finite set (`members`), and every operation is the one on sets: adding values, removing
one, counting, listing in ascending order, looking for a value and comparing, whatever the kinds of the containers.
-/
namespace BitmapWorks
namespace Bitmap

/-! ## Removing a value -/

theorem keys_eraseAt_sublist (key low : UInt16) : ∀ cs : List (UInt16 × Container),
    ((eraseAt key low cs).map Prod.fst).Sublist (cs.map Prod.fst)
  | [] => List.Sublist.slnil
  | (k, c) :: rest => by
    rw [eraseAt]
    dsimp only
    by_cases hkey : key = k
    · rw [if_pos hkey]
      by_cases hnone : (c.erase low).card = 0
      · rw [if_pos hnone]
        exact List.sublist_cons_self ..
      · rw [if_neg hnone]
        exact List.Sublist.refl _
    · rw [if_neg hkey]
      exact (keys_eraseAt_sublist key low rest).cons_cons k

theorem rules_eraseAt {key low : UInt16} : ∀ {cs : List (UInt16 × Container)}, (∀ kc ∈ cs, kc.2.valid = true) →
    ∀ kc ∈ eraseAt key low cs, kc.2.valid = true
  | [], _, kc, hkc => by cases hkc
  | (k, c) :: rest, h, kc, hkc => by
    have hc : c.valid = true := h (k, c) List.mem_cons_self
    have hrest : ∀ kc ∈ rest, kc.2.valid = true := fun kc hkc => h kc (List.mem_cons_of_mem _ hkc)
    rw [eraseAt] at hkc
    dsimp only at hkc
    by_cases hkey : key = k
    · rw [if_pos hkey] at hkc
      by_cases hnone : (c.erase low).card = 0
      · rw [if_pos hnone] at hkc
        exact hrest kc hkc
      · rw [if_neg hnone] at hkc
        rcases List.mem_cons.1 hkc with rfl | hkc
        · exact Container.valid_erase hc hnone
        · exact hrest kc hkc
    · rw [if_neg hkey] at hkc
      rcases List.mem_cons.1 hkc with rfl | hkc
      · exact hc
      · exact rules_eraseAt hrest kc hkc

theorem holds_eraseAt {key low k : UInt16} {n : Nat} : ∀ {cs : List (UInt16 × Container)},
    (∀ kc ∈ cs, kc.2.valid = true) → (cs.map Prod.fst).Pairwise (· < ·) →
      (Holds (eraseAt key low cs) k n ↔ Holds cs k n ∧ ¬ (key = k ∧ n = low.toNat))
  | [], _, _ => by simp [eraseAt, Holds]
  | (x, c) :: rest, h, hkeys => by
    have hc : c.valid = true := h (x, c) List.mem_cons_self
    have hrest : ∀ kc ∈ rest, kc.2.valid = true := fun kc hkc => h kc (List.mem_cons_of_mem _ hkc)
    obtain ⟨hfirst, hkeys'⟩ := List.pairwise_cons.1 hkeys
    rw [eraseAt]
    dsimp only
    by_cases hkey : key = x
    · subst hkey
      -- the key stands here only, so the rest does not lose anything
      have hother : Holds rest k n → key ≠ k := by
        rintro ⟨kc, hkc, rfl, -⟩ rfl
        exact UInt16.lt_irrefl _ (hfirst kc.1 (List.mem_map.2 ⟨kc, hkc, rfl⟩))
      have hlows := Container.mem_lows_erase (v := low) hc (n := n)
      rw [if_pos rfl]
      by_cases hnone : (c.erase low).card = 0
      · have hnil : (c.erase low).lows = [] := by
          rw [← List.length_eq_zero_iff, Container.length_lows_erase hc, hnone]
        rw [hnil] at hlows
        rw [if_pos hnone, holds_cons]
        constructor
        · intro hk
          exact ⟨.inr hk, fun hsame => hother hk hsame.1⟩
        · rintro ⟨⟨hk, hn⟩ | hk, hnot⟩
          · exact absurd (hlows.2 ⟨hn, fun heq => hnot ⟨hk, heq⟩⟩) List.not_mem_nil
          · exact hk
      · rw [if_neg hnone, holds_cons, hlows, holds_cons]
        constructor
        · rintro (⟨hk, hn, hne⟩ | hk)
          · exact ⟨.inl ⟨hk, hn⟩, fun hsame => hne hsame.2⟩
          · exact ⟨.inr hk, fun hsame => hother hk hsame.1⟩
        · rintro ⟨⟨hk, hn⟩ | hk, hnot⟩
          · exact .inl ⟨hk, hn, fun heq => hnot ⟨hk, heq⟩⟩
          · exact .inr hk
    · rw [if_neg hkey, holds_cons, holds_eraseAt hrest hkeys', holds_cons, or_and_right]
      refine or_congr_left (and_iff_left_of_imp ?_).symm
      rintro ⟨rfl, -⟩ ⟨heq, -⟩
      exact hkey heq

variable {a b : Bitmap} {v w : UInt32}

theorem valid_remove (hb : b.valid = true) (v : UInt32) : (b.remove v).valid = true :=
  valid_iff.2 ⟨(Container.ascending_iff_pairwise _).2 ((keys_pairwise hb).sublist (keys_eraseAt_sublist ..)),
    rules_eraseAt (valid_iff.1 hb).2⟩

theorem halves_inj : keyOf v = keyOf w ∧ (lowOf w).toNat = (lowOf v).toNat ↔ w = v := by
  rw [← UInt32.toNat_inj, ← UInt16.toNat_inj, toNat_keyOf, toNat_keyOf, toNat_lowOf, toNat_lowOf]
  omega

theorem mem_values_remove (hb : b.valid = true) : w ∈ (b.remove v).values ↔ w ∈ b.values ∧ w ≠ v := by
  rw [mem_values (valid_iff.1 (valid_remove hb v)).2, mem_values (valid_iff.1 hb).2, remove,
    holds_eraseAt (valid_iff.1 hb).2 (keys_pairwise hb), halves_inj]

/-! ## Looking for a value -/

theorem contains_iff_mem (hb : b.valid = true) : b.contains v = true ↔ v ∈ b.values := by
  rw [contains_iff, mem_values (valid_iff.1 hb).2]

theorem contains_eq_decide (hb : b.valid = true) : b.contains v = decide (v ∈ b.values) := by
  rw [Bool.eq_iff_iff, decide_eq_true_eq]
  exact contains_iff_mem hb

/-! ## Comparing -/

/-- The keys are the high halves of the values, since no container is empty. -/
theorem mem_keys_iff (hb : b.valid = true) {k : UInt16} :
    k ∈ b.containers.map Prod.fst ↔ ∃ v ∈ b.values, keyOf v = k := by
  have hrules := (valid_iff.1 hb).2
  constructor
  · intro hk
    obtain ⟨kc, hkc, rfl⟩ := List.mem_map.1 hk
    have hpos : 0 < kc.2.lows.length := by
      rw [Container.length_lows (hrules kc hkc)]
      exact Container.card_pos (hrules kc hkc)
    obtain ⟨low, hlow⟩ := List.exists_mem_of_length_pos hpos
    obtain ⟨hkey, hlow'⟩ := (value_inj (Container.lt_of_mem_lows (hrules kc hkc) hlow)).1 (Eq.refl (value kc.1 low))
    exact ⟨value kc.1 low, (mem_values hrules).2 ⟨kc, hkc, hkey, hlow' ▸ hlow⟩, hkey.symm⟩
  · rintro ⟨v, hv, rfl⟩
    obtain ⟨kc, hkc, hkey, -⟩ := (mem_values hrules).1 hv
    exact hkey ▸ List.mem_map_of_mem hkc

theorem keys_eq_of_values_eq (ha : a.valid = true) (hb : b.valid = true) (h : a.values = b.values) :
    a.containers.map Prod.fst = b.containers.map Prod.fst := by
  refine Container.eq_of_pairwise_lt UInt16.lt_irrefl (fun _ _ _ => UInt16.lt_trans) (keys_pairwise ha)
    (keys_pairwise hb) ?_
  intro k
  rw [mem_keys_iff ha, mem_keys_iff hb, h]

/-- Containers of one key that hold the same numbers list them alike. -/
theorem lows_eq_of_contains {c d : Container} (hc : c.valid = true) (hd : d.valid = true)
    (h : ∀ low, c.contains low = d.contains low) : c.lows = d.lows := by
  refine Container.eq_of_pairwise_lt Nat.lt_irrefl (fun _ _ _ => Nat.lt_trans) (Container.pairwise_lows hc)
    (Container.pairwise_lows hd) fun n => ?_
  have hback : ∀ {e : Container}, e.valid = true → n ∈ e.lows → (UInt16.ofNat n).toNat = n :=
    fun he hn => UInt16.toNat_ofNat_of_lt' (Container.lt_of_mem_lows he hn)
  constructor
  · intro hn
    have hheld := Container.contains_iff.2 ((hback hc hn).symm ▸ hn)
    rw [h] at hheld
    exact hback hc hn ▸ Container.contains_iff.1 hheld
  · intro hn
    have hheld := Container.contains_iff.2 ((hback hd hn).symm ▸ hn)
    rw [← h] at hheld
    exact hback hd hn ▸ Container.contains_iff.1 hheld

theorem values_cons (k : UInt16) (c : Container) (cs : List (UInt16 × Container)) :
    values ⟨(k, c) :: cs⟩ = c.lows.map (value k) ++ values ⟨cs⟩ := List.flatMap_cons

theorem values_concat (cs : List (UInt16 × Container)) (kc : UInt16 × Container) :
    values ⟨cs ++ [kc]⟩ = values ⟨cs⟩ ++ kc.2.lows.map (value kc.1) := by
  rw [values, List.flatMap_append, List.flatMap_singleton]
  rfl

theorem values_eq_of_zip : ∀ {cs ds : List (UInt16 × Container)}, cs.map Prod.fst = ds.map Prod.fst →
    (∀ p ∈ cs.zip ds, p.1.2.lows = p.2.2.lows) → values ⟨cs⟩ = values ⟨ds⟩
  | [], [], _, _ => rfl
  | [], _ :: _, h, _ => by cases h
  | _ :: _, [], h, _ => by cases h
  | (k, c) :: cs, (k', d) :: ds, h, hlows => by
    obtain ⟨rfl, hrest⟩ : k = k' ∧ cs.map Prod.fst = ds.map Prod.fst := List.cons.inj h
    rw [List.zip_cons_cons, List.forall_mem_cons] at hlows
    have hlow : c.lows = d.lows := hlows.1
    rw [values_cons, values_cons, hlow, values_eq_of_zip hrest hlows.2]

/-- Bitmaps that list the same values keep the same numbers under each key. -/
theorem lows_eq_of_values_eq (ha : a.valid = true) (hb : b.valid = true) (h : a.values = b.values) :
    ∀ p ∈ a.containers.zip b.containers, p.1.2.lows = p.2.2.lows := by
  have hcontains : ∀ v, contains ⟨a.containers⟩ v = contains ⟨b.containers⟩ v := by
    intro v
    rw [contains_eq_decide ha, contains_eq_decide hb, h]
  intro p hp
  exact lows_eq_of_contains ((valid_iff.1 ha).2 _ (List.of_mem_zip hp).1) ((valid_iff.1 hb).2 _ (List.of_mem_zip hp).2)
    ((contains_congr_iff (keys_eq_of_values_eq ha hb h) (keys_pairwise hb)).1 hcontains p hp)

/-- **Comparing bitmaps compares their values**, whatever the kinds of their containers. -/
theorem sameValues_iff (ha : a.valid = true) (hb : b.valid = true) : a.sameValues b = true ↔ a.values = b.values := by
  have hrules := (valid_iff.1 ha).2
  have hrules' := (valid_iff.1 hb).2
  rw [sameValues, Bool.and_eq_true, beq_iff_eq, List.all_eq_true]
  constructor
  · rintro ⟨hkeys, hall⟩
    refine values_eq_of_zip hkeys fun p hp => ?_
    have hsame := hall p hp
    simp only [Bool.and_eq_true, Bool.or_eq_true, beq_iff_eq] at hsame
    rcases hsame.2 with heq | heq
    · rw [heq]
    · exact heq
  · intro h
    refine ⟨keys_eq_of_values_eq ha hb h, fun p hp => ?_⟩
    have hp1 := hrules _ (List.of_mem_zip hp).1
    have hp2 := hrules' _ (List.of_mem_zip hp).2
    have hlows := lows_eq_of_values_eq ha hb h p hp
    simp [← Container.length_lows hp1, ← Container.length_lows hp2, hlows]

/-! ## Sets -/

def members (b : Bitmap) : Finset UInt32 := b.values.toFinset

@[simp] theorem mem_members : v ∈ b.members ↔ v ∈ b.values := List.mem_toFinset

theorem nodup_values (hb : b.valid = true) : b.values.Nodup :=
  (pairwise_values hb).imp UInt32.ne_of_lt

@[simp] theorem members_empty : members empty = ∅ := rfl

theorem members_add (hb : b.valid = true) (v : UInt32) : (b.add v).members = insert v b.members := by
  ext w
  rw [mem_members, mem_values_add hb, Finset.mem_insert, mem_members]

theorem members_addMany (hb : b.valid = true) (vs : List UInt32) :
    (b.addMany vs).valid = true ∧ (b.addMany vs).members = b.members ∪ vs.toFinset := by
  obtain ⟨hvalid, hvalues⟩ := addMany_rules vs hb
  refine ⟨hvalid, ?_⟩
  ext w
  rw [mem_members, hvalues, Finset.mem_union, mem_members, List.mem_toFinset, or_comm]

theorem members_ofList (vs : List UInt32) : (ofList vs).members = vs.toFinset := by
  ext w
  rw [mem_members, mem_values_ofList, List.mem_toFinset]

theorem members_remove (hb : b.valid = true) (v : UInt32) : (b.remove v).members = b.members.erase v := by
  ext w
  rw [mem_members, mem_values_remove hb, Finset.mem_erase, mem_members, and_comm]

theorem card_members (hb : b.valid = true) : b.members.card = b.card := by
  rw [members, List.toFinset_card_of_nodup (nodup_values hb), length_values hb]

/-- **A bitmap lists its members in ascending order.** -/
theorem sort_members (hb : b.valid = true) : b.members.sort (· ≤ ·) = b.values :=
  (List.toFinset_sort _ (nodup_values hb)).2 ((pairwise_values hb).imp UInt32.le_of_lt)

theorem sameValues_eq_decide (ha : a.valid = true) (hb : b.valid = true) :
    a.sameValues b = decide (a.members = b.members) := by
  rw [Bool.eq_iff_iff, sameValues_iff ha hb, decide_eq_true_eq]
  constructor
  · intro h
    rw [members, members, h]
  · intro h
    refine values_ext ha hb fun v => ?_
    rw [← mem_members, h, mem_members]

end Bitmap
end BitmapWorks
