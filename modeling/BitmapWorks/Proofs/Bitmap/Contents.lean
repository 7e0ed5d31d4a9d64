import BitmapWorks.Bitmap
import BitmapWorks.Proofs.Container.Insert
/-!
# Contents — what a bitmap holds, value by value

A valid bitmap lists its values in ascending order and each of them once, so it is determined by which values it holds
(`values_ext`).  Adding a value keeps the rules (`valid_add`) and adds that value only (`mem_values_add`); a bitmap
built from the list of another one's values therefore lists the same values (`values_ofList_values`), whatever the kinds
of the containers were.
-/
namespace BitmapWorks
namespace Bitmap

/-! ## Halves -/

theorem toNat_keyOf (v : UInt32) : (keyOf v).toNat = v.toNat / 65536 := by
  have hv : v.toNat < 4294967296 := v.toNat_lt
  rw [keyOf, UInt32.toNat_toUInt16, UInt32.toNat_shiftRight]
  simp only [UInt32.reduceToNat, Nat.reduceMod, Nat.reducePow, Nat.shiftRight_eq_div_pow]
  omega

theorem toNat_lowOf (v : UInt32) : (lowOf v).toNat = v.toNat % 65536 := UInt32.toNat_toUInt16 v

theorem toNat_value {key : UInt16} {low : Nat} (h : low < 65536) : (value key low).toNat = key.toNat * 65536 + low := by
  have hk : key.toNat < 65536 := key.toNat_lt
  rw [value, UInt32.toNat_ofNat', Nat.mod_eq_of_lt (by omega)]

theorem value_inj {key : UInt16} {low : Nat} (h : low < 65536) {v : UInt32} :
    value key low = v ↔ key = keyOf v ∧ low = (lowOf v).toNat := by
  have hk : key.toNat < 65536 := key.toNat_lt
  rw [← UInt32.toNat_inj, ← UInt16.toNat_inj, toNat_value h, toNat_keyOf, toNat_lowOf]
  omega

/-! ## Values -/

def Holds (cs : List (UInt16 × Container)) (key : UInt16) (low : Nat) : Prop := ∃ kc ∈ cs, kc.1 = key ∧ low ∈ kc.2.lows

theorem holds_cons {k : UInt16} {c : Container} {cs : List (UInt16 × Container)} {key : UInt16} {low : Nat} :
    Holds ((k, c) :: cs) key low ↔ (k = key ∧ low ∈ c.lows) ∨ Holds cs key low := by
  constructor
  · rintro ⟨kc, hkc, hkey, hlow⟩
    rcases List.mem_cons.1 hkc with rfl | hkc
    · exact .inl ⟨hkey, hlow⟩
    · exact .inr ⟨kc, hkc, hkey, hlow⟩
  · rintro (⟨hkey, hlow⟩ | ⟨kc, hkc, hkey, hlow⟩)
    · exact ⟨(k, c), List.mem_cons_self, hkey, hlow⟩
    · exact ⟨kc, List.mem_cons_of_mem _ hkc, hkey, hlow⟩

/-- **The values are those whose low half is held under their high half.** -/
theorem mem_values {b : Bitmap} (h : ∀ kc ∈ b.containers, kc.2.valid = true) {v : UInt32} :
    v ∈ b.values ↔ Holds b.containers (keyOf v) (lowOf v).toNat := by
  rw [values, List.mem_flatMap]
  constructor
  · rintro ⟨⟨key, c⟩, hkc, hv⟩
    obtain ⟨low, hlow, hvalue⟩ := List.mem_map.1 hv
    obtain ⟨rfl, rfl⟩ := (value_inj (Container.lt_of_mem_lows (h _ hkc) hlow)).1 hvalue
    exact ⟨(keyOf v, c), hkc, rfl, hlow⟩
  · rintro ⟨⟨key, c⟩, hkc, rfl, hlow⟩
    refine ⟨(keyOf v, c), hkc, List.mem_map.2 ⟨_, hlow, ?_⟩⟩
    exact (value_inj (Container.lt_of_mem_lows (h _ hkc) hlow)).2 ⟨rfl, rfl⟩

theorem contains_iff {b : Bitmap} {v : UInt32} :
    b.contains v = true ↔ Holds b.containers (keyOf v) (lowOf v).toNat := by
  rw [contains, List.any_eq_true]
  refine exists_congr fun kc => and_congr_right fun _ => ?_
  rw [Bool.and_eq_true, beq_iff_eq, Container.contains_iff]

theorem keys_pairwise {b : Bitmap} (hb : b.valid = true) : (b.containers.map Prod.fst).Pairwise (· < ·) :=
  (Container.ascending_iff_pairwise _).1 (valid_iff.1 hb).1

theorem pairwise_map_value {key : UInt16} {c : Container} (h : c.valid = true) :
    (c.lows.map (value key)).Pairwise (· < ·) := by
  refine List.pairwise_map.2 ((Container.pairwise_lows h).imp_of_mem fun {x y} hx hy hlt => ?_)
  rw [UInt32.lt_iff_toNat_lt, toNat_value (Container.lt_of_mem_lows h hx), toNat_value (Container.lt_of_mem_lows h hy)]
  omega

theorem pairwise_values {b : Bitmap} (hb : b.valid = true) : b.values.Pairwise (· < ·) := by
  obtain ⟨cs⟩ := b
  have hrules := (valid_iff.1 hb).2
  have hkeys := List.pairwise_map.1 (keys_pairwise hb)
  refine List.pairwise_flatMap.2 ⟨fun kc hkc => pairwise_map_value (hrules kc hkc), ?_⟩
  refine hkeys.imp_of_mem fun {a b} ha hb' hlt x hx y hy => ?_
  obtain ⟨low, hlow, rfl⟩ := List.mem_map.1 hx
  obtain ⟨low', hlow', rfl⟩ := List.mem_map.1 hy
  have hl := Container.lt_of_mem_lows (hrules a ha) hlow
  have hl' := Container.lt_of_mem_lows (hrules b hb') hlow'
  rw [UInt16.lt_iff_toNat_lt] at hlt
  rw [UInt32.lt_iff_toNat_lt, toNat_value hl, toNat_value hl']
  omega

theorem card_eq (b : Bitmap) : b.card = (b.containers.map fun kc => kc.2.card).sum := rfl

theorem length_values {b : Bitmap} (hb : b.valid = true) : b.values.length = b.card := by
  have hrules := (valid_iff.1 hb).2
  rw [values, List.length_flatMap, card_eq]
  refine congrArg List.sum (List.map_congr_left fun kc hkc => ?_)
  rw [List.length_map, Container.length_lows (hrules kc hkc)]

/-- **Valid bitmaps that hold the same values list them alike.** -/
theorem values_ext {a b : Bitmap} (ha : a.valid = true) (hb : b.valid = true) (h : ∀ v, v ∈ a.values ↔ v ∈ b.values) :
    a.values = b.values :=
  Container.eq_of_pairwise_lt UInt32.lt_irrefl (fun _ _ _ => UInt32.lt_trans) (pairwise_values ha) (pairwise_values hb) h

theorem contains_cons (k : UInt16) (c : Container) (cs : List (UInt16 × Container)) (v : UInt32) :
    contains ⟨(k, c) :: cs⟩ v = ((k == keyOf v && c.contains (lowOf v)) || contains ⟨cs⟩ v) := rfl

theorem contains_eq_false {cs : List (UInt16 × Container)} {v : UInt32} (h : ∀ kc ∈ cs, kc.1 ≠ keyOf v) :
    contains ⟨cs⟩ v = false := by
  refine Bool.eq_false_iff.2 fun hv => ?_
  obtain ⟨kc, hkc, hkey, -⟩ := contains_iff.1 hv
  exact h kc hkc hkey

/-- **Bitmaps with the same keys hold the same values when their containers agree one by one**, whether the rules of
the kinds are kept or not. -/
theorem contains_congr_iff : ∀ {cs ds : List (UInt16 × Container)}, cs.map Prod.fst = ds.map Prod.fst →
    (ds.map Prod.fst).Pairwise (· < ·) →
    ((∀ v, contains ⟨cs⟩ v = contains ⟨ds⟩ v) ↔ ∀ p ∈ cs.zip ds, ∀ low, p.1.2.contains low = p.2.2.contains low)
  | [], [], _, _ => ⟨fun _ p hp => (by cases hp), fun _ _ => rfl⟩
  | [], _ :: _, h, _ => by cases h
  | _ :: _, [], h, _ => by cases h
  | (k, c) :: cs, (k', d) :: ds, h, hkeys => by
    obtain ⟨rfl, hrest⟩ : k = k' ∧ cs.map Prod.fst = ds.map Prod.fst := List.cons.inj h
    obtain ⟨hfirst, hkeys'⟩ := List.pairwise_cons.1 hkeys
    have ih := contains_congr_iff hrest hkeys'
    -- the first key is in neither rest, so a value under it is in the first container or nowhere
    have hno : ∀ es : List (UInt16 × Container), es.map Prod.fst = ds.map Prod.fst → ∀ v, k = keyOf v →
        contains ⟨es⟩ v = false := by
      intro es hes v hv
      refine contains_eq_false fun kc hkc hkey => ?_
      have hmem : kc.1 ∈ ds.map Prod.fst := hes ▸ List.mem_map_of_mem hkc
      exact UInt16.lt_irrefl k (by have := hfirst _ hmem; rwa [hkey, ← hv] at this)
    rw [List.zip_cons_cons, List.forall_mem_cons, ← ih]
    constructor
    · intro hall
      refine ⟨fun low => ?_, fun v => ?_⟩
      · obtain ⟨hkey, hlow⟩ := (value_inj (v := value k low.toNat) low.toNat_lt).1 rfl
        have hv := hall (value k low.toNat)
        have hlow : low = lowOf (value k low.toNat) := UInt16.toNat_inj.1 hlow
        rw [contains_cons, contains_cons, hno cs hrest _ hkey, hno ds rfl _ hkey, ← hkey, ← hlow] at hv
        simpa using hv
      · by_cases hkey : k = keyOf v
        · rw [hno cs hrest v hkey, hno ds rfl v hkey]
        · have hv := hall v
          rw [contains_cons, contains_cons, beq_eq_false_iff_ne.2 hkey] at hv
          simpa using hv
    · rintro ⟨hcd, hall⟩ v
      rw [contains_cons, contains_cons, hall v, hcd (lowOf v)]

/-! ## Adding values -/

theorem mem_keys_insertAt {key low k : UInt16} : ∀ {cs : List (UInt16 × Container)},
    k ∈ (insertAt key low cs).map Prod.fst ↔ k = key ∨ k ∈ cs.map Prod.fst
  | [] => by simp [insertAt]
  | (x, c) :: rest => by
    rw [insertAt]
    split
    · rw [List.map_cons, List.mem_cons]
    split
    · rename_i heq
      subst heq
      rw [List.map_cons, List.map_cons, List.mem_cons, or_self_left]
    · rw [List.map_cons, List.mem_cons, mem_keys_insertAt, List.map_cons, List.mem_cons, or_left_comm]

theorem pairwise_insertAt {key low : UInt16} : ∀ {cs : List (UInt16 × Container)},
    (cs.map Prod.fst).Pairwise (· < ·) → ((insertAt key low cs).map Prod.fst).Pairwise (· < ·)
  | [], _ => List.pairwise_singleton _ _
  | (x, c) :: rest, h => by
    obtain ⟨hx, hrest⟩ := List.pairwise_cons.1 h
    rw [insertAt]
    split
    · rename_i hlt
      refine List.pairwise_cons.2 ⟨fun k hk => ?_, h⟩
      rcases List.mem_cons.1 hk with rfl | hk
      · exact hlt
      · exact UInt16.lt_trans hlt (hx k hk)
    split
    · exact h
    · rename_i hge hne
      refine List.pairwise_cons.2 ⟨fun k hk => ?_, pairwise_insertAt hrest⟩
      rcases mem_keys_insertAt.1 hk with rfl | hk
      · exact UInt16.lt_of_le_of_ne (UInt16.not_lt.1 hge) (Ne.symm hne)
      · exact hx k hk

/-- **A container after adding a low half** is new, or the one under its key with that half, or an old one. -/
theorem mem_insertAt {key low : UInt16} {kc : UInt16 × Container} : ∀ {cs : List (UInt16 × Container)},
    kc ∈ insertAt key low cs → kc = (key, .singleton low) ∨ (∃ c, (key, c) ∈ cs ∧ kc = (key, c.insert low)) ∨ kc ∈ cs
  | [], hkc => .inl (List.mem_singleton.1 hkc)
  | (x, c) :: rest, hkc => by
    rw [insertAt] at hkc
    split at hkc
    · exact (List.mem_cons.1 hkc).imp_right .inr
    split at hkc
    · rename_i heq
      subst heq
      rcases List.mem_cons.1 hkc with rfl | hkc
      · exact .inr (.inl ⟨c, List.mem_cons_self, rfl⟩)
      · exact .inr (.inr (List.mem_cons_of_mem _ hkc))
    · rcases List.mem_cons.1 hkc with rfl | hkc
      · exact .inr (.inr List.mem_cons_self)
      · rcases mem_insertAt hkc with hnew | ⟨c', hc', heq⟩ | hold
        · exact .inl hnew
        · exact .inr (.inl ⟨c', List.mem_cons_of_mem _ hc', heq⟩)
        · exact .inr (.inr (List.mem_cons_of_mem _ hold))

theorem rules_insertAt {key low : UInt16} {cs : List (UInt16 × Container)} (h : ∀ kc ∈ cs, kc.2.valid = true) :
    ∀ kc ∈ insertAt key low cs, kc.2.valid = true := by
  intro kc hkc
  rcases mem_insertAt hkc with rfl | ⟨c, hc, rfl⟩ | hold
  · exact Container.valid_singleton low
  · exact Container.valid_insert (h _ hc) low
  · exact h kc hold

theorem holds_insertAt {key low k : UInt16} {n : Nat} : ∀ {cs : List (UInt16 × Container)},
    (∀ kc ∈ cs, kc.2.valid = true) →
      (Holds (insertAt key low cs) k n ↔ (key = k ∧ n = low.toNat) ∨ Holds cs k n)
  | [], _ => by
    rw [insertAt, holds_cons, Container.lows_singleton, List.mem_singleton]
  | (x, c) :: rest, h => by
    have hc : c.valid = true := h (x, c) List.mem_cons_self
    have hrest : ∀ kc ∈ rest, kc.2.valid = true := fun kc hkc => h kc (List.mem_cons_of_mem _ hkc)
    rw [insertAt]
    split
    · rw [holds_cons, Container.lows_singleton, List.mem_singleton]
    split
    · rename_i heq
      subst heq
      rw [holds_cons, holds_cons, Container.mem_lows_insert hc, and_or_left, or_assoc]
    · rw [holds_cons, holds_insertAt hrest, holds_cons, or_left_comm]

theorem valid_add {b : Bitmap} (hb : b.valid = true) (v : UInt32) : (b.add v).valid = true :=
  valid_iff.2 ⟨(Container.ascending_iff_pairwise _).2 (pairwise_insertAt (keys_pairwise hb)),
    rules_insertAt (valid_iff.1 hb).2⟩

theorem mem_values_add {b : Bitmap} (hb : b.valid = true) {v w : UInt32} :
    w ∈ (b.add v).values ↔ w = v ∨ w ∈ b.values := by
  have hv : (lowOf v).toNat < 65536 := (lowOf v).toNat_lt
  have hw : (lowOf w).toNat < 65536 := (lowOf w).toNat_lt
  rw [mem_values (valid_iff.1 (valid_add hb v)).2, mem_values (valid_iff.1 hb).2, add, holds_insertAt (valid_iff.1 hb).2]
  refine or_congr_left ?_
  rw [← UInt32.toNat_inj, ← UInt16.toNat_inj, toNat_keyOf, toNat_keyOf, toNat_lowOf, toNat_lowOf]
  omega

theorem valid_empty : empty.valid = true := rfl

theorem addMany_rules : ∀ (vs : List UInt32) {b : Bitmap}, b.valid = true →
    (b.addMany vs).valid = true ∧ ∀ w, w ∈ (b.addMany vs).values ↔ w ∈ vs ∨ w ∈ b.values
  | [], b, hb => ⟨hb, fun w => by simp [addMany]⟩
  | v :: vs, b, hb => by
    obtain ⟨hvalid, hmem⟩ := addMany_rules vs (valid_add hb v)
    refine ⟨hvalid, fun w => ?_⟩
    show w ∈ ((b.add v).addMany vs).values ↔ _
    rw [hmem, mem_values_add hb, List.mem_cons, or_left_comm, or_assoc]

theorem valid_ofList (vs : List UInt32) : (ofList vs).valid = true := (addMany_rules vs valid_empty).1

theorem mem_values_ofList {vs : List UInt32} {w : UInt32} : w ∈ (ofList vs).values ↔ w ∈ vs := by
  rw [ofList, (addMany_rules vs valid_empty).2]
  exact or_iff_left (fun h => by cases h)

theorem values_ofList_of_pairwise {vs : List UInt32} (h : vs.Pairwise (· < ·)) : (ofList vs).values = vs :=
  Container.eq_of_pairwise_lt UInt32.lt_irrefl (fun _ _ _ => UInt32.lt_trans) (pairwise_values (valid_ofList vs)) h
    fun _ => mem_values_ofList

/-- **A bitmap built from the values of another one lists the same values.** -/
theorem values_ofList_values {b : Bitmap} (hb : b.valid = true) : (ofList b.values).values = b.values :=
  values_ext (valid_ofList _) hb fun _ => mem_values_ofList

/-- Building a bitmap does not depend on the order of the values or on repetitions. -/
theorem values_ofList_congr {vs ws : List UInt32} (h : ∀ v, v ∈ vs ↔ v ∈ ws) : (ofList vs).values = (ofList ws).values :=
  values_ext (valid_ofList _) (valid_ofList _) fun v => by rw [mem_values_ofList, mem_values_ofList, h]

end Bitmap
end BitmapWorks
