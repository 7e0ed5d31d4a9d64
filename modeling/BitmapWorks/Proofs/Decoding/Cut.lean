import BitmapWorks.Proofs.Decoding.RoundTrip
import BitmapWorks.Proofs.Portable.Cut
/-!
# Cut — encodings that are cut short or changed in their count

In every format but the native one a decoder notices that bytes are missing at the end: the portable layout because its
bodies take all their bytes, and plain values because their count has to agree with the length.  That count leaves no
choice in either direction, so a changed count is refused just as more bytes are (`decode_cut`).
-/
namespace BitmapWorks
namespace Decoding

/-- **Plain values are refused unless their count is the number of their words.** -/
theorem tagged_values_error {rest : Bytes}
    (h : ∀ count values : Bytes, rest = count ++ values → count.length = 4 → 4 * Bytes.leNat count ≠ values.length) :
    tagged (Encoding.valuesTag :: rest) = .error wrongCount := by
  rw [tagged, if_pos rfl]
  cases hsplit : Bytes.split? 4 rest with
  | none => rfl
  | some parts =>
    obtain ⟨count, values⟩ := parts
    obtain ⟨hcount, rfl⟩ := Bytes.split?_eq_some hsplit
    have hne := h count values rfl hcount
    dsimp only
    rw [List.length_append, hcount, if_neg (by omega)]

theorem portable_error {bs : Bytes} (h : Portable.decode? bs = none) : portable bs = .error Frozen.badPortable := by
  rw [portable, h]

theorem leNat_card {b : Bitmap} (hb : b.valid = true) (hcard : b.card < Encoding.valuesLimit) :
    4 * Bytes.leNat (Bytes.le 4 b.card) = (Encoding.wordBytes b).length := by
  unfold Encoding.valuesLimit at hcard
  rw [Encoding.length_wordBytes hb, Bytes.leNat_le_of_lt (by omega)]

/-! ## Missing bytes -/

/-- **The tagged encoding is refused when its last bytes are missing.** -/
theorem tagged_of_tagged_eq_append {b : Bitmap} (hb : b.valid = true) {front back : Bytes}
    (h : Encoding.tagged b = front ++ back) (hfront : front ≠ []) (hback : back ≠ []) :
    ∃ what, tagged front = .error (.corrupted what) := by
  obtain ⟨tag, rest, rfl⟩ := List.exists_cons_of_ne_nil hfront
  have hpos := List.length_pos_iff.2 hback
  rcases Encoding.plan_eq b with ⟨hplan, hcard⟩ | hplan
  · rw [Encoding.tagged_of_values hplan, List.cons_append, List.cons.injEq] at h
    obtain ⟨rfl, hrest⟩ := h
    refine ⟨_, tagged_values_error fun count values hsplit hcount => ?_⟩
    -- the count is still the one of the whole, while words are missing behind it
    rw [hsplit, List.append_assoc] at hrest
    obtain ⟨rfl, hwords⟩ := List.append_inj hrest ((Bytes.length_le 4 b.card).trans hcount.symm)
    rw [leNat_card hb hcard, hwords, List.length_append]
    omega
  · rw [Encoding.tagged_of_containers hplan, List.cons_append, List.cons.injEq] at h
    obtain ⟨rfl, hrest⟩ := h
    refine ⟨"invalid portable data", ?_⟩
    rw [tagged, if_neg (by decide), if_pos rfl]
    exact portable_error (Portable.decode?_eq_none_of_encode_eq_append hb hrest hback)

/-- A fault of the formats that are not used in place is what both readers give. -/
theorem decode_of_unfrozen_error {bs : Bytes} (hbs : bs ≠ []) {f : Format} (hf : f.isFrozen = false) {fault : Fault}
    (h : unfrozen bs f = .error fault) (copyBase ownedBase : Nat) :
    decode copyBase bs f = .error fault ∧ decodeOwned ownedBase bs f = .error fault := by
  obtain ⟨hdecode, -⟩ := decode_of_not_isFrozen hbs hf copyBase
  obtain ⟨-, howned⟩ := decode_of_not_isFrozen hbs hf ownedBase
  rw [hdecode, howned, h]
  exact ⟨rfl, rfl⟩

theorem unfrozen_of_encode_eq_append {b : Bitmap} (hb : b.valid = true) {f : Format} (hf : f.isFrozen = false)
    {front back : Bytes} (h : Encoding.encode b f = front ++ back) (hfront : front ≠ []) (hback : back ≠ []) :
    ∃ what, unfrozen front f = .error (.corrupted what) := by
  cases f with
  | tagged => exact tagged_of_tagged_eq_append hb h hfront hback
  | portable => exact ⟨_, portable_error (Portable.decode?_eq_none_of_encode_eq_append hb h hback)⟩
  | frozenNative => cases hf
  | frozenPortable => cases hf

theorem copy_of_encode_eq_append {b : Bitmap} (hb : b.valid = true) {front back : Bytes}
    (h : Portable.encode b = front ++ back) (hback : back ≠ []) (base : Nat) :
    Frozen.copy base front .frozenPortable = .error Frozen.badPortable := by
  have hroom := Encoding.room_of_encode_eq_append hb (f := .frozenPortable) h
  obtain ⟨w, -, hcopy⟩ := Frozen.copy_eq base .frozenPortable hroom
  rw [hcopy, Frozen.check, Portable.decode?_eq_none_of_encode_eq_append hb h hback]
  rfl

theorem decode_of_encode_eq_append {b : Bitmap} (hb : b.valid = true) {f : Format} (hf : f ≠ .frozenNative)
    {front back : Bytes} (h : Encoding.encode b f = front ++ back) (hfront : front ≠ []) (hback : back ≠ [])
    (copyBase ownedBase : Nat) :
    ∃ what, decode copyBase front f = .error (.corrupted what) ∧
      decodeOwned ownedBase front f = .error (.corrupted what) := by
  cases hfrozen : f.isFrozen with
  | false =>
    obtain ⟨what, hwhat⟩ := unfrozen_of_encode_eq_append hb hfrozen h hfront hback
    exact ⟨what, decode_of_unfrozen_error hfront hfrozen hwhat copyBase ownedBase⟩
  | true =>
    have hportable : f = .frozenPortable := by
      cases f with
      | tagged => cases hfrozen
      | portable => cases hfrozen
      | frozenNative => exact absurd rfl hf
      | frozenPortable => rfl
    subst hportable
    obtain ⟨hdecode, -⟩ := decode_of_isFrozen hfront hfrozen copyBase
    obtain ⟨-, howned⟩ := decode_of_isFrozen hfront hfrozen ownedBase
    rw [hdecode, howned, copy_of_encode_eq_append hb h hback, copy_of_encode_eq_append hb h hback]
    exact ⟨_, rfl, rfl⟩

/-! ## Another count -/

/-- The count in an encoding in the form of plain values agrees with the values behind it. -/
theorem leNat_of_tagged {b : Bitmap} (hb : b.valid = true) {count values : Bytes}
    (h : Encoding.tagged b = Encoding.valuesTag :: (count ++ values)) (hcount : count.length = 4) :
    4 * Bytes.leNat count = values.length := by
  rcases Encoding.plan_eq b with ⟨hplan, hcard⟩ | hplan
  · rw [Encoding.tagged_of_values hplan, List.cons.injEq] at h
    obtain ⟨rfl, rfl⟩ := List.append_inj h.2 ((Bytes.length_le 4 b.card).trans hcount.symm)
    exact leNat_card hb hcard
  · rw [Encoding.tagged_of_containers hplan, List.cons.injEq] at h
    exact absurd h.1 (by decide)

theorem tagged_of_count_ne {count values other : Bytes} (hcount : count.length = 4)
    (hagrees : 4 * Bytes.leNat count = values.length) (hother : other.length = 4) (hne : other ≠ count) :
    tagged (Encoding.valuesTag :: (other ++ values)) = .error wrongCount := by
  refine tagged_values_error fun count' values' hsplit hlen heq => hne ?_
  obtain ⟨rfl, rfl⟩ := List.append_inj hsplit (hother.trans hlen.symm)
  have hsame : Bytes.leNat other = Bytes.leNat count := by omega
  rw [← Bytes.le_leNat other, ← Bytes.le_leNat count, hsame, hother, hcount]

theorem tagged_of_append {count values more : Bytes} (hcount : count.length = 4)
    (hagrees : 4 * Bytes.leNat count = values.length) (hmore : more ≠ []) :
    tagged (Encoding.valuesTag :: (count ++ (values ++ more))) = .error wrongCount := by
  refine tagged_values_error fun count' values' hsplit hlen heq => ?_
  obtain ⟨rfl, rfl⟩ := List.append_inj hsplit (hcount.trans hlen.symm)
  have hpos := List.length_pos_iff.2 hmore
  rw [List.length_append] at heq
  omega

/-- **Encodings that have lost or changed bytes are refused.**  Any front of an encoding but the whole is corrupted, in
every format but the native one.  Plain values behind another count than their own, or with more bytes behind them, have
the wrong count. -/
theorem decode_cut {b : Bitmap} (hb : b.valid = true) {f : Format} (hf : f ≠ .frozenNative)
    (base copyBase ownedBase : Nat) : ∃ w, Encoding.serialize base b f = .ok w ∧
      (∀ front back, w.visible = front ++ back → front ≠ [] → back ≠ [] → ∃ what,
        decode copyBase front f = .error (.corrupted what) ∧ decodeOwned ownedBase front f = .error (.corrupted what)) ∧
      (f = .tagged → ∀ count values, w.visible = Encoding.valuesTag :: (count ++ values) → count.length = 4 →
        (∀ other : Bytes, other.length = 4 → other ≠ count →
          decode copyBase (Encoding.valuesTag :: (other ++ values)) f
              = .error (.corrupted "corrupted data, wrong cardinality header") ∧
            decodeOwned ownedBase (Encoding.valuesTag :: (other ++ values)) f
              = .error (.corrupted "corrupted data, wrong cardinality header")) ∧
        ∀ more, more ≠ [] →
          decode copyBase (w.visible ++ more) f = .error (.corrupted "corrupted data, wrong cardinality header") ∧
            decodeOwned ownedBase (w.visible ++ more) f
              = .error (.corrupted "corrupted data, wrong cardinality header")) := by
  obtain ⟨w, hw, hvisible, -⟩ := Encoding.serialize_spec hb f base
  refine ⟨w, hw, fun front back h hfront hback => ?_, fun hplain count values h hcount => ?_⟩
  · exact decode_of_encode_eq_append hb hf (hvisible.symm.trans h) hfront hback copyBase ownedBase
  · subst hplain
    have hagrees := leNat_of_tagged hb (hvisible.symm.trans h) hcount
    refine ⟨fun other hother hne => ?_, fun more hmore => ?_⟩
    · have hfault : unfrozen (Encoding.valuesTag :: (other ++ values)) .tagged = .error wrongCount :=
        tagged_of_count_ne hcount hagrees hother hne
      exact decode_of_unfrozen_error (List.cons_ne_nil _ _) rfl hfault copyBase ownedBase
    · have hfault : unfrozen (Encoding.valuesTag :: (count ++ (values ++ more))) .tagged = .error wrongCount :=
        tagged_of_append hcount hagrees hmore
      rw [h, List.cons_append, List.append_assoc]
      exact decode_of_unfrozen_error (List.cons_ne_nil _ _) rfl hfault copyBase ownedBase

def three : Bitmap := ⟨[(0, .array #[1, 2, 3])]⟩

theorem decode_cut_three : three.valid = true ∧ (∃ w, Encoding.serialize 9 three .tagged = .ok w ∧
      w.visible = [1, 3, 0, 0, 0, 1, 0, 0, 0, 2, 0, 0, 0, 3, 0, 0, 0]) ∧
    (∃ what, decode 9 [1, 3, 0, 0, 0, 1, 0, 0, 0, 2, 0, 0, 0] .tagged = .error (.corrupted what)) ∧
    decode 9 [1, 4, 0, 0, 0, 1, 0, 0, 0, 2, 0, 0, 0, 3, 0, 0, 0] .tagged = .error wrongCount ∧
    decodeOwned 7 [1, 3, 0, 0, 0, 1, 0, 0, 0, 2, 0, 0, 0, 3, 0, 0, 0, 9] .tagged = .error wrongCount := by
  have hthree : three.valid = true := by decide
  obtain ⟨w, hw, hcut, hcount⟩ := decode_cut hthree (f := .tagged) (by decide) 9 9 7
  have hvisible : w.visible = [1, 3, 0, 0, 0, 1, 0, 0, 0, 2, 0, 0, 0, 3, 0, 0, 0] := by
    obtain ⟨w', hw', hbytes, -⟩ := Encoding.serialize_spec hthree .tagged 9
    obtain rfl : w = w' := Except.ok.inj (hw.symm.trans hw')
    exact hbytes
  obtain ⟨what, hshort, -⟩ := hcut [1, 3, 0, 0, 0, 1, 0, 0, 0, 2, 0, 0, 0] [3, 0, 0, 0] hvisible (by decide) (by decide)
  obtain ⟨hother, hmore⟩ := hcount rfl [3, 0, 0, 0] [1, 0, 0, 0, 2, 0, 0, 0, 3, 0, 0, 0] hvisible rfl
  have hlong := (hmore [9] (by decide)).2
  rw [hvisible] at hlong
  exact ⟨hthree, ⟨w, hw, hvisible⟩, ⟨what, hshort⟩, (hother [4, 0, 0, 0] rfl (by decide)).1, hlong⟩

end Decoding
end BitmapWorks
