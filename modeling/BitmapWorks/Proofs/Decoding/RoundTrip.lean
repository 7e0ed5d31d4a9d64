import BitmapWorks.Decoding
import BitmapWorks.Proofs.Bitmap.Contents
import BitmapWorks.Proofs.Frozen.Copy
import BitmapWorks.Proofs.Native.Zones
import BitmapWorks.Proofs.Portable.Starts
/-!
# RoundTrip — every format reads back what it wrote

`encodedSize` is the length of the encoding (`Encoding.length_encode`) and far below the memory there is
(`Encoding.encodedSize_lt`), so `serialize` never fails (`Encoding.serialize_spec`).  Each format is then read back on
its own: `tagged_encode` for the two forms of the tagged one, `portable_encode`, and `copy_encode` for the frozen ones.

The portable layout keeps stored starts in four bytes.  Reading in sequence is not concerned, but what is used in place
shows the bitmap only if all its bodies start where four bytes reach (`Portable.addressable`); `shredded_reads_less` has
a bitmap that is not read back.
-/
namespace BitmapWorks

/-! ## Lengths -/

theorem sum_map_le {α : Type} {f : α → Nat} {m : Nat} : ∀ {xs : List α}, (∀ x ∈ xs, f x ≤ m) →
    (xs.map f).sum ≤ m * xs.length
  | [], _ => Nat.le_refl 0
  | x :: xs, h => by
    have hx : f x ≤ m := h x List.mem_cons_self
    have ih := sum_map_le fun y hy => h y (List.mem_cons_of_mem _ hy)
    rw [List.map_cons, List.sum_cons, List.length_cons, Nat.mul_succ]
    omega

theorem Portable.size_lt {b : Bitmap} (hb : b.valid = true) : Portable.size b < 2 ^ 40 := by
  have hn := Bitmap.length_containers_le hb
  have hheader := Portable.headerSize_le hn
  have hbodies := sum_map_le fun kc hkc => Container.bodySize_le ((Bitmap.valid_iff.1 hb).2 kc hkc)
  have hsize : Portable.size b = Portable.headerSize b + (b.containers.map fun kc => kc.2.bodySize).sum := rfl
  omega

theorem Native.zoneSize_le_bodySize (c : Container) : Native.zoneSize c ≤ c.bodySize := by
  cases c with
  | array xs => exact Nat.le_refl _
  | bitset count bits => exact Nat.le_refl _
  | runs rs => exact Nat.le_add_left _ _

theorem Native.size_lt {b : Bitmap} (hb : b.valid = true) : Native.size b < 2 ^ 40 := by
  have hn := Bitmap.length_containers_le hb
  have hzones := sum_map_le fun kc hkc =>
    Nat.le_trans (Native.zoneSize_le_bodySize kc.2) (Container.bodySize_le ((Bitmap.valid_iff.1 hb).2 kc hkc))
  have hsize : Native.size b
    = (b.containers.map fun kc => Native.zoneSize kc.2).sum + 5 * b.containers.length + 4 := rfl
  omega

namespace Encoding

theorem length_wordBytes {b : Bitmap} (hb : b.valid = true) : (wordBytes b).length = 4 * b.card := by
  rw [wordBytes, Bytes.length_flatMap_ofWord32, Bitmap.length_values hb]

theorem plan_eq (b : Bitmap) :
    (plan b = .values b.card ∧ b.card < valuesLimit) ∨ plan b = .containers (Portable.size b) := by
  unfold plan
  by_cases h : b.card < valuesLimit ∧ b.card * 4 + 4 < Portable.size b
  · exact .inl ⟨if_pos h, h.1⟩
  · exact .inr (if_neg h)

theorem tagged_of_values {b : Bitmap} (h : plan b = .values b.card) :
    tagged b = valuesTag :: (Bytes.le 4 b.card ++ wordBytes b) := by
  unfold tagged
  rw [h]

theorem tagged_of_containers {b : Bitmap} (h : plan b = .containers (Portable.size b)) :
    tagged b = containersTag :: Portable.encode b := by
  unfold tagged
  rw [h]

theorem encodedSize_of_values {b : Bitmap} (h : plan b = .values b.card) :
    encodedSize b .tagged = 1 + 4 + b.card * 4 := by
  show (plan b).length = _
  rw [h, Plan.length]

theorem encodedSize_of_containers {b : Bitmap} (h : plan b = .containers (Portable.size b)) :
    encodedSize b .tagged = 1 + Portable.size b := by
  show (plan b).length = _
  rw [h, Plan.length]

/-- **The size that is told beforehand is the length of the encoding.** -/
theorem length_encode {b : Bitmap} (hb : b.valid = true) (f : Format) : (encode b f).length = encodedSize b f := by
  cases f with
  | tagged =>
    rcases plan_eq b with ⟨h, -⟩ | h
    · rw [encodedSize_of_values h, encode, tagged_of_values h, List.length_cons, List.length_append, Bytes.length_le,
        length_wordBytes hb]
      omega
    · rw [encodedSize_of_containers h, encode, tagged_of_containers h, List.length_cons, Portable.length_encode]
      omega
  | portable => exact Portable.length_encode b
  | frozenNative => exact Native.length_encode b
  | frozenPortable => exact Portable.length_encode b

theorem encodedSize_lt {b : Bitmap} (hb : b.valid = true) (f : Format) : encodedSize b f < 2 ^ 41 := by
  have hportable := Portable.size_lt hb
  have hnative := Native.size_lt hb
  cases f with
  | tagged =>
    rcases plan_eq b with ⟨h, hcard⟩ | h
    · rw [encodedSize_of_values h]
      unfold valuesLimit at hcard
      omega
    · rw [encodedSize_of_containers h]
      omega
  | portable => exact Nat.lt_trans hportable (by decide)
  | frozenNative => exact Nat.lt_trans hnative (by decide)
  | frozenPortable => exact Nat.lt_trans hportable (by decide)

theorem room_of_encode_eq_append {b : Bitmap} (hb : b.valid = true) {f : Format} {front back : Bytes}
    (h : encode b f = front ++ back) : front.length + 31 < Window.memoryLimit := by
  have hsize := encodedSize_lt hb f
  have hlen := congrArg List.length h
  rw [length_encode hb, List.length_append] at hlen
  unfold Window.memoryLimit
  omega

/-- No bitmap has an encoding without bytes, so none reads back as the bytes that are not there. -/
theorem encodedSize_pos (b : Bitmap) (f : Format) : 0 < encodedSize b f := by
  have hportable : 0 < Portable.size b := by
    unfold Portable.size Portable.headerSize
    dsimp only
    split <;> omega
  cases f with
  | tagged =>
    rcases plan_eq b with ⟨h, -⟩ | h
    · rw [encodedSize_of_values h]
      omega
    · rw [encodedSize_of_containers h]
      omega
  | portable => exact hportable
  | frozenNative => exact Nat.succ_pos _
  | frozenPortable => exact hportable

theorem exists_window {b : Bitmap} (hb : b.valid = true) (f : Format) (base : Nat) :
    ∃ w, Window.zeroed base (encodedSize b f) f.alignment = .ok w ∧ w.offset + w.length ≤ w.storage.length ∧
      w.length = encodedSize b f ∧ w.start % f.alignment = 0 := by
  have hsize := encodedSize_lt hb f
  have hpow : Window.isPowerOfTwo f.alignment = true := by cases f <;> decide
  have halign : f.alignment ≤ 32 := by cases f <;> decide
  have hroom : encodedSize b f + (f.alignment - 1) < Window.memoryLimit := by
    unfold Window.memoryLimit
    omega
  exact Window.zeroed_spec base hpow hroom

theorem put_of_length {b : Bitmap} (hb : b.valid = true) {f : Format} {memory : Bytes}
    (hsize : memory.length = encodedSize b f) : put b f memory = .ok (encodedSize b f, encode b f) := by
  have hlen := length_encode hb f
  unfold put
  dsimp only
  rw [if_pos (by omega), List.drop_of_length_le (by omega), List.append_nil, hlen]

/-- **Serializing succeeds** and shows the encoding on the boundary of the format. -/
theorem serialize_spec {b : Bitmap} (hb : b.valid = true) (f : Format) (base : Nat) :
    ∃ w, serialize base b f = .ok w ∧ w.visible = encode b f ∧ w.start % f.alignment = 0 := by
  have hlen := length_encode hb f
  obtain ⟨w, hw, hin, hlength, hstart⟩ := exists_window hb f base
  have hput := put_of_length hb ((Window.length_visible hin).trans hlength)
  refine ⟨w.write (encode b f), ?_, Window.visible_write_all hin (by omega), hstart⟩
  unfold serialize
  rw [hw]
  dsimp only [bind, Except.bind]
  rw [hput]
  exact congrArg Except.ok (Window.truncate_of_le (Nat.le_of_eq hlength))

end Encoding

/-! ## Reading back -/

namespace Decoding

theorem portable_encode {b : Bitmap} (hb : b.valid = true) : portable (Portable.encode b) = .ok b := by
  have hdecode := Portable.decode?_encode_append hb []
  rw [List.append_nil] at hdecode
  unfold portable
  rw [hdecode]

theorem ofWords_wordBytes (b : Bitmap) : ofWords (Encoding.wordBytes b) = .ofList b.values := by
  unfold ofWords Encoding.wordBytes
  rw [Bytes.words32_flatMap_ofWord32]

/-- **Both forms of the tagged format read back as the same values.** -/
theorem tagged_encode {b : Bitmap} (hb : b.valid = true) :
    ∃ d : Bitmap, tagged (Encoding.tagged b) = .ok d ∧ d.values = b.values := by
  rcases Encoding.plan_eq b with ⟨h, hcard⟩ | h
  · refine ⟨.ofList b.values, ?_, Bitmap.values_ofList_values hb⟩
    have hcount : Bytes.leNat (Bytes.le 4 b.card) = b.card := Bytes.leNat_le_of_lt (by
      unfold Encoding.valuesLimit at hcard
      omega)
    have hlength : (Bytes.le 4 b.card ++ Encoding.wordBytes b).length = 4 + 4 * b.card := by
      rw [List.length_append, Bytes.length_le, Encoding.length_wordBytes hb]
    rw [Encoding.tagged_of_values h, tagged, if_pos rfl, Bytes.split?_append (Bytes.length_le _ _)]
    dsimp only
    rw [hcount, hlength, if_pos (by omega), ofWords_wordBytes]
  · refine ⟨b, ?_, rfl⟩
    rw [Encoding.tagged_of_containers h, tagged, if_neg (by decide), if_pos rfl, portable_encode hb]

/-- **A frozen copy of an encoding passes the check** and shows what the encoding shows in place. -/
theorem copy_encode {b : Bitmap} (hb : b.valid = true) {f : Format} (hf : f.isFrozen = true) (base : Nat) :
    ∃ v, Frozen.copy base (Encoding.encode b f) f = .ok v ∧ v.bitmap = Frozen.view (Encoding.encode b f) f := by
  have hroom := Encoding.room_of_encode_eq_append hb (List.append_nil (Encoding.encode b f)).symm
  obtain ⟨w, -, hcopy⟩ := Frozen.copy_eq base f hroom
  have hcheck : Frozen.check 0 (Encoding.encode b f) f = .ok () := by
    cases f with
    | tagged => cases hf
    | portable => cases hf
    | frozenNative =>
      unfold Frozen.check Encoding.encode
      rw [if_neg (by decide), Native.fits_encode hb]
      rfl
    | frozenPortable =>
      have hdecode := Portable.decode?_encode_append hb []
      rw [List.append_nil] at hdecode
      unfold Frozen.check Encoding.encode
      rw [hdecode]
      rfl
  rw [hcheck] at hcopy
  exact ⟨_, hcopy, rfl⟩

/-- **An encoding that is used in place shows the bitmap**, if its layout can say where the bodies start. -/
theorem view_encode {b : Bitmap} (hb : b.valid = true) {f : Format} (hf : f.isFrozen = true)
    (hfits : f = .frozenPortable → Portable.addressable b = true) : Frozen.view (Encoding.encode b f) f = b := by
  cases f with
  | tagged => cases hf
  | portable => cases hf
  | frozenNative => exact Native.view_encode hb
  | frozenPortable =>
    have hview := Portable.view?_encode_append hb (hfits rfl) []
    rw [List.append_nil] at hview
    show (Portable.view? (Portable.encode b)).getD .empty = b
    rw [hview]
    rfl

theorem decode_of_isFrozen {bs : Bytes} (h : bs ≠ []) {f : Format} (hf : f.isFrozen = true) (base : Nat) :
    decode base bs f = Content.frozen <$> Frozen.copy base bs f ∧
      decodeOwned base bs f = Frozen.bitmap <$> Frozen.copy base bs f := by
  have hempty : ¬ bs.isEmpty = true := mt List.isEmpty_iff.1 h
  unfold decode decodeOwned
  rw [if_neg hempty, if_neg hempty]
  cases f with
  | tagged => cases hf
  | portable => cases hf
  | frozenNative => exact ⟨rfl, rfl⟩
  | frozenPortable => exact ⟨rfl, rfl⟩

def unfrozen (bs : Bytes) : Format → Except Fault Bitmap
  | .tagged => tagged bs
  | _ => portable bs

theorem encode_ne_nil {b : Bitmap} (hb : b.valid = true) (f : Format) : Encoding.encode b f ≠ [] :=
  List.ne_nil_of_length_pos (by rw [Encoding.length_encode hb]; exact Encoding.encodedSize_pos b f)

theorem view_encode_shredded :
    Frozen.view (Encoding.encode Portable.shredded .frozenPortable) .frozenPortable = Portable.frayed := by
  show (Portable.view? (Portable.encode Portable.shredded)).getD .empty = _
  rw [Portable.view?_shredded]
  rfl

/-- **Both readers take an encoding that is used in place as what it shows there.** -/
theorem decode_encode_of_isFrozen {b : Bitmap} (hb : b.valid = true) {f : Format} (hf : f.isFrozen = true) (base : Nat) :
    (∃ content, decode base (Encoding.encode b f) f = .ok content ∧ content.isView = true ∧
      content.bitmap = Frozen.view (Encoding.encode b f) f) ∧
    decodeOwned base (Encoding.encode b f) f = .ok (Frozen.view (Encoding.encode b f) f) := by
  obtain ⟨v, hv, hview⟩ := copy_encode hb hf base
  obtain ⟨hdecode, howned⟩ := decode_of_isFrozen (encode_ne_nil hb f) hf base
  rw [hdecode, howned, hv]
  exact ⟨⟨.frozen v, rfl, rfl, hview⟩, congrArg Except.ok hview⟩

theorem decode_of_not_isFrozen {bs : Bytes} (h : bs ≠ []) {f : Format} (hf : f.isFrozen = false) (base : Nat) :
    decode base bs f = Content.owned <$> unfrozen bs f ∧ decodeOwned base bs f = unfrozen bs f := by
  have hempty : ¬ bs.isEmpty = true := mt List.isEmpty_iff.1 h
  unfold decode decodeOwned
  rw [if_neg hempty, if_neg hempty]
  cases f with
  | tagged => exact ⟨rfl, rfl⟩
  | portable => exact ⟨rfl, rfl⟩
  | frozenNative => cases hf
  | frozenPortable => cases hf

theorem unfrozen_encode {b : Bitmap} (hb : b.valid = true) {f : Format} (hf : f.isFrozen = false) :
    ∃ d : Bitmap, unfrozen (Encoding.encode b f) f = .ok d ∧ d.values = b.values ∧ (f ≠ .tagged → d = b) := by
  cases f with
  | tagged =>
    obtain ⟨d, hd, hvalues⟩ := tagged_encode hb
    exact ⟨d, hd, hvalues, fun h => absurd rfl h⟩
  | portable => exact ⟨b, portable_encode hb, rfl, fun _ => rfl⟩
  | frozenNative => cases hf
  | frozenPortable => cases hf

/-- **Every format reads back what it wrote.**  Serializing succeeds, and so does reading the bytes into a handle and
into a bitmap of its own, with the same values; all formats but the tagged one keep the kinds of the containers too, so
that serializing again gives the same bytes.  The portable layout has words of 32 bits for where bodies start; used in
place, it shows the bitmap if they suffice, as they do for all bodies of up to 65520 bytes. -/
theorem decode_serialize {b : Bitmap} (hb : b.valid = true) (f : Format) (base copyBase ownedBase : Nat) :
    ∃ (w : Window) (content : Content) (owned : Bitmap),
      Encoding.serialize base b f = .ok w ∧ decode copyBase w.visible f = .ok content ∧
      decodeOwned ownedBase w.visible f = .ok owned ∧
      ((f = .frozenPortable → Portable.addressable b = true) →
        content.bitmap.values = b.values ∧ owned.values = b.values ∧
        (f ≠ .tagged → content.bitmap = b ∧ owned = b ∧
          ∀ againBase, ∃ again, Encoding.serialize againBase content.bitmap f = .ok again ∧
            again.visible = w.visible)) := by
  obtain ⟨w, hw, hvisible, -⟩ := Encoding.serialize_spec hb f base
  have again : ∀ againBase, ∃ again, Encoding.serialize againBase b f = .ok again ∧ again.visible = w.visible := by
    intro againBase
    obtain ⟨again, hagain, hbytes, -⟩ := Encoding.serialize_spec hb f againBase
    exact ⟨again, hagain, hbytes.trans hvisible.symm⟩
  -- both readers go through the same copy or the same sequence, so one look at the bytes settles both
  cases hf : f.isFrozen with
  | true =>
    obtain ⟨⟨content, hdecode, -, hcontent⟩, -⟩ := decode_encode_of_isFrozen hb hf copyBase
    obtain ⟨-, howned⟩ := decode_encode_of_isFrozen hb hf ownedBase
    rw [← hvisible] at hdecode howned hcontent
    refine ⟨w, content, _, hw, hdecode, howned, fun hfits => ?_⟩
    have hview := view_encode hb hf hfits
    rw [← hvisible] at hview
    rw [hcontent, hview]
    exact ⟨rfl, rfl, fun _ => ⟨rfl, rfl, again⟩⟩
  | false =>
    obtain ⟨d, hd, hvalues, hkinds⟩ := unfrozen_encode hb hf
    obtain ⟨hdecode, -⟩ := decode_of_not_isFrozen (encode_ne_nil hb f) hf copyBase
    obtain ⟨-, howned⟩ := decode_of_not_isFrozen (encode_ne_nil hb f) hf ownedBase
    rw [hd, ← hvisible] at hdecode howned
    refine ⟨w, .owned d, d, hw, hdecode, howned, fun _ => ⟨hvalues, hvalues, fun hne => ?_⟩⟩
    obtain rfl := hkinds hne
    exact ⟨rfl, rfl, again⟩

def mixed : Bitmap :=
  ⟨[(0, .array #[1, 5]), (7, .bitset 65536 (Container.bitsOfLows (List.range 65536))),
    (65535, .runs [⟨3, 0⟩, ⟨9, 65526⟩])]⟩

theorem valid_full : (Container.bitset 65536 (Container.bitsOfLows (List.range 65536))).valid = true := by
  have hlow : ∀ n ∈ List.range 65536, n < 65536 := fun n hn => List.mem_range.1 hn
  have hall := Container.lowsOfBits_bitsOfLows List.pairwise_lt_range hlow
  have hbits := Container.bitsOfLows_lt hlow
  refine Container.valid_bitset.2 ⟨by decide, hbits, ?_⟩
  rw [hall, List.length_range]

theorem valid_mixed : mixed.valid = true := by
  refine Bitmap.valid_iff.2 ⟨by decide, fun kc hkc => ?_⟩
  unfold mixed at hkc
  simp only [List.mem_cons, List.not_mem_nil, or_false] at hkc
  rcases hkc with rfl | rfl | rfl
  · decide
  · exact valid_full
  · decide

theorem decode_serialize_mixed : ∃ (w : Window) (content : Content) (owned : Bitmap),
    Encoding.serialize 5 mixed .frozenPortable = .ok w ∧ decode 6 w.visible .frozenPortable = .ok content ∧
      decodeOwned 7 w.visible .frozenPortable = .ok owned ∧ content.bitmap.values = mixed.values ∧
      owned.values = mixed.values ∧ content.bitmap = mixed ∧ owned = mixed := by
  obtain ⟨w, content, owned, hw, hdecode, howned, hrest⟩ := decode_serialize valid_mixed .frozenPortable 5 6 7
  have hfits : Portable.addressable mixed = true := Portable.addressable_of_bodySize_le valid_mixed (by decide)
  obtain ⟨hvalues, hvalues', hkinds⟩ := hrest fun _ => hfits
  obtain ⟨hsame, hsame', -⟩ := hkinds (by decide)
  exact ⟨w, content, owned, hw, hdecode, howned, hvalues, hvalues', hsame, hsame'⟩

/-- **What is used in place is cut short where a body starts too far behind**: serializing and reading succeed, and a
container that was there is read as one without numbers. -/
theorem shredded_reads_less : Portable.shredded.valid = true ∧ ∃ (w : Window) (content : Content) (owned : Bitmap),
    Encoding.serialize 0 Portable.shredded .frozenPortable = .ok w ∧
      decode 0 w.visible .frozenPortable = .ok content ∧ decodeOwned 0 w.visible .frozenPortable = .ok owned ∧
      content.bitmap.values ≠ Portable.shredded.values ∧ owned.values ≠ Portable.shredded.values := by
  have hb := Portable.valid_shredded
  obtain ⟨w, hw, hvisible, -⟩ := Encoding.serialize_spec hb .frozenPortable 0
  obtain ⟨⟨content, hdecode, -, hcontent⟩, howned⟩ := decode_encode_of_isFrozen hb (f := .frozenPortable) rfl 0
  rw [view_encode_shredded] at hcontent howned
  rw [← hvisible] at hdecode howned
  refine ⟨hb, w, content, Portable.frayed, hw, hdecode, howned, ?_, Portable.values_frayed_ne⟩
  rw [hcontent]
  exact Portable.values_frayed_ne

end Decoding
end BitmapWorks
