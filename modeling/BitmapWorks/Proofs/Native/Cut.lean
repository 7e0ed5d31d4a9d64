import BitmapWorks.Proofs.Decoding.RoundTrip
import BitmapWorks.Proofs.Native.Layout
/-!
# Cut — the memory-mapped layout, cut short

This layout is read from its end, so bytes that have lost their end are read as if another trailer stood there.  Mostly
none does and they are refused.  But the bytes in front of the trailer are free, and they can be a layout of their own:
the four first bytes of `lone`, one array of one value, are all of the encoding of the empty bitmap.  What holds for all
encodings is that nothing else is ever accepted (`decode_front`): a front is refused unless it is a complete layout, it
then shows the bitmap that it is the encoding of, and at least four bytes behind it are missing.
-/
namespace BitmapWorks
namespace Native

/-- Whether bytes are laid out, with some zones and some trailer. -/
def IsLaid (bs : Bytes) : Prop := ∃ bitsets runs arrays heads, Laid bitsets runs arrays heads bs

/-! ## Three missing bytes are noticed -/

/-- The last word begins with the cookie and spells the count of containers behind it. -/
theorem lastWord_eq {n : Nat} (hn : n < 2 ^ 17) : ∃ x y z : UInt8, lastWord n = [198, x, y, z] ∧
    x.toNat % 128 = 53 ∧ n = x.toNat / 128 + 2 * y.toNat + 512 * z.toNat := by
  refine ⟨.ofNat ((n * 32768 + cookie) / 256), .ofNat ((n * 32768 + cookie) / 256 / 256),
    .ofNat ((n * 32768 + cookie) / 256 / 256 / 256), ?_, ?_⟩
  · have hfirst : UInt8.ofNat (n * 32768 + cookie) = 198 := by
      apply UInt8.toNat_inj.1
      rw [UInt8.toNat_ofNat', show (198 : UInt8).toNat = 198 from rfl, cookie]
      omega
    rw [lastWord, Bytes.le, Bytes.le, Bytes.le, Bytes.le, Bytes.le, hfirst]
  · simp only [UInt8.toNat_ofNat', Nat.reducePow, cookie]
    omega

theorem code_ne (c : Container) : code c ≠ 198 ∧ (code c).toNat % 128 ≠ 53 := by
  cases c with
  | array xs => exact (by decide : arrayCode ≠ 198 ∧ arrayCode.toNat % 128 ≠ 53)
  | bitset n bits => exact (by decide : bitsetCode ≠ 198 ∧ bitsetCode.toNat % 128 ≠ 53)
  | runs rs => exact (by decide : runsCode ≠ 198 ∧ runsCode.toNat % 128 ≠ 53)

/-- An encoding ends in the codes of its containers and the last word. -/
theorem encode_eq_codes (b : Bitmap) : ∃ front, encode b
    = front ++ (b.containers.map (fun kc => code kc.2) ++ lastWord b.containers.length) := by
  refine ⟨zone bitsetZone b.containers ++ (zone runsZone b.containers ++ (zone arrayZone b.containers ++
    (keyTable (b.containers.map Head.ofContainer) ++ countTable (b.containers.map Head.ofContainer)))), ?_⟩
  rw [encode_eq, trailer, List.length_map, codeTable, List.map_map]
  simp only [List.append_assoc, Function.comp_def, Head.ofContainer]

theorem Laid.eq_append {bitsets runs arrays bs : Bytes} {heads : List Head} (h : Laid bitsets runs arrays heads bs) :
    ∃ front, bs = front ++ lastWord heads.length := by
  refine ⟨bitsets ++ (runs ++ (arrays ++ (keyTable heads ++ (countTable heads ++ codeTable heads)))), ?_⟩
  rw [h.bytes, trailer]
  simp only [List.append_assoc]

theorem size_of_singleton {b : Bitmap} (hb : b.valid = true) {kc : UInt16 × Container} (h : b.containers = [kc]) :
    size b ≤ 131083 := by
  have hc : kc.2.valid = true := (Bitmap.valid_iff.1 hb).2 kc (h ▸ List.mem_singleton_self kc)
  have hzone := Nat.le_trans (zoneSize_le_bodySize kc.2) (Container.bodySize_le hc)
  have hsize : size b = (b.containers.map fun kc => zoneSize kc.2).sum + 5 * b.containers.length + 4 := rfl
  rw [hsize, h, List.map_singleton, List.sum_singleton, List.length_singleton]
  omega

/-- A last word that ends up to three bytes before another one behind a code: the cookie does not fit onto the code, so
it is three bytes, and the first byte of the later cookie is the highest of the word. -/
theorem eq_of_cut_word {init front back word : Bytes} {x y z c : UInt8} (hx : x.toNat % 128 = 53)
    (hc : c ≠ 198 ∧ c.toNat % 128 ≠ 53) (hword : word.length = 3) (hback : back ≠ []) (hshort : back.length < 4)
    (h : init ++ ([198, x, y, z] ++ back) = front ++ ([c, 198] ++ word)) : init ++ [198, x] = front ∧ z = 198 := by
  match back, hback, hshort with
  | [p], _, _ =>
    obtain ⟨-, hend⟩ := List.append_inj' h (by simp [hword])
    exact absurd (List.cons.inj hend).1.symm hc.1
  | [p, q], _, _ =>
    have hshift : (init ++ [198]) ++ [x, y, z, p, q] = front ++ ([c, 198] ++ word) := by
      rw [← h, List.append_assoc]
      rfl
    obtain ⟨-, hend⟩ := List.append_inj' hshift (by simp [hword])
    exact absurd ((List.cons.inj hend).1 ▸ hx) hc.2
  | [p, q, r], _, _ =>
    have hshift : (init ++ [198, x]) ++ [y, z, p, q, r] = front ++ ([c, 198] ++ word) := by
      rw [← h, List.append_assoc]
      rfl
    obtain ⟨hfront, hend⟩ := List.append_inj' hshift (by simp [hword])
    exact ⟨hfront, (List.cons.inj (List.cons.inj hend).2).1⟩

/-- **No front that misses up to three bytes of an encoding is laid out.**  Its last word would have a code where the
cookie should be, or count more containers than a single one has bytes. -/
theorem Laid.four_le_length {b : Bitmap} (hb : b.valid = true) {front back : Bytes} (h : encode b = front ++ back)
    (hback : back ≠ []) {bitsets runs arrays : Bytes} {heads : List Head}
    (hlaid : Laid bitsets runs arrays heads front) : 4 ≤ back.length := by
  refine Nat.le_of_not_lt fun hshort => ?_
  have hfew : b.containers.length < 2 ^ 17 := by
    have := Bitmap.length_containers_le hb
    omega
  obtain ⟨x, y, z, hword, hx, hn⟩ := lastWord_eq hlaid.few
  obtain ⟨x', y', z', hword', -⟩ := lastWord_eq hfew
  obtain ⟨init, hinit⟩ := hlaid.eq_append
  obtain ⟨zones, hzones⟩ := encode_eq_codes b
  have hlength := hlaid.length_eq
  have hsize := congrArg List.length h
  rw [length_encode, List.length_append] at hsize
  rw [hzones, hword', hinit, hword, List.append_assoc] at h
  rcases List.eq_nil_or_concat b.containers with hnone | ⟨cs, kc, hcs⟩
  · -- no container: all of the encoding is its last word
    have hpos := List.length_pos_iff.2 hback
    have hfour : size b = 4 := by
      unfold size
      rw [hnone]
      rfl
    omega
  rw [List.concat_eq_append] at hcs
  have hcut : init ++ ([198, x, y, z] ++ back)
      = (zones ++ cs.map fun kc => code kc.2) ++ ([code kc.2, 198] ++ [x', y', z']) := by
    rw [← h, hcs, List.map_append, List.map_singleton, List.append_assoc, List.append_assoc]
    rfl
  obtain ⟨hfront, hz⟩ := eq_of_cut_word hx (code_ne kc.2) rfl hback hshort hcut
  rcases List.eq_nil_or_concat cs with rfl | ⟨cs, kc', rfl⟩
  · -- one container: the count in the last word is beyond all the bytes there are
    have hone := size_of_singleton hb hcs
    rw [hz, show (198 : UInt8).toNat = 198 from rfl] at hn
    omega
  · -- more containers: the second byte of the cookie is on the code of the last but one
    rw [List.concat_eq_append, List.map_append, List.map_singleton, ← List.append_assoc] at hfront
    obtain ⟨-, hend⟩ := List.append_inj' ((List.append_assoc init [198] [x]).trans hfront) rfl
    exact (code_ne kc'.2).2 ((List.cons.inj hend).1 ▸ hx)

/-! ## What a front is read as -/

theorem isLaid_iff {bs : Bytes} : IsLaid bs ↔ fits bs = .ok () := fits_iff.symm

/-- Bytes for which there is memory are refused, or they are laid out and show the bitmap that they are the encoding
of. -/
theorem decode_cases {bs : Bytes} (hne : bs ≠ []) (hroom : bs.length + 31 < Window.memoryLimit)
    (copyBase ownedBase : Nat) :
    (¬ IsLaid bs ∧ ∃ what, Decoding.decode copyBase bs .frozenNative = .error (.corrupted what) ∧
      Decoding.decodeOwned ownedBase bs .frozenNative = .error (.corrupted what)) ∨
    (IsLaid bs ∧ ∃ content, Decoding.decode copyBase bs .frozenNative = .ok content ∧
      Decoding.decodeOwned ownedBase bs .frozenNative = .ok content.bitmap ∧ encode content.bitmap = bs) := by
  obtain ⟨w, -, hcopy⟩ := Frozen.copy_eq copyBase .frozenNative hroom
  obtain ⟨w', -, hcopy'⟩ := Frozen.copy_eq ownedBase .frozenNative hroom
  rw [(Decoding.decode_of_isFrozen hne rfl copyBase).1, (Decoding.decode_of_isFrozen hne rfl ownedBase).2, hcopy, hcopy',
    Frozen.check, if_neg (by decide), isLaid_iff]
  cases hfits : fits bs with
  | error misfit =>
    refine .inl ⟨fun h => (by cases h), ?_⟩
    cases misfit <;> exact ⟨_, rfl, rfl⟩
  | ok =>
    obtain ⟨bitsets, runs, arrays, heads, hlaid⟩ := fits_iff.1 hfits
    exact .inr ⟨rfl, _, rfl, rfl, hlaid.encode_view⟩

/-- **A front of an encoding is refused unless it is an encoding of its own.**  One that is laid out is accepted; it then
shows the bitmap that it is the encoding of, and misses at least four bytes. -/
theorem decode_front {b : Bitmap} (hb : b.valid = true) (base copyBase ownedBase : Nat) :
    ∃ w, Encoding.serialize base b .frozenNative = .ok w ∧
      ∀ front back, w.visible = front ++ back → front ≠ [] → back ≠ [] →
        (¬ IsLaid front ∧ ∃ what, Decoding.decode copyBase front .frozenNative = .error (.corrupted what) ∧
          Decoding.decodeOwned ownedBase front .frozenNative = .error (.corrupted what)) ∨
        (IsLaid front ∧ 4 ≤ back.length ∧ ∃ content,
          Decoding.decode copyBase front .frozenNative = .ok content ∧
          Decoding.decodeOwned ownedBase front .frozenNative = .ok content.bitmap ∧ encode content.bitmap = front) := by
  obtain ⟨w, hw, hvisible, -⟩ := Encoding.serialize_spec hb .frozenNative base
  refine ⟨w, hw, fun front back h hfront hback => ?_⟩
  have hbytes : encode b = front ++ back := hvisible.symm.trans h
  have hroom := Encoding.room_of_encode_eq_append hb (f := .frozenNative) hbytes
  rcases decode_cases hfront hroom copyBase ownedBase with hrefused | ⟨hlaid, hshown⟩
  · exact .inl hrefused
  · obtain ⟨bitsets, runs, arrays, heads, h⟩ := hlaid
    exact .inr ⟨⟨bitsets, runs, arrays, heads, h⟩, h.four_le_length hb hbytes hback, hshown⟩

def lone : Bitmap := ⟨[(0, .array #[13766])]⟩

theorem decode_front_lone : lone.valid = true ∧ ∃ w, Encoding.serialize 3 lone .frozenNative = .ok w ∧
    w.visible = [198, 53, 0, 0, 0, 0, 2, 198, 181, 0, 0] ∧
    (∃ what, Decoding.decode 5 [198, 53, 0, 0, 0, 0, 2, 198, 181, 0] .frozenNative = .error (.corrupted what)) ∧
    ∃ content, Decoding.decode 5 [198, 53, 0, 0] .frozenNative = .ok content ∧
      encode content.bitmap = [198, 53, 0, 0] := by
  have hlone : lone.valid = true := by decide
  obtain ⟨w, hw, hfront⟩ := decode_front hlone 3 5 7
  have hvisible : w.visible = [198, 53, 0, 0, 0, 0, 2, 198, 181, 0, 0] := by
    obtain ⟨w', hw', hbytes, -⟩ := Encoding.serialize_spec hlone .frozenNative 3
    obtain rfl : w = w' := Except.ok.inj (hw.symm.trans hw')
    exact hbytes
  have hempty : IsLaid [198, 53, 0, 0] :=
    ⟨[], [], [], [], rfl, rfl, rfl, rfl, nofun, nofun, by decide⟩
  refine ⟨hlone, w, hw, hvisible, ?_, ?_⟩
  · rcases hfront [198, 53, 0, 0, 0, 0, 2, 198, 181, 0] [0] hvisible nofun nofun with
      ⟨-, what, hdecode, -⟩ | ⟨-, h, -⟩
    · exact ⟨what, hdecode⟩
    · exact absurd h (by decide)
  · rcases hfront [198, 53, 0, 0] [0, 0, 2, 198, 181, 0, 0] hvisible nofun nofun with
      ⟨h, -⟩ | ⟨-, -, content, hdecode, -, hback⟩
    · exact absurd hempty h
    · exact ⟨content, hdecode, hback⟩

/-- **A front that is read as another bitmap**: the one value that is the cookie, cut behind its key, is the empty
bitmap. -/
theorem lone_cut_is_empty : ∃ w content, Encoding.serialize 0 lone .frozenNative = .ok w ∧
    w.visible = [198, 53, 0, 0] ++ [0, 0, 2, 198, 181, 0, 0] ∧ lone.values = [13766] ∧
    Decoding.decode 0 [198, 53, 0, 0] .frozenNative = .ok content ∧ content.bitmap = .empty ∧
    Decoding.decodeOwned 0 [198, 53, 0, 0] .frozenNative = .ok .empty := by
  refine ⟨_, _, rfl, by decide, by decide, rfl, by decide, rfl⟩

end Native
end BitmapWorks
