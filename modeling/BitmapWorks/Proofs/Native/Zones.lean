import BitmapWorks.Native
import BitmapWorks.Proofs.Portable.Sequence
/-!
# Zones — the memory-mapped layout, read back

What `encode` writes has the length that `size` says (`length_encode`), its trailer names the containers
(`readTrailer?_encode`), the zones add up (`fits_encode`), and the containers are found in their zones (`view_encode`).
-/
namespace BitmapWorks
namespace Native

/-! ## Lengths -/

theorem length_zones (c : Container) :
    (bitsetZone c).length + (runsZone c).length + (arrayZone c).length = zoneSize c := by
  cases c with
  | array xs =>
    rw [arrayZone, Bytes.length_flatMap_ofWord16, Array.length_toList, zoneSize]
    simp [bitsetZone, runsZone]
  | bitset count bits => simp [bitsetZone, runsZone, arrayZone, zoneSize]
  | runs rs =>
    rw [runsZone, Portable.length_runBytes, zoneSize]
    simp [bitsetZone, arrayZone]

def zone (f : Container → Bytes) (cs : List (UInt16 × Container)) : Bytes := cs.flatMap fun (_, c) => f c

theorem zone_cons (f : Container → Bytes) (key : UInt16) (c : Container) (cs : List (UInt16 × Container)) :
    zone f ((key, c) :: cs) = f c ++ zone f cs := rfl

theorem length_zone_add (cs : List (UInt16 × Container)) :
    (zone bitsetZone cs).length + (zone runsZone cs).length + (zone arrayZone cs).length
      = (cs.map fun kc => zoneSize kc.2).sum := by
  induction cs with
  | nil => rfl
  | cons kc cs ih =>
    obtain ⟨key, c⟩ := kc
    have := length_zones c
    simp only [zone_cons, List.length_append, List.map_cons, List.sum_cons]
    omega

/-! ## What the trailer says -/

def Head.ofContainer (kc : UInt16 × Container) : Head := ⟨kc.1, Native.count kc.2, Native.code kc.2⟩

def keyTable (heads : List Head) : Bytes := (heads.map Head.key).flatMap Bytes.ofWord16

def countTable (heads : List Head) : Bytes := (heads.map Head.count).flatMap (Bytes.le 2)

def codeTable (heads : List Head) : Bytes := heads.map Head.code

def lastWord (n : Nat) : Bytes := Bytes.le 4 (n * 32768 + cookie)

def trailer (heads : List Head) : Bytes :=
  keyTable heads ++ (countTable heads ++ (codeTable heads ++ lastWord heads.length))

theorem encode_eq (b : Bitmap) :
    encode b = zone bitsetZone b.containers ++ (zone runsZone b.containers ++
      (zone arrayZone b.containers ++ trailer (b.containers.map Head.ofContainer))) := by
  simp only [encode, zone, trailer, keyTable, countTable, codeTable, lastWord, Head.ofContainer, List.append_assoc,
    List.flatMap_map, List.map_map, List.length_map, Function.comp_def]

@[simp] theorem length_keyTable (heads : List Head) : (keyTable heads).length = 2 * heads.length := by
  rw [keyTable, Bytes.length_flatMap_ofWord16, List.length_map]

@[simp] theorem length_countTable (heads : List Head) : (countTable heads).length = 2 * heads.length := by
  rw [countTable, Bytes.length_flatMap_le, List.length_map]

@[simp] theorem length_codeTable (heads : List Head) : (codeTable heads).length = heads.length := List.length_map _

@[simp] theorem length_lastWord (n : Nat) : (lastWord n).length = 4 := Bytes.length_le _ _

@[simp] theorem length_trailer (heads : List Head) : (trailer heads).length = 5 * heads.length + 4 := by
  simp only [trailer, List.length_append, length_keyTable, length_countTable, length_codeTable, length_lastWord]
  omega

theorem length_encode (b : Bitmap) : (encode b).length = size b := by
  have hsize : size b = (b.containers.map fun kc => zoneSize kc.2).sum + 5 * b.containers.length + 4 := rfl
  have := length_zone_add b.containers
  rw [encode_eq, hsize]
  simp only [List.length_append, length_trailer, List.length_map]
  omega

/-! ## The trailer -/

theorem count_lt {c : Container} (h : c.valid = true) : count c < 65536 := by
  have hpos := Container.card_pos h
  have hle := Container.card_le h
  cases c with
  | array xs =>
    simp only [count, Container.card] at *
    omega
  | bitset n bits =>
    simp only [count, Container.card] at *
    omega
  | runs rs => exact Container.length_runs_lt h

theorem heads_of_tables {heads : List Head} (h : ∀ hd ∈ heads, hd.count < 65536) :
    ((Bytes.words16 (keyTable heads)).zip ((Bytes.words16 (countTable heads)).zip (codeTable heads))).map
      (fun (k, c, t) => (⟨k, c.toNat, t⟩ : Head)) = heads := by
  have hcounts : countTable heads = (heads.map fun hd => UInt16.ofNat hd.count).flatMap Bytes.ofWord16 := by
    simp only [countTable, List.flatMap_map, Bytes.le_two]
  rw [hcounts, keyTable, Bytes.words16_flatMap, Bytes.words16_flatMap, codeTable]
  induction heads with
  | nil => rfl
  | cons hd heads ih =>
    have hcount : (UInt16.ofNat hd.count).toNat = hd.count := UInt16.toNat_ofNat_of_lt' (h hd List.mem_cons_self)
    have htail := ih (fun hd' hmem => h hd' (List.mem_cons_of_mem _ hmem)) (by
      simp only [countTable, List.flatMap_map, Bytes.le_two])
    simp only [List.map_cons, List.zip_cons_cons, htail, hcount]

theorem readTrailer?_append {heads : List Head} (hn : heads.length < 2 ^ 17) (h : ∀ hd ∈ heads, hd.count < 65536)
    (zones : Bytes) : readTrailer? (zones ++ trailer heads) = some (zones.length, heads) := by
  have hword : Bytes.leNat (lastWord heads.length) = heads.length * 32768 + cookie :=
    Bytes.leNat_le_of_lt (by simp only [cookie]; omega)
  have hat : (zones ++ trailer heads).length - 4 = zones.length + 5 * heads.length := by
    rw [List.length_append, length_trailer]
    omega
  have hlast : (zones ++ trailer heads).drop (zones.length + 5 * heads.length) = lastWord heads.length := by
    rw [trailer, ← List.append_assoc, ← List.append_assoc, ← List.append_assoc]
    exact List.drop_left' (by simp only [List.length_append, length_keyTable, length_countTable, length_codeTable]; omega)
  have hmod : (heads.length * 32768 + cookie) % 32768 = cookie := by
    simp only [cookie]
    omega
  have hdiv : (heads.length * 32768 + cookie) / 32768 = heads.length := by
    simp only [cookie]
    omega
  have hkeys : (trailer heads).take (2 * heads.length) = keyTable heads := List.take_left' (length_keyTable heads)
  have hcounts : ((trailer heads).drop (2 * heads.length)).take (2 * heads.length) = countTable heads := by
    rw [trailer, List.drop_left' (length_keyTable heads), List.take_left' (length_countTable heads)]
  have hcodes : ((trailer heads).drop (4 * heads.length)).take heads.length = codeTable heads := by
    rw [trailer, ← List.append_assoc, List.drop_left' (by
      rw [List.length_append, length_keyTable, length_countTable]
      omega), List.take_left' (length_codeTable heads)]
  have hback : zones.length + 5 * heads.length - 5 * heads.length = zones.length := by omega
  have hroom : 5 * heads.length ≤ zones.length + 5 * heads.length := Nat.le_add_left _ _
  simp only [readTrailer?, hat, hlast, hword, hmod, hdiv, hback, List.drop_left, hkeys, hcounts, hcodes, hroom, and_self,
    if_true, heads_of_tables h]

theorem zoneSize?_ofContainer {key : UInt16} {c : Container} (h : c.valid = true) :
    (Head.ofContainer (key, c)).zoneSize? = some (zoneSize c) := by
  cases c with
  | array xs =>
    have hpos := (Container.valid_array.1 h).1
    have hcount : xs.size - 1 + 1 = xs.size := by omega
    simp [Head.zoneSize?, Head.ofContainer, code, count, zoneSize, bitsetCode, runsCode, arrayCode, hcount]
  | bitset n bits => simp [Head.zoneSize?, Head.ofContainer, code, zoneSize]
  | runs rs => simp [Head.zoneSize?, Head.ofContainer, code, count, zoneSize, bitsetCode, runsCode]

theorem zonesSize?_map : ∀ {cs : List (UInt16 × Container)}, (∀ kc ∈ cs, kc.2.valid = true) →
    zonesSize? (cs.map Head.ofContainer) = some (cs.map fun kc => zoneSize kc.2).sum
  | [], _ => rfl
  | (key, c) :: cs, h => by
    have ih := zonesSize?_map fun kc hkc => h kc (List.mem_cons_of_mem _ hkc)
    rw [List.map_cons, zonesSize?, zoneSize?_ofContainer (h (key, c) List.mem_cons_self), ih]
    rfl

theorem readTrailer?_encode {b : Bitmap} (hb : b.valid = true) :
    readTrailer? (encode b)
      = some ((b.containers.map fun kc => zoneSize kc.2).sum, b.containers.map Head.ofContainer) := by
  have hfew : (b.containers.map Head.ofContainer).length < 2 ^ 17 := by
    have := Bitmap.length_containers_le hb
    rw [List.length_map]
    omega
  have hcounts : ∀ hd ∈ b.containers.map Head.ofContainer, hd.count < 65536 := fun hd hmem => by
    obtain ⟨kc, hkc, rfl⟩ := List.mem_map.1 hmem
    exact count_lt ((Bitmap.valid_iff.1 hb).2 kc hkc)
  have h := readTrailer?_append hfew hcounts
    (zone bitsetZone b.containers ++ (zone runsZone b.containers ++ zone arrayZone b.containers))
  have hlen := length_zone_add b.containers
  rw [encode_eq]
  simp only [List.append_assoc, List.length_append] at h
  rw [h, ← hlen, Nat.add_assoc]

/-- **The encoding of a bitmap that keeps the rules is in this layout.** -/
theorem fits_encode {b : Bitmap} (hb : b.valid = true) : fits (encode b) = .ok () := by
  have hlen : ¬ (encode b).length < 4 := by
    rw [length_encode, size]
    omega
  simp only [fits, if_neg hlen, readTrailer?_encode hb, zonesSize?_map (Bitmap.valid_iff.1 hb).2, if_pos]

/-! ## The zones -/

theorem zoneOf_eq (kind : UInt8) (heads : List Head) :
    zoneOf kind heads = (heads.map fun h => if h.code = kind then h.zoneSize?.getD 0 else 0).sum := rfl

theorem zoneOf_map {kind : UInt8} {f : Container → Bytes}
    (hf : ∀ (key : UInt16) (c : Container), c.valid = true →
      (if code c = kind then ((Head.ofContainer (key, c)).zoneSize?).getD 0 else 0) = (f c).length) :
    ∀ {cs : List (UInt16 × Container)}, (∀ kc ∈ cs, kc.2.valid = true) →
      zoneOf kind (cs.map Head.ofContainer) = (zone f cs).length
  | [], _ => rfl
  | (key, c) :: cs, h => by
    have hrest : ∀ kc ∈ cs, kc.2.valid = true := fun kc hkc => h kc (List.mem_cons_of_mem _ hkc)
    have ih := zoneOf_map hf hrest
    rw [zoneOf_eq] at ih ⊢
    rw [List.map_cons, List.map_cons, List.sum_cons, ih, zone_cons, List.length_append,
      ← hf key c (h (key, c) List.mem_cons_self)]
    rfl

theorem zoneOf_bitset {cs : List (UInt16 × Container)} (h : ∀ kc ∈ cs, kc.2.valid = true) :
    zoneOf bitsetCode (cs.map Head.ofContainer) = (zone bitsetZone cs).length := by
  refine zoneOf_map (fun key c hc => ?_) h
  rw [zoneSize?_ofContainer hc]
  cases c <;> simp [code, bitsetCode, arrayCode, runsCode, bitsetZone, zoneSize]

theorem zoneOf_runs {cs : List (UInt16 × Container)} (h : ∀ kc ∈ cs, kc.2.valid = true) :
    zoneOf runsCode (cs.map Head.ofContainer) = (zone runsZone cs).length := by
  refine zoneOf_map (fun key c hc => ?_) h
  rw [zoneSize?_ofContainer hc]
  cases c with
  | array xs => rfl
  | bitset n bits => rfl
  | runs rs =>
    rw [runsZone, Portable.length_runBytes]
    rfl

theorem containersFrom_bitset {h : Head} (hc : h.code = bitsetCode) (hs : List Head) (bitsets runs arrays : Bytes) :
    containersFrom (h :: hs) bitsets runs arrays
      = (h.key, .bitset (h.count + 1) (Bytes.leNat (bitsets.take Container.bitsetBytes)))
        :: containersFrom hs (bitsets.drop Container.bitsetBytes) runs arrays := by
  rw [containersFrom, if_pos hc]

theorem containersFrom_runs {h : Head} (hc : h.code = runsCode) (hs : List Head) (bitsets runs arrays : Bytes) :
    containersFrom (h :: hs) bitsets runs arrays
      = (h.key, .runs (Portable.runsOnto (Bytes.words16 (runs.take (4 * h.count))) []))
        :: containersFrom hs bitsets (runs.drop (4 * h.count)) arrays := by
  rw [containersFrom, if_neg (by rw [hc]; decide), if_pos hc]

theorem containersFrom_array {h : Head} (hc : h.code = arrayCode) (hs : List Head) (bitsets runs arrays : Bytes) :
    containersFrom (h :: hs) bitsets runs arrays
      = (h.key, .array (Bytes.words16 (arrays.take (2 * (h.count + 1)))).toArray)
        :: containersFrom hs bitsets runs (arrays.drop (2 * (h.count + 1))) := by
  rw [containersFrom, if_neg (by rw [hc]; decide), if_neg (by rw [hc]; decide)]

/-- **Containers are found in their zones**, each zone in the order of the containers. -/
theorem containersFrom_zones : ∀ {cs : List (UInt16 × Container)}, (∀ kc ∈ cs, kc.2.valid = true) →
    ∀ x y z : Bytes, containersFrom (cs.map Head.ofContainer) (zone bitsetZone cs ++ x) (zone runsZone cs ++ y)
      (zone arrayZone cs ++ z) = cs
  | [], _, _, _, _ => rfl
  | (key, c) :: cs, h, x, y, z => by
    have hc : c.valid = true := h (key, c) List.mem_cons_self
    have ih := containersFrom_zones fun kc hkc => h kc (List.mem_cons_of_mem _ hkc)
    rw [List.map_cons, zone_cons, zone_cons, zone_cons, List.append_assoc, List.append_assoc, List.append_assoc]
    cases c with
    | bitset n bits =>
      obtain ⟨hn, hbits, -⟩ := Container.valid_bitset.1 hc
      have hcount : n - 1 + 1 = n := Nat.sub_add_cancel (Nat.le_trans (by decide) hn)
      have hlen := Bytes.length_le Container.bitsetBytes bits
      have htable : Bytes.leNat (Bytes.le Container.bitsetBytes bits) = bits :=
        Bytes.leNat_le_of_lt (Portable.lt_pow_bytes hbits rfl)
      simp only [bitsetZone, runsZone, arrayZone, List.nil_append]
      rw [containersFrom_bitset rfl, List.take_left' hlen, List.drop_left' hlen, htable, ih, Head.ofContainer, count, hcount]
    | runs rs =>
      have hlen := Portable.length_runBytes rs
      simp only [bitsetZone, runsZone, arrayZone, List.nil_append]
      rw [containersFrom_runs rfl, Head.ofContainer, count, List.take_left' hlen, List.drop_left' hlen, ih,
        Portable.runsOnto_words16]
    | array xs =>
      have hcount : xs.size - 1 + 1 = xs.size := Nat.sub_add_cancel (Container.valid_array.1 hc).1
      have hlen : (xs.toList.flatMap Bytes.ofWord16).length = 2 * xs.size := by
        rw [Bytes.length_flatMap_ofWord16, Array.length_toList]
      simp only [bitsetZone, runsZone, arrayZone, List.nil_append]
      rw [containersFrom_array rfl, Head.ofContainer, count, hcount, List.take_left' hlen, List.drop_left' hlen, ih,
        Bytes.words16_flatMap, Array.toArray_toList]

theorem view_encode {b : Bitmap} (hb : b.valid = true) : view (encode b) = b := by
  have hvalid := (Bitmap.valid_iff.1 hb).2
  simp only [view, readTrailer?_encode hb, zoneOf_bitset hvalid, zoneOf_runs hvalid]
  have hruns : (encode b).drop (zone bitsetZone b.containers).length
      = zone runsZone b.containers ++ (zone arrayZone b.containers ++ trailer (b.containers.map Head.ofContainer)) := by
    rw [encode_eq, List.drop_left]
  have harrays : (encode b).drop ((zone bitsetZone b.containers).length + (zone runsZone b.containers).length)
      = zone arrayZone b.containers ++ trailer (b.containers.map Head.ofContainer) := by
    rw [← List.drop_drop, hruns, List.drop_left]
  rw [hruns, harrays, encode_eq, containersFrom_zones hvalid]

end Native
end BitmapWorks
