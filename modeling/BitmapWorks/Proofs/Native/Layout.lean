import BitmapWorks.Proofs.Native.Zones
import BitmapWorks.Proofs.Portable.Place
/-!
# Layout — the bytes that fit

`Laid` is the layout as a grammar: three zones as long as the containers need them, and the trailer.  The check accepts
exactly the bytes that are laid out so (`fits_iff`).  Nothing is lost between such bytes and the containers that are
found in them: encoding these gives the bytes back (`encode_view`), whether or not they keep the rules of a bitmap.
-/
namespace BitmapWorks
namespace Native

/-! ## The grammar -/

def Head.zoneBytes (h : Head) : Nat :=
  if h.code = bitsetCode then 8192 else if h.code = runsCode then 4 * h.count else 2 * (h.count + 1)

def room (kind : UInt8) (heads : List Head) : Nat :=
  (heads.map fun h => if h.code = kind then h.zoneBytes else 0).sum

/-- **The layout**: the zones, each as long as its containers need it, and the trailer that names them. -/
structure Laid (bitsets runs arrays : Bytes) (heads : List Head) (bs : Bytes) : Prop where
  bytes : bs = bitsets ++ (runs ++ (arrays ++ trailer heads))
  bitsets : bitsets.length = room bitsetCode heads
  runs : runs.length = room runsCode heads
  arrays : arrays.length = room arrayCode heads
  codes : ∀ h ∈ heads, h.code = bitsetCode ∨ h.code = arrayCode ∨ h.code = runsCode
  counts : ∀ h ∈ heads, h.count < 65536
  few : heads.length < 2 ^ 17

theorem room_cons (kind : UInt8) (h : Head) (hs : List Head) :
    room kind (h :: hs) = (if h.code = kind then h.zoneBytes else 0) + room kind hs := rfl

theorem room_cons_self {kind : UInt8} {h : Head} (hc : h.code = kind) (hs : List Head) :
    room kind (h :: hs) = h.zoneBytes + room kind hs := by
  rw [room_cons, if_pos hc]

theorem room_cons_of_ne {kind : UInt8} {h : Head} (hc : h.code ≠ kind) (hs : List Head) :
    room kind (h :: hs) = room kind hs := by
  rw [room_cons, if_neg hc, Nat.zero_add]

theorem room_add {heads : List Head}
    (hcodes : ∀ h ∈ heads, h.code = bitsetCode ∨ h.code = arrayCode ∨ h.code = runsCode) :
    room bitsetCode heads + room runsCode heads + room arrayCode heads = (heads.map Head.zoneBytes).sum := by
  induction heads with
  | nil => rfl
  | cons h hs ih =>
    have htail := ih fun h' hmem => hcodes h' (List.mem_cons_of_mem _ hmem)
    rw [List.map_cons, List.sum_cons, ← htail]
    rcases hcodes h List.mem_cons_self with hc | hc | hc
    · rw [room_cons_self hc, room_cons_of_ne (by rw [hc]; decide), room_cons_of_ne (by rw [hc]; decide)]
      omega
    · rw [room_cons_of_ne (by rw [hc]; decide), room_cons_of_ne (by rw [hc]; decide), room_cons_self hc]
      omega
    · rw [room_cons_of_ne (by rw [hc]; decide), room_cons_self hc, room_cons_of_ne (by rw [hc]; decide)]
      omega

theorem Head.zoneBytes_le {h : Head} (hcount : h.count < 65536) : h.zoneBytes ≤ 262144 := by
  unfold Head.zoneBytes
  split
  · omega
  split <;> omega

/-! ## What the check adds up -/

theorem zoneSize?_eq_some {h : Head} {n : Nat} :
    h.zoneSize? = some n ↔ (h.code = bitsetCode ∨ h.code = arrayCode ∨ h.code = runsCode) ∧ n = h.zoneBytes := by
  unfold Head.zoneSize? Head.zoneBytes
  by_cases hbitset : h.code = bitsetCode
  · simp [hbitset, Container.bitsetBytes, eq_comm]
  by_cases hruns : h.code = runsCode
  · simp [hruns, runsCode, bitsetCode, eq_comm]
  by_cases harray : h.code = arrayCode
  · simp [harray, runsCode, bitsetCode, arrayCode, eq_comm]
  · simp [hbitset, hruns, harray]

theorem zonesSize?_eq_some {heads : List Head} {n : Nat} :
    zonesSize? heads = some n ↔
      (∀ h ∈ heads, h.code = bitsetCode ∨ h.code = arrayCode ∨ h.code = runsCode) ∧
        n = (heads.map Head.zoneBytes).sum := by
  induction heads generalizing n with
  | nil => simp [zonesSize?, eq_comm]
  | cons h hs ih =>
    unfold zonesSize?
    simp only [Option.bind_eq_bind, Option.bind_eq_some_iff, Option.pure_def, Option.some.injEq, zoneSize?_eq_some, ih,
      List.mem_cons, forall_eq_or_imp, List.map_cons, List.sum_cons]
    constructor
    · rintro ⟨a, ⟨hcode, rfl⟩, b, ⟨hcodes, rfl⟩, rfl⟩
      exact ⟨⟨hcode, hcodes⟩, rfl⟩
    · rintro ⟨⟨hcode, hcodes⟩, rfl⟩
      exact ⟨_, ⟨hcode, rfl⟩, _, ⟨hcodes, rfl⟩, rfl⟩

/-! ## The trailer is all that is read -/

theorem columns_zip {ks cs : List UInt16} {ts : Bytes} (hk : ks.length = ts.length) (hc : cs.length = ts.length) :
    (ks.zip (cs.zip ts)).map (fun r => r.1) = ks ∧ (ks.zip (cs.zip ts)).map (fun r => r.2.1) = cs ∧
      (ks.zip (cs.zip ts)).map (fun r => r.2.2) = ts := by
  have hrows : (cs.zip ts).length = ts.length := by rw [List.length_zip, hc, Nat.min_self]
  have hrest : (ks.zip (cs.zip ts)).map Prod.snd = cs.zip ts := List.map_snd_zip (by omega)
  have hcs : (cs.zip ts).map Prod.fst = cs := List.map_fst_zip (by omega)
  have hts : (cs.zip ts).map Prod.snd = ts := List.map_snd_zip (by omega)
  rw [← hrest, List.map_map] at hcs hts
  exact ⟨List.map_fst_zip (by omega), hcs, hts⟩

/-- Three tables of a length are the tables of the heads that they spell. -/
theorem tables_of_heads {n : Nat} {keys counts codes : Bytes} (hkeys : keys.length = 2 * n)
    (hcounts : counts.length = 2 * n) (hcodes : codes.length = n) {heads : List Head}
    (h : heads = ((Bytes.words16 keys).zip ((Bytes.words16 counts).zip codes)).map fun (k, c, t) => ⟨k, c.toNat, t⟩) :
    heads.length = n ∧ (∀ hd ∈ heads, hd.count < 65536) ∧ keyTable heads = keys ∧ countTable heads = counts ∧
      codeTable heads = codes := by
  have hk : (Bytes.words16 keys).length = codes.length := by
    rw [Bytes.length_words16]
    omega
  have hc : (Bytes.words16 counts).length = codes.length := by
    rw [Bytes.length_words16]
    omega
  obtain ⟨hkey, hcount, hcode⟩ := columns_zip hk hc
  have hwords : ∀ ws : List UInt16, (ws.map UInt16.toNat).flatMap (Bytes.le 2) = ws.flatMap Bytes.ofWord16 :=
    fun ws => List.flatMap_map ..
  have hcode' : codeTable heads = codes := by
    rw [codeTable, h, List.map_map]
    exact hcode
  refine ⟨?_, fun hd hmem => ?_, ?_, ?_, hcode'⟩
  · rw [← length_codeTable, hcode', hcodes]
  · rw [h] at hmem
    obtain ⟨⟨k, c, t⟩, -, rfl⟩ := List.mem_map.1 hmem
    exact c.toNat_lt
  · rw [keyTable, h, List.map_map]
    exact (congrArg _ hkey).trans (Bytes.flatMap_words16 (by omega))
  · have hcounts' : heads.map Head.count = (Bytes.words16 counts).map UInt16.toNat := by
      rw [h, ← hcount, List.map_map, List.map_map, hcount]
      rfl
    rw [countTable, hcounts', hwords, Bytes.flatMap_words16 (by omega)]

/-- **Bytes whose trailer can be read end in the trailer of what was read.** -/
theorem readTrailer?_eq_some {bs : Bytes} (hlen : 4 ≤ bs.length) {at_ : Nat} {heads : List Head}
    (h : readTrailer? bs = some (at_, heads)) :
    bs = bs.take at_ ++ trailer heads ∧ at_ + 5 * heads.length + 4 = bs.length ∧
      Bytes.leNat (bs.drop (bs.length - 4)) = heads.length * 32768 + cookie ∧
      (∀ hd ∈ heads, hd.count < 65536) ∧ heads.length < 2 ^ 17 := by
  unfold readTrailer? at h
  simp only [Option.ite_none_right_eq_some, Option.some.injEq, Prod.mk.injEq] at h
  obtain ⟨⟨hcookie, hroom⟩, hat, hheads⟩ := h
  generalize hn : Bytes.leNat (bs.drop (bs.length - 4)) / 32768 = n at *
  have hword : Bytes.leNat (bs.drop (bs.length - 4)) < 256 ^ 4 := by
    have := Bytes.leNat_lt (bs.drop (bs.length - 4))
    rwa [List.length_drop, show bs.length - (bs.length - 4) = 4 by omega] at this
  rw [hat] at hheads
  have htrailer : (bs.drop at_).length = 5 * n + 4 := by
    rw [List.length_drop]
    omega
  obtain ⟨hlength, hcounts, hkeyTable, hcountTable, hcodeTable⟩ :=
    tables_of_heads (n := n) (by rw [List.length_take]; omega) (by rw [List.length_take, List.length_drop]; omega)
      (by rw [List.length_take, List.length_drop]; omega) hheads.symm
  have hlast : lastWord n = (bs.drop at_).drop (5 * n) := by
    rw [List.drop_drop, show at_ + 5 * n = bs.length - 4 by omega]
    have hle := Bytes.le_leNat (bs.drop (bs.length - 4))
    rw [List.length_drop, show bs.length - (bs.length - 4) = 4 by omega] at hle
    rw [lastWord, ← hle]
    congr 1
    omega
  refine ⟨?_, by omega, by omega, hcounts, by omega⟩
  have hfive : (bs.drop at_).drop (5 * n) = ((bs.drop at_).drop (4 * n)).drop n := by
    rw [show 5 * n = 4 * n + n by omega, ← List.drop_drop]
  have hfour : (bs.drop at_).drop (4 * n) = ((bs.drop at_).drop (2 * n)).drop (2 * n) := by
    rw [show 4 * n = 2 * n + 2 * n by omega, ← List.drop_drop]
  rw [trailer, hlength, hkeyTable, hcountTable, hcodeTable, hlast, hfive, List.take_append_drop, hfour,
    List.take_append_drop, List.take_append_drop, List.take_append_drop]

/-! ## The check accepts the layout -/

theorem Laid.length_zones {bitsets runs arrays bs : Bytes} {heads : List Head} (h : Laid bitsets runs arrays heads bs) :
    (bitsets ++ (runs ++ arrays)).length = (heads.map Head.zoneBytes).sum := by
  rw [List.length_append, List.length_append, h.bitsets, h.runs, h.arrays, ← room_add h.codes, Nat.add_assoc]

theorem Laid.bytes_eq {bitsets runs arrays bs : Bytes} {heads : List Head} (h : Laid bitsets runs arrays heads bs) :
    bs = (bitsets ++ (runs ++ arrays)) ++ trailer heads := by
  rw [List.append_assoc, List.append_assoc]
  exact h.bytes

theorem Laid.length_eq {bitsets runs arrays bs : Bytes} {heads : List Head} (h : Laid bitsets runs arrays heads bs) :
    bs.length = 4 + 5 * heads.length + (heads.map Head.zoneBytes).sum := by
  rw [h.bytes_eq, List.length_append, h.length_zones, length_trailer]
  omega

theorem Laid.readTrailer? {bitsets runs arrays bs : Bytes} {heads : List Head} (h : Laid bitsets runs arrays heads bs) :
    readTrailer? bs = some ((heads.map Head.zoneBytes).sum, heads) := by
  rw [h.bytes_eq, readTrailer?_append h.few h.counts, h.length_zones]

/-- **The check accepts exactly the bytes that are laid out.** -/
theorem fits_iff {bs : Bytes} : fits bs = .ok () ↔ ∃ bitsets runs arrays heads, Laid bitsets runs arrays heads bs := by
  constructor
  · intro h
    unfold fits at h
    by_cases hshort : bs.length < 4
    · rw [if_pos hshort] at h
      cases h
    rw [if_neg hshort] at h
    cases hread : Native.readTrailer? bs with
    | none =>
      rw [hread] at h
      cases h
    | some found =>
      obtain ⟨at_, heads⟩ := found
      rw [hread] at h
      by_cases hsum : zonesSize? heads = some at_
      · obtain ⟨hcodes, hat⟩ := zonesSize?_eq_some.1 hsum
        obtain ⟨hbytes, hlength, -, hcounts, hfew⟩ := readTrailer?_eq_some (by omega) hread
        have hzones : (bs.take at_).length = room bitsetCode heads + (room runsCode heads + room arrayCode heads) := by
          have hadd := room_add hcodes
          rw [List.length_take]
          omega
        obtain ⟨bitsets, rest, hsplit, hbitsets, hrest⟩ := Bytes.exists_append hzones
        obtain ⟨runs, arrays, rfl, hruns, harrays⟩ := Bytes.exists_append hrest
        refine ⟨bitsets, runs, arrays, heads, ?_, hbitsets, hruns, harrays, hcodes, hcounts, hfew⟩
        rw [hbytes, hsplit, List.append_assoc, List.append_assoc]
      · simp only [if_neg hsum] at h
        cases h
  · rintro ⟨bitsets, runs, arrays, heads, h⟩
    have hlong : ¬ bs.length < 4 := by
      rw [h.length_eq]
      omega
    unfold fits
    rw [if_neg hlong, h.readTrailer?]
    exact if_pos (zonesSize?_eq_some.2 ⟨h.codes, rfl⟩)

/-! ## Nothing is lost in the containers -/

theorem flatMap_runsOnto : ∀ {ws : List UInt16}, ws.length % 2 = 0 →
    (Portable.runsOnto ws []).flatMap (fun r => Bytes.ofWord16 r.start ++ Bytes.ofWord16 r.extra)
      = ws.flatMap Bytes.ofWord16
  | [], _ => rfl
  | [_], h => by cases h
  | start :: extra :: rest, h => by
    have heven : rest.length % 2 = 0 := by
      rw [List.length_cons, List.length_cons] at h
      omega
    rw [Portable.runsOnto_cons, List.flatMap_cons, flatMap_runsOnto heven, List.flatMap_cons, List.flatMap_cons,
      List.append_assoc]

/-- **The containers in zones of the right length are the zones**: writing them gives the zones and the heads back. -/
theorem zones_containersFrom : ∀ {heads : List Head},
    (∀ h ∈ heads, h.code = bitsetCode ∨ h.code = arrayCode ∨ h.code = runsCode) →
    ∀ {bitsets runs arrays : Bytes}, bitsets.length = room bitsetCode heads → runs.length = room runsCode heads →
      arrays.length = room arrayCode heads → ∀ x y z : Bytes,
      let cs := containersFrom heads (bitsets ++ x) (runs ++ y) (arrays ++ z)
      zone bitsetZone cs = bitsets ∧ zone runsZone cs = runs ∧ zone arrayZone cs = arrays ∧
        cs.map Head.ofContainer = heads
  | [], _, bitsets, runs, arrays, hb, hr, ha, _, _, _ =>
    ⟨(List.length_eq_zero_iff.1 hb).symm, (List.length_eq_zero_iff.1 hr).symm, (List.length_eq_zero_iff.1 ha).symm, rfl⟩
  | h :: hs, hcodes, bitsets, runs, arrays, hb, hr, ha, x, y, z => by
    have ih := @zones_containersFrom hs fun h' hmem => hcodes h' (List.mem_cons_of_mem _ hmem)
    rcases hcodes h List.mem_cons_self with hc | hc | hc
    · rw [room_cons_self hc] at hb
      rw [room_cons_of_ne (by rw [hc]; decide)] at hr ha
      obtain ⟨table, bitsets, rfl, htable, hb⟩ := Bytes.exists_append hb
      obtain ⟨hzb, hzr, hza, hheads⟩ := ih hb hr ha x y z
      have htable : table.length = Container.bitsetBytes := htable.trans (if_pos hc)
      have hle : Bytes.le Container.bitsetBytes (Bytes.leNat table) = table := by
        rw [← htable]
        exact Bytes.le_leNat table
      have hof : Head.ofContainer (h.key, .bitset (h.count + 1) (Bytes.leNat table)) = h := by
        rw [Head.ofContainer, Native.count, Native.code, Nat.add_sub_cancel, ← hc]
      rw [containersFrom_bitset hc, List.append_assoc, List.take_left' htable, List.drop_left' htable]
      simp only [zone_cons, List.map_cons, hzb, hzr, hza, hheads, hof, bitsetZone, hle, runsZone, arrayZone,
        List.nil_append, and_self]
    · rw [room_cons_self hc] at ha
      rw [room_cons_of_ne (by rw [hc]; decide)] at hb hr
      obtain ⟨table, arrays, rfl, htable, ha⟩ := Bytes.exists_append ha
      obtain ⟨hzb, hzr, hza, hheads⟩ := ih hb hr ha x y z
      have htable : table.length = 2 * (h.count + 1) := by
        rw [htable, Head.zoneBytes, if_neg (by rw [hc]; decide), if_neg (by rw [hc]; decide)]
      have hbytes : (Bytes.words16 table).flatMap Bytes.ofWord16 = table := Bytes.flatMap_words16 (by omega)
      have hof : Head.ofContainer (h.key, .array (Bytes.words16 table).toArray) = h := by
        rw [Head.ofContainer, Native.count, Native.code, List.size_toArray, Bytes.length_words16, htable, ← hc,
          Nat.mul_div_cancel_left _ Nat.two_pos, Nat.add_sub_cancel]
      rw [containersFrom_array hc, List.append_assoc, List.take_left' htable, List.drop_left' htable]
      simp only [zone_cons, List.map_cons, hzb, hzr, hza, hheads, hof, bitsetZone, hbytes, runsZone, arrayZone,
        List.nil_append, and_self]
    · rw [room_cons_self hc] at hr
      rw [room_cons_of_ne (by rw [hc]; decide)] at hb ha
      obtain ⟨table, runs, rfl, htable, hr⟩ := Bytes.exists_append hr
      obtain ⟨hzb, hzr, hza, hheads⟩ := ih hb hr ha x y z
      have htable : table.length = 4 * h.count := by
        rw [htable, Head.zoneBytes, if_neg (by rw [hc]; decide), if_pos hc]
      have hwords : (Bytes.words16 table).length = 2 * h.count := by
        rw [Bytes.length_words16]
        omega
      have hbytes : (Portable.runsOnto (Bytes.words16 table) []).flatMap
          (fun r => Bytes.ofWord16 r.start ++ Bytes.ofWord16 r.extra) = table := by
        rw [flatMap_runsOnto (by omega), Bytes.flatMap_words16 (by omega)]
      have hof : Head.ofContainer (h.key, .runs (Portable.runsOnto (Bytes.words16 table) [])) = h := by
        rw [Head.ofContainer, Native.count, Native.code, Portable.length_runsOnto, hwords, ← hc,
          Nat.mul_div_cancel_left _ Nat.two_pos]
      rw [containersFrom_runs hc, List.append_assoc, List.take_left' htable, List.drop_left' htable]
      simp only [zone_cons, List.map_cons, hzb, hzr, hza, hheads, hof, bitsetZone, hbytes, runsZone, arrayZone,
        List.nil_append, and_self]

theorem zoneOf_eq_room {kind : UInt8} {heads : List Head}
    (hcodes : ∀ h ∈ heads, h.code = bitsetCode ∨ h.code = arrayCode ∨ h.code = runsCode) :
    zoneOf kind heads = room kind heads := by
  have hsize : ∀ h ∈ heads, h.zoneSize?.getD 0 = h.zoneBytes := fun h hmem => by
    rw [zoneSize?_eq_some.2 ⟨hcodes h hmem, rfl⟩, Option.getD_some]
  rw [zoneOf_eq, room]
  exact congrArg List.sum (List.map_congr_left fun h hmem => by rw [hsize h hmem])

/-- **Encoding the view of bytes that are laid out gives the bytes back.** -/
theorem Laid.encode_view {bitsets runs arrays bs : Bytes} {heads : List Head}
    (h : Laid bitsets runs arrays heads bs) : encode (view bs) = bs := by
  have hruns : bs.drop (zoneOf bitsetCode heads) = runs ++ (arrays ++ trailer heads) := by
    rw [h.bytes, zoneOf_eq_room h.codes]
    exact List.drop_left' h.bitsets
  have harrays : bs.drop (zoneOf bitsetCode heads + zoneOf runsCode heads) = arrays ++ trailer heads := by
    rw [← List.drop_drop, hruns, zoneOf_eq_room h.codes]
    exact List.drop_left' h.runs
  have hview : view bs = ⟨containersFrom heads (bitsets ++ (runs ++ (arrays ++ trailer heads)))
      (runs ++ (arrays ++ trailer heads)) (arrays ++ trailer heads)⟩ := by
    unfold view
    rw [h.readTrailer?]
    dsimp only
    rw [hruns, harrays, ← h.bytes]
  obtain ⟨hzb, hzr, hza, hheads⟩ := zones_containersFrom h.codes h.bitsets h.runs h.arrays
    (runs ++ (arrays ++ trailer heads)) (arrays ++ trailer heads) (trailer heads)
  rw [encode_eq, hview, hzb, hzr, hza, hheads, ← h.bytes]

end Native
end BitmapWorks
