import BitmapWorks.Proofs.Decoding.RoundTrip
import BitmapWorks.Proofs.Native.Layout
/-!
# Watched — the check of the layout, step by step

`fits` cuts stretches out of the bytes and adds up numbers without limit.  `Watched.check` does the same work one byte
and one sum at a time, in the order of the loop over the containers, and stops where a byte is asked for behind the end
or a number gets too large for a machine word.  On bytes that fit into memory it never stops there (`Watched.check_eq`):
the trailer is read where it lies, and the zones of at most `2 ^ 17` containers add up to far less than a word holds.
-/
namespace BitmapWorks
namespace Native
namespace Watched

/-- Why the check stops: a byte that is not there, a number too large, or bytes that are not in this layout. -/
inductive Stop where
  | outside
  | overflow
  | misfit (why : Misfit)
  deriving DecidableEq, Repr

def number (n : Nat) : Except Stop Nat := if n < Window.sizeLimit then .ok n else .error .overflow

def byteAt (bs : Bytes) (at_ : Nat) : Except Stop UInt8 :=
  match bs[at_]? with
  | some b => .ok b
  | none => .error .outside

def word16At (bs : Bytes) (at_ : Nat) : Except Stop Nat := do
  let low ← byteAt bs at_
  let high ← byteAt bs (← number (at_ + 1))
  return Bytes.leNat [low, high]

def word32At (bs : Bytes) (at_ : Nat) : Except Stop Nat := do
  let low ← word16At bs at_
  let high ← word16At bs (← number (at_ + 2))
  return low + 65536 * high

def zoneAt (bs : Bytes) (countsAt codesAt i : Nat) : Except Stop Nat := do
  let count ← word16At bs (← number (countsAt + (← number (i * 2))))
  let code ← byteAt bs (← number (codesAt + i))
  if code = bitsetCode then return Container.bitsetBytes
  else if code = runsCode then number (count * 4)
  else if code = arrayCode then number ((← number (count + 1)) * 2)
  else .error (.misfit .badTrailer)

def sumFrom (bs : Bytes) (countsAt codesAt : Nat) : Nat → Nat → Nat → Except Stop Nat
  | 0, _, zones => .ok zones
  | left + 1, i, zones => do
    let zone ← zoneAt bs countsAt codesAt i
    sumFrom bs countsAt codesAt left (i + 1) (← number (zones + zone))

/-- The check, back to front: the last word, the trailer that it leads to, and the zones. -/
def check (bs : Bytes) : Except Stop Unit := do
  if bs.length < 4 then .error (.misfit .tooShort)
  else
    let headerAt := bs.length - 4
    let header ← word32At bs headerAt
    if header % 32768 ≠ cookie then .error (.misfit .badTrailer)
    else
      let n := header / 32768
      let trailer ← number (n * 5)
      if headerAt < trailer then .error (.misfit .badTrailer)
      else
        let keysAt := headerAt - trailer
        let countsAt ← number (keysAt + (← number (n * 2)))
        let codesAt ← number (countsAt + (← number (n * 2)))
        let zones ← sumFrom bs countsAt codesAt n 0 0
        if zones ≠ keysAt then .error (.misfit .badTrailer) else .ok ()

/-! ## Reading inside the bytes -/

theorem number_of_lt {n : Nat} (h : n < Window.sizeLimit) : number n = .ok n := if_pos h

theorem byteAt_append {front : Bytes} {at_ : Nat} (h : front.length = at_) (b : UInt8) (back : Bytes) :
    byteAt (front ++ b :: back) at_ = .ok b := by
  subst h
  unfold byteAt
  rw [List.getElem?_append_right (Nat.le_refl _), Nat.sub_self, List.getElem?_cons_zero]

theorem word16At_append {front : Bytes} {at_ : Nat} (h : front.length = at_) (a b : UInt8) (back : Bytes)
    (hroom : at_ + 1 < Window.sizeLimit) : word16At (front ++ a :: b :: back) at_ = .ok (Bytes.leNat [a, b]) := by
  have hnext : front ++ a :: b :: back = (front ++ [a]) ++ b :: back := by rw [List.append_assoc]; rfl
  have hlength : (front ++ [a]).length = at_ + 1 := by rw [List.length_append, h, List.length_singleton]
  unfold word16At
  rw [byteAt_append h, number_of_lt hroom, hnext]
  dsimp only [bind, Except.bind]
  rw [byteAt_append hlength]
  rfl

theorem word32At_append {front : Bytes} {at_ : Nat} (h : front.length = at_) (a b c d : UInt8)
    (hroom : at_ + 3 < Window.sizeLimit) :
    word32At (front ++ [a, b, c, d]) at_ = .ok (Bytes.leNat [a, b, c, d]) := by
  have hnext : front ++ [a, b, c, d] = (front ++ [a, b]) ++ [c, d] := by rw [List.append_assoc]; rfl
  have hlength : (front ++ [a, b]).length = at_ + 2 := by rw [List.length_append, h]; rfl
  have hvalue : Bytes.leNat [a, b] + 65536 * Bytes.leNat [c, d] = Bytes.leNat [a, b, c, d] := by
    simp only [Bytes.leNat]
    omega
  unfold word32At
  rw [word16At_append h _ _ _ (by omega), number_of_lt (by omega), hnext]
  dsimp only [bind, Except.bind]
  rw [word16At_append hlength _ _ _ (by omega)]
  exact congrArg Except.ok hvalue

/-! ## The loop -/

def orMisfit : Option Nat → Except Stop Nat
  | some n => .ok n
  | none => .error (.misfit .badTrailer)

section Loop

variable {zones bs : Bytes} {heads : List Head} (hbs : bs = zones ++ trailer heads)
  (hsize : bs.length < Window.sizeLimit) (hcounts : ∀ h ∈ heads, h.count < 65536) (hfew : heads.length < 2 ^ 17)

include hbs in
theorem length_of_trailer : bs.length = zones.length + 5 * heads.length + 4 := by
  rw [hbs, List.length_append, length_trailer, Nat.add_assoc]

include hbs hsize hcounts in
theorem word16At_count {done todo : List Head} {h : Head} (hheads : heads = done ++ h :: todo) :
    word16At bs (zones.length + heads.length * 2 + done.length * 2) = .ok h.count := by
  have hlength := length_of_trailer hbs
  have hcount : h.count < 65536 := hcounts h (by rw [hheads]; exact List.mem_append_right _ List.mem_cons_self)
  have htable : countTable heads
      = countTable done ++ UInt8.ofNat h.count :: UInt8.ofNat (h.count / 256) :: countTable todo := by
    rw [hheads, countTable, List.map_append, List.flatMap_append]
    rfl
  have hfront : (zones ++ (keyTable heads ++ countTable done)).length
      = zones.length + heads.length * 2 + done.length * 2 := by
    simp only [List.length_append, length_keyTable, length_countTable]
    omega
  have hdone : heads.length = done.length + (todo.length + 1) := by
    rw [hheads, List.length_append, List.length_cons]
  have hsplit : bs = (zones ++ (keyTable heads ++ countTable done)) ++
      UInt8.ofNat h.count :: UInt8.ofNat (h.count / 256) :: (countTable todo ++ (codeTable heads ++ lastWord heads.length)) := by
    rw [hbs, trailer, htable]
    simp only [List.append_assoc, List.cons_append]
  have hword : Bytes.leNat [UInt8.ofNat h.count, UInt8.ofNat (h.count / 256)] = h.count :=
    Bytes.leNat_le_of_lt (w := 2) hcount
  rw [hsplit, word16At_append hfront _ _ _ (by omega), hword]

include hbs in
theorem byteAt_code {done todo : List Head} {h : Head} (hheads : heads = done ++ h :: todo) :
    byteAt bs (zones.length + heads.length * 2 + heads.length * 2 + done.length) = .ok h.code := by
  have hfront : (zones ++ (keyTable heads ++ (countTable heads ++ codeTable done))).length
      = zones.length + heads.length * 2 + heads.length * 2 + done.length := by
    simp only [List.length_append, length_keyTable, length_countTable, length_codeTable]
    omega
  have htable : codeTable heads = codeTable done ++ h.code :: codeTable todo := by
    rw [hheads, codeTable, List.map_append]
    rfl
  have hsplit : bs = (zones ++ (keyTable heads ++ (countTable heads ++ codeTable done))) ++
      h.code :: (codeTable todo ++ lastWord heads.length) := by
    rw [hbs, trailer, htable]
    simp only [List.append_assoc, List.cons_append]
  rw [hsplit, byteAt_append hfront]

include hbs hsize hcounts hfew in
/-- **The zone bytes of a container are read without a stop.** -/
theorem zoneAt_eq {done todo : List Head} {h : Head} (hheads : heads = done ++ h :: todo) :
    zoneAt bs (zones.length + heads.length * 2) (zones.length + heads.length * 2 + heads.length * 2) done.length
      = orMisfit h.zoneSize? := by
  have hlength := length_of_trailer hbs
  have hdone : heads.length = done.length + (todo.length + 1) := by
    rw [hheads, List.length_append, List.length_cons]
  have hcount : h.count < 65536 := hcounts h (by rw [hheads]; exact List.mem_append_right _ List.mem_cons_self)
  have hlarge : 1048576 < Window.sizeLimit := by decide
  unfold zoneAt
  rw [number_of_lt (n := done.length * 2) (by omega)]
  dsimp only [bind, Except.bind]
  rw [number_of_lt (n := _ + done.length * 2) (by omega), number_of_lt (n := _ + done.length) (by omega)]
  dsimp only
  rw [word16At_count hbs hsize hcounts hheads, byteAt_code hbs hheads]
  dsimp only
  unfold Head.zoneSize?
  by_cases hbitset : h.code = bitsetCode
  · rw [if_pos hbitset, if_pos hbitset]
    rfl
  by_cases hruns : h.code = runsCode
  · rw [if_neg hbitset, if_neg hbitset, if_pos hruns, if_pos hruns, number_of_lt (by omega), Nat.mul_comm]
    rfl
  by_cases harray : h.code = arrayCode
  · rw [if_neg hbitset, if_neg hbitset, if_neg hruns, if_neg hruns, if_pos harray, if_pos harray,
      number_of_lt (by omega), Nat.mul_comm 2]
    exact number_of_lt (by omega)
  · rw [if_neg hbitset, if_neg hbitset, if_neg hruns, if_neg hruns, if_neg harray, if_neg harray]
    rfl

include hbs hsize hcounts hfew in
/-- **The loop adds up the zones without a stop.** -/
theorem sumFrom_eq {done todo : List Head} (hheads : heads = done ++ todo) {sum : Nat}
    (hsum : sum ≤ 262144 * done.length) :
    sumFrom bs (zones.length + heads.length * 2) (zones.length + heads.length * 2 + heads.length * 2) todo.length
      done.length sum = orMisfit ((zonesSize? todo).map fun rest => sum + rest) := by
  induction todo generalizing done sum with
  | nil => rfl
  | cons h todo ih =>
    have hlarge : 262144 * 2 ^ 17 < Window.sizeLimit := by decide
    have hdone : heads.length = done.length + (todo.length + 1) := by
      rw [hheads, List.length_append, List.length_cons]
    have hnext : heads = (done ++ [h]) ++ todo := by
      rw [hheads, List.append_assoc]
      rfl
    have hcount : h.count < 65536 := hcounts h (by rw [hheads]; exact List.mem_append_right _ List.mem_cons_self)
    rw [List.length_cons, sumFrom, zonesSize?, zoneAt_eq hbs hsize hcounts hfew hheads]
    cases hzone : h.zoneSize? with
    | none => rfl
    | some zone =>
      have hle : zone ≤ 262144 := by
        rw [(zoneSize?_eq_some.1 hzone).2]
        exact Head.zoneBytes_le hcount
      have hmore : sum + zone ≤ 262144 * (done ++ [h]).length := by
        rw [List.length_append, List.length_singleton]
        omega
      have htail := ih hnext hmore
      rw [List.length_append, List.length_singleton] at htail
      dsimp only [orMisfit, bind, Except.bind]
      rw [number_of_lt (by omega)]
      dsimp only
      rw [htail]
      cases zonesSize? todo with
      | none => rfl
      | some rest => exact congrArg Except.ok (Nat.add_assoc sum zone rest)

end Loop

/-! ## The whole check -/

theorem word32At_last {bs : Bytes} (hlong : 4 ≤ bs.length) (hsize : bs.length < Window.sizeLimit) :
    word32At bs (bs.length - 4) = .ok (Bytes.leNat (bs.drop (bs.length - 4))) := by
  have htake : (bs.take (bs.length - 4)).length = bs.length - 4 := List.length_take_of_le (Nat.sub_le _ _)
  have hfour : (bs.drop (bs.length - 4)).length = 4 := by
    rw [List.length_drop]
    omega
  have hword : ∀ {front back : Bytes} {at_ : Nat}, front.length = at_ → back.length = 4 → at_ + 3 < Window.sizeLimit →
      word32At (front ++ back) at_ = .ok (Bytes.leNat back)
    | _, [a, b, c, d], _, hfront, _, hroom => word32At_append hfront a b c d hroom
  have hread := hword htake hfour (by omega)
  rwa [List.take_append_drop] at hread

/-- **The check never asks for a byte behind the end and never adds up too much**: what it says is what `fits` says. -/
theorem check_eq {bs : Bytes} (hsize : bs.length < Window.sizeLimit) : check bs = (fits bs).mapError Stop.misfit := by
  unfold check fits
  by_cases hshort : bs.length < 4
  · rw [if_pos hshort, if_pos hshort]
    rfl
  have hlast : Bytes.leNat (bs.drop (bs.length - 4)) < 256 ^ 4 := by
    have hlt := Bytes.leNat_lt (bs.drop (bs.length - 4))
    rwa [List.length_drop, show bs.length - (bs.length - 4) = 4 by omega] at hlt
  have hlarge : 5 * 2 ^ 17 < Window.sizeLimit := by decide
  rw [if_neg hshort, if_neg hshort]
  dsimp only
  rw [word32At_last (by omega) hsize]
  dsimp only [bind, Except.bind]
  cases hread : readTrailer? bs with
  | none =>
    by_cases hcookie : Bytes.leNat (bs.drop (bs.length - 4)) % 32768 = cookie
    · have hroom : bs.length - 4 < Bytes.leNat (bs.drop (bs.length - 4)) / 32768 * 5 := by
        refine Nat.lt_of_not_le fun hle => ?_
        unfold readTrailer? at hread
        dsimp only at hread
        rw [if_pos ⟨hcookie, by omega⟩] at hread
        cases hread
      rw [if_neg (not_not_intro hcookie), number_of_lt (by omega)]
      dsimp only
      rw [if_pos hroom]
      rfl
    · rw [if_pos hcookie]
      rfl
  | some found =>
    obtain ⟨keysAt, heads⟩ := found
    obtain ⟨hbytes, hlength, hword, hcounts, hfew⟩ := readTrailer?_eq_some (by omega) hread
    have hzones : (bs.take keysAt).length = keysAt := List.length_take_of_le (by omega)
    have hall : heads = [] ++ heads := rfl
    have hloop := sumFrom_eq hbytes hsize hcounts hfew hall (Nat.le_refl 0)
    have hn : Bytes.leNat (bs.drop (bs.length - 4)) / 32768 = heads.length := by
      rw [hword]
      simp only [cookie]
      omega
    have hcookie : Bytes.leNat (bs.drop (bs.length - 4)) % 32768 = cookie := by
      rw [hword]
      simp only [cookie]
      omega
    have hkeysAt : bs.length - 4 - heads.length * 5 = keysAt := by omega
    rw [hzones, List.length_nil] at hloop
    rw [if_neg (not_not_intro hcookie), hn, number_of_lt (by omega)]
    dsimp only
    rw [if_neg (by omega), hkeysAt, number_of_lt (by omega)]
    dsimp only
    rw [number_of_lt (by omega)]
    dsimp only
    rw [number_of_lt (by omega)]
    dsimp only
    rw [hloop]
    cases hsum : zonesSize? heads with
    | none => rfl
    | some n =>
      dsimp only [orMisfit, Option.map]
      rw [Nat.zero_add]
      by_cases heq : n = keysAt
      · rw [if_neg (not_not_intro heq), if_pos (congrArg some heq)]
        rfl
      · rw [if_pos heq, if_neg fun h => heq (Option.some.inj h)]
        rfl

end Watched

/-! ## The layout -/

theorem check_of_fits {bs : Bytes} (h : fits bs = .ok ()) {address : Nat} (ha : address % Format.frozenAlignment = 0) :
    Frozen.check address bs .frozenNative = .ok () := by
  rw [Frozen.check_of_aligned ha]
  unfold Frozen.check
  rw [if_neg (by decide), h]
  rfl

theorem Laid.length_lt {bitsets runs arrays bs : Bytes} {heads : List Head} (h : Laid bitsets runs arrays heads bs) :
    bs.length + 31 < Window.memoryLimit := by
  have hsum : (heads.map Head.zoneBytes).sum ≤ 262144 * heads.length :=
    sum_map_le fun hd hmem => Head.zoneBytes_le (h.counts hd hmem)
  have hfew := h.few
  have hlarge : 4 + 5 * 2 ^ 17 + 262144 * 2 ^ 17 + 31 < Window.memoryLimit := by decide
  rw [h.length_eq]
  omega

/-- **The layout and its check.**  The check stays inside the bytes and within machine words.  It accepts exactly the
bytes that are laid out as zones, tables and the last word, so every encoding of a bitmap; and decoding and encoding
bytes that it accepts gives them back, where their containers keep the rules. -/
theorem layout_of_bytes {bs : Bytes} (hsize : bs.length < Window.sizeLimit) :
    Watched.check bs = (fits bs).mapError Watched.Stop.misfit ∧
    (fits bs = .ok () ↔ ∃ bitsets runs arrays heads, Laid bitsets runs arrays heads bs) ∧
    (∀ bitsets runs arrays heads, Laid bitsets runs arrays heads bs →
      bs.length = 4 + 5 * heads.length + (heads.map Head.zoneBytes).sum ∧
      Bytes.leNat (bs.drop (bs.length - 4)) = heads.length * 2 ^ 15 + 13766) ∧
    (∀ b : Bitmap, b.valid = true → ∀ base, ∃ w, Encoding.serialize base b .frozenNative = .ok w ∧
      fits w.visible = .ok () ∧ Frozen.check w.start w.visible .frozenNative = .ok ()) ∧
    (fits bs = .ok () → (view bs).valid = true → ∀ base again, ∃ content w,
      Decoding.decode base bs .frozenNative = .ok content ∧ content.bitmap = view bs ∧
      Encoding.serialize again content.bitmap .frozenNative = .ok w ∧ w.visible = bs) := by
  refine ⟨Watched.check_eq hsize, fits_iff, fun bitsets runs arrays heads h => ⟨h.length_eq, ?_⟩,
    fun b hb base => ?_, fun hfits hvalid base again => ?_⟩
  · have hlong : 4 ≤ bs.length := by
      rw [h.length_eq]
      omega
    exact (readTrailer?_eq_some hlong h.readTrailer?).2.2.1
  · obtain ⟨w, hw, hvisible, hstart⟩ := Encoding.serialize_spec hb .frozenNative base
    have hfits : fits w.visible = .ok () := by
      rw [hvisible]
      exact fits_encode hb
    exact ⟨w, hw, hfits, check_of_fits hfits hstart⟩
  · obtain ⟨bitsets, runs, arrays, heads, h⟩ := fits_iff.1 hfits
    have hne : bs ≠ [] := by
      refine List.ne_nil_of_length_pos ?_
      rw [h.length_eq]
      omega
    obtain ⟨v, -, hcopy⟩ := Frozen.copy_eq base .frozenNative h.length_lt
    obtain ⟨w, hw, hvisible, -⟩ := Encoding.serialize_spec hvalid .frozenNative again
    refine ⟨.frozen ⟨v, .frozenNative, view bs⟩, w, ?_, rfl, hw, ?_⟩
    · rw [(Decoding.decode_of_isFrozen hne rfl base).1, hcopy, check_of_fits hfits rfl]
      rfl
    · rw [hvisible]
      exact h.encode_view

def pairBytes : Bytes := [1, 0, 5, 0, 7, 0, 1, 0, 2, 198, 181, 0, 0]

theorem layout_of_bytes_pair : pairBytes.length < Window.sizeLimit ∧ Watched.check pairBytes = .ok () ∧
    Laid [] [] [1, 0, 5, 0] [⟨7, 1, 2⟩] pairBytes ∧
    ∃ content w, Decoding.decode 3 pairBytes .frozenNative = .ok content ∧ content.bitmap.values = [458753, 458757] ∧
      Encoding.serialize 5 content.bitmap .frozenNative = .ok w ∧ w.visible = pairBytes := by
  have hsize : pairBytes.length < Window.sizeLimit := by decide
  have hlaid : Laid [] [] [1, 0, 5, 0] [⟨7, 1, 2⟩] pairBytes :=
    ⟨rfl, rfl, rfl, rfl, by decide, by decide, by decide⟩
  have hfits : fits pairBytes = .ok () := fits_iff.2 ⟨_, _, _, _, hlaid⟩
  obtain ⟨hcheck, -, -, -, hback⟩ := layout_of_bytes hsize
  obtain ⟨content, w, hdecode, hview, hw, hvisible⟩ := hback hfits (by decide) 3 5
  rw [hfits] at hcheck
  refine ⟨hsize, hcheck, hlaid, content, w, hdecode, ?_, hw, hvisible⟩
  rw [hview]
  decide

end Native
end BitmapWorks
