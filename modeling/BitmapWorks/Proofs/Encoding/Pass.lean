import BitmapWorks.Proofs.Decoding.RoundTrip
/-!
# Pass — an encoding is stored piece by piece

`put` lays an encoding over memory at once.  `Pass.encoding` does the same work one store at a time: the tag, the count
and then a value for each slot of four bytes, as long as there are slots and values; or the tag and then the bytes of a
layout, whose number is compared with the room once more.  What was stored before a pass stops stays stored.

So it matters that a pass never stops halfway.  On memory of the size that is told beforehand each store finds its room
and the second comparison finds what it needs (`Pass.run_encoding`), and on a caller's memory the two tests come before
the first store (`Pass.into_eq`).  The main statements are `serialize_exact`, which also says what the tagged format
looks like, and `writeInto_cases`.
-/
namespace BitmapWorks
namespace Encoding

namespace Pass

inductive Stop where
  | outside
  | fault (why : Fault)
  deriving DecidableEq, Repr

end Pass

/-- Stores into memory, one after the other; what is stored stays when one of them stops the pass. -/
abbrev Pass := EStateM Pass.Stop Bytes

namespace Pass

def store (at_ : Nat) (bs : Bytes) : Pass Unit := fun memory =>
  if at_ + bs.length ≤ memory.length then .ok () (memory.take at_ ++ (bs ++ memory.drop (at_ + bs.length)))
  else .error .outside memory

/-- Stores values into the slots of four bytes from a place on, until the slots or the values are used up. -/
def fill (at_ : Nat) : List UInt32 → Pass Unit
  | [] => return
  | v :: vs => do
    if at_ + 4 ≤ (← get).length then
      store at_ (Bytes.ofWord32 v)
      fill (at_ + 4) vs

def copy (at_ : Nat) (bs : Bytes) : Pass Nat := do
  let room := (← get).length - at_
  if room < bs.length then throw (.fault (.bufferTooSmall bs.length room))
  store at_ bs
  return bs.length

def encoding (b : Bitmap) : Format → Pass Nat
  | .tagged =>
    match plan b with
    | .values card => do
      store 0 [valuesTag]
      store 1 (Bytes.le 4 card)
      fill 5 b.values
      return 1 + 4 + card * 4
    | .containers _ => do
      store 0 [containersTag]
      return (← copy 1 (Portable.encode b)) + 1
  | .portable | .frozenPortable => copy 0 (Portable.encode b)
  | .frozenNative => copy 0 (Native.encode b)

/-- A pass over the first `n` bytes of the memory alone. -/
def within {α : Type} (n : Nat) (pass : Pass α) : Pass α := fun memory =>
  match pass (memory.take n) with
  | .ok a front => .ok a (front ++ memory.drop n)
  | .error stop front => .error stop (front ++ memory.drop n)

def into (b : Bitmap) (f : Format) (address : Nat) : Pass Nat := do
  let required := encodedSize b f
  let available := (← get).length
  if available < required then throw (.fault (.bufferTooSmall required available))
  if !Window.isAligned address f.alignment then throw (.fault (.misaligned f.alignment))
  within required (encoding b f)

def fresh (base : Nat) (b : Bitmap) (f : Format) : Except Stop Window := do
  let window ← (Window.zeroed base (encodedSize b f) f.alignment).mapError .fault
  match encoding b f window.visible with
  | .ok written bytes => return (window.write bytes).truncate written
  | .error stop _ => throw stop

/-- How a write that is a single step ends, as the end of a pass. -/
def ending {α : Type} : Except Fault α × Bytes → EStateM.Result Stop Bytes α
  | (.ok a, memory) => .ok a memory
  | (.error why, memory) => .error (.fault why) memory

/-! ## Stores that find their room -/

theorem run_store_append (at_ : Nat) (front new back : Bytes) {old : Bytes} (hfront : front.length = at_)
    (hold : old.length = new.length) :
    (store at_ new).run (front ++ (old ++ back)) = .ok () (front ++ (new ++ back)) := by
  have hroom : at_ + new.length ≤ (front ++ (old ++ back)).length := by
    simp only [List.length_append]
    omega
  have hbehind : (front ++ (old ++ back)).drop (at_ + new.length) = back := by
    rw [← List.append_assoc, List.drop_left' (by rw [List.length_append]; omega)]
  show store at_ new _ = _
  unfold store
  rw [if_pos hroom, hbehind, List.take_left' hfront]

/-- **Values fill the slots that there are for them.** -/
theorem run_fill_append (at_ : Nat) (front : Bytes) {values : List UInt32} {slots : Bytes}
    (hfront : front.length = at_) (hslots : slots.length = 4 * values.length) :
    (fill at_ values).run (front ++ slots) = .ok () (front ++ values.flatMap Bytes.ofWord32) := by
  induction values generalizing at_ front slots with
  | nil =>
    obtain rfl : slots = [] := List.length_eq_zero_iff.1 hslots
    rfl
  | cons v values ih =>
    rw [List.length_cons] at hslots
    have hword : (Bytes.ofWord32 v).length = 4 := Bytes.length_le 4 _
    have hslot : (slots.take 4).length = (Bytes.ofWord32 v).length := by
      rw [List.length_take, hword]
      omega
    have hrest : (slots.drop 4).length = 4 * values.length := by
      rw [List.length_drop]
      omega
    have hroom : at_ + 4 ≤ (front ++ slots).length := by
      rw [List.length_append]
      omega
    have hstore := run_store_append at_ front (Bytes.ofWord32 v) (slots.drop 4) hfront hslot
    rw [List.take_append_drop] at hstore
    have hfill := ih (at_ + 4) (front ++ Bytes.ofWord32 v) (by rw [List.length_append, hfront, hword]) hrest
    rw [List.append_assoc, List.append_assoc] at hfill
    simp only [fill, EStateM.run_bind, EStateM.run_get, if_pos hroom, hstore, hfill, List.flatMap_cons]

theorem run_copy_append (at_ : Nat) (front new : Bytes) {old : Bytes} (hfront : front.length = at_)
    (hold : old.length = new.length) : (copy at_ new).run (front ++ old) = .ok new.length (front ++ new) := by
  have hroom : ¬ (front ++ old).length - at_ < new.length := by
    rw [List.length_append]
    omega
  have hstore := run_store_append at_ front new [] hfront hold
  rw [List.append_nil, List.append_nil] at hstore
  simp only [copy, EStateM.run_bind, EStateM.run_get, if_neg hroom, EStateM.run_pure, hstore]

theorem run_values {b : Bitmap} (hb : b.valid = true) (h : plan b = .values b.card) {memory : Bytes}
    (hsize : memory.length = encodedSize b .tagged) :
    (encoding b .tagged).run memory = .ok (encodedSize b .tagged) (encode b .tagged) := by
  rw [encodedSize_of_values h, Nat.add_assoc] at hsize
  obtain ⟨tag, rest, rfl, htag, hrest⟩ := Bytes.exists_append hsize
  obtain ⟨count, slots, rfl, hcount, hslots⟩ := Bytes.exists_append hrest
  have hvalues : slots.length = 4 * b.values.length := by
    rw [hslots, Bitmap.length_values hb, Nat.mul_comm]
  have htagged := run_store_append 0 [] [valuesTag] (count ++ slots) rfl htag
  have hcounted := run_store_append 1 [valuesTag] (Bytes.le 4 b.card) slots rfl
    (hcount.trans (Bytes.length_le 4 _).symm)
  have hfilled := run_fill_append 5 ([valuesTag] ++ Bytes.le 4 b.card)
    (by rw [List.length_append, Bytes.length_le, List.length_singleton]) hvalues
  rw [List.nil_append, List.nil_append] at htagged
  rw [List.append_assoc, List.append_assoc] at hfilled
  simp only [encoding, h, EStateM.run_bind, EStateM.run_pure, htagged, hcounted, hfilled]
  rw [encodedSize_of_values h, encode, tagged_of_values h]
  rfl

theorem run_containers {b : Bitmap} (h : plan b = .containers (Portable.size b)) {memory : Bytes}
    (hsize : memory.length = encodedSize b .tagged) :
    (encoding b .tagged).run memory = .ok (encodedSize b .tagged) (encode b .tagged) := by
  rw [encodedSize_of_containers h] at hsize
  obtain ⟨tag, rest, rfl, htag, hrest⟩ := Bytes.exists_append hsize
  have htagged := run_store_append 0 [] [containersTag] rest rfl htag
  have hcopied := run_copy_append 1 [containersTag] (Portable.encode b) rfl
    (hrest.trans (Portable.length_encode b).symm)
  rw [List.nil_append, List.nil_append] at htagged
  simp only [encoding, h, EStateM.run_bind, EStateM.run_pure, htagged, hcopied, Portable.length_encode]
  rw [encodedSize_of_containers h, encode, tagged_of_containers h, Nat.add_comm]
  rfl

/-- **On memory of the size that is told beforehand a pass does not stop**, and leaves the encoding. -/
theorem run_encoding {b : Bitmap} (hb : b.valid = true) (f : Format) {memory : Bytes}
    (hsize : memory.length = encodedSize b f) :
    (encoding b f).run memory = .ok (encodedSize b f) (encode b f) := by
  have hcopy : ∀ {bs : Bytes}, bs.length = encodedSize b f →
      (copy 0 bs).run memory = .ok (encodedSize b f) bs := by
    intro bs hbs
    have h := run_copy_append 0 [] bs rfl (hsize.trans hbs.symm)
    rwa [List.nil_append, List.nil_append, hbs] at h
  cases f with
  | tagged =>
    rcases plan_eq b with ⟨h, -⟩ | h
    · exact run_values hb h hsize
    · exact run_containers h hsize
  | portable => exact hcopy (Portable.length_encode b)
  | frozenNative => exact hcopy (Native.length_encode b)
  | frozenPortable => exact hcopy (Portable.length_encode b)

theorem run_within {α : Type} {n : Nat} {pass : Pass α} {memory front : Bytes} {a : α}
    (h : pass.run (memory.take n) = .ok a front) : (within n pass).run memory = .ok a (front ++ memory.drop n) := by
  have hpass : pass (memory.take n) = .ok a front := h
  show within n pass memory = _
  unfold within
  rw [hpass]

end Pass

/-! ## Memory of its own -/

/-- **Serializing is a pass over memory of exactly the size**: nothing is left to be cut off. -/
theorem fresh_eq {b : Bitmap} (hb : b.valid = true) (f : Format) (base : Nat) :
    ∃ w, Window.zeroed base (encodedSize b f) f.alignment = .ok w ∧ w.visible.length = encodedSize b f ∧
      Pass.fresh base b f = .ok (w.write (encode b f)) ∧ serialize base b f = .ok (w.write (encode b f)) ∧
      (w.write (encode b f)).visible = encode b f := by
  obtain ⟨w, hw, hin, hlength, -⟩ := exists_window hb f base
  have hsize : w.visible.length = encodedSize b f := (Window.length_visible hin).trans hlength
  have hwhole : (w.write (encode b f)).truncate (encodedSize b f) = w.write (encode b f) :=
    Window.truncate_of_le (Nat.le_of_eq hlength)
  have hpass : Pass.encoding b f w.visible = .ok (encodedSize b f) (encode b f) := Pass.run_encoding hb f hsize
  refine ⟨w, hw, hsize, ?_, ?_, Window.visible_write_all hin ((length_encode hb f).trans hlength.symm)⟩
  · unfold Pass.fresh
    rw [hw]
    dsimp only [bind, Except.bind, Except.mapError]
    rw [hpass]
    exact congrArg Except.ok hwhole
  · unfold serialize
    rw [hw]
    dsimp only [bind, Except.bind]
    rw [put_of_length hb hsize]
    exact congrArg Except.ok hwhole

theorem encodedSize_tagged (b : Bitmap) : encodedSize b .tagged =
    if b.card < 2 ^ 24 then 1 + min (4 * b.card + 4) (Portable.size b) else 1 + Portable.size b := by
  have hlimit : valuesLimit = 2 ^ 24 := rfl
  show (plan b).length = _
  unfold plan
  dsimp only
  rw [hlimit]
  by_cases hcard : b.card < 2 ^ 24
  · by_cases hsmaller : b.card * 4 + 4 < Portable.size b
    · rw [if_pos ⟨hcard, hsmaller⟩, if_pos hcard, Plan.length]
      omega
    · rw [if_neg fun h => hsmaller h.2, if_pos hcard, Plan.length]
      omega
  · rw [if_neg fun h => hcard h.1, if_neg hcard, Plan.length]

theorem encode_tagged (b : Bitmap) : encode b .tagged =
    if b.card < 2 ^ 24 ∧ 4 * b.card + 4 < Portable.size b then
      1 :: (Bytes.le 4 b.card ++ b.values.flatMap Bytes.ofWord32) else 2 :: encode b .portable := by
  have hlimit : valuesLimit = 2 ^ 24 := rfl
  show tagged b = _
  unfold tagged plan
  dsimp only
  rw [hlimit, Nat.mul_comm b.card 4]
  by_cases h : b.card < 2 ^ 24 ∧ 4 * b.card + 4 < Portable.size b
  · rw [if_pos h, if_pos h]
    rfl
  · rw [if_neg h, if_neg h]
    rfl

/-- **Serializing gives exactly the bytes that were told beforehand.**  The pass over memory of that size stops nowhere
and fills all of it.  The tagged format has the plain values, ascending behind their count, where they are fewer than
`2 ^ 24` and shorter than the portable layout, and that layout in all other cases. -/
theorem serialize_exact {b : Bitmap} (hb : b.valid = true) :
    (∀ (f : Format) (base : Nat), ∃ w,
      Window.zeroed base (encodedSize b f) f.alignment = .ok w ∧ w.visible.length = encodedSize b f ∧
      (Pass.encoding b f).run w.visible = .ok (encodedSize b f) (encode b f) ∧
      Pass.fresh base b f = .ok (w.write (encode b f)) ∧ serialize base b f = .ok (w.write (encode b f)) ∧
      (w.write (encode b f)).visible = encode b f ∧ (encode b f).length = encodedSize b f ∧
      encodedSize b f < Window.sizeLimit) ∧
    encodedSize b .tagged =
      (if b.card < 2 ^ 24 then 1 + min (4 * b.card + 4) (Portable.size b) else 1 + Portable.size b) ∧
    encode b .tagged = (if b.card < 2 ^ 24 ∧ 4 * b.card + 4 < Portable.size b then
      1 :: (Bytes.le 4 b.card ++ b.values.flatMap Bytes.ofWord32) else 2 :: encode b .portable) ∧
    b.values.length = b.card ∧ b.values.Pairwise (· < ·) ∧ (encode b .portable).length = Portable.size b := by
  refine ⟨fun f base => ?_, encodedSize_tagged b, encode_tagged b, Bitmap.length_values hb, Bitmap.pairwise_values hb,
    Portable.length_encode b⟩
  obtain ⟨w, hw, hsize, hfresh, hserialize, hvisible⟩ := fresh_eq hb f base
  have hsmall := encodedSize_lt hb f
  exact ⟨w, hw, hsize, Pass.run_encoding hb f hsize, hfresh, hserialize, hvisible, length_encode hb f,
    Nat.lt_trans hsmall (by decide)⟩

/-- Six values, for which both forms of the tagged format take 28 bytes behind the tag. -/
def tied : Bitmap := ⟨[(0, .array #[1, 3, 5, 7, 9, 11])]⟩

theorem serialize_exact_tied : tied.valid = true ∧ encodedSize tied .tagged = 29 ∧
    encode tied .tagged = 2 :: encode tied .portable ∧ tied.values.length = 6 ∧
    ∃ w, serialize 3 tied .tagged = .ok w ∧ w.visible.length = 29 := by
  have htied : tied.valid = true := by decide
  obtain ⟨hall, hsize, hbytes, hcount, -⟩ := serialize_exact htied
  obtain ⟨w, -, -, -, -, hserialize, hvisible, hlength, -⟩ := hall .tagged 3
  have hnine : encodedSize tied .tagged = 29 := hsize
  exact ⟨htied, hnine, hbytes, hcount, _, hserialize, by rw [hvisible, hlength, hnine]⟩

/-! ## A caller's memory -/

theorem isAligned_alignment {f : Format} {address : Nat} :
    Window.isAligned address f.alignment = true ↔ (f = .frozenNative → address % 32 = 0) := by
  cases f with
  | frozenNative => exact ⟨fun h _ => of_decide_eq_true h, fun h => decide_eq_true (h rfl)⟩
  | tagged | portable | frozenPortable => exact iff_of_true rfl nofun

theorem writeInto_of_room {b : Bitmap} (hb : b.valid = true) {f : Format} {address : Nat} {memory : Bytes}
    (hroom : encodedSize b f ≤ memory.length) (haligned : Window.isAligned address f.alignment = true) :
    writeInto b f address memory = (.ok (encodedSize b f), encode b f ++ memory.drop (encodedSize b f)) := by
  have hput := put_of_length hb (List.length_take_of_le hroom)
  unfold writeInto
  dsimp only
  rw [if_neg (by omega), haligned, hput]
  rfl

/-- **The pass into a caller's memory ends as the write in a single step does**: it never stops halfway. -/
theorem Pass.into_eq {b : Bitmap} (hb : b.valid = true) (f : Format) (address : Nat) (memory : Bytes) :
    (into b f address).run memory = ending (writeInto b f address memory) := by
  by_cases hshort : memory.length < encodedSize b f
  · simp only [into, EStateM.run_bind, EStateM.run_get, if_pos hshort, EStateM.run_throw]
    unfold writeInto
    dsimp only
    rw [if_pos hshort]
    rfl
  have hroom : encodedSize b f ≤ memory.length := Nat.le_of_not_lt hshort
  cases haligned : Window.isAligned address f.alignment with
  | false =>
    simp only [into, EStateM.run_bind, EStateM.run_get, if_neg hshort, haligned]
    unfold writeInto
    dsimp only
    rw [if_neg hshort, haligned]
    rfl
  | true =>
    have hpass := run_within (run_encoding hb f (List.length_take_of_le hroom))
    simp only [into, EStateM.run_bind, EStateM.run_get, if_neg hshort, haligned]
    rw [writeInto_of_room hb hroom haligned]
    exact hpass

/-- **A caller's memory gets the whole encoding or stays as it is.**  Where it is too short the write says how many bytes
there should be; where it is long enough but off the boundary of the native format, it names the boundary.  Otherwise the
front is what serializing gives, and the rest stays. -/
theorem writeInto_cases {b : Bitmap} (hb : b.valid = true) (f : Format) (address : Nat) (memory : Bytes) :
    (Pass.into b f address).run memory = Pass.ending (writeInto b f address memory) ∧
    (memory.length < encodedSize b f →
      writeInto b f address memory = (.error (.bufferTooSmall (encodedSize b f) memory.length), memory)) ∧
    (encodedSize b f ≤ memory.length → f = .frozenNative → address % 32 ≠ 0 →
      writeInto b f address memory = (.error (.misaligned 32), memory)) ∧
    (encodedSize b f ≤ memory.length → (f = .frozenNative → address % 32 = 0) → ∀ base, ∃ w,
      serialize base b f = .ok w ∧ w.visible.length = encodedSize b f ∧
      writeInto b f address memory = (.ok (encodedSize b f), w.visible ++ memory.drop (encodedSize b f))) := by
  refine ⟨Pass.into_eq hb f address memory, fun hshort => ?_, fun hroom hnative hoff => ?_,
    fun hroom hon base => ?_⟩
  · unfold writeInto
    exact if_pos hshort
  · subst hnative
    have hoff' : Window.isAligned address Format.frozenNative.alignment = false := by
      refine Bool.eq_false_iff.2 fun h => ?_
      exact hoff (isAligned_alignment.1 h rfl)
    unfold writeInto
    dsimp only
    rw [if_neg (by omega), hoff']
    rfl
  · obtain ⟨w, hserialize, hvisible, -⟩ := serialize_spec hb f base
    refine ⟨w, hserialize, by rw [hvisible, length_encode hb f], ?_⟩
    rw [writeInto_of_room hb hroom (isAligned_alignment.2 hon), hvisible]

def spare (n : Nat) : Bytes := List.replicate n 170

theorem writeInto_cases_tied : tied.valid = true ∧
    writeInto tied .tagged 7 (spare 28) = (.error (.bufferTooSmall 29 28), spare 28) ∧
    writeInto tied .frozenNative 65 (spare 22) = (.error (.misaligned 32), spare 22) ∧
    (∃ w, serialize 3 tied .tagged = .ok w ∧ writeInto tied .tagged 7 (spare 31) = (.ok 29, w.visible ++ spare 2)) ∧
    ∃ w, serialize 3 tied .frozenNative = .ok w ∧ writeInto tied .frozenNative 64 (spare 22) = (.ok 21, w.visible ++ spare 1) := by
  have htied : tied.valid = true := by decide
  obtain ⟨-, hshort, -, -⟩ := writeInto_cases htied .tagged 7 (spare 28)
  obtain ⟨-, -, hoff, -⟩ := writeInto_cases htied .frozenNative 65 (spare 22)
  obtain ⟨-, -, -, htagged⟩ := writeInto_cases htied .tagged 7 (spare 31)
  obtain ⟨-, -, -, hnative⟩ := writeInto_cases htied .frozenNative 64 (spare 22)
  obtain ⟨w, hw, -, hwrite⟩ := htagged (by decide) nofun 3
  obtain ⟨v, hv, -, hwrite'⟩ := hnative (by decide) (fun _ => rfl) 3
  exact ⟨htied, hshort (by decide), hoff (by decide) rfl (by decide), ⟨w, hw, hwrite⟩, v, hv, hwrite'⟩

end Encoding
end BitmapWorks
