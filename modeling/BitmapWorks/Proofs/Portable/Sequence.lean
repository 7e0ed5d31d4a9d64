import BitmapWorks.Portable
import BitmapWorks.Proofs.Bytes.Words
import BitmapWorks.Proofs.Container.Rules
/-!
# Sequence — the interchange layout, read in sequence

What `encode` writes has the length that `size` says (`length_encode`), its header names the containers
(`readHeader?_encode_append`), and reading in sequence gives the bitmap back, whatever follows the encoding
(`decode?_encode_append`).
-/
namespace BitmapWorks
namespace Portable

/-! ## Lengths -/

@[simp] theorem length_body (c : Container) : (body c).length = c.bodySize := by
  cases c with
  | array xs => rw [body, Bytes.length_flatMap_ofWord16, Container.bodySize, Array.length_toList]
  | bitset count bits => exact Bytes.length_le _ _
  | runs rs =>
    simp only [body, Container.bodySize, List.length_append, Bytes.length_le, Nat.add_left_cancel_iff]
    induction rs with
    | nil => rfl
    | cons r rs ih =>
      rw [List.flatMap_cons, List.length_append, ih, List.length_append, Bytes.length_ofWord16, Bytes.length_ofWord16,
        List.length_cons]
      omega

theorem length_flatMap_body (cs : List (UInt16 × Container)) :
    (cs.flatMap fun (_, c) => body c).length = (cs.map fun (_, c) => c.bodySize).sum := by
  rw [List.length_flatMap]
  simp only [length_body]

@[simp] theorem length_offsets : ∀ (start : Nat) (cs : List (UInt16 × Container)), (offsets start cs).length = cs.length
  | _, [] => rfl
  | start, (_, c) :: rest => by rw [offsets, List.length_cons, length_offsets, List.length_cons]

@[simp] theorem length_packFlags (flags : List Bool) : (packFlags flags).length = (flags.length + 7) / 8 :=
  Bytes.length_le _ _

def cookieBytes (b : Bitmap) : Bytes :=
  if hasRuns b then
    Bytes.le 4 (runsCookie + (b.containers.length - 1) * 65536) ++ packFlags (b.containers.map fun (_, c) => c.isRuns)
  else Bytes.le 4 plainCookie ++ Bytes.le 4 b.containers.length

def headBytes (cs : List (UInt16 × Container)) : Bytes :=
  cs.flatMap fun (key, c) => Bytes.ofWord16 key ++ Bytes.le 2 (c.card - 1)

def startBytes (b : Bitmap) : Bytes :=
  if storesOffsets (hasRuns b) b.containers.length then
    (offsets (headerSize b) b.containers).flatMap (Bytes.le 4)
  else []

theorem encode_eq (b : Bitmap) :
    encode b = cookieBytes b ++ (headBytes b.containers ++ (startBytes b ++ b.containers.flatMap fun (_, c) => body c)) := by
  simp only [encode, cookieBytes, headBytes, startBytes, List.append_assoc]

theorem length_cookieBytes (b : Bitmap) :
    (cookieBytes b).length = if hasRuns b then 4 + (b.containers.length + 7) / 8 else 8 := by
  unfold cookieBytes
  split <;> simp

theorem headBytes_cons (key : UInt16) (c : Container) (cs : List (UInt16 × Container)) :
    headBytes ((key, c) :: cs) = Bytes.ofWord16 key ++ (Bytes.le 2 (c.card - 1) ++ headBytes cs) := by
  simp [headBytes]

theorem length_headBytes (cs : List (UInt16 × Container)) : (headBytes cs).length = 4 * cs.length := by
  induction cs with
  | nil => rfl
  | cons kc cs ih =>
    rw [headBytes_cons, List.length_append, List.length_append, ih, Bytes.length_ofWord16, Bytes.length_le, List.length_cons]
    omega

theorem length_startBytes (b : Bitmap) :
    (startBytes b).length =
      if storesOffsets (hasRuns b) b.containers.length then 4 * b.containers.length else 0 := by
  unfold startBytes
  split
  · rw [Bytes.length_flatMap_le, length_offsets]
  · rfl

theorem headerSize_eq (b : Bitmap) :
    headerSize b = (cookieBytes b).length + (headBytes b.containers).length + (startBytes b).length := by
  rw [headerSize, length_cookieBytes, length_headBytes, length_startBytes]

theorem size_eq (b : Bitmap) : size b = headerSize b + (b.containers.map fun (_, c) => c.bodySize).sum := rfl

theorem length_encode (b : Bitmap) : (encode b).length = size b := by
  rw [encode_eq, size_eq, headerSize_eq]
  simp only [List.length_append, length_flatMap_body]
  omega

/-! ## The header -/

def flagBits (flags : List Bool) : Nat := flags.foldr (fun f acc => f.toNat + 2 * acc) 0

theorem flagBits_cons (f : Bool) (flags : List Bool) : flagBits (f :: flags) = f.toNat + 2 * flagBits flags := rfl

theorem flagBits_lt (flags : List Bool) : flagBits flags < 2 ^ flags.length := by
  induction flags with
  | nil => simp [flagBits]
  | cons f flags ih =>
    have hf := f.toNat_le
    rw [flagBits_cons, List.length_cons, Nat.pow_succ]
    omega

theorem leNat_packFlags (flags : List Bool) : Bytes.leNat (packFlags flags) = flagBits flags := by
  refine Bytes.leNat_le_of_lt (Nat.lt_of_lt_of_le (flagBits_lt flags) ?_)
  rw [show (256 : Nat) = 2 ^ 8 from rfl, ← Nat.pow_mul]
  exact Nat.pow_le_pow_right (by decide) (by omega)

theorem flagBits_eq_zero {flags : List Bool} (h : ∀ f ∈ flags, f = false) : flagBits flags = 0 := by
  induction flags with
  | nil => rfl
  | cons f flags ih =>
    rw [flagBits_cons, h f List.mem_cons_self, ih fun g hg => h g (List.mem_cons_of_mem _ hg)]
    rfl

def Head.ofContainer (kc : UInt16 × Container) : Head := ⟨kc.1, kc.2.card, kc.2.isRuns⟩

theorem headsOnto_eq : ∀ (ws : List UInt16) (flags : Nat) (read : List Head),
    headsOnto ws flags read = read.reverse ++ headsOnto ws flags []
  | [], _, read => by simp [headsOnto]
  | [_], _, read => by simp [headsOnto]
  | key :: less :: rest, flags, read => by
    rw [headsOnto, headsOnto, headsOnto_eq rest, headsOnto_eq rest _ [_]]
    simp

theorem headsOnto_cons (key less : UInt16) (rest : List UInt16) (flags : Nat) :
    headsOnto (key :: less :: rest) flags [] = ⟨key, less.toNat + 1, flags % 2 == 1⟩ :: headsOnto rest (flags / 2) [] := by
  rw [headsOnto, headsOnto_eq]
  rfl

theorem headsOnto_headBytes : ∀ cs : List (UInt16 × Container), (∀ kc ∈ cs, kc.2.valid = true) →
    headsOnto (Bytes.words16 (headBytes cs)) (flagBits (cs.map fun (_, c) => c.isRuns)) [] = cs.map Head.ofContainer
  | [], _ => rfl
  | (key, c) :: cs, h => by
    have hc : c.valid = true := h (key, c) List.mem_cons_self
    have hpos := Container.card_pos hc
    have hle := Container.card_le hc
    have ih := headsOnto_headBytes cs fun kc hkc => h kc (List.mem_cons_of_mem _ hkc)
    have hcount : (UInt16.ofNat (c.card - 1)).toNat + 1 = c.card := by
      rw [UInt16.toNat_ofNat_of_lt' (by simp only [UInt16.size]; omega)]
      omega
    have hflag : ((c.isRuns.toNat + 2 * flagBits (cs.map fun (_, c) => c.isRuns)) % 2 == 1) = c.isRuns := by
      cases c.isRuns <;> simp only [Bool.toNat_true, Bool.toNat_false, beq_iff_eq, beq_eq_false_iff_ne] <;> omega
    have hrest : (c.isRuns.toNat + 2 * flagBits (cs.map fun (_, c) => c.isRuns)) / 2
        = flagBits (cs.map fun (_, c) => c.isRuns) := by
      have := c.isRuns.toNat_le
      omega
    rw [headBytes_cons, Bytes.le_two, Bytes.words16_ofWord16_append, Bytes.words16_ofWord16_append, List.map_cons,
      flagBits_cons, headsOnto_cons, hcount, hflag, hrest, ih, List.map_cons]
    rfl

theorem hasRuns_eq_false {b : Bitmap} (h : hasRuns b = false) : ∀ f ∈ b.containers.map fun (_, c) => c.isRuns, f = false := by
  intro f hf
  obtain ⟨kc, hkc, rfl⟩ := List.mem_map.1 hf
  simpa using List.any_eq_false.1 h kc hkc

theorem containers_ne_nil {b : Bitmap} (h : hasRuns b = true) : b.containers ≠ [] := by
  intro hn
  simp [hasRuns, hn] at h

theorem readCookie?_append {b : Bitmap} (hb : b.containers.length ≤ 65536) (rest : Bytes) :
    ∃ flags, readCookie? (cookieBytes b ++ rest) = some (b.containers.length, flags, rest) ∧
      flags.isSome = hasRuns b ∧ Bytes.leNat (flags.getD []) = flagBits (b.containers.map fun (_, c) => c.isRuns) := by
  unfold cookieBytes
  cases hr : hasRuns b with
  | true =>
    have hne := List.length_pos_iff.2 (containers_ne_nil hr)
    have hword : Bytes.leNat (Bytes.le 4 (runsCookie + (b.containers.length - 1) * 65536))
        = runsCookie + (b.containers.length - 1) * 65536 :=
      Bytes.leNat_le_of_lt (by simp only [runsCookie]; omega)
    have hlow : (runsCookie + (b.containers.length - 1) * 65536) % 65536 = runsCookie := by
      simp only [runsCookie]
      omega
    have hcount : (runsCookie + (b.containers.length - 1) * 65536) / 65536 + 1 = b.containers.length := by
      simp only [runsCookie]
      omega
    refine ⟨some (packFlags (b.containers.map fun (_, c) => c.isRuns)), ?_, rfl, ?_⟩
    case refine_2 => exact leNat_packFlags _
    rw [if_pos rfl, List.append_assoc, readCookie?, Bytes.split?_append (Bytes.length_le 4 _)]
    simp only [Option.bind_eq_bind, Option.bind_some, hword, if_pos hlow, hcount]
    rw [Bytes.split?_append (by simp)]
    rfl
  | false =>
    have hword : Bytes.leNat (Bytes.le 4 plainCookie) = plainCookie := Bytes.leNat_le_of_lt (by decide)
    have hcount : Bytes.leNat (Bytes.le 4 b.containers.length) = b.containers.length := Bytes.leNat_le_of_lt (by omega)
    refine ⟨none, ?_, rfl, (flagBits_eq_zero (hasRuns_eq_false hr)).symm⟩
    rw [if_neg (by decide), List.append_assoc, readCookie?, Bytes.split?_append (Bytes.length_le 4 _)]
    simp only [Option.bind_eq_bind, Option.bind_some, hword, if_neg (by decide : ¬ plainCookie % 65536 = runsCookie), if_pos]
    rw [Bytes.split?_append (Bytes.length_le 4 _)]
    simp only [Option.bind_some, hcount, if_pos hb]
    rfl

/-- **The header is read as it was written**: the containers, and where their bodies start as far as a word can say. -/
theorem readHeader?_encode_append {b : Bitmap} (hb : b.valid = true) (rest : Bytes) :
    readHeader? (encode b ++ rest) = some
      ⟨b.containers.map Head.ofContainer,
        if storesOffsets (hasRuns b) b.containers.length then
          some ((offsets (headerSize b) b.containers).map fun start => start % 2 ^ 32)
        else none,
        (b.containers.flatMap fun (_, c) => body c) ++ rest⟩ := by
  obtain ⟨flags, hcookie, hsome, hbits⟩ := readCookie?_append (Bitmap.length_containers_le hb)
    (headBytes b.containers ++ (startBytes b ++ ((b.containers.flatMap fun (_, c) => body c) ++ rest)))
  have hheads := headsOnto_headBytes b.containers (Bitmap.valid_iff.1 hb).2
  simp only [encode_eq, List.append_assoc, readHeader?, hcookie, Option.bind_eq_bind, Option.bind_some]
  rw [Bytes.split?_append (length_headBytes _)]
  simp only [Option.bind_some, hsome, hbits, hheads]
  cases hst : storesOffsets (hasRuns b) b.containers.length with
  | true =>
    rw [if_pos rfl, Bytes.split?_append (by rw [length_startBytes, hst, if_pos rfl])]
    have hwords : Bytes.words32 (startBytes b) = (offsets (headerSize b) b.containers).map UInt32.ofNat := by
      rw [startBytes, hst, if_pos rfl]
      have h := Bytes.words32_flatMap_append (offsets (headerSize b) b.containers) []
      rwa [List.append_nil, show Bytes.words32 [] = [] from rfl, List.append_nil] at h
    simp [hwords, Function.comp_def]
  | false =>
    have hnil : startBytes b = [] := by simp [startBytes, hst]
    simp [hnil]

/-! ## The bodies -/

theorem runsOnto_eq : ∀ (ws : List UInt16) (read : List Run), runsOnto ws read = read.reverse ++ runsOnto ws []
  | [], read => by simp [runsOnto]
  | [_], read => by simp [runsOnto]
  | start :: extra :: rest, read => by
    rw [runsOnto, runsOnto, runsOnto_eq rest, runsOnto_eq rest [_]]
    simp

theorem runsOnto_cons (start extra : UInt16) (rest : List UInt16) :
    runsOnto (start :: extra :: rest) [] = ⟨start, extra⟩ :: runsOnto rest [] := by
  rw [runsOnto, runsOnto_eq]
  rfl

@[simp] theorem length_runBytes (rs : List Run) :
    (rs.flatMap fun r => Bytes.ofWord16 r.start ++ Bytes.ofWord16 r.extra).length = 4 * rs.length := by
  simpa [body, Container.bodySize] using length_body (.runs rs)

@[simp] theorem runsOnto_words16 (rs : List Run) :
    runsOnto (Bytes.words16 (rs.flatMap fun r => Bytes.ofWord16 r.start ++ Bytes.ofWord16 r.extra)) [] = rs := by
  induction rs with
  | nil => rfl
  | cons r rs ih =>
    rw [List.flatMap_cons, List.append_assoc, Bytes.words16_ofWord16_append, Bytes.words16_ofWord16_append, runsOnto_cons, ih]

theorem readBody?_runs {h : Head} (hr : h.runs = true) (bs : Bytes) :
    readBody? h bs = (Bytes.split? 2 bs).bind fun p => (Bytes.split? (4 * Bytes.leNat p.1) p.2).bind fun q =>
      some (.runs (runsOnto (Bytes.words16 q.1) []), q.2) := by
  rw [readBody?, if_pos hr]
  rfl

theorem readBody?_bitset {h : Head} (hr : h.runs = false) (hc : Container.arrayLimit < h.count) (bs : Bytes) :
    readBody? h bs = (Bytes.split? Container.bitsetBytes bs).bind fun q =>
      some (.bitset h.count (Bytes.leNat q.1), q.2) := by
  rw [readBody?, if_neg (by simp [hr]), if_pos hc]
  rfl

theorem readBody?_array {h : Head} (hr : h.runs = false) (hc : ¬ Container.arrayLimit < h.count) (bs : Bytes) :
    readBody? h bs = (Bytes.split? (2 * h.count) bs).bind fun q => some (.array (Bytes.words16 q.1).toArray, q.2) := by
  rw [readBody?, if_neg (by simp [hr]), if_neg hc]
  rfl

theorem lt_pow_bytes {bits n w : Nat} (h : bits < 2 ^ n) (hn : n = 8 * w) : bits < 256 ^ w := by
  rw [show 256 = 2 ^ 8 from rfl, ← Nat.pow_mul, ← hn]
  exact h

/-- **A body is read as it was written**, and what follows is left. -/
theorem readBody?_append {key : UInt16} {c : Container} (hc : c.valid = true) (rest : Bytes) :
    readBody? (Head.ofContainer (key, c)) (body c ++ rest) = some (c, rest) := by
  cases c with
  | array xs =>
    have hle : ¬ Container.arrayLimit < xs.size := Nat.not_lt.2 (Container.valid_array.1 hc).2.1
    have hlen : (xs.toList.flatMap Bytes.ofWord16).length = 2 * xs.size := by
      rw [Bytes.length_flatMap_ofWord16, Array.length_toList]
    rw [readBody?_array rfl hle]
    exact (congrArg (Option.bind · _) (Bytes.split?_append hlen rest)).trans (by simp)
  | bitset count bits =>
    obtain ⟨hlt, hbits, -⟩ := Container.valid_bitset.1 hc
    rw [readBody?_bitset rfl hlt, body, Bytes.split?_append (Bytes.length_le _ _), Option.bind_some,
      Bytes.leNat_le_of_lt (lt_pow_bytes hbits rfl)]
    rfl
  | runs rs =>
    have hcount : Bytes.leNat (Bytes.le 2 rs.length) = rs.length :=
      Bytes.leNat_le_of_lt (Container.length_runs_lt hc)
    rw [readBody?_runs rfl, body, List.append_assoc, Bytes.split?_append (Bytes.length_le _ _), Option.bind_some, hcount,
      Bytes.split?_append (length_runBytes rs), Option.bind_some, runsOnto_words16]

theorem readBodies?_append : ∀ (cs : List (UInt16 × Container)) (rest : Bytes), (∀ kc ∈ cs, kc.2.valid = true) →
    readBodies? (cs.map Head.ofContainer) ((cs.flatMap fun (_, c) => body c) ++ rest) = some cs
  | [], _, _ => rfl
  | (key, c) :: cs, rest, h => by
    rw [List.map_cons, List.flatMap_cons, List.append_assoc, readBodies?,
      readBody?_append (h (key, c) List.mem_cons_self)]
    simp only [Option.bind_eq_bind, Option.bind_some]
    rw [readBodies?_append cs rest fun kc hkc => h kc (List.mem_cons_of_mem _ hkc)]
    rfl

/-- **Reading in sequence gives back what was written**, whatever follows it. -/
theorem decode?_encode_append {b : Bitmap} (hb : b.valid = true) (rest : Bytes) : decode? (encode b ++ rest) = some b := by
  rw [decode?, readHeader?_encode_append hb]
  simp only [Option.bind_eq_bind, Option.bind_some]
  rw [readBodies?_append b.containers rest (Bitmap.valid_iff.1 hb).2]
  simp only [Option.bind_some, if_pos hb]
  rfl

end Portable
end BitmapWorks
