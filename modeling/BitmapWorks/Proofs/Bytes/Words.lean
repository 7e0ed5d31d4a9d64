import BitmapWorks.Bytes
import Mathlib.Algebra.GroupWithZero.Nat
/-!
# Words — strings of words are read as they were written

Reading words off a string of bytes undoes writing them, whatever follows (`words16_flatMap_append`,
`words32_flatMap_append`), and a stretch of known length is cut off whole (`split?_append`).
-/
namespace BitmapWorks
namespace Bytes

/-! ## Numbers -/

theorem leNat_lt : ∀ bs : Bytes, leNat bs < 256 ^ bs.length
  | [] => by simp [leNat]
  | b :: bs => by
    have ih := leNat_lt bs
    have hb : b.toNat < 256 := b.toNat_lt
    simp only [leNat, List.length_cons, Nat.pow_succ]
    omega

/-- **Reading back what was written keeps the low bytes.** -/
theorem leNat_le (w n : Nat) : leNat (le w n) = n % 256 ^ w := by
  induction w generalizing n with
  | zero => simp [le, leNat, Nat.mod_one]
  | succ w ih =>
    have h : (UInt8.ofNat n).toNat = n % 256 := by simp
    rw [le, leNat, ih, h, Nat.pow_succ', Nat.mod_mul]

theorem leNat_le_of_lt {w n : Nat} (h : n < 256 ^ w) : leNat (le w n) = n := by
  rw [leNat_le, Nat.mod_eq_of_lt h]

/-! ## Sixteen bits -/

theorem words16Onto_eq : ∀ (bs : Bytes) (read : List UInt16), words16Onto bs read = read.reverse ++ words16 bs
  | [], read => by simp [words16, words16Onto]
  | [_], read => by simp [words16, words16Onto]
  | a :: b :: rest, read => by
    rw [words16, words16Onto, words16Onto, words16Onto_eq rest, words16Onto_eq rest [_]]
    simp

@[simp] theorem words16_nil : words16 [] = [] := rfl

theorem words16_cons_cons (a b : UInt8) (rest : Bytes) :
    words16 (a :: b :: rest) = UInt16.ofNat (leNat [a, b]) :: words16 rest := by
  rw [words16, words16Onto, words16Onto_eq]
  rfl

theorem ofWord16_eq (v : UInt16) : ofWord16 v = [UInt8.ofNat v.toNat, UInt8.ofNat (v.toNat / 256)] := rfl

@[simp] theorem length_ofWord16 (v : UInt16) : (ofWord16 v).length = 2 := rfl

theorem leNat_ofWord16 (v : UInt16) : leNat (ofWord16 v) = v.toNat := leNat_le_of_lt v.toNat_lt

theorem le_two (n : Nat) : le 2 n = ofWord16 (UInt16.ofNat n) := by
  have h : ∀ m, UInt8.ofNat (m % 65536) = UInt8.ofNat m ∧ UInt8.ofNat (m % 65536 / 256) = UInt8.ofNat (m / 256) := by
    intro m
    constructor <;> apply UInt8.toNat_inj.1 <;> simp only [UInt8.toNat_ofNat', Nat.reducePow] <;> omega
  simp only [ofWord16, le, UInt16.toNat_ofNat', Nat.reducePow, (h n).1, (h n).2]

@[simp] theorem words16_ofWord16_append (v : UInt16) (rest : Bytes) :
    words16 (ofWord16 v ++ rest) = v :: words16 rest := by
  rw [ofWord16_eq, List.cons_append, List.cons_append, List.nil_append, words16_cons_cons, ← ofWord16_eq,
    leNat_ofWord16, UInt16.ofNat_toNat]

/-- **Words are read as they were written**, in front of what follows. -/
theorem words16_flatMap_append (xs : List UInt16) (rest : Bytes) :
    words16 (xs.flatMap ofWord16 ++ rest) = xs ++ words16 rest := by
  induction xs with
  | nil => rfl
  | cons x xs ih => rw [List.flatMap_cons, List.append_assoc, words16_ofWord16_append, ih, List.cons_append]

@[simp] theorem words16_flatMap (xs : List UInt16) : words16 (xs.flatMap ofWord16) = xs := by
  simpa using words16_flatMap_append xs []

theorem ofWord16_leNat (a b : UInt8) : ofWord16 (UInt16.ofNat (leNat [a, b])) = [a, b] := by
  rw [← le_two]
  exact le_leNat [a, b]

/-- **Words are all there is to a string of even length.** -/
theorem flatMap_words16 : ∀ {bs : Bytes}, bs.length % 2 = 0 → (words16 bs).flatMap ofWord16 = bs
  | [], _ => rfl
  | [_], h => by cases h
  | a :: b :: rest, h => by
    have heven : rest.length % 2 = 0 := by
      rw [List.length_cons, List.length_cons] at h
      omega
    rw [words16_cons_cons, List.flatMap_cons, ofWord16_leNat, flatMap_words16 heven]
    rfl

@[simp] theorem length_words16 : ∀ bs : Bytes, (words16 bs).length = bs.length / 2
  | [] => rfl
  | [_] => by simp [words16, words16Onto]
  | a :: b :: rest => by
    rw [words16_cons_cons, List.length_cons, length_words16 rest]
    simp only [List.length_cons]
    omega

@[simp] theorem length_flatMap_ofWord16 (xs : List UInt16) : (xs.flatMap ofWord16).length = 2 * xs.length := by
  induction xs with
  | nil => rfl
  | cons x xs ih =>
    rw [List.flatMap_cons, List.length_append, ih, length_ofWord16, List.length_cons]
    omega

/-! ## Thirty-two bits -/

theorem words32Onto_eq : ∀ (bs : Bytes) (read : List UInt32), words32Onto bs read = read.reverse ++ words32 bs
  | [], read => by simp [words32, words32Onto]
  | [_], read => by simp [words32, words32Onto]
  | [_, _], read => by simp [words32, words32Onto]
  | [_, _, _], read => by simp [words32, words32Onto]
  | a :: b :: c :: d :: rest, read => by
    rw [words32, words32Onto, words32Onto, words32Onto_eq rest, words32Onto_eq rest [_]]
    simp

theorem words32_cons (a b c d : UInt8) (rest : Bytes) :
    words32 (a :: b :: c :: d :: rest) = UInt32.ofNat (leNat [a, b, c, d]) :: words32 rest := by
  rw [words32, words32Onto, words32Onto_eq]
  rfl

@[simp] theorem length_words32 : ∀ bs : Bytes, (words32 bs).length = bs.length / 4
  | [] => rfl
  | [_] => by simp [words32, words32Onto]
  | [_, _] => by simp [words32, words32Onto]
  | [_, _, _] => by simp [words32, words32Onto]
  | a :: b :: c :: d :: rest => by
    rw [words32_cons, List.length_cons, length_words32 rest]
    simp only [List.length_cons]
    omega

@[simp] theorem words32_le_append (n : Nat) (rest : Bytes) :
    words32 (le 4 n ++ rest) = UInt32.ofNat n :: words32 rest := by
  have h : leNat (le 4 n) = n % 2 ^ 32 := leNat_le 4 n
  simp only [le, List.cons_append, List.nil_append, words32_cons] at h ⊢
  rw [h, UInt32.ofNat_mod_size]

/-- **Long words are read as they were written**, in front of what follows. -/
theorem words32_flatMap_append (ns : List Nat) (rest : Bytes) :
    words32 (ns.flatMap (le 4) ++ rest) = ns.map UInt32.ofNat ++ words32 rest := by
  induction ns with
  | nil => rfl
  | cons n ns ih => rw [List.flatMap_cons, List.append_assoc, words32_le_append, ih, List.map_cons, List.cons_append]

theorem words32_flatMap_ofWord32 (vs : List UInt32) : words32 (vs.flatMap ofWord32) = vs := by
  have h := words32_flatMap_append (vs.map UInt32.toNat) []
  rw [List.flatMap_map, List.append_nil, List.map_map] at h
  have hid : UInt32.ofNat ∘ UInt32.toNat = id := funext fun v => UInt32.ofNat_toNat
  rw [hid, List.map_id] at h
  exact h.trans (List.append_nil vs)

@[simp] theorem length_flatMap_le (w : Nat) (ns : List Nat) : (ns.flatMap (le w)).length = w * ns.length := by
  induction ns with
  | nil => rfl
  | cons n ns ih => rw [List.flatMap_cons, List.length_append, ih, length_le, List.length_cons, Nat.mul_succ, Nat.add_comm]

@[simp] theorem length_flatMap_ofWord32 (vs : List UInt32) : (vs.flatMap ofWord32).length = 4 * vs.length := by
  have h := length_flatMap_le 4 (vs.map UInt32.toNat)
  rw [List.flatMap_map, List.length_map] at h
  exact h

/-! ## Stretches -/

theorem split?_append {n : Nat} {xs : Bytes} (h : xs.length = n) (ys : Bytes) : split? n (xs ++ ys) = some (xs, ys) := by
  subst h
  rw [split?, if_pos (by simp), List.take_left, List.drop_left]

/-- A string as long as two stretches together is two such stretches. -/
theorem exists_append {bs : Bytes} {m n : Nat} (h : bs.length = m + n) :
    ∃ xs ys, bs = xs ++ ys ∧ xs.length = m ∧ ys.length = n :=
  ⟨bs.take m, bs.drop m, (List.take_append_drop m bs).symm, by rw [List.length_take]; omega,
    by rw [List.length_drop]; omega⟩

theorem split?_eq_some {n : Nat} {bs xs ys : Bytes} (h : split? n bs = some (xs, ys)) :
    xs.length = n ∧ bs = xs ++ ys := by
  unfold split? at h
  split at h
  · rename_i hn
    simp only [Option.some.injEq, Prod.mk.injEq] at h
    obtain ⟨rfl, rfl⟩ := h
    exact ⟨by simp [hn], (List.take_append_drop n bs).symm⟩
  · cases h

theorem split?_append_of_some {n : Nat} {bs xs ys : Bytes} (h : split? n bs = some (xs, ys)) (more : Bytes) :
    split? n (bs ++ more) = some (xs, ys ++ more) := by
  obtain ⟨hlen, rfl⟩ := split?_eq_some h
  rw [List.append_assoc, split?_append hlen]

end Bytes
end BitmapWorks
