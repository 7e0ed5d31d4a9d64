import BitmapWorks.Frozen
/-!
# Copy — windows that show what was written, and frozen copies

Memory that is given shows its zeros from a boundary on (`zeroed_eq`), and writing shows (`visible_write`).  A copy of
bytes therefore shows exactly these bytes on the boundary that was asked for, or there is no memory for them
(`copy_spec`).  The address of a frozen copy then never matters: it is made when the bytes alone pass the check
(`Frozen.copy_eq`).
-/
namespace BitmapWorks
namespace Window

theorem zeroed_eq {base length alignment : Nat} (ha : isPowerOfTwo alignment = true)
    (h : length + (alignment - 1) < memoryLimit) :
    zeroed base length alignment
      = .ok ⟨base, List.replicate (length + (alignment - 1)) 0, padding base alignment, length, alignment⟩ := by
  have hsize : ¬ sizeLimit ≤ length + (alignment - 1) := by
    unfold memoryLimit at h
    unfold sizeLimit
    omega
  rw [zeroed, if_neg (by rw [ha]; exact Bool.noConfusion)]
  simp only [if_neg hsize, if_neg (Nat.not_le.2 h)]

theorem zeroed_error (base : Nat) {length alignment : Nat} (ha : isPowerOfTwo alignment = true)
    (h : memoryLimit ≤ length + (alignment - 1)) : ∃ n, zeroed base length alignment = .error (.allocation n) := by
  rw [zeroed, if_neg (by rw [ha]; exact Bool.noConfusion)]
  by_cases hsize : sizeLimit ≤ length + (alignment - 1)
  · exact ⟨_, if_pos hsize⟩
  · exact ⟨_, (if_neg hsize).trans (if_pos h)⟩

theorem pos_of_isPowerOfTwo {n : Nat} (h : isPowerOfTwo n = true) : 0 < n := by
  unfold isPowerOfTwo at h
  rw [Bool.and_eq_true, decide_eq_true_eq] at h
  exact Nat.pos_of_ne_zero h.1

/-- **Writing shows what was written and leaves what it does not reach.** -/
theorem visible_write {w : Window} {bs : Bytes} (hin : w.offset + w.length ≤ w.storage.length)
    (hle : bs.length ≤ w.length) : (w.write bs).visible = bs ++ w.visible.drop bs.length := by
  have htake : (w.storage.take w.offset).length = w.offset := List.length_take_of_le (by omega)
  show ((w.storage.take w.offset ++ bs ++ w.storage.drop (w.offset + bs.length)).drop w.offset).take w.length
    = bs ++ ((w.storage.drop w.offset).take w.length).drop bs.length
  rw [List.append_assoc, List.drop_append_of_le_length (Nat.le_of_eq htake.symm),
    List.drop_of_length_le (Nat.le_of_eq htake), List.nil_append, List.take_append, List.take_of_length_le hle,
    List.drop_take, List.drop_drop]

theorem length_visible {w : Window} (hin : w.offset + w.length ≤ w.storage.length) : w.visible.length = w.length := by
  unfold visible
  rw [List.length_take, List.length_drop]
  omega

theorem visible_write_all {w : Window} {bs : Bytes} (hin : w.offset + w.length ≤ w.storage.length)
    (hlen : bs.length = w.length) : (w.write bs).visible = bs := by
  have hv := length_visible hin
  rw [visible_write hin (Nat.le_of_eq hlen), List.drop_of_length_le (by omega), List.append_nil]

theorem length_write {w : Window} {bs : Bytes} (hin : w.offset + w.length ≤ w.storage.length)
    (hle : bs.length ≤ w.length) : (w.write bs).storage.length = w.storage.length := by
  show (w.storage.take w.offset ++ bs ++ w.storage.drop (w.offset + bs.length)).length = w.storage.length
  rw [List.length_append, List.length_append, List.length_take, List.length_drop]
  omega

theorem truncate_of_le {w : Window} {n : Nat} (h : w.length ≤ n) : w.truncate n = w := by
  rw [truncate, Nat.min_eq_left h]

theorem zeroed_spec (base : Nat) {length alignment : Nat} (ha : isPowerOfTwo alignment = true)
    (h : length + (alignment - 1) < memoryLimit) :
    ∃ w, zeroed base length alignment = .ok w ∧ w.offset + w.length ≤ w.storage.length ∧ w.length = length ∧
      w.start % alignment = 0 := by
  have hpos := pos_of_isPowerOfTwo ha
  have hpad : padding base alignment < alignment := padding_lt hpos
  refine ⟨_, zeroed_eq ha h, ?_, rfl, add_padding_mod hpos⟩
  show padding base alignment + length ≤ (List.replicate (length + (alignment - 1)) (0 : UInt8)).length
  rw [List.length_replicate]
  omega

theorem base_of_zeroed {base length alignment : Nat} {w : Window} (h : zeroed base length alignment = .ok w) :
    w.base = base := by
  unfold zeroed at h
  dsimp only at h
  split at h
  · cases h
  · split at h
    · cases h
    · split at h
      · cases h
      · cases h
        rfl

/-- A window that lies inside the storage at `base`, starts on a boundary and shows these bytes. -/
structure Holds (w : Window) (base : Nat) (bs : Bytes) (alignment : Nat) : Prop where
  base_eq : w.base = base
  inside : w.offset + w.length ≤ w.storage.length
  boundary : w.start % alignment = 0
  shows : w.visible = bs

/-- **A copy holds the bytes**, at whatever address the memory for it is given. -/
theorem copy_spec (base : Nat) {bs : Bytes} {alignment : Nat} (ha : isPowerOfTwo alignment = true)
    (h : bs.length + (alignment - 1) < memoryLimit) :
    ∃ w, copy base bs alignment = .ok w ∧ w.Holds base bs alignment := by
  obtain ⟨w, hw, hin, hlen, hstart⟩ := zeroed_spec base ha h
  have hbase : w.base = base := base_of_zeroed hw
  refine ⟨w.write bs, ?_, hbase, ?_, hstart, visible_write_all hin hlen.symm⟩
  · unfold copy
    rw [hw]
    rfl
  · rw [length_write hin (Nat.le_of_eq hlen.symm)]
    exact hin

theorem copy_error (base : Nat) {bs : Bytes} {alignment : Nat} (ha : isPowerOfTwo alignment = true)
    (h : memoryLimit ≤ bs.length + (alignment - 1)) : ∃ n, copy base bs alignment = .error (.allocation n) := by
  obtain ⟨n, hn⟩ := zeroed_error base ha h
  refine ⟨n, ?_⟩
  unfold copy
  rw [hn]
  rfl

end Window

namespace Frozen

/-- On the boundary of the frozen formats, the check looks at the bytes only. -/
theorem check_of_aligned {address : Nat} (h : address % Format.frozenAlignment = 0) (bs : Bytes) (f : Format) :
    check address bs f = check 0 bs f := by
  have halign : ∀ a, a % Format.frozenAlignment = 0 → Window.isAligned a Format.frozenAlignment = true := fun a ha => by
    unfold Window.isAligned
    rw [decide_eq_true ha, Bool.or_true]
  cases f with
  | frozenNative => simp only [check, halign address h, halign 0 rfl]
  | _ => rfl

theorem isPowerOfTwo_frozenAlignment : Window.isPowerOfTwo Format.frozenAlignment = true := by decide

theorem copy_of_holds {base : Nat} {bs : Bytes} {w : Window} (hw : Window.copy base bs Format.frozenAlignment = .ok w)
    (h : w.Holds base bs Format.frozenAlignment) (f : Format) :
    copy base bs f = (check 0 bs f).map fun _ => ⟨w, f, view bs f⟩ := by
  unfold copy ofWindow
  rw [hw, ← check_of_aligned h.boundary bs f]
  show (do check w.start w.visible f; return (⟨w, f, view w.visible f⟩ : Frozen)) = _
  rw [h.shows]
  cases check w.start bs f with
  | error fault => rfl
  | ok u => rfl

/-- **A frozen copy is made when there is memory for it and the bytes pass the check**, and shows what the bytes show. -/
theorem copy_eq (base : Nat) {bs : Bytes} (f : Format) (h : bs.length + 31 < Window.memoryLimit) :
    ∃ w, w.visible = bs ∧ copy base bs f = (check 0 bs f).map fun _ => ⟨w, f, view bs f⟩ := by
  obtain ⟨w, hw, hholds⟩ := Window.copy_spec base isPowerOfTwo_frozenAlignment h
  exact ⟨w, hholds.shows, copy_of_holds hw hholds f⟩

theorem copy_of_error {base : Nat} {bs : Bytes} {fault : Fault}
    (h : Window.copy base bs Format.frozenAlignment = .error fault) (f : Format) : copy base bs f = .error fault := by
  unfold copy
  rw [h]
  rfl

theorem copy_error (base : Nat) {bs : Bytes} (f : Format) (h : Window.memoryLimit ≤ bs.length + 31) :
    ∃ n, copy base bs f = .error (.allocation n) := by
  obtain ⟨n, hn⟩ := Window.copy_error base isPowerOfTwo_frozenAlignment h
  exact ⟨n, copy_of_error hn f⟩

end Frozen
end BitmapWorks
