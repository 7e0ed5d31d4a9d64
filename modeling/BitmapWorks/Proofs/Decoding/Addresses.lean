import BitmapWorks.Proofs.Decoding.Faults
import BitmapWorks.Proofs.Decoding.RoundTrip
import BitmapWorks.Proofs.Native.Watched
/-!
# Addresses — frozen bytes wherever they lie

Bytes in a frozen format are read through a copy or in place.  A copy starts on the boundary at whatever address memory
is given for it (`Window.copy_spec`), and a caller's bytes start where they start: the native format refuses them off
its boundary, before it looks at anything else (`Frozen.check_eq`).  What is left is one verdict on the bytes, which all
readers give at all addresses (`readers_agree`).
-/
namespace BitmapWorks
namespace Frozen

def verdict (bs : Bytes) (f : Format) : Except Fault Bitmap := (check 0 bs f).map fun _ => view bs f

/-- **The address is looked at first**, and only in the native format. -/
theorem check_eq (address : Nat) (bs : Bytes) (f : Format) : check address bs f
    = if f = .frozenNative ∧ address % 32 ≠ 0 then .error (.misaligned 32) else check 0 bs f := by
  by_cases h : f = .frozenNative ∧ address % 32 ≠ 0
  · obtain ⟨rfl, haddress⟩ := h
    have hoff : Window.isAligned address Format.frozenAlignment = false := by
      unfold Window.isAligned Format.frozenAlignment
      simp [haddress]
    rw [if_pos ⟨rfl, haddress⟩, check, hoff]
    rfl
  · rw [if_neg h]
    cases f with
    | frozenNative => exact check_of_aligned (Classical.not_not.1 fun haddress => h ⟨rfl, haddress⟩) bs .frozenNative
    | tagged => rfl
    | portable => rfl
    | frozenPortable => rfl

theorem check_zero_ne_misaligned (bs : Bytes) (f : Format) (n : Nat) : check 0 bs f ≠ .error (.misaligned n) := by
  intro h
  cases f with
  | tagged => cases h
  | portable => cases h
  | frozenNative =>
    rw [check, if_neg (by decide)] at h
    cases hfits : Native.fits bs with
    | ok => rw [hfits] at h; cases h
    | error why => rw [hfits] at h; cases why <;> cases h
  | frozenPortable =>
    rw [check] at h
    split at h <;> cases h

theorem verdict_ne_misaligned (bs : Bytes) (f : Format) (n : Nat) : verdict bs f ≠ .error (.misaligned n) :=
  Decoding.map_ne_error _ (check_zero_ne_misaligned bs f n)

/-- **A caller's bytes in place**: off the boundary, or the verdict on them. -/
theorem alias?_eq {bs : Bytes} (hbs : bs ≠ []) {f : Format} (hf : f.isFrozen = true) (address : Nat) : alias? address bs f
    = if f = .frozenNative ∧ address % 32 ≠ 0 then .error (.misaligned 32) else (verdict bs f).map some := by
  rw [alias?, if_neg (by rw [hf]; decide), if_neg (mt List.isEmpty_iff.1 hbs), check_eq]
  split
  · rfl
  · unfold verdict
    cases check 0 bs f with
    | ok => rfl
    | error fault => rfl

theorem alias?_eq_misaligned_iff {bs : Bytes} (hbs : bs ≠ []) {f : Format} (hf : f.isFrozen = true) (address : Nat) :
    alias? address bs f = .error (.misaligned 32) ↔ f = .frozenNative ∧ address % 32 ≠ 0 := by
  rw [alias?_eq hbs hf]
  by_cases hoff : f = .frozenNative ∧ address % 32 ≠ 0
  · exact iff_of_true (if_pos hoff) hoff
  · rw [if_neg hoff]
    exact iff_of_false (Decoding.map_ne_error some (verdict_ne_misaligned bs f 32)) hoff

/-- **Copied bytes**: the verdict on them, held in a window. -/
theorem copy_eq_verdict {base : Nat} {bs : Bytes} {w : Window} (hw : Window.copy base bs 32 = .ok w)
    (hholds : w.Holds base bs 32) (f : Format) : copy base bs f = (verdict bs f).map fun b => ⟨w, f, b⟩ := by
  rw [copy_of_holds hw hholds, verdict]
  cases check 0 bs f with
  | ok => rfl
  | error fault => rfl

end Frozen

namespace Decoding

/-- **All readers of frozen bytes agree.**  Wherever memory is given for it, a copy lies inside its memory, starts on the
boundary and holds the bytes; one verdict, which is never that a boundary is missed, is what all readers of the copy
give, and what the bytes give in place at every address, except that the native format refuses them off its boundary.

Bytes past the end count as zero here (`Bytes.takePadded`), which is a convention: an engine reads there what it finds.
So the bitmap of accepted portable bytes is the engine's where `Portable.inside` holds of every place that the view
looks at, and forged starts may lead elsewhere; whether the bytes are accepted does not depend on it. -/
theorem readers_agree {bs : Bytes} (hbs : bs ≠ []) {f : Format} (hf : f.isFrozen = true) :
    ∃ verdict : Except Fault Bitmap, (∀ n, verdict ≠ .error (.misaligned n)) ∧
      (∀ base, bs.length + 31 < Window.memoryLimit →
        ∃ w, Window.copy base bs 32 = .ok w ∧ w.Holds base bs 32 ∧
          Frozen.copy base bs f = verdict.map (fun b => ⟨w, f, b⟩) ∧
          decode base bs f = verdict.map (fun b => .frozen ⟨w, f, b⟩) ∧ decodeOwned base bs f = verdict) ∧
      (∀ base, Window.memoryLimit ≤ bs.length + 31 → ∃ n, Window.copy base bs 32 = .error (.allocation n) ∧
        Frozen.copy base bs f = .error (.allocation n) ∧ decode base bs f = .error (.allocation n) ∧
          decodeOwned base bs f = .error (.allocation n)) ∧
      ∀ address, (Frozen.alias? address bs f = .error (.misaligned 32) ↔ f = .frozenNative ∧ address % 32 ≠ 0) ∧
        (¬ (f = .frozenNative ∧ address % 32 ≠ 0) → Frozen.alias? address bs f = verdict.map some) := by
  refine ⟨Frozen.verdict bs f, Frozen.verdict_ne_misaligned bs f, fun base hroom => ?_, fun base hfull => ?_,
    fun address => ?_⟩
  · obtain ⟨w, hw, hholds⟩ := Window.copy_spec base Frozen.isPowerOfTwo_frozenAlignment hroom
    have hcopy := Frozen.copy_eq_verdict hw hholds f
    obtain ⟨hdecode, howned⟩ := decode_of_isFrozen hbs hf base
    refine ⟨w, hw, hholds, hcopy, ?_, ?_⟩
    · rw [hdecode, hcopy]
      cases Frozen.verdict bs f <;> rfl
    · rw [howned, hcopy]
      cases Frozen.verdict bs f <;> rfl
  · obtain ⟨n, hn⟩ := Window.copy_error base Frozen.isPowerOfTwo_frozenAlignment hfull
    have hcopy : Frozen.copy base bs f = .error (.allocation n) := Frozen.copy_of_error hn f
    obtain ⟨hdecode, howned⟩ := decode_of_isFrozen hbs hf base
    refine ⟨n, hn, hcopy, ?_, ?_⟩
    · rw [hdecode, hcopy]
      rfl
    · rw [howned, hcopy]
      rfl
  · refine ⟨Frozen.alias?_eq_misaligned_iff hbs hf address, fun hon => ?_⟩
    rw [Frozen.alias?_eq hbs hf, if_neg hon]

theorem readers_agree_pair : Native.pairBytes ≠ [] ∧ Format.frozenNative.isFrozen = true ∧
    (∃ w, Window.copy 100 Native.pairBytes 32 = .ok w ∧ w.Holds 100 Native.pairBytes 32) ∧
    (∃ b : Bitmap, b.values = [458753, 458757] ∧ decodeOwned 100 Native.pairBytes .frozenNative = .ok b ∧
      Frozen.alias? 64 Native.pairBytes .frozenNative = .ok (some b)) ∧
    Frozen.alias? 65 Native.pairBytes .frozenNative = .error (.misaligned 32) := by
  have hne : Native.pairBytes ≠ [] := by decide
  obtain ⟨verdict, -, hcopies, -, halias⟩ := readers_agree hne (f := .frozenNative) rfl
  obtain ⟨w, hw, hholds, -, -, howned⟩ := hcopies 100 (by decide)
  have hread : decodeOwned 100 Native.pairBytes .frozenNative = .ok ⟨[(7, .array #[1, 5])]⟩ := rfl
  obtain rfl : verdict = .ok ⟨[(7, .array #[1, 5])]⟩ := howned.symm.trans hread
  have hon := (halias 64).2 (by decide)
  have hoff := (halias 65).1.2 ⟨rfl, by decide⟩
  exact ⟨hne, rfl, ⟨w, hw, hholds⟩, ⟨_, by decide, hread, hon⟩, hoff⟩

end Decoding
end BitmapWorks
