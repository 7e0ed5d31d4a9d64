import BitmapWorks.Decoding
/-!
# Faults — how decoding fails

Decoding fails because of the bytes or because there is no memory, and never because a rule of the library is broken
(`Decoding.decode_ne_internal`).
-/
namespace BitmapWorks

namespace Window

theorem zeroed_ne_internal (base length alignment : Nat) (what : String) :
    zeroed base length alignment ≠ .error (.internal what) := by
  unfold zeroed
  split
  · nofun
  · dsimp only
    split
    · nofun
    · split <;> nofun

end Window

namespace Frozen

theorem check_ne_internal (address : Nat) (bytes : Bytes) (f : Format) (what : String) :
    check address bytes f ≠ .error (.internal what) := by
  cases f with
  | frozenNative =>
    unfold check
    dsimp only
    split
    · nofun
    · cases Native.fits bytes with
      | error misfit => cases misfit <;> nofun
      | ok => nofun
  | frozenPortable =>
    unfold check
    dsimp only
    split <;> nofun
  | _ => nofun

theorem copy_ne_internal (base : Nat) (bytes : Bytes) (f : Format) (what : String) :
    copy base bytes f ≠ .error (.internal what) := by
  have hzeroed := Window.zeroed_ne_internal base bytes.length Format.frozenAlignment what
  intro h
  unfold copy Window.copy at h
  cases hw : Window.zeroed base bytes.length Format.frozenAlignment with
  | error fault =>
    rw [hw] at h hzeroed
    obtain rfl : fault = .internal what := Except.error.inj (α := Frozen) h
    exact hzeroed rfl
  | ok w =>
    have hcheck := check_ne_internal (w.write bytes).start (w.write bytes).visible f what
    rw [hw] at h
    have hwindow : ofWindow (w.write bytes) f = .error (.internal what) := h
    unfold ofWindow at hwindow
    cases hchecked : check (w.write bytes).start (w.write bytes).visible f with
    | error fault =>
      rw [hchecked] at hwindow hcheck
      obtain rfl : fault = .internal what := Except.error.inj (α := Frozen) hwindow
      exact hcheck rfl
    | ok =>
      rw [hchecked] at hwindow
      cases hwindow

end Frozen

namespace Decoding

theorem map_ne_error {α β : Type} (f : α → β) {answer : Except Fault α} {fault : Fault} (h : answer ≠ .error fault) :
    f <$> answer ≠ .error fault := by
  cases answer with
  | error fault' => exact fun heq => h (congrArg _ (Except.error.inj heq))
  | ok value => nofun

theorem portable_ne_internal (bytes : Bytes) (what : String) : portable bytes ≠ .error (.internal what) := by
  unfold portable
  cases Portable.decode? bytes <;> nofun

theorem tagged_ne_internal (bytes : Bytes) (what : String) : tagged bytes ≠ .error (.internal what) := by
  cases bytes with
  | nil => nofun
  | cons tag rest =>
    unfold tagged
    dsimp only
    split
    · split
      · nofun
      · split <;> nofun
    · split
      · exact portable_ne_internal rest what
      · nofun

/-- **Decoding never finds a rule of the library broken.** -/
theorem decode_ne_internal (base : Nat) (bytes : Bytes) (f : Format) (what : String) :
    decode base bytes f ≠ .error (.internal what) := by
  unfold decode
  split
  · nofun
  cases f with
  | portable => exact map_ne_error _ (portable_ne_internal bytes what)
  | tagged => exact map_ne_error _ (tagged_ne_internal bytes what)
  | frozenNative => exact map_ne_error _ (Frozen.copy_ne_internal base bytes .frozenNative what)
  | frozenPortable => exact map_ne_error _ (Frozen.copy_ne_internal base bytes .frozenPortable what)

end Decoding

end BitmapWorks
