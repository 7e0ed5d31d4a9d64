import BitmapWorks.Proofs.Text.Numbers
import BitmapWorks.Proofs.Text.Whole
/-!
# Reread — the text of values holds these values and no other numbers

The digits of a number spell it (`decimal_digits`).  In a text of values each of them is a run of digits of its own, since
neither what stands before all values nor what stands between and behind them is a digit or a minus sign
(`written_render`), so scanning the text of a bitmap finds its values (`values_scan_bytes`).
-/
namespace BitmapWorks
namespace Text

open Scanner (isDigit)

/-- **The numbers that a scan finds are those that stand in the text.** -/
theorem mem_values_scan {bs : Bytes} :
    (scan bs).valid = true ∧ ∀ v : UInt32, v ∈ (scan bs).values ↔ Written bs v.toNat := by
  obtain ⟨text, run, heq, htracks⟩ := Scanner.tracks_start.feedAll bs
  have hnothing : ∀ b ∈ ([] : Bytes), isDigit b = false := nofun
  obtain ⟨hvalid, hvalues⟩ := htracks.terminate hnothing
  have hbs : text ++ (run ++ []) = bs := by simpa using heq
  exact ⟨hvalid, hbs ▸ hvalues⟩

/-! ## Digits -/

theorem toNat_digit {d : Nat} (h : d < 10) : (UInt8.ofNat (48 + d)).toNat = 48 + d := by
  have hsmall : 48 + d < 256 := by omega
  exact UInt8.toNat_ofNat_of_lt' hsmall

theorem isDigit_digit {d : Nat} (h : d < 10) : isDigit (UInt8.ofNat (48 + d)) = true := by
  have hd := toNat_digit h
  simp only [isDigit, UInt8.le_iff_toNat_le, hd, Bool.and_eq_true, decide_eq_true_eq]
  exact ⟨Nat.le_add_right 48 d, by show 48 + d ≤ 57; omega⟩

theorem isDigit_of_mem_digits {n : Nat} {b : UInt8} (h : b ∈ digits n) : isDigit b = true := by
  induction n using Nat.strongRecOn with
  | ind n ih =>
    by_cases hn : n < 10
    · rw [digits_of_lt hn, List.mem_singleton] at h
      rw [h]
      exact isDigit_digit hn
    · rw [digits_of_le (Nat.not_lt.1 hn), List.mem_append, List.mem_singleton] at h
      rcases h with h | rfl
      · exact ih (n / 10) (by omega) h
      · exact isDigit_digit (Nat.mod_lt n (by decide))

theorem digits_ne_nil (n : Nat) : digits n ≠ [] := by
  by_cases hn : n < 10
  · simp [digits_of_lt hn]
  · simp [digits_of_le (Nat.not_lt.1 hn)]

theorem decimal_digits (n : Nat) : decimal (digits n) = n := by
  induction n using Nat.strongRecOn with
  | ind n ih =>
    by_cases hn : n < 10
    · have hd := toNat_digit hn
      rw [digits_of_lt hn]
      simp only [decimal, List.foldl_cons, List.foldl_nil, hd]
      omega
    · have hd := toNat_digit (Nat.mod_lt n (show 0 < 10 by decide))
      rw [digits_of_le (Nat.not_lt.1 hn), decimal_concat, ih (n / 10) (by omega), hd]
      omega

/-! ## Texts of values -/

def isMark (b : UInt8) : Bool := !isDigit b && b != 45

theorem isMark_separator (style : TextStyle) : isMark (separator style) = true := by cases style <;> decide

theorem isMark_of_mem_opening {style : TextStyle} {b : UInt8} (h : b ∈ opening style) : isMark b = true := by
  cases style <;> simp [opening] at h
  subst h
  decide

theorem isMark_of_mem_closing {style : TextStyle} {b : UInt8} (h : b ∈ closing style) : isMark b = true := by
  cases style <;> simp [closing] at h
  subst h
  decide

theorem isDigit_of_isMark {b : UInt8} (h : isMark b = true) : isDigit b = false := by
  simp only [isMark, Bool.and_eq_true, Bool.not_eq_true'] at h
  exact h.1

theorem ne_minus_of_isMark {b : UInt8} (h : isMark b = true) : b ≠ 45 := by
  simp only [isMark, Bool.and_eq_true, bne_iff_ne] at h
  exact h.2

theorem written_digits {text rest : Bytes} (htext : ∀ b ∈ text.getLast?, isMark b = true)
    (hrest : ∀ b ∈ rest, isMark b = true) (v n : Nat) :
    Written (text ++ (digits v ++ rest)) n ↔ Written text n ∨ v = n := by
  have hboundary : ∀ b ∈ text.getLast?, isDigit b = false := fun b hb => isDigit_of_isMark (htext b hb)
  have hbehind : ∀ b ∈ rest, isDigit b = false := fun b hb => isDigit_of_isMark (hrest b hb)
  have hunsigned : text.getLast? ≠ some 45 := fun h => ne_minus_of_isMark (htext 45 h) rfl
  rw [written_append hboundary (fun b hb => isDigit_of_mem_digits hb) hbehind, decimal_digits]
  simp [digits_ne_nil, hunsigned]

theorem not_written_of_marks {text : Bytes} (h : ∀ b ∈ text, isMark b = true) (n : Nat) : ¬ Written text n := by
  rintro ⟨before, run, after, rfl, hnumeral, -⟩
  obtain ⟨b, hb⟩ := List.exists_mem_of_ne_nil run hnumeral.notEmpty
  have hmark := isDigit_of_isMark (h b (by simp [hb]))
  rw [hnumeral.digits b hb] at hmark
  cases hmark

theorem written_joined (style : TextStyle) {behind : Bytes} (hbehind : ∀ b ∈ behind, isMark b = true) (n : Nat) :
    ∀ (values : List UInt32) {text : Bytes}, values ≠ [] → (∀ b ∈ text.getLast?, isMark b = true) →
      (Written (text ++ (joined style values ++ behind)) n ↔ Written text n ∨ ∃ v ∈ values, v.toNat = n)
  | [], _, hne, _ => absurd rfl hne
  | [v], text, _, htext => by
    rw [joined, written_digits htext hbehind]
    simp
  | v :: w :: values, text, _, htext => by
    -- the separator ends the text in front of the second value
    have hsep : ∀ b ∈ [separator style], isMark b = true := by
      intro b hb
      rw [List.mem_singleton.1 hb]
      exact isMark_separator style
    have hlast : ∀ b ∈ (text ++ (digits v.toNat ++ [separator style])).getLast?, isMark b = true := by
      intro b hb
      simp at hb
      exact hsep b (by simp [hb])
    have hcut : text ++ (joined style (v :: w :: values) ++ behind)
        = (text ++ (digits v.toNat ++ [separator style])) ++ (joined style (w :: values) ++ behind) := by
      simp [joined]
    rw [hcut, written_joined style hbehind n (w :: values) (by simp) hlast, written_digits htext hsep]
    simp [or_assoc]

/-- **The numbers in the text of values are these values.** -/
theorem written_render (style : TextStyle) (values : List UInt32) (n : Nat) :
    Written (render style values) n ↔ ∃ v ∈ values, v.toNat = n := by
  have hopening : ∀ b ∈ (opening style).getLast?, isMark b = true :=
    fun b hb => isMark_of_mem_opening (List.mem_of_getLast? hb)
  have hmarks : ∀ b ∈ opening style, isMark b = true := fun b hb => isMark_of_mem_opening hb
  have hnone := not_written_of_marks hmarks n
  rw [render, List.append_assoc]
  by_cases hne : values = []
  · subst hne
    have hmarks : ∀ b ∈ opening style ++ closing style, isMark b = true := by
      intro b hb
      rcases List.mem_append.1 hb with hb | hb
      · exact isMark_of_mem_opening hb
      · exact isMark_of_mem_closing hb
    simpa [joined] using not_written_of_marks hmarks n
  · rw [written_joined style (fun b hb => isMark_of_mem_closing hb) n values hne hopening]
    simp [hnone]

/-- **Scanning the text of a bitmap finds its values.** -/
theorem values_scan_bytes {b : Bitmap} (hb : b.valid = true) (style : TextStyle) :
    (scan (bytes b style)).values = b.values := by
  obtain ⟨hvalid, hvalues⟩ := @mem_values_scan (bytes b style)
  refine Bitmap.values_ext hvalid hb fun v => ?_
  rw [hvalues, bytes_eq_render, written_render]
  simp [UInt32.toNat_inj]

end Text
end BitmapWorks
