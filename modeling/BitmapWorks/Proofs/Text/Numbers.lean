import BitmapWorks.Proofs.Bitmap.Contents
import BitmapWorks.Text.Scan
import Mathlib.Tactic.Common
/-!
# Numbers — the scanner finds the numbers in a text

A number stands in a text where a maximal run of digits spells it and no minus sign stands right before the run
(`Written`).  Between two bytes the scanner has everything in front of the last run of digits in its batches, and knows of
that run its value, as far as it matters, and the sign in front of it (`Scanner.Tracks`).  Batches make no difference:
what counts is the bitmap that all numbers so far add up to (`Scanner.Alike`).
-/
namespace BitmapWorks
namespace Text

open Scanner (isDigit)

/-! ## Numbers in a text -/

def decimal (digits : Bytes) : Nat := digits.foldl (fun n b => n * 10 + (b.toNat - 48)) 0

/-- A maximal run of digits in a text, without a minus sign right before it. -/
structure Numeral (before digits after : Bytes) : Prop where
  notEmpty : digits ≠ []
  digits : ∀ b ∈ digits, isDigit b = true
  leftEnd : ∀ b ∈ before.getLast?, isDigit b = false
  unsigned : before.getLast? ≠ some 45
  rightEnd : ∀ b ∈ after.head?, isDigit b = false

def Written (bs : Bytes) (n : Nat) : Prop :=
  ∃ before digits after, bs = before ++ (digits ++ after) ∧ Numeral before digits after ∧ decimal digits = n

theorem decimal_concat (digits : Bytes) (b : UInt8) : decimal (digits ++ [b]) = decimal digits * 10 + (b.toNat - 48) :=
  List.foldl_append ..

theorem not_written_nil (n : Nat) : ¬ Written [] n := by
  rintro ⟨before, digits, after, heq, hnumeral, -⟩
  obtain ⟨-, hrest⟩ := List.append_eq_nil_iff.1 heq.symm
  exact hnumeral.notEmpty (List.append_eq_nil_iff.1 hrest).1

/-- A run of digits that ends where a text does not end in a digit has no digits. -/
theorem eq_nil_of_boundary {text front run : Bytes} (htext : ∀ b ∈ text.getLast?, isDigit b = false)
    (heq : text = front ++ run) (hrun : ∀ b ∈ run, isDigit b = true) : run = [] := by
  by_contra hne
  have hlast := List.getLast?_eq_some_getLast hne
  have hdigit := hrun _ (List.getLast_mem hne)
  rw [htext _ (by rw [heq, List.getLast?_append, hlast]; rfl)] at hdigit
  cases hdigit

theorem takeWhile_run {run rest : Bytes} (hrun : ∀ b ∈ run, isDigit b = true)
    (hrest : ∀ b ∈ rest.head?, isDigit b = false) : (run ++ rest).takeWhile isDigit = run := by
  rw [List.takeWhile_append_of_pos hrun]
  cases rest with
  | nil => exact List.append_nil run
  | cons b rest => rw [List.takeWhile_cons_of_neg (by simp [hrest b rfl]), List.append_nil]

/-- **The last run of digits is a number of its own**, in front of bytes that are no digits. -/
theorem written_append {text run rest : Bytes} (htext : ∀ b ∈ text.getLast?, isDigit b = false)
    (hrun : ∀ b ∈ run, isDigit b = true) (hrest : ∀ b ∈ rest, isDigit b = false) (n : Nat) :
    Written (text ++ (run ++ rest)) n ↔
      Written text n ∨ (run ≠ [] ∧ text.getLast? ≠ some 45 ∧ decimal run = n) := by
  have hhead : ∀ b ∈ rest.head?, isDigit b = false := fun b hb => hrest b (List.mem_of_head? hb)
  constructor
  · rintro ⟨before, digits, after, heq, hnumeral, rfl⟩
    -- a run that starts with the last one is the last one
    have hlast : before = text → run ++ rest = digits ++ after →
        run ≠ [] ∧ text.getLast? ≠ some 45 ∧ decimal run = decimal digits := by
      intro hbefore hruns
      have hsame := congrArg (List.takeWhile isDigit) hruns
      rw [takeWhile_run hrun hhead, takeWhile_run hnumeral.digits hnumeral.rightEnd] at hsame
      exact ⟨hsame ▸ hnumeral.notEmpty, hbefore ▸ hnumeral.unsigned, congrArg decimal hsame⟩
    rcases List.append_eq_append_iff.1 heq with ⟨gap, hbefore, hruns⟩ | ⟨gap, htext', hruns⟩
    · rcases List.append_eq_append_iff.1 hruns with ⟨gap', hgap, hrest'⟩ | ⟨gap', hrun', hruns'⟩
      · have hdigit := hrest (digits.head hnumeral.notEmpty) (by rw [hrest']; simp)
        rw [hnumeral.digits _ (List.head_mem _)] at hdigit
        cases hdigit
      · obtain rfl := eq_nil_of_boundary hnumeral.leftEnd hbefore fun b hb => hrun b (by rw [hrun']; simp [hb])
        exact .inr (hlast (by simpa using hbefore) (by simpa using hruns))
    · rcases List.append_eq_append_iff.1 hruns with ⟨gap', hgap, hafter⟩ | ⟨gap', hdigits, hruns'⟩
      · refine .inl ⟨before, digits, gap', by rw [htext', hgap], ⟨hnumeral.notEmpty, hnumeral.digits,
          hnumeral.leftEnd, hnumeral.unsigned, fun b hb => ?_⟩, rfl⟩
        refine hnumeral.rightEnd b ?_
        rw [hafter, List.head?_append]
        simp [Option.mem_def.1 hb]
      · obtain rfl := eq_nil_of_boundary htext htext' fun b hb => hnumeral.digits b (by rw [hdigits]; simp [hb])
        exact .inr (hlast (by simpa using htext'.symm) (by simpa using hruns.symm))
  · rintro (⟨before, digits, after, rfl, hnumeral, hvalue⟩ | ⟨hne, hsign, hvalue⟩)
    · refine ⟨before, digits, after ++ (run ++ rest), by simp, ⟨hnumeral.notEmpty, hnumeral.digits, hnumeral.leftEnd,
        hnumeral.unsigned, fun b hb => ?_⟩, hvalue⟩
      cases after with
      | nil =>
        rw [List.append_nil] at htext
        exact absurd (eq_nil_of_boundary htext rfl hnumeral.digits) hnumeral.notEmpty
      | cons a after => exact hnumeral.rightEnd b hb
    · exact ⟨text, run, rest, rfl, ⟨hne, hrun, htext, hsign, hhead⟩, hvalue⟩

/-! ## Batches -/

namespace Scanner

def total (s : Scanner) : Bitmap := s.found.addMany s.batch.toList

/-- Whether scanners differ at most in how the numbers so far are divided between the batch and the bitmap. -/
structure Alike (s t : Scanner) : Prop where
  number : s.number = t.number
  inNumber : s.inNumber = t.inNumber
  negative : s.negative = t.negative
  total : s.total = t.total

theorem total_flush (s : Scanner) : s.flush.total = s.total := rfl

theorem total_collect (s : Scanner) (v : UInt32) : (s.collect v).total = s.total.add v := by
  have hpush : ({ s with batch := s.batch.push v } : Scanner).total = s.total.add v := by
    simp [total, Bitmap.addMany, List.foldl_append]
  unfold collect
  dsimp only
  split
  · rw [total_flush, hpush]
  · exact hpush

/-- **Ending a number adds it to all numbers so far**, unless it is negative or too large. -/
theorem total_terminate (s : Scanner) :
    s.terminate.total = if s.inNumber = true ∧ s.negative = false ∧ s.number < tooLarge
      then s.total.add (UInt32.ofNat s.number) else s.total := by
  unfold terminate
  split <;> rename_i h
  · rw [if_pos (by simpa [and_assoc] using h)]
    exact total_collect s _
  · rw [if_neg (by simpa [and_assoc] using h)]
    rfl

theorem Alike.terminate {s t : Scanner} (h : s.Alike t) : s.terminate.Alike t.terminate := by
  refine ⟨rfl, rfl, rfl, ?_⟩
  rw [total_terminate, total_terminate, h.number, h.inNumber, h.negative, h.total]

theorem Alike.feed {s t : Scanner} (h : s.Alike t) (b : UInt8) : (s.feed b).Alike (t.feed b) := by
  unfold Scanner.feed
  split
  · exact ⟨by rw [h.number], rfl, h.negative, h.total⟩
  · exact ⟨rfl, rfl, rfl, h.terminate.total⟩

theorem Alike.trans {s t u : Scanner} (h : s.Alike t) (h' : t.Alike u) : s.Alike u :=
  ⟨h.number.trans h'.number, h.inNumber.trans h'.inNumber, h.negative.trans h'.negative, h.total.trans h'.total⟩

/-- **It makes no difference where batches end**: scanning with other batches finds the same bitmap. -/
theorem Alike.foldl {step : Scanner → UInt8 → Scanner} (hstep : ∀ s b, (step s b).Alike (s.feed b)) (bs : Bytes)
    {s t : Scanner} (h : s.Alike t) : (bs.foldl step s).Alike (t.feedAll bs) := by
  induction bs generalizing s t with
  | nil => exact h
  | cons b bs ih => exact ih ((hstep s b).trans (h.feed b))

/-! ## Scanning -/

/-- What a scanner knows of a text so far: where the last run of digits starts, its value up to the least that is too
large, the sign in front of it, and the numbers before it. -/
structure Tracks (s : Scanner) (text run : Bytes) : Prop where
  boundary : ∀ b ∈ text.getLast?, isDigit b = false
  digits : ∀ b ∈ run, isDigit b = true
  number : s.number = min (decimal run) tooLarge
  inNumber : s.inNumber = !run.isEmpty
  negative : s.negative = (text.getLast? == some 45)
  valid : s.total.valid = true
  total : ∀ v : UInt32, v ∈ s.total.values ↔ Written text v.toNat

theorem tracks_start : Tracks start [] [] :=
  ⟨by simp, by simp, by simp [start, decimal, tooLarge], rfl, rfl, rfl,
    fun v => iff_of_false List.not_mem_nil (not_written_nil _)⟩

/-- **Ending a number at bytes that are no digits takes in the last run.** -/
theorem Tracks.terminate {s : Scanner} {text run rest : Bytes} (h : s.Tracks text run)
    (hrest : ∀ b ∈ rest, isDigit b = false) :
    s.terminate.total.valid = true ∧
      ∀ v : UInt32, v ∈ s.terminate.total.values ↔ Written (text ++ (run ++ rest)) v.toNat := by
  have hnumber := h.number
  have htaken : s.inNumber = true ∧ s.negative = false ↔ run ≠ [] ∧ text.getLast? ≠ some 45 := by
    rw [h.inNumber, h.negative]
    simp
  rw [total_terminate]
  split
  · rename_i hadds
    obtain ⟨hne, hsign⟩ := htaken.1 ⟨hadds.1, hadds.2.1⟩
    have hsmall : decimal run < tooLarge := by omega
    have hvalue : (UInt32.ofNat s.number).toNat = decimal run := by
      rw [hnumber, Nat.min_eq_left (Nat.le_of_lt hsmall)]
      exact UInt32.toNat_ofNat_of_lt' hsmall
    refine ⟨Bitmap.valid_add h.valid _, fun v => ?_⟩
    rw [Bitmap.mem_values_add h.valid, written_append h.boundary h.digits hrest, h.total, ← UInt32.toNat_inj, hvalue,
      or_comm]
    simp [hne, hsign, eq_comm]
  · rename_i hskips
    refine ⟨h.valid, fun v => ?_⟩
    rw [written_append h.boundary h.digits hrest, h.total]
    refine (or_iff_left fun hlast => ?_).symm
    obtain ⟨hne, hsign, hvalue⟩ := hlast
    obtain ⟨hin, hpositive⟩ := htaken.2 ⟨hne, hsign⟩
    have hv : v.toNat < tooLarge := v.toNat_lt
    exact hskips ⟨hin, hpositive, by omega⟩

theorem Tracks.feed {s : Scanner} {text run : Bytes} (h : s.Tracks text run) (b : UInt8) :
    ∃ text' run', text' ++ run' = text ++ (run ++ [b]) ∧ (s.feed b).Tracks text' run' := by
  unfold Scanner.feed
  cases hb : isDigit b with
  | true =>
    rw [if_pos rfl]
    refine ⟨text, run ++ [b], rfl, h.boundary, ?_, ?_, ?_, h.negative, h.valid, h.total⟩
    · intro d hd
      rcases List.mem_append.1 hd with hd | hd
      · exact h.digits d hd
      · exact List.mem_singleton.1 hd ▸ hb
    · rw [decimal_concat]
      dsimp only
      rw [h.number]
      omega
    · simp
  | false =>
    rw [if_neg Bool.false_ne_true]
    have hrest : ∀ d ∈ [b], isDigit d = false := fun d hd => List.mem_singleton.1 hd ▸ hb
    obtain ⟨hvalid, htotal⟩ := h.terminate hrest
    refine ⟨text ++ (run ++ [b]), [], List.append_nil _, ?_, by simp, ?_, rfl, ?_, hvalid, htotal⟩
    · simp [hb]
    · exact (Nat.zero_min _).symm
    · simp

theorem Tracks.feedAll {s : Scanner} {text run : Bytes} (h : s.Tracks text run) (bs : Bytes) :
    ∃ text' run', text' ++ run' = text ++ (run ++ bs) ∧ (s.feedAll bs).Tracks text' run' := by
  induction bs generalizing s text run with
  | nil => exact ⟨text, run, by simp, h⟩
  | cons b bs ih =>
    obtain ⟨text₁, run₁, heq, htracks⟩ := h.feed b
    obtain ⟨text', run', heq', htracks'⟩ := ih htracks
    refine ⟨text', run', ?_, htracks'⟩
    rw [heq', ← List.append_assoc, heq]
    simp

end Scanner

/-- **Scanning a text finds the numbers in it.**  The values are exactly the numbers below `2 ^ 32` that stand in the
text; the number at hand stays far below `2 ^ 64` whatever byte comes next; and any other way of dividing the numbers
into batches ends in the same bitmap. -/
theorem scan_numbers (bs : Bytes) :
    (scan bs).valid = true ∧ (∀ v : UInt32, v ∈ (scan bs).values ↔ Written bs v.toNat) ∧
    (∀ before b after, bs = before ++ b :: after →
      (Scanner.start.feedAll before).number * 10 + (b.toNat - 48) < 2 ^ 64) ∧
    ∀ step : Scanner → UInt8 → Scanner, (∀ s b, (step s b).Alike (s.feed b)) →
      (bs.foldl step .start).finish = scan bs := by
  obtain ⟨text, run, heq, htracks⟩ := Scanner.tracks_start.feedAll bs
  have hnothing : ∀ b ∈ ([] : Bytes), isDigit b = false := nofun
  obtain ⟨hvalid, hvalues⟩ := htracks.terminate hnothing
  have hbs : text ++ (run ++ []) = bs := by simpa using heq
  rw [hbs] at hvalues
  refine ⟨hvalid, hvalues, fun before b after _ => ?_, fun step hstep => ?_⟩
  · obtain ⟨text', run', -, htracks'⟩ := Scanner.tracks_start.feedAll before
    have hnumber := htracks'.number
    have hb := b.toNat_lt
    unfold Scanner.tooLarge at hnumber
    omega
  · exact (Scanner.Alike.foldl hstep bs ⟨rfl, rfl, rfl, rfl⟩).terminate.total

/-- The text `-5 x007y 4294967296`. -/
def signedText : Bytes :=
  [45, 53, 32, 120, 48, 48, 55, 121, 32, 52, 50, 57, 52, 57, 54, 55, 50, 57, 54]

theorem scan_numbers_signed : (scan signedText).values = [7] ∧ Written signedText 7 ∧
    (Scanner.start.feedAll (signedText.take 18)).number * 10 + 6 < 2 ^ 64 ∧
    (signedText.foldl (fun s b => (s.feed b).flush) Scanner.start).finish = scan signedText := by
  obtain ⟨-, hvalues, hnumber, hbatches⟩ := scan_numbers signedText
  have hscan : (scan signedText).values = [7] := by decide
  exact ⟨hscan, (hvalues 7).1 (by rw [hscan]; decide), hnumber (signedText.take 18) 54 [] rfl,
    hbatches _ fun _ _ => ⟨rfl, rfl, rfl, rfl⟩⟩

end Text
end BitmapWorks
