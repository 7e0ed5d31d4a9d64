import BitmapWorks.Proofs.Bitmap.Members
import BitmapWorks.Proofs.Text.Reread
import Mathlib.Data.List.Forall2
import Mathlib.Data.List.Induction
/-!
# Staged — a text is written while it is staged

`writeText` cuts a whole text into pieces and then writes them.  `stream` does the work in its natural order: it writes
the buffer out when the next value might not fit, in the middle of going through the values, so a fault ends it before
the values behind are looked at.  Both do the same to every destination (`stream_eq`).  What a text has to look like is
said by `Rendered`, without the buffer: each value has one word without needless zeros in front (`spells_iff`).

The main statement is `writeText_accepted`.
-/
namespace BitmapWorks
namespace Text

open Scanner (isDigit)

/-! ## Words -/

structure Spells (word : Bytes) (n : Nat) : Prop where
  notEmpty : word ≠ []
  digits : ∀ b ∈ word, isDigit b = true
  value : decimal word = n
  leading : word.head? = some 48 → word = [48]

theorem spells_digits (n : Nat) : Spells (digits n) n := by
  refine ⟨digits_ne_nil n, fun b hb => isDigit_of_mem_digits hb, decimal_digits n, ?_⟩
  induction n using Nat.strongRecOn with
  | ind n ih =>
    intro hzero
    by_cases hn : n < 10
    · rw [digits_of_lt hn] at hzero ⊢
      rw [Option.some.inj hzero]
    · have hle := Nat.not_lt.1 hn
      rw [digits_of_le hle, List.head?_append_of_ne_nil _ (digits_ne_nil _)] at hzero
      -- a leading zero would be all that stands in front of the last digit
      have hfront := decimal_digits (n / 10)
      rw [ih (n / 10) (by omega) hzero] at hfront
      have hnone : decimal [48] = 0 := rfl
      omega

theorem digit_of_isDigit {b : UInt8} (h : isDigit b = true) :
    b.toNat - 48 < 10 ∧ b = UInt8.ofNat (48 + (b.toNat - 48)) := by
  simp only [isDigit, Bool.and_eq_true, decide_eq_true_eq, UInt8.le_iff_toNat_le] at h
  obtain ⟨hlow, hhigh⟩ := h
  have hlow : 48 ≤ b.toNat := hlow
  have hhigh : b.toNat ≤ 57 := hhigh
  refine ⟨by omega, ?_⟩
  rw [Nat.add_sub_cancel' hlow]
  exact UInt8.ofNat_toNat.symm

theorem eq_digits_of_spells {word : Bytes} {n : Nat} (h : Spells word n) : word = digits n := by
  induction word using List.reverseRecOn generalizing n with
  | nil => exact absurd rfl h.notEmpty
  | append_singleton front b ih =>
    obtain ⟨hsmall, hb⟩ := digit_of_isDigit (h.digits b (by simp))
    have hvalue := h.value
    rw [decimal_concat] at hvalue
    by_cases hfront : front = []
    · subst hfront
      have hn : b.toNat - 48 = n := by simpa [decimal] using hvalue
      rw [digits_of_lt (hn ▸ hsmall), ← hn, ← hb]
      rfl
    · have hleading : front.head? ≠ some 48 := by
        intro hzero
        have hall := h.leading (by rw [List.head?_append_of_ne_nil _ hfront, hzero])
        exact hfront (by simpa using congrArg List.length hall)
      have hspells : Spells front (decimal front) :=
        ⟨hfront, fun d hd => h.digits d (by simp [hd]), rfl, fun hzero => absurd hzero hleading⟩
      have heq := ih hspells
      have hpos : decimal front ≠ 0 := by
        intro hnone
        rw [hnone] at heq
        exact hleading (by rw [heq, digits_of_lt (by decide)]; rfl)
      have hn : 10 ≤ n := by omega
      have htenth : n / 10 = decimal front := by omega
      have hlast : n % 10 = b.toNat - 48 := by omega
      rw [digits_of_le hn, htenth, hlast, ← heq, ← hb]

/-- **A number has exactly one word.** -/
theorem spells_iff {word : Bytes} {n : Nat} : Spells word n ↔ word = digits n :=
  ⟨eq_digits_of_spells, fun h => h ▸ spells_digits n⟩

/-! ## Texts -/

/-- Whether a text is that of some values in a style: a word for each of them in their order, one separator between
neighbours, and what stands before and behind all values. -/
def Rendered (style : TextStyle) (values : List UInt32) (text : Bytes) : Prop :=
  ∃ words, List.Forall₂ (fun word (v : UInt32) => Spells word v.toNat) words values ∧
    text = opening style ++ [separator style].intercalate words ++ closing style

theorem joined_eq (style : TextStyle) : ∀ values : List UInt32,
    joined style values = [separator style].intercalate (values.map fun v => digits v.toNat)
  | [] => rfl
  | [v] => by simp [joined]
  | v :: w :: values => by
    rw [joined, joined_eq style (w :: values)]
    simp [List.intercalate_cons_cons]

/-- **Values have exactly one text in each style.** -/
theorem rendered_iff {style : TextStyle} {values : List UInt32} {text : Bytes} :
    Rendered style values text ↔ text = render style values := by
  have hwords : ∀ words, List.Forall₂ (fun word (v : UInt32) => Spells word v.toNat) words values ↔
      words = values.map fun v => digits v.toNat := by
    intro words
    simp only [spells_iff]
    rw [← List.forall₂_map_right_iff (R := (· = ·)), List.forall₂_eq_eq_eq]
  simp [Rendered, hwords, render, joined_eq]

/-! ## Writing -/

abbrev Writing := EStateM WriteFault Destination

namespace Writing

def outcome : Destination × Option WriteFault → EStateM.Result WriteFault Destination Unit
  | (d, none) => .ok () d
  | (d, some why) => .error why d

def offer (bs : Bytes) : Writing Unit := fun d => outcome (d.writeAll bs)

def offerAll (pieces : List Bytes) : Writing Unit := fun d => outcome (d.writePieces pieces)

def flush : Writing Unit := fun d => outcome d.flush

def stage (style : TextStyle) : List UInt32 → Bool → Array UInt8 → Writing (Array UInt8)
  | [], _, buffer => return buffer
  | v :: vs, started, buffer => do
    let mut buffer := buffer
    if stagingRoom < buffer.size + entryRoom then
      offer buffer.toList
      buffer := #[]
    if started then
      buffer := buffer.push (separator style)
    stage style vs true (buffer.appendList (digits v.toNat))

/-- Writes the text of a bitmap while going through its values, and has it passed on. -/
def stream (b : Bitmap) (style : TextStyle) : Writing Unit := do
  let buffer ← stage style b.values false (opening style).toArray
  offer (buffer.appendList (closing style)).toList
  flush

theorem offerAll_nil : offerAll [] = return () := rfl

theorem offerAll_cons (piece : Bytes) (pieces : List Bytes) :
    offerAll (piece :: pieces) = (do offer piece; offerAll pieces) := by
  funext d
  simp only [offerAll, offer, Destination.writePieces, bind, EStateM.bind]
  rcases d.writeAll piece with ⟨d', _ | why⟩ <;> rfl

theorem offerAll_append (pieces more : List Bytes) :
    offerAll (pieces ++ more) = (do offerAll pieces; offerAll more) := by
  induction pieces with
  | nil => rw [List.nil_append, offerAll_nil, pure_bind]
  | cons piece pieces ih => rw [List.cons_append, offerAll_cons, ih, offerAll_cons, bind_assoc]

theorem offerAll_singleton (piece : Bytes) : offerAll [piece] = offer piece := by
  rw [offerAll_cons, offerAll_nil]
  exact bind_pure (offer piece)

theorem stage_cons (style : TextStyle) (s : Staging) (v : UInt32) (values : List UInt32) : ∃ gone,
    (s.push style v).left = gone ++ s.left ∧
    stage style (v :: values) s.started s.buffer
      = (do offerAll gone.reverse; stage style values true (s.push style v).buffer) := by
  by_cases hroom : stagingRoom < s.buffer.size + entryRoom
  · refine ⟨[s.buffer.toList], by simp [Staging.push, Staging.makeRoom, hroom], ?_⟩
    rw [List.reverse_singleton, offerAll_singleton]
    cases hstarted : s.started <;> simp [stage, Staging.push, Staging.makeRoom, hroom, hstarted]
  · refine ⟨[], by simp [Staging.push, Staging.makeRoom, hroom], ?_⟩
    rw [List.reverse_nil, offerAll_nil, pure_bind]
    cases hstarted : s.started <;> simp [stage, Staging.push, Staging.makeRoom, hroom, hstarted]

/-- **Going through values writes out the pieces that leave the buffer**, in their order. -/
theorem stage_eq (style : TextStyle) (values : List UInt32) (s : Staging) : ∃ gone,
    (values.foldl (Staging.push style) s).left = gone ++ s.left ∧
    stage style values s.started s.buffer
      = (do offerAll gone.reverse; return (values.foldl (Staging.push style) s).buffer) := by
  induction values generalizing s with
  | nil => exact ⟨[], rfl, rfl⟩
  | cons v values ih =>
    obtain ⟨first, hfirst, hstep⟩ := stage_cons style s v values
    obtain ⟨gone, hleft, hstage⟩ := ih (s.push style v)
    refine ⟨gone ++ first, ?_, ?_⟩
    · rw [List.foldl_cons, hleft, hfirst, List.append_assoc]
    · rw [hstep, List.reverse_append, offerAll_append, bind_assoc]
      exact congrArg (offerAll first.reverse >>= fun _ => ·) hstage

/-- **Writing while staging does what writing the staged pieces does.** -/
theorem stream_eq (b : Bitmap) (style : TextStyle) (d : Destination) :
    (stream b style).run d = outcome (writeText b style d) := by
  obtain ⟨gone, hleft, hstage⟩ := stage_eq style b.values (.start style)
  -- the last piece is the buffer behind the last value
  have hpieces : pieces style b.values = gone.reverse ++
      [((Staging.pushAll style b.values).buffer.appendList (closing style)).toList] := by
    have hleft' : (Staging.pushAll style b.values).left = gone := hleft.trans (List.append_nil gone)
    simp [pieces, Staging.pieces, Staging.finish, hleft']
  have hstream : stream b style = (do offerAll (pieces style b.values); flush) := by
    rw [hpieces, offerAll_append, offerAll_singleton, bind_assoc]
    exact (congrArg (· >>= _) hstage).trans (by rw [bind_assoc]; rfl)
  rw [hstream, writeText]
  simp only [EStateM.run, bind, EStateM.bind, offerAll]
  rcases d.writePieces (pieces style b.values) with ⟨d', _ | why⟩ <;> rfl

end Writing

/-- **A destination accepts a front of the text of a bitmap.**  All of it is accepted unless a write ends with a fault,
which is then the last thing that happens; if it is, the text is passed on once, and that decides how the work ends. -/
theorem writeText_accepted {b : Bitmap} (hb : b.valid = true) (style : TextStyle) :
    b.values.Pairwise (· < ·) ∧ (∀ v, v ∈ b.values ↔ b.contains v = true) ∧
    (∀ text, Rendered style b.values text ↔ text = bytes b style) ∧
    ∀ d : Destination, (Writing.stream b style).run d = Writing.outcome (writeText b style d) ∧
      ∃ accepted rest e stopped, Rendered style b.values (accepted ++ rest) ∧
        (writeText b style d).1.received.toList = d.received.toList ++ accepted ∧
        ((writeText b style d).2 = none ↔ rest = [] ∧ d.flushFault = none) ∧
        d.Offered e accepted stopped ∧ (stopped = none ↔ rest = []) ∧
        (rest = [] → writeText b style d = ({ e with flushes := d.flushes + 1 }, d.flushFault)) ∧
        (rest ≠ [] → writeText b style d = (e, stopped)) := by
  refine ⟨Bitmap.pairwise_values hb, fun v => (Bitmap.contains_iff_mem hb).symm, fun text => ?_, fun d => ?_⟩
  · rw [rendered_iff, bytes_eq_render]
  refine ⟨Writing.stream_eq b style d, ?_⟩
  obtain ⟨accepted, rest, htext, hoffered, hall⟩ := d.met_writePieces (pieces style b.values)
  rw [flatten_pieces] at htext
  unfold writeText
  rcases hwrite : d.writePieces (pieces style b.values) with ⟨e, stopped⟩
  rw [hwrite] at hoffered hall
  have htext' : Rendered style b.values (accepted ++ rest) := rendered_iff.2 htext.symm
  cases stopped with
  | none =>
    have hrest : rest = [] := hall.1 rfl
    have hflushes : e.flushes = d.flushes := hoffered.flushes
    have hfault : e.flushFault = d.flushFault := hoffered.flushFault
    refine ⟨accepted, rest, e, none, htext', hoffered.received, ?_, hoffered, hall, fun _ => ?_, ?_⟩
    · simp [Destination.flush, hrest, hfault]
    · simp [Destination.flush, hflushes, hfault]
    · exact fun hne => absurd hrest hne
  | some why =>
    have hrest : rest ≠ [] := fun h => Option.some_ne_none why (hall.2 h)
    refine ⟨accepted, rest, e, some why, htext', hoffered.received, ?_, hoffered, hall, ?_, fun _ => rfl⟩
    · exact iff_of_false nofun fun h => hrest h.1
    · exact fun h => absurd h hrest

/-- Takes two bytes, is interrupted, takes six more and then fails. -/
def reluctant : Destination := .scripted [.takes 2, .interrupted, .takes 6, .fails 28] none

/-- Of `[1,20,300]` only `[1,20,30` is accepted. -/
theorem writeText_accepted_reluctant : (Bitmap.ofList [300, 1, 20]).valid = true ∧
    Rendered .jsonArray (Bitmap.ofList [300, 1, 20]).values ([91, 49, 44, 50, 48, 44, 51, 48] ++ [48, 93]) ∧
    reluctant.Offered (writeText (.ofList [300, 1, 20]) .jsonArray reluctant).1 [91, 49, 44, 50, 48, 44, 51, 48]
      (some (.errno 28)) ∧
    (Writing.stream (.ofList [300, 1, 20]) .jsonArray).run reluctant
      = .error (.errno 28) (writeText (.ofList [300, 1, 20]) .jsonArray reluctant).1 := by
  have hvalid : (Bitmap.ofList [300, 1, 20]).valid = true := Bitmap.valid_ofList _
  obtain ⟨-, -, htext, hwrites⟩ := writeText_accepted hvalid .jsonArray
  obtain ⟨hrun, accepted, rest, e, stopped, -, hreceived, hnone, hoffered, -, -, hstop⟩ := hwrites reluctant
  have hfault : (writeText (.ofList [300, 1, 20]) .jsonArray reluctant).2 = some (.errno 28) := by decide +kernel
  have hfront : (writeText (.ofList [300, 1, 20]) .jsonArray reluctant).1.received.toList
      = [91, 49, 44, 50, 48, 44, 51, 48] := by decide +kernel
  have hrest : rest ≠ [] := by
    intro hrest
    rw [hnone.2 ⟨hrest, rfl⟩] at hfault
    cases hfault
  have hwrite := hstop hrest
  rw [hwrite] at hfault hreceived hfront hrun ⊢
  obtain rfl : accepted = _ := hreceived.symm.trans hfront
  obtain rfl : stopped = some (.errno 28) := hfault
  refine ⟨hvalid, (htext _).2 ?_, hoffered, hrun⟩
  decide +kernel

end Text
end BitmapWorks
