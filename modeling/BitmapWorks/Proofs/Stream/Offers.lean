import BitmapWorks.Stream
import Mathlib.Algebra.GroupWithZero.Nat
import Mathlib.Tactic.Common
/-!
# Offers — what a destination takes before it stops

A destination is offered the same bytes again until it has taken all of them, or a reply ends the write with a fault
(`WriteReply.fault?`).  What it has taken by then is the front of what it was offered (`Destination.met_writeAll`), also
over several pieces (`Destination.met_writePieces`): interrupted calls and short ones lose nothing and repeat nothing, and
no call is made behind the first fault.
-/
namespace BitmapWorks

def WriteReply.fault? : WriteReply → Option WriteFault
  | .takes 0 => some .nothingTaken
  | .takes _ => none
  | .interrupted => none
  | .fails n => some (.errno n)

namespace Destination

/-- Whether a destination has come to another one by replies that are no faults and, if there is a fault, by a last one
that is this fault.  A destination whose script is used up has one reply from then on. -/
def Answers (d d' : Destination) : Option WriteFault → Prop
  | none => ∃ used, d.replies = used ++ d'.replies ∧ ∀ r ∈ used, r.fault? = none
  | some why =>
    (∃ used last, d.replies = used ++ last :: d'.replies ∧ (∀ r ∈ used, r.fault? = none) ∧ last.fault? = some why) ∨
      ((∀ r ∈ d.replies, r.fault? = none) ∧ d'.replies = [] ∧ d.most = some 0 ∧ why = .nothingTaken)

/-- What a fault leaves among the sizes: an offer of which nothing is taken counts as a call that took nothing. -/
def lastSize : Option WriteFault → List Nat
  | some .nothingTaken => [0]
  | _ => []

/-- Whether a destination has come to another one by taking these bytes, up to a fault if there is one. -/
structure Offered (d d' : Destination) (taken : Bytes) (fault : Option WriteFault) : Prop where
  received : d'.received.toList = d.received.toList ++ taken
  sizes : ∃ sizes, d'.sizes.toList = d.sizes.toList ++ (sizes ++ lastSize fault) ∧ 0 ∉ sizes ∧ sizes.sum = taken.length
  answers : d.Answers d' fault
  most : d'.most = d.most
  flushFault : d'.flushFault = d.flushFault
  flushes : d'.flushes = d.flushes

/-- Whether an offer has come to an end: a front of it is taken, and there is a fault if that is not all of it. -/
def Met (d : Destination) (bs : Bytes) (outcome : Destination × Option WriteFault) : Prop :=
  ∃ taken rest, bs = taken ++ rest ∧ d.Offered outcome.1 taken outcome.2 ∧ (outcome.2 = none ↔ rest = [])

variable {d d' e : Destination} {taken more : Bytes} {fault : Option WriteFault}

theorem Answers.trans (h : d.Answers d' none) (h' : d'.Answers e fault) (hmost : d'.most = d.most) :
    d.Answers e fault := by
  obtain ⟨used, hused, hclean⟩ := h
  cases fault with
  | none =>
    obtain ⟨used', hused', hclean'⟩ := h'
    exact ⟨used ++ used', by rw [hused, hused', List.append_assoc], List.forall_mem_append.2 ⟨hclean, hclean'⟩⟩
  | some why =>
    rcases h' with ⟨used', last, hused', hclean', hlast⟩ | ⟨hclean', hnone, hzero, hwhy⟩
    · refine .inl ⟨used ++ used', last, ?_, List.forall_mem_append.2 ⟨hclean, hclean'⟩, hlast⟩
      rw [hused, hused', List.append_assoc]
    · refine .inr ⟨?_, hnone, hmost ▸ hzero, hwhy⟩
      rw [hused]
      exact List.forall_mem_append.2 ⟨hclean, hclean'⟩

/-- A destination that has no fault in its script and takes something of each offer never stops. -/
theorem Answers.eq_none (h : d.Answers d' fault) (hclean : ∀ r ∈ d.replies, r.fault? = none) (hmost : d.most ≠ some 0) :
    fault = none := by
  cases fault with
  | none => rfl
  | some why =>
    rcases h with ⟨used, last, hreplies, -, hlast⟩ | ⟨-, -, hzero, -⟩
    · have hnone := hclean last (by simp [hreplies])
      exact absurd (hlast.symm.trans hnone) nofun
    · exact absurd hzero hmost

theorem Offered.refl (d : Destination) : d.Offered d [] none :=
  ⟨(List.append_nil _).symm, ⟨[], (List.append_nil _).symm, nofun, rfl⟩, ⟨[], rfl, nofun⟩, rfl, rfl, rfl⟩

theorem Offered.trans (h : d.Offered d' taken none) (h' : d'.Offered e more fault) :
    d.Offered e (taken ++ more) fault := by
  obtain ⟨sizes, hsizes, hsome, hsum⟩ := h.sizes
  obtain ⟨sizes', hsizes', hsome', hsum'⟩ := h'.sizes
  refine ⟨by rw [h'.received, h.received, List.append_assoc], ⟨sizes ++ sizes', ?_, ?_, ?_⟩,
    h.answers.trans h'.answers h.most, h'.most.trans h.most, h'.flushFault.trans h.flushFault,
    h'.flushes.trans h.flushes⟩
  · simp [hsizes', hsizes, lastSize]
  · simp [hsome, hsome']
  · rw [List.sum_append, hsum, hsum', List.length_append]

theorem Met.after {outcome : Destination × Option WriteFault} (h : d.Offered d' taken none)
    (h' : d'.Met more outcome) : d.Met (taken ++ more) outcome := by
  obtain ⟨taken', rest, rfl, hoffered, hall⟩ := h'
  exact ⟨taken ++ taken', rest, (List.append_assoc ..).symm, h.trans hoffered, hall⟩

theorem Met.stop {why : WriteFault} (h : d.Offered d' [] (some why)) {bs : Bytes} (hbs : bs ≠ []) :
    d.Met bs (d', some why) :=
  ⟨[], bs, rfl, h, by simp [hbs]⟩

/-! ## One reply -/

theorem Answers.of_reply {reply : WriteReply} (h : d.replies = reply :: d'.replies) (hfault : reply.fault? = fault) :
    d.Answers d' fault := by
  cases fault with
  | none => exact ⟨[reply], h, by simpa using hfault⟩
  | some why => exact .inl ⟨[], reply, h, nofun, hfault⟩

theorem offered_skip {replies : List WriteReply} (h : d.Answers { d with replies } fault)
    (hfault : fault ≠ some .nothingTaken) : d.Offered { d with replies } [] fault := by
  refine ⟨(List.append_nil _).symm, ⟨[], ?_, nofun, rfl⟩, h, rfl, rfl, rfl⟩
  cases fault with
  | none => exact (List.append_nil _).symm
  | some why =>
    cases why with
    | errno n => exact (List.append_nil _).symm
    | nothingTaken => exact absurd rfl hfault

theorem received_take (d : Destination) (bs : Bytes) : (d.take bs).received.toList = d.received.toList ++ bs := by
  simp [take, Array.appendList_eq_append]

theorem offered_take {replies : List WriteReply} (h : d.Answers { d with replies } none) {bs : Bytes} (hbs : bs ≠ []) :
    d.Offered (({ d with replies } : Destination).take bs) bs none := by
  refine ⟨received_take _ bs, ⟨[bs.length], Array.toList_push, ?_, rfl⟩, h, rfl, rfl, rfl⟩
  simpa [eq_comm] using hbs

theorem offered_nothing {replies : List WriteReply} (h : d.Answers { d with replies } (some .nothingTaken)) :
    d.Offered (({ d with replies } : Destination).take []) [] (some .nothingTaken) :=
  ⟨received_take _ [], ⟨[], Array.toList_push, nofun, rfl⟩, h, rfl, rfl, rfl⟩

theorem cut_append (most : Option Nat) (bs : Bytes) : (cut most bs).1 ++ (cut most bs).2 = bs := by
  cases most <;> simp [cut]

/-- Nothing is taken of an offer only where at most nothing is taken. -/
theorem cut_eq_nil {most : Option Nat} {bs : Bytes} (hbs : bs ≠ []) (h : (cut most bs).1 = []) : most = some 0 := by
  cases most with
  | none => exact absurd h hbs
  | some n => simpa [cut, hbs] using h

theorem cut_ne_nil {n : Nat} {bs : Bytes} (h : (cut (some n) bs).1 ≠ []) : (WriteReply.takes n).fault? = none := by
  cases n with
  | zero => exact absurd rfl h
  | succ n => rfl

/-! ## Offers -/

/-- **An offer is repeated until all of it is taken or a reply is a fault.** -/
theorem met_writeAll (d : Destination) (bs : Bytes) : d.Met bs (d.writeAll bs) := by
  fun_induction writeAll d bs with
  | case1 d bs hnone =>
    obtain rfl := List.isEmpty_iff.1 hnone
    exact ⟨[], [], rfl, .refl d, by simp⟩
  | case2 d bs hsome replies hreplies ih => exact .after (offered_skip (.of_reply hreplies rfl) nofun) ih
  | case3 d bs hsome n replies hreplies =>
    exact .stop (offered_skip (.of_reply hreplies rfl) nofun) fun hbs => hsome (by simp [hbs])
  | case4 d bs hsome most replies hreplies parts d' hnone =>
    have hbs : bs ≠ [] := fun hbs => hsome (by simp [hbs])
    have hpart : parts.1 = [] := List.isEmpty_iff.1 hnone
    obtain rfl : most = 0 := Option.some.inj (cut_eq_nil hbs hpart)
    show d.Met bs (({ d with replies } : Destination).take parts.1, some .nothingTaken)
    rw [hpart]
    exact .stop (offered_nothing (.of_reply hreplies rfl)) hbs
  | case5 d bs hsome most replies hreplies parts d' hpart ih =>
    have hpart : parts.1 ≠ [] := mt List.isEmpty_iff.2 hpart
    rw [← cut_append (some most) bs]
    exact .after (offered_take (.of_reply hreplies (cut_ne_nil hpart)) hpart) ih
  | case6 d bs hsome hreplies parts hnone =>
    have hbs : bs ≠ [] := fun hbs => hsome (by simp [hbs])
    have hpart : parts.1 = [] := List.isEmpty_iff.1 hnone
    have hanswers : d.Answers d (some .nothingTaken) := .inr ⟨by simp [hreplies], hreplies, cut_eq_nil hbs hpart, rfl⟩
    rw [hpart]
    exact .stop (offered_nothing hanswers) hbs
  | case7 d bs hsome hreplies parts hpart ih =>
    have hanswers : d.Answers d none := ⟨[], rfl, nofun⟩
    rw [← cut_append d.most bs]
    exact .after (offered_take hanswers (mt List.isEmpty_iff.2 hpart)) ih

/-- **Pieces are offered one after the other until one of them is not taken.** -/
theorem met_writePieces (d : Destination) (pieces : List Bytes) : d.Met pieces.flatten (d.writePieces pieces) := by
  induction pieces generalizing d with
  | nil => exact ⟨[], [], rfl, .refl d, by simp [writePieces]⟩
  | cons piece pieces ih =>
    obtain ⟨taken, rest, hpiece, hoffered, hall⟩ := met_writeAll d piece
    rw [writePieces]
    cases hwrite : d.writeAll piece with
    | mk d' fault =>
      rw [hwrite] at hoffered hall
      cases fault with
      | none =>
        obtain rfl := hall.1 rfl
        rw [List.flatten_cons, hpiece, List.append_nil]
        exact .after hoffered (ih d')
      | some why =>
        refine ⟨taken, rest ++ pieces.flatten, by simp [hpiece], hoffered, iff_of_false nofun fun h => ?_⟩
        exact Option.some_ne_none why (hall.2 (List.append_eq_nil_iff.1 h).1)

end Destination
end BitmapWorks
