import BitmapWorks.Proofs.Dispatcher.Deeds
import BitmapWorks.Proofs.Operation.Frame
/-!
# Apart — tasks leave the bitmaps alone that other tasks have made

A task has the bitmaps that its body names and those of the outcome that waits in its promise.  Some of them it has
made.  As long as callers name only bitmaps that no task has made and keeps (`Discreet`), nobody but the task itself
names what it has made, whatever tasks there are and however they take turns (`Does.apart`); so these bitmaps stay as
they are until they are delivered (`Does.at`).
-/
namespace BitmapWorks

open BitmapWorks.Shelf (Frame)

variable {d d' : Dispatcher World Operation Product} {c : Cell Operation Product} {a : Act World Operation Product}
variable {w w' : World} {stopping : Bool} {outcome : Except Fault Product}

/-! ## What a task has -/

/-- The bitmaps of the outcome that waits in a promise. -/
def Promise.names (p : Promise (Except Fault Product)) : List Nat := p.waiting.elim [] Product.namesOf

namespace Holding

def names (h : Holding Operation Product) : List Nat := h.body.elim [] Operation.names ++ h.promise.names

def made (h : Holding Operation Product) : List Nat := h.body.elim [] Operation.made ++ h.promise.names

theorem mem_names {h : Holding Operation Product} {n : Nat} :
    n ∈ h.names ↔ (∃ b, h.body = some b ∧ n ∈ b.names) ∨ n ∈ h.promise.names := by
  rw [names, List.mem_append]
  cases h.body <;> simp

theorem mem_made {h : Holding Operation Product} {n : Nat} :
    n ∈ h.made ↔ (∃ b, h.body = some b ∧ n ∈ b.made) ∨ n ∈ h.promise.names := by
  rw [made, List.mem_append]
  cases h.body <;> simp

theorem made_subset (h : Holding Operation Product) : h.made ⊆ h.names := by
  intro n hn
  rw [mem_made] at hn
  rw [mem_names]
  rcases hn with ⟨b, hb, hn⟩ | hn
  · exact .inl ⟨b, hb, List.mem_append_right _ hn⟩
  · exact .inr hn

end Holding

/-! ## Deeds -/

namespace Operation

theorem frame_lose (w : World) (outcome : Except Fault Product) :
    Frame (Product.namesOf outcome) w.shelf (behaviour.lose w outcome).shelf := by
  cases outcome with
  | error fault => exact .refl _ _
  | ok v => exact frame_release w v

/-- **A body is used up without touching other bitmaps than its own**, and the outcome comes with bitmaps that it has
made. -/
theorem closes_spec {fault : Option Fault} {b : Operation} (h : Closes behaviour fault w b outcome w') :
    Frame b.names w.shelf w'.shelf ∧ ∀ n ∈ Product.namesOf outcome, n ∈ b.made := by
  have hclean := (frame_cleanUp w b).mono (List.subset_append_left b.lent b.made)
  obtain ⟨hnames, hmade⟩ := names_cleanUp w b
  cases h with
  | failed => exact ⟨hclean.trans ((frame_discard _ _).mono hnames), nofun⟩
  | asked hresult =>
    obtain ⟨hframe, hproduct⟩ := result_spec (cleanUp w b).1 (cleanUp w b).2
    obtain rfl := Option.some.inj hresult
    exact ⟨hclean.trans (hframe.mono hnames), fun n hn => hmade ▸ hproduct n hn⟩

/-- An outcome goes where it goes without touching other bitmaps than its own. -/
theorem settles_spec {p p' : Promise (Except Fault Product)} {told : Option (Except Fault Product)}
    (h : Settles behaviour stopping w p outcome w' p' told) :
    Frame (Product.namesOf outcome) w.shelf w'.shelf ∧ ∀ n ∈ p'.names, n ∈ p.names ∨ n ∈ Product.namesOf outcome := by
  cases h with
  | kept => exact ⟨.refl _ _, fun n hn => .inr hn⟩
  | called => exact ⟨.refl _ _, fun n hn => .inl hn⟩
  | lost => exact ⟨frame_lose w outcome, fun n hn => .inl hn⟩
  | discarded hstopping hp =>
    refine ⟨frame_lose w outcome, fun n hn => ?_⟩
    rcases hp with rfl | rfl
    · exact .inl hn
    · cases hn

end Operation

/-- **A deed touches only bitmaps that the task names, and what the task has afterwards it had before, or it is
new.** -/
theorem deed_spec {h : Holding Operation Product} {told : Option (Except Fault Product)}
    (hdeed : Deed Operation.behaviour stopping c w w' h told) :
    Frame c.holding.names w.shelf w'.shelf ∧
    (∀ n ∈ h.names, n ∈ c.holding.names ∨ w.shelf.numbers ≤ n ∧ n < w'.shelf.numbers) ∧
    ∀ n ∈ h.made, n ∈ c.holding.made ∨ w.shelf.numbers ≤ n ∧ n < w'.shelf.numbers := by
  have hkept : ∀ n ∈ c.settlement.promise.names, n ∈ c.holding.made := fun n hn => Holding.mem_made.2 (.inr hn)
  cases hdeed with
  | @work b item hbody =>
    obtain ⟨hframe, hlent, hnew⟩ := Operation.work_spec w b item
    have hmade : ∀ n ∈ (Operation.work w b item).body.made,
        n ∈ c.holding.made ∨ w.shelf.numbers ≤ n ∧ n < (Operation.work w b item).world.shelf.numbers :=
      fun n hn => (hnew n hn).imp_left fun hn => Holding.mem_made.2 (.inl ⟨b, hbody, hn⟩)
    refine ⟨hframe.mono (List.nil_subset _), fun n hn => ?_, fun n hn => ?_⟩
    · rcases Holding.mem_names.1 hn with ⟨b', hb', hn⟩ | hn
      · cases hb'
        rcases List.mem_append.1 hn with hn | hn
        · exact .inl (Holding.mem_names.2 (.inl ⟨b, hbody, List.mem_append_left _ (hlent ▸ hn)⟩))
        · exact (hmade n hn).imp_left fun hn => c.holding.made_subset hn
      · exact .inl (c.holding.made_subset (hkept n hn))
    · rcases Holding.mem_made.1 hn with ⟨b', hb', hn⟩ | hn
      · cases hb'
        exact hmade n hn
      · exact .inl (hkept n hn)
  | @conclude b outcome w₁ w₂ p told hbody hclaimed hcloses hsettles =>
    obtain ⟨hframe, houtcome⟩ := Operation.closes_spec hcloses
    obtain ⟨hframe', hput⟩ := Operation.settles_spec hsettles
    have hbodied : b.names ⊆ c.holding.names := fun n hn => Holding.mem_names.2 (.inl ⟨b, hbody, hn⟩)
    have hmade : ∀ n ∈ Product.namesOf outcome, n ∈ c.holding.made := fun n hn =>
      Holding.mem_made.2 (.inl ⟨b, hbody, houtcome n hn⟩)
    have hleft : ∀ n ∈ p.names, n ∈ c.holding.made := fun n hn => (hput n hn).elim (hkept n) (hmade n)
    refine ⟨(hframe.mono hbodied).trans (hframe'.mono fun n hn => c.holding.made_subset (hmade n hn)),
      fun n hn => ?_, fun n hn => ?_⟩
    · rcases Holding.mem_names.1 hn with ⟨b', hb', -⟩ | hn
      · cases hb'
      · exact .inl (c.holding.made_subset (hleft n hn))
    · rcases Holding.mem_made.1 hn with ⟨b', hb', -⟩ | hn
      · cases hb'
      · exact .inl (hleft n hn)
  | @ask p hp =>
    have hleft : ∀ n ∈ p.names, n ∈ c.settlement.promise.names := fun n hn => by
      rcases hp with hp | hp
      · rwa [Promise.names, hp] at hn
      · rw [Promise.names, hp] at hn
        cases hn
    refine ⟨.refl _ _, fun n hn => .inl ?_, fun n hn => .inl ?_⟩
    · exact Holding.mem_names.2 ((Holding.mem_names.1 hn).imp_right (hleft n))
    · exact Holding.mem_made.2 ((Holding.mem_made.1 hn).imp_right (hleft n))
  | forget =>
    refine ⟨?_, fun n hn => .inl ?_, fun n hn => .inl ?_⟩
    · have hframe : Frame c.settlement.promise.names w.shelf
          (c.settlement.promise.waiting.elim w (Operation.behaviour.lose w)).shelf := by
        unfold Promise.names
        cases c.settlement.promise.waiting with
        | none => exact .refl _ _
        | some outcome => exact Operation.frame_lose w outcome
      exact hframe.mono fun n hn => c.holding.made_subset (hkept n hn)
    · exact Holding.mem_names.2 ((Holding.mem_names.1 hn).imp_right nofun)
    · exact Holding.mem_made.2 ((Holding.mem_made.1 hn).imp_right nofun)

/-! ## Tasks of a dispatcher -/

namespace Dispatcher

/-- Whether no task has made a bitmap and keeps it. -/
def Free (d : Dispatcher World Operation Product) (n : Nat) : Prop := ∀ id h, d.holding id = some h → n ∉ h.made

/-- Whether an act leaves alone what tasks have made and keep: a caller asks for work with bitmaps that are there, drops
other values, and the world changes elsewhere. -/
def Discreet (d : Dispatcher World Operation Product) : Act World Operation Product → Prop
  | .spawn b _ => ∃ r, b = Operation.ofRequest r ∧ ∀ n ∈ r.bitmap?.toList, n < d.world.shelf.numbers ∧ d.Free n
  | .releaseValue v => ∀ n ∈ v.names, d.Free n
  | .surround w => d.world.shelf.numbers ≤ w.shelf.numbers ∧
      ∀ n < d.world.shelf.numbers, ¬ d.Free n → w.shelf.get? n = d.world.shelf.get? n
  | _ => True

/-- Whether all bitmaps that tasks have are there, and no task has a bitmap that another has made. -/
structure Apart (d : Dispatcher World Operation Product) : Prop where
  bounded : ∀ id h, d.holding id = some h → ∀ n ∈ h.names, n < d.world.shelf.numbers
  apart : ∀ id id' h h', id ≠ id' → d.holding id = some h → d.holding id' = some h' → ∀ n ∈ h.made, n ∉ h'.names

theorem Apart.of_same (h : d.Apart) (hgrows : d.world.shelf.numbers ≤ d'.world.shelf.numbers)
    (hholding : ∀ id, d'.holding id = d.holding id) : d'.Apart := by
  refine ⟨fun id hd hhd n hn => ?_, fun id id' hd hd' hne hhd hhd' => ?_⟩
  · rw [hholding] at hhd
    exact Nat.lt_of_lt_of_le (h.bounded id hd hhd n hn) hgrows
  · rw [hholding] at hhd hhd'
    exact h.apart id id' hd hd' hne hhd hhd'

/-- What one task has changes: bitmaps that come to it are there, and no other task has them. -/
theorem Apart.change (h : d.Apart) (hgrows : d.world.shelf.numbers ≤ d'.world.shelf.numbers) (id : Nat)
    (hothers : ∀ id', id ≠ id' → d'.holding id' = d.holding id') {hd' : Holding Operation Product}
    (hself : d'.holding id = some hd')
    (hnames : ∀ n ∈ hd'.names, (∃ hd, d.holding id = some hd ∧ n ∈ hd.names) ∨ n < d'.world.shelf.numbers ∧ d.Free n)
    (hmade : ∀ n ∈ hd'.made, (∃ hd, d.holding id = some hd ∧ n ∈ hd.made) ∨ d.world.shelf.numbers ≤ n) : d'.Apart := by
  refine ⟨fun i hd hhd n hn => ?_, fun i j hd hd₂ hne hhd hhd₂ n hn hn₂ => ?_⟩
  · by_cases hi : id = i
    · subst hi
      obtain rfl := Option.some.inj (hself.symm.trans hhd)
      rcases hnames n hn with ⟨hd₀, hhd₀, hn⟩ | ⟨hlt, -⟩
      · exact Nat.lt_of_lt_of_le (h.bounded id hd₀ hhd₀ n hn) hgrows
      · exact hlt
    · rw [hothers i hi] at hhd
      exact Nat.lt_of_lt_of_le (h.bounded i hd hhd n hn) hgrows
  · by_cases hi : id = i
    · subst hi
      obtain rfl := Option.some.inj (hself.symm.trans hhd)
      rw [hothers j hne] at hhd₂
      rcases hmade n hn with ⟨hd₀, hhd₀, hn⟩ | hle
      · exact h.apart id j hd₀ hd₂ hne hhd₀ hhd₂ n hn hn₂
      · exact Nat.not_lt.2 hle (h.bounded j hd₂ hhd₂ n hn₂)
    · rw [hothers i hi] at hhd
      by_cases hj : id = j
      · subst hj
        obtain rfl := Option.some.inj (hself.symm.trans hhd₂)
        rcases hnames n hn₂ with ⟨hd₀, hhd₀, hn₂⟩ | ⟨-, hfree⟩
        · exact h.apart i id hd hd₀ hne hhd hhd₀ n hn hn₂
        · exact hfree i hd hhd hn
      · rw [hothers j hj] at hhd₂
        exact h.apart i j hd hd₂ hne hhd hhd₂ n hn hn₂

theorem Apart.free (h : d.Apart) {n : Nat} (hn : d.world.shelf.numbers ≤ n) : d.Free n := fun id hd hhd hmade =>
  Nat.not_lt.2 hn (h.bounded id hd hhd n (hd.made_subset hmade))

theorem frame_credit (h : d'.world = d.world ∨ ∃ tally, d'.world = Operation.behaviour.credit d.world tally) :
    d'.world.shelf = d.world.shelf := by
  rcases h with h | ⟨tally, h⟩
  · rw [h]
  · rw [h]
    rfl

theorem names_fresh (o : Operation) : (Holding.mk (some o) (.fresh : Promise (Except Fault Product))).names = o.names ∧
    (Holding.mk (some o) (.fresh : Promise (Except Fault Product))).made = o.made :=
  ⟨List.append_nil _, List.append_nil _⟩

theorem Does.apart (h : Does Operation.behaviour d d' a) (hapart : d.Apart) (hdiscreet : d.Discreet a) : d'.Apart := by
  cases h with
  | idle hworld hholding => exact hapart.of_same (Nat.le_of_eq (by rw [frame_credit hworld])) hholding
  | @deed _ id c hd told hc hdeed hmover hholding hothers =>
    obtain ⟨hframe, hnames, hmade⟩ := deed_spec hdeed
    have hbefore : d.holding id = some c.holding := holding_of_cells hc rfl
    refine hapart.change hframe.grows id hothers hholding (fun n hn => ?_) fun n hn => ?_
    · exact (hnames n hn).imp (fun hn => ⟨_, hbefore, hn⟩) fun hn => ⟨hn.2, hapart.free hn.1⟩
    · exact (hmade n hn).imp (fun hn => ⟨_, hbefore, hn⟩) fun hn => hn.1
  | @spawn b sink hworld hholding hothers =>
    obtain ⟨r, rfl, hr⟩ := hdiscreet
    obtain ⟨hframe, hnames, hmade⟩ := Operation.prepare_spec d.world r
    have hgrows : d.world.shelf.numbers ≤ d'.world.shelf.numbers := hworld ▸ hframe.grows
    obtain ⟨hallNames, hallMade⟩ := names_fresh (Operation.prepare d.world (.ofRequest r)).2.2
    refine hapart.change hgrows _ hothers hholding (fun n hn => .inr ?_) fun n hn => ?_
    · rw [Operation.behaviour, hallNames] at hn
      obtain ⟨hlt, hfree⟩ := hr n (hnames hn)
      exact ⟨Nat.lt_of_lt_of_le hlt hgrows, hfree⟩
    · rw [Operation.behaviour, hallMade, hmade] at hn
      cases hn
  | @releaseValue v hworld hholding =>
    have hgrows : d.world.shelf.numbers ≤ d'.world.shelf.numbers :=
      hworld ▸ (Operation.frame_release d.world v).grows
    exact hapart.of_same hgrows hholding
  | surround hworld hholding => exact hapart.of_same (hworld ▸ hdiscreet.1) hholding

/-- **What a task has made stays as it is, unless the act is a deed of the task itself.** -/
theorem Does.at (h : Does Operation.behaviour d d' a) (hapart : d.Apart) (hdiscreet : d.Discreet a) {id : Nat}
    (hc : d.cells[id]? = some c) :
    (d'.holding id = some c.holding ∧ (∀ n ∈ c.holding.made, d'.world.shelf.get? n = d.world.shelf.get? n) ∧
      ∀ outcome, (id, outcome) ∈ d'.outcomes ↔ (id, outcome) ∈ d.outcomes) ∨
    ∃ hd told, Deed Operation.behaviour d.admission.gate.stopping c d.world d'.world hd told ∧
      (c.body ≠ none → hd.body = none → a = .move .caller) ∧ d'.holding id = some hd ∧
      d'.outcomes = (told.map (id, ·)).toList ++ d.outcomes := by
  have hbefore : d.holding id = some c.holding := holding_of_cells hc rfl
  have hbounded : ∀ n ∈ c.holding.made, n < d.world.shelf.numbers := fun n hn =>
    hapart.bounded id _ hbefore n (c.holding.made_subset hn)
  cases h with
  | idle hworld hholding houtcomes =>
    refine .inl ⟨(hholding id).trans hbefore, fun n _ => ?_, fun outcome => by rw [houtcomes]⟩
    rw [frame_credit hworld]
  | @deed _ id' c' hd told hc' hdeed hmover hholding hothers houtcomes =>
    by_cases hid : id' = id
    · subst hid
      obtain rfl := Option.some.inj (hc.symm.trans hc')
      exact .inr ⟨hd, told, hdeed, hmover, hholding, houtcomes⟩
    · -- the other task touches only what it names, and it names nothing that this one has made
      obtain ⟨hframe, -⟩ := deed_spec hdeed
      refine .inl ⟨(hothers id hid).trans hbefore, fun n hn => ?_, fun outcome => ?_⟩
      · exact hframe.same n (hbounded n hn)
          (hapart.apart id id' _ _ (Ne.symm hid) hbefore (holding_of_cells hc' rfl) n hn)
      · have hnot : (id, outcome) ∉ (told.map (id', ·)).toList := fun hmem => by
          obtain ⟨outcome', -, heq⟩ := Option.map_eq_some_iff.1 (Option.mem_toList.1 hmem)
          exact hid (congrArg Prod.fst heq)
        rw [houtcomes, List.mem_append, or_iff_right hnot]
  | @spawn b sink hworld hholding hothers houtcomes =>
    obtain ⟨r, rfl, hr⟩ := hdiscreet
    obtain ⟨hframe, -⟩ := Operation.prepare_spec d.world r
    have hid : d.cells.length ≠ id := Nat.ne_of_gt (List.getElem?_eq_some_iff.1 hc).1
    refine .inl ⟨(hothers id hid).trans hbefore, fun n hn => ?_, fun outcome => by rw [houtcomes]⟩
    rw [hworld]
    exact hframe.same n (hbounded n hn) fun hmem => (hr n hmem).2 id _ hbefore hn
  | @releaseValue v hworld hholding houtcomes =>
    refine .inl ⟨(hholding id).trans hbefore, fun n hn => ?_, fun outcome => by rw [houtcomes]⟩
    rw [hworld]
    exact (Operation.frame_release d.world v).same n (hbounded n hn) fun hmem => hdiscreet n hmem id _ hbefore hn
  | @surround w hworld hholding houtcomes =>
    refine .inl ⟨(hholding id).trans hbefore, fun n hn => ?_, fun outcome => by rw [houtcomes]⟩
    rw [hworld]
    exact hdiscreet.2 n (hbounded n hn) fun hfree => hfree id _ hbefore hn

end Dispatcher

end BitmapWorks
