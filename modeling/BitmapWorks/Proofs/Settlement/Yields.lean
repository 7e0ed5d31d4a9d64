import BitmapWorks.Settlement
/-!
# Yields — what a promise answers, and how often

A promise and its sink take turns (`Settlement.Turn`): the caller takes or polls, the other side claims, delivers,
completes or discards, in any order and as often as they like.  Each call that answers with an outcome is a yield
(`play`), and the turns of the other side alone say what the promise settles on (`settledWith`).

A promise goes through phases (`Phase`).  `take` remembers that it has given the outcome away, but `poll` does not: the
line that it leaves behind looks like that of a promise whose sink was dropped, and the next `take` answers once more,
that the task was shut down.
-/
namespace BitmapWorks
namespace Settlement

inductive Turn (V : Type) where
  | take
  | poll
  | claim
  | deliver (outcome : Except Fault V)
  | complete (outcome : Except Fault V)
  | discard

inductive Call where
  | take
  | poll
  deriving DecidableEq, Repr

variable {V : Type}

def dropped : Except Fault V := .error .shuttingDown

def turn (s : Settlement (Except Fault V)) : Turn V → List (Call × Except Fault V) × Settlement (Except Fault V)
  | .take =>
    let (answer, promise) := s.promise.take dropped
    ((answer.map fun outcome => (Call.take, outcome)).toList, { s with promise })
  | .poll =>
    match s.promise.poll dropped with
    | (.ready outcome, promise) => ([(.poll, outcome)], { s with promise })
    | (_, promise) => ([], { s with promise })
  | .claim => ([], s.claim.2)
  | .deliver outcome => ([], (s.deliver outcome).2)
  | .complete outcome => ([], (s.complete outcome).2.2)
  | .discard => ([], s.discard)

def play (s : Settlement (Except Fault V)) : List (Turn V) → List (Call × Except Fault V) × Settlement (Except Fault V)
  | [] => ([], s)
  | t :: ts =>
    let (yields, s) := s.turn t
    let (rest, s) := s.play ts
    (yields ++ rest, s)

/-- The outcome that a promise settles on: the first that is delivered, or that its sink was dropped if that comes
first.  Only who has won the claim completes. -/
def settledWith (claimed : Bool) : List (Turn V) → Option (Except Fault V)
  | [] => none
  | .take :: ts | .poll :: ts => settledWith claimed ts
  | .claim :: ts => settledWith true ts
  | .deliver outcome :: _ => some outcome
  | .complete outcome :: ts => if claimed then settledWith true ts else some outcome
  | .discard :: _ => some dropped

/-! ## Phases -/

/-- Where a sink and its promise are, by what they have settled on and what has been yielded. -/
inductive Phase : Option (Except Fault V) → List (Call × Except Fault V) → Option Sink → Promise (Except Fault V) → Prop
  | quiet : Phase none [] (some .promise) .fresh
  | settled {outcome line} (hline : line = .holding outcome ∨ line = .ended ∧ outcome = dropped) :
      Phase (some outcome) [] none ⟨line, true, false, false⟩
  | taken {outcome line} : Phase (some outcome) [(.take, outcome)] none ⟨line, false, true, false⟩
  | polled {outcome line} : Phase (some outcome) [(.poll, outcome)] none ⟨line, false, false, false⟩
  | spent {outcome line} : Phase (some outcome) [(.poll, outcome), (.take, dropped)] none ⟨line, false, true, false⟩

namespace Phase

variable {o : Option (Except Fault V)} {ys : List (Call × Except Fault V)} {s : Settlement (Except Fault V)}

/-- **Taking yields the outcome once it is settled**, if nothing has been yielded before, and that the sink was dropped
if a poll has had the outcome. -/
theorem take (h : Phase o ys s.sink s.promise) :
    Phase o (ys ++ (s.turn .take).1) (s.turn .take).2.sink (s.turn .take).2.promise := by
  obtain ⟨claimed, sink, promise⟩ := s
  cases h with
  | quiet => exact .quiet
  | settled hline =>
    rcases hline with rfl | ⟨rfl, rfl⟩
    · exact .taken
    · exact .taken
  | taken => exact .taken
  | polled => exact .spent
  | spent => exact .spent

/-- **Polling yields the outcome once it is settled**, if nothing has been yielded before. -/
theorem poll (h : Phase o ys s.sink s.promise) :
    Phase o (ys ++ (s.turn .poll).1) (s.turn .poll).2.sink (s.turn .poll).2.promise := by
  obtain ⟨claimed, sink, promise⟩ := s
  cases h with
  | quiet => exact .quiet
  | settled hline =>
    rcases hline with rfl | ⟨rfl, rfl⟩
    · exact .polled
    · exact .polled
  | taken => exact .taken
  | polled => exact .polled
  | spent => exact .spent

theorem deliver (h : Phase o ys s.sink s.promise) (outcome : Except Fault V) :
    Phase (o.or (some outcome)) ys (s.deliver outcome).2.sink (s.deliver outcome).2.promise := by
  obtain ⟨claimed, sink, promise⟩ := s
  cases h with
  | quiet => exact .settled (.inl rfl)
  | settled hline => exact .settled hline
  | taken => exact .taken
  | polled => exact .polled
  | spent => exact .spent

theorem discard (h : Phase o ys s.sink s.promise) :
    Phase (o.or (some dropped)) ys s.discard.sink s.discard.promise := by
  obtain ⟨claimed, sink, promise⟩ := s
  cases h with
  | quiet => exact .settled (.inr ⟨rfl, rfl⟩)
  | settled hline => exact .settled hline
  | taken => exact .taken
  | polled => exact .polled
  | spent => exact .spent

/-- **Every turn leads from a phase to a phase**, and what comes after it settles on the same outcome. -/
theorem turn (h : Phase o ys s.sink s.promise) (t : Turn V) (ts : List (Turn V)) :
    ∃ o', Phase o' (ys ++ (s.turn t).1) (s.turn t).2.sink (s.turn t).2.promise ∧
      o'.or (settledWith (s.turn t).2.claimed ts) = o.or (settledWith s.claimed (t :: ts)) := by
  cases t with
  | take => exact ⟨o, h.take, rfl⟩
  | poll =>
    refine ⟨o, h.poll, ?_⟩
    unfold Settlement.turn
    dsimp only
    split <;> rfl
  | claim => exact ⟨o, (List.append_nil ys).symm ▸ h, rfl⟩
  | deliver outcome =>
    refine ⟨o.or (some outcome), (List.append_nil ys).symm ▸ h.deliver outcome, ?_⟩
    rw [Option.or_assoc]
    rfl
  | complete outcome =>
    cases hclaimed : s.claimed with
    | true =>
      have hturn : s.turn (.complete outcome) = ([], s.claim.2) := by
        simp [Settlement.turn, Settlement.complete, claim, hclaimed]
      rw [hturn, List.append_nil]
      exact ⟨o, h, rfl⟩
    | false =>
      have hturn : s.turn (.complete outcome) = ([], (s.claim.2.deliver outcome).2) := by
        simp [Settlement.turn, Settlement.complete, claim, hclaimed]
      rw [hturn, List.append_nil]
      refine ⟨o.or (some outcome), deliver (s := s.claim.2) h outcome, ?_⟩
      rw [Option.or_assoc]
      rfl
  | discard =>
    refine ⟨o.or (some dropped), (List.append_nil ys).symm ▸ h.discard, ?_⟩
    rw [Option.or_assoc]
    rfl

/-- **A sequence of turns ends in the phase of what it settles on.** -/
theorem play (ts : List (Turn V)) : ∀ {o ys} {s : Settlement (Except Fault V)}, Phase o ys s.sink s.promise →
    Phase (o.or (settledWith s.claimed ts)) (ys ++ (s.play ts).1) (s.play ts).2.sink (s.play ts).2.promise := by
  induction ts with
  | nil =>
    intro o ys s h
    show Phase (o.or none) (ys ++ []) s.sink s.promise
    rw [Option.or_none, List.append_nil]
    exact h
  | cons t ts ih =>
    intro o ys s h
    obtain ⟨o', hturn, hsettled⟩ := h.turn t ts
    have hplay := ih hturn
    rw [hsettled, List.append_assoc] at hplay
    exact hplay

end Phase

/-- **What a promise yields.**  Before it settles, nothing.  Afterwards the first call yields what it settled on.  If
that was a `take`, no call yields again; if it was a `poll`, the next `take` yields once more, that the sink was dropped,
also where an outcome had been delivered. -/
theorem yields_cases (ts : List (Turn V)) :
    match settledWith false ts with
    | none => ((fresh .promise).play ts).1 = []
    | some outcome =>
      let (yields, s) := (fresh .promise).play ts
      yields = [] ∧ (s.turn .take).1 = [(.take, outcome)] ∧ (s.turn .poll).1 = [(.poll, outcome)] ∨
      yields = [(.take, outcome)] ∧ (s.turn .take).1 = [] ∧ (s.turn .poll).1 = [] ∨
      yields = [(.poll, outcome)] ∧ (s.turn .take).1 = [(.take, dropped)] ∧ (s.turn .poll).1 = [] ∨
      yields = [(.poll, outcome), (.take, dropped)] ∧ (s.turn .take).1 = [] ∧ (s.turn .poll).1 = [] := by
  have h := Phase.play (s := fresh .promise) ts .quiet
  rw [Option.none_or, List.nil_append] at h
  change Phase (settledWith false ts) _ _ _ at h
  generalize (fresh .promise).play ts = played at h ⊢
  obtain ⟨yields, claimed, sink, promise⟩ := played
  generalize settledWith false ts = settled at h ⊢
  cases h with
  | quiet => rfl
  | settled hline =>
    refine .inl ⟨rfl, ?_⟩
    rcases hline with rfl | ⟨rfl, rfl⟩
    · exact ⟨rfl, rfl⟩
    · exact ⟨rfl, rfl⟩
  | taken => exact .inr (.inl ⟨rfl, rfl, rfl⟩)
  | polled => exact .inr (.inr (.inl ⟨rfl, rfl, rfl⟩))
  | spent => exact .inr (.inr (.inr ⟨rfl, rfl, rfl⟩))

/-- A delivered outcome that is polled is followed by another one: more than one call yields, and a `take` after the
outcome was obtained still answers. -/
theorem yields_twice : ((fresh .promise).play ([.deliver (.ok 7), .poll, .take] : List (Turn Nat))).1 =
    [(.poll, .ok 7), (.take, .error .shuttingDown)] := rfl

end Settlement
end BitmapWorks
