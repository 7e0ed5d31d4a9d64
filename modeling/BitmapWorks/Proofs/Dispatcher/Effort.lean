import BitmapWorks.Proofs.Dispatcher.Lifecycle
/-!
# Effort — the partitions of a task come to an end

Each move for a partition leaves less effort: the moves of the errands up to the end of their loops, the partitions that
are not handed in or not counted off, and a loop for each item that is left.  So a run has a limited number of such moves
(`Strand.Run.effort`), and whoever is to make one does not wait for anything but a call that goes on.
-/
namespace BitmapWorks

variable {W B V : Type} {bh : Behaviour W B V} {id : Nat}

/-! ## Weights -/

/-- The moves that a partition makes at most if it draws no more items. -/
def PartPhase.effort : PartPhase → Nat
  | post => 1
  | finish => 2
  | fetch => 3
  | load => 4
  | look => 5
  | takeUp | record _ => 6
  | hold | calling _ => 7
  | call _ => 8

def Errand.effort : Errand → Nat
  | single _ _ => 0
  | part _ phase => phase.effort

def Chore.effort : Chore → Nat
  | submitPart _ next count => 8 * (count - next) + 1
  | abandon _ left _ => left + 1
  | _ => 0

def Cell.itemsLeft (c : Cell B V) : Nat := (c.fanout.map fun f => f.cursor.length - f.cursor.next).getD 0

def Strand.effort (c : Cell B V) (s : Strand B V) : Nat := 6 * c.itemsLeft + s.weigh Chore.effort Errand.effort

/-! ## Steps -/

theorem Turn.effort {n : Note} {c c' : Cell B V} {e : Errand} {next : Multiset Errand} {posted : Nat}
    {events : List (Event V)} (h : Turn bh id n c e c' next posted events) :
    6 * c'.itemsLeft + (next.map Errand.effort).sum + (if n.moves = true then 1 else 0)
      ≤ 6 * c.itemsLeft + e.effort := by
  cases h with
  | fetch hf hnext | overrun hf hnext =>
    simp [Cell.itemsLeft, hf, Cursor.fetch, Errand.effort, PartPhase.effort, Note.part]
    omega
  | finish hf | finishLast hf =>
    simp [Cell.itemsLeft, hf, Fanout.finish, Errand.effort, PartPhase.effort, Note.part]
  | _ =>
    simp [Cell.itemsLeft, Cell.afterWork, Cell.offer, Errand.effort, PartPhase.effort, Note.part, Note.quiet, Note.offer]

/-- **Each move for a partition leaves less effort**, and nothing adds to it. -/
theorem Strand.Step.effort {n : Note} {s s' : Strand B V} (h : Strand.Step bh id n s s') {c c' : Cell B V}
    (hc : s.cell = some c) (hc' : s'.cell = some c') :
    s'.effort c' + (if n.moves = true then 1 else 0) ≤ s.effort c := by
  cases h with
  | reject | letIn | spread => cases hc
  | turn es hturn =>
    obtain rfl := Option.some.inj hc
    obtain rfl := Option.some.inj hc'
    have hle := hturn.effort
    simp only [Strand.effort, Strand.weigh, Multiset.map_add, Multiset.sum_add, Multiset.map_cons, Multiset.sum_cons]
    omega
  | receive =>
    obtain rfl := Option.some.inj (hc.symm.trans hc')
    simp [Strand.effort, Strand.weigh, Chore.effort, Note.quiet]
  | submitPart hnext =>
    obtain rfl := Option.some.inj hc
    obtain rfl := Option.some.inj hc'
    simp [Strand.effort, Strand.weigh, Chore.effort, Errand.effort, PartPhase.effort, Note.part]
    omega
  | refusePart fault hnext =>
    obtain rfl := Option.some.inj hc
    obtain rfl := Option.some.inj hc'
    simp [Strand.effort, Strand.weigh, Chore.effort, Cell.itemsLeft, Cell.offer, Note.part]
    omega
  | @abandoned c cs p es st last =>
    obtain rfl := Option.some.inj hc
    obtain rfl := Option.some.inj hc'
    have hchores : ((if last then .complete id :: cs else cs).map Chore.effort).sum = (cs.map Chore.effort).sum := by
      cases last
      · rfl
      · exact Nat.zero_add _
    simp only [Strand.effort, Strand.weigh, hchores, List.map_cons, List.sum_cons, Chore.effort, Note.moves_part, if_pos]
    omega
  | abandon hf =>
    obtain rfl := Option.some.inj hc
    obtain rfl := Option.some.inj hc'
    simp only [Strand.effort, Strand.weigh, List.map_cons, List.sum_cons, Chore.effort, Cell.itemsLeft, hf, Fanout.finish,
      Option.map_some, Option.getD_some, Note.moves_part, if_pos]
    omega
  | submitted | unspread =>
    obtain rfl := Option.some.inj hc
    obtain rfl := Option.some.inj hc'
    simp only [Strand.effort, Strand.weigh, List.map_cons, List.sum_cons, Chore.effort, Note.moves_part, if_pos]
    omega
  | _ =>
    obtain rfl := Option.some.inj hc
    obtain rfl := Option.some.inj hc'
    simp [Strand.effort, Strand.weigh, Chore.effort, Errand.effort, Cell.itemsLeft, Cell.offer, Cell.claim, Cell.close,
      Note.quiet, Note.bar]

/-- **A run makes no more moves for the partitions of a task than its effort allows.** -/
theorem Strand.Run.effort {ns : List Note} {s₀ s : Strand B V} (h : Strand.Run bh id s₀ ns s) {c₀ : Cell B V}
    (hc₀ : s₀.cell = some c₀) : ∃ c, s.cell = some c ∧ s.effort c + ns.countP Note.moves ≤ s₀.effort c₀ := by
  induction h with
  | refl => exact ⟨c₀, hc₀, Nat.le_refl _⟩
  | @snoc ns n s s' hrun hlead ih =>
    obtain ⟨c, hc, hle⟩ := ih
    rw [List.countP_append, List.countP_singleton]
    rcases hlead with ⟨rfl, rfl⟩ | hstep
    · exact ⟨c, hc, hle⟩
    · obtain ⟨c', hc'⟩ := hstep.cell_ne_none hc
      have hless := hstep.effort hc hc'
      exact ⟨c', hc', by omega⟩

/-! ## Who can move -/

namespace Dispatcher

variable {d : Dispatcher W B V}

theorem act?_worker_ne_none {i : Nat} {phase : PartPhase} {c : Cell B V}
    (hrun : d.crew.running? i = some (.part id phase)) (hc : d.cells[id]? = some c)
    (hready : ∀ item b, phase = .calling item → c.body = some b → bh.ready d.world b item = true) :
    d.act? bh (.move (.worker i)) ≠ none := by
  have hstep : d.act? bh (.move (.worker i)) = d.stepPart? bh i id c phase := by
    unfold act? step? stepWorker?
    dsimp only
    rw [hrun]
    dsimp only [Errand.id]
    rw [hc]
  rw [hstep]
  cases phase with
  | hold => cases hbody : c.body <;> simp [stepPart?, hbody]
  | fetch => cases hf : c.fanout <;> simp [stepPart?, hf]
  | finish => cases hf : c.fanout <;> simp [stepPart?, hf]
  | calling item =>
    cases hbody : c.body with
    | none => simp [stepPart?, hbody]
    | some b => simp [stepPart?, hbody, hready item b rfl hbody]
  | _ => simp [stepPart?]

theorem act?_caller_ne_none {chore : Chore} {rest : List Chore} (hagenda : d.agenda = chore :: rest)
    (hparts : chore.parts ≠ 0) : d.act? bh (.move .caller) ≠ none := by
  unfold act? step? stepCaller?
  dsimp only
  rw [hagenda]
  cases chore with
  | submitPart | abandon => simp
  | _ => exact absurd rfl hparts

end Dispatcher
end BitmapWorks
