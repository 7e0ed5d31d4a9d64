import BitmapWorks.Proofs.Operation.Estate
/-!
# Scene — a caller with its dispatcher

A caller owns assets: those of the values that came to it, the handles and guards that it made of them, and those of the
bitmaps that it brought.  It asks for work and lets its dispatcher move, takes and drops values, holds, freezes and
changes bitmaps, in any order (`Gesture`).  Its estate is bookkeeping: nobody reads it but the rule that a caller can
only use and give away what it owns.

Whatever happens, the world answers for what the caller and the tasks own together, and for the tallies of the tasks
(`solvent_of_tour`).
-/
namespace BitmapWorks

variable {trips : World → Operation → Nat → Option (Option String)}

inductive Gesture where
  | move (m : Mover)
  | spawn (r : Request) (sink : Sink)
  | pumpAll
  | untilIdle
  | shutdown
  | take (id : Nat)
  | poll (id : Nat)
  | dropPromise (id : Nat)
  /-- Drops a value. -/
  | release (v : Product)
  | clone (n : Nat)
  | freeze (n : Nat)
  | unfreeze (n : Nat)
  | change (n : Nat) (c : Change)
  /-- Shares a bitmap that no task has made. -/
  | bring (content : Content)
  /-- The files and the doors change by themselves. -/
  | arrange (files : FileSystem) (doors : List String)
  /-- The admission changes by itself. -/
  | regate (admission : Admission)

namespace Gesture

def act (w : World) : Gesture → Act World Operation Product
  | move m => .move m
  | spawn r sink => .spawn (.ofRequest r) sink
  | pumpAll => .pumpAll
  | untilIdle => .untilIdle
  | shutdown => .shutdown
  | take id => .take id
  | poll id => .poll id
  | dropPromise id => .dropPromise id
  | release v => .releaseValue v
  | clone n => .surround (w.hold n)
  | freeze n => .surround (w.freeze n)
  | unfreeze n => .surround (w.unfreeze n)
  | change n c => .surround { w with shelf := (w.shelf.change n c).2 }
  | bring content => .surround (w.place content none).2
  | arrange files openDoors => .surround { w with files, openDoors }
  | regate admission => .regate admission

def paid : Gesture → Multiset Asset
  | spawn r _ => r.assets
  | release v => v.assets
  | clone n | freeze n | change n _ => {.handle n}
  | unfreeze n => {.guard n}
  | _ => 0

def gained (d d' : Dispatcher World Operation Product) : Gesture → Multiset Asset
  | clone n => {.handle n, .handle n}
  | freeze n => {.guard n, .handle n}
  | change n _ => {.handle n}
  | bring _ => {.handle d.world.shelf.numbers}
  | g => (g.act d.world).gained d d'

def returns : Gesture → Bool
  | spawn _ sink => decide (sink ≠ .callback true)
  | _ => true

def aside : Gesture → Bool
  | move _ | spawn _ _ | pumpAll | untilIdle | shutdown => false
  | _ => true

end Gesture

structure Scene where
  estate : Multiset Asset
  dispatcher : Dispatcher World Operation Product

namespace Scene

/-- One gesture; `none` if the caller does not own what it takes, or whoever is to move has to wait. -/
def step? (bh : Behaviour World Operation Product) (s : Scene) (g : Gesture) : Option Scene :=
  if g.returns = true ∧ g.paid ≤ s.estate then
    (s.dispatcher.act? bh (g.act s.dispatcher.world)).map fun d =>
      ⟨s.estate - g.paid + g.gained s.dispatcher d, d⟩
  else none

def tour? (bh : Behaviour World Operation Product) (s : Scene) : List Gesture → Option Scene
  | [] => some s
  | g :: gs => (s.step? bh g).bind fun s => tour? bh s gs

variable {bh : Behaviour World Operation Product} {s s' : Scene} {g : Gesture} {gs : List Gesture}

theorem tour?_append (s : Scene) (gs hs : List Gesture) :
    s.tour? bh (gs ++ hs) = (s.tour? bh gs).bind fun s => s.tour? bh hs := by
  induction gs generalizing s with
  | nil => rfl
  | cons g gs ih =>
    rw [List.cons_append, tour?, tour?, Option.bind_assoc]
    exact congrArg _ (funext fun s => ih s)

theorem tour_induction {p : Scene → Prop} (hstep : ∀ s s' g, s.step? bh g = some s' → p s → p s')
    (h : s.tour? bh gs = some s') (hs : p s) : p s' := by
  induction gs generalizing s with
  | nil => exact Option.some.inj h ▸ hs
  | cons g gs ih =>
    obtain ⟨t, ht, h⟩ := Option.bind_eq_some_iff.1 h
    exact ih h (hstep s t g ht hs)

theorem step_spec (h : s.step? bh g = some s') : g.returns = true ∧ g.paid ≤ s.estate ∧
    s.dispatcher.act? bh (g.act s.dispatcher.world) = some s'.dispatcher ∧
    s'.estate = s.estate - g.paid + g.gained s.dispatcher s'.dispatcher := by
  unfold step? at h
  split at h
  · rename_i hlegal
    obtain ⟨d, hact, rfl⟩ := Option.map_eq_some_iff.1 h
    exact ⟨hlegal.1, hlegal.2, hact, rfl⟩
  · cases h

end Scene

/-! ## Changes -/

theorem World.Accounts.change {w : World} {assets : Multiset Asset} {pending : Int} (h : w.Accounts assets pending)
    (n : Nat) (c : Change) : ({ w with shelf := (w.shelf.change n c).2 } : World).Accounts assets pending := by
  refine ⟨fun m => ?_, fun m => ?_, fun m t' ht' => ?_, ?_⟩
  · rw [← h.handles m, Shelf.change_eq, Shelf.handles_modify, Shelf.handles]
    split
    · exact congrArg (Option.elim _ 0) (funext fun t => (Shelf.keeps_change t c).1)
    · rfl
  · rw [← h.guards m, Shelf.change_eq, Shelf.guards_modify, Shelf.guards]
    split
    · exact congrArg (Option.elim _ 0) (funext fun t => (Shelf.keeps_change t c).2.1)
    · rfl
  · rw [Shelf.change_eq, Shelf.get?_modify] at ht'
    split at ht'
    · obtain ⟨t, ht, rfl⟩ := Option.map_eq_some_iff.1 ht'
      have hheld := h.held m t ht
      unfold Slot.isHeld at hheld ⊢
      rwa [(Shelf.keeps_change t c).1, (Shelf.keeps_change t c).2.1]
    · exact h.held m t' ht'
  · show w.total = _
    rw [Shelf.change_eq, Shelf.charged_modify _ _ fun t => (Shelf.keeps_change t c).2.2]
    exact h.total

/-! ## Solvency -/

section

variable {d d' : Dispatcher World Operation Product} {g : Gesture}

theorem Gesture.returns_act (w : World) (h : g.returns = true) : (g.act w).returns = true := by
  cases g with
  | spawn r sink => exact h
  | _ => rfl

theorem Gesture.request_act {w : World} (o : Operation) (sink : Sink) (h : g.act w = .spawn o sink) :
    ∃ r, o = .ofRequest r := by
  cases g with
  | spawn r sink' =>
    cases h
    exact ⟨r, rfl⟩
  | _ => cases h

/-- **What a caller does aside pays for what it gives**, also if it has let the dispatcher go. -/
theorem Gesture.trade_aside (haside : g.aside = true) (hchange : ∀ n c, g ≠ .change n c)
    (hact : d.act? (Operation.faltering trips) (g.act d.world) = some d') :
    Trade d.world d'.world (g.paid + d.assets) (g.gained d d' + d'.assets) (d'.pending - d.pending) := by
  have hworld : ∀ {w : World} {paid gained : Multiset Asset}, d' = { d with world := w } →
      Trade d.world w paid gained 0 →
      Trade d.world d'.world (paid + d.assets) (gained + d'.assets) (d'.pending - d.pending) := fun heq htrade => by
    subst heq
    exact Dispatcher.trade_same rfl htrade
  cases g with
  | clone n => exact hworld (Option.some.inj hact).symm (d.world.trade_hold n)
  | freeze n => exact hworld (Option.some.inj hact).symm (d.world.trade_freeze n)
  | unfreeze n => exact hworld (Option.some.inj hact).symm (d.world.trade_unfreeze n)
  | bring content => exact hworld (Option.some.inj hact).symm (d.world.trade_place content none)
  | arrange files doors =>
    refine hworld (Option.some.inj hact).symm ⟨.refl _, fun rest pending haccounts => ?_⟩
    exact ⟨haccounts.handles, haccounts.guards, haccounts.held, haccounts.total.trans (by rw [Int.add_zero]; rfl)⟩
  | regate admission =>
    obtain rfl := Option.some.inj hact
    exact Dispatcher.trade_same rfl (.refl _ 0)
  | change n c => exact absurd rfl (hchange n c)
  | take | poll | dropPromise | release => exact Dispatcher.trade_of_visit (Dispatcher.deal_of_visit rfl hact) rfl
  | _ => cases haside

/-- **Every gesture pays for what it gives**, and leaves the bitmaps what they are unless it is a change. -/
theorem Gesture.trade (h : d.Trading trips) (hchange : ∀ n c, g ≠ .change n c)
    (hact : d.act? (Operation.faltering trips) (g.act d.world) = some d') :
    Trade d.world d'.world (g.paid + d.assets) (g.gained d d' + d'.assets) (d'.pending - d.pending) := by
  by_cases haside : g.aside = true
  · exact trade_aside haside hchange hact
  have hdeal := Dispatcher.deal_of_act faltering_returns h.making.regular.held h.making.regular.sound hact
  cases g with
  | move | spawn | pumpAll | untilIdle | shutdown => exact h.trade hdeal Gesture.request_act fun w heq => by cases heq
  | _ => exact absurd rfl haside

end

namespace Scene

variable {s s' : Scene} {g : Gesture} {gs : List Gesture}

/-- Whether the world answers for all that is owned, and for the tallies of the tasks. -/
def Books (s : Scene) : Prop := s.dispatcher.world.Accounts (s.estate + s.dispatcher.assets) s.dispatcher.pending

/-- A change is no trade: it leaves everybody what they own, but not the bitmap what it is. -/
theorem Books.change {bh : Behaviour World Operation Product} {n : Nat} {c : Change} (h : s.Books)
    (hstep : s.step? bh (.change n c) = some s') : s'.Books := by
  obtain ⟨-, hpaid, hact, hestate⟩ := step_spec hstep
  have heq : s'.dispatcher = { s.dispatcher with
      world := { s.dispatcher.world with shelf := (s.dispatcher.world.shelf.change n c).2 } } :=
    (Option.some.inj hact).symm
  have hsame : s.estate - {.handle n} + {.handle n} = s.estate := tsub_add_cancel_of_le hpaid
  unfold Books
  rw [hestate, heq]
  show World.Accounts _ (s.estate - {.handle n} + {.handle n} + s.dispatcher.assets) s.dispatcher.pending
  rw [hsame]
  exact World.Accounts.change h n c

/-- **Whoever pays for what is given leaves the books in order.** -/
theorem Books.trade {bh : Behaviour World Operation Product} (h : s.Books) (hstep : s.step? bh g = some s')
    (htrade : Trade s.dispatcher.world s'.dispatcher.world (g.paid + s.dispatcher.assets)
      (g.gained s.dispatcher s'.dispatcher + s'.dispatcher.assets) (s'.dispatcher.pending - s.dispatcher.pending)) :
    s'.Books := by
  obtain ⟨-, hpaid, -, hestate⟩ := step_spec hstep
  have hsplit : s.estate + s.dispatcher.assets = g.paid + s.dispatcher.assets + (s.estate - g.paid) := by
    rw [add_right_comm, add_tsub_cancel_of_le hpaid]
  unfold Books at h ⊢
  rw [hsplit] at h
  have hafter := htrade.accounts _ _ h
  rw [add_right_comm, add_comm (g.gained _ _), ← hestate] at hafter
  exact hafter.congr_pending (congrArg Ledger.wrap (by omega))

/-- What holds of a scene while the caller holds on to the dispatcher. -/
structure Solvent (trips : World → Operation → Nat → Option (Option String)) (s : Scene) : Prop where
  trading : s.dispatcher.Trading trips
  books : s.Books

/-- **Every gesture leaves a solvent scene.** -/
theorem Solvent.step (h : s.Solvent trips) (hstep : s.step? (Operation.faltering trips) g = some s') :
    s'.Solvent trips := by
  obtain ⟨hreturns, -, hact, -⟩ := step_spec hstep
  refine ⟨h.trading.act (Gesture.returns_act _ hreturns) Gesture.request_act hact, ?_⟩
  by_cases hchange : ∃ n c, g = .change n c
  · obtain ⟨n, c, rfl⟩ := hchange
    exact h.books.change hstep
  · exact h.books.trade hstep (Gesture.trade h.trading (fun n c heq => hchange ⟨n, c, heq⟩) hact)

theorem solvent_start {files : FileSystem} {doors : List String} {settings : Settings} {processors : Nat}
    {admission : Admission} {checkpoints : Bool} {d : Dispatcher World Operation Product}
    (h : Dispatcher.start ⟨0, .empty, files, doors⟩ settings processors admission checkpoints = .ok d) :
    Solvent trips ⟨0, d⟩ := by
  have hmaking : d.Making (Operation.faltering trips) fun o => ∃ r, Operation.Started r o := Dispatcher.making_start h
  unfold Dispatcher.start at h
  split at h
  · cases h
  · obtain rfl := Except.ok.inj h
    refine ⟨⟨hmaking, fun id h' hh' => by cases hh'⟩, ⟨fun n => ?_, fun n => ?_, fun n t ht => (by cases ht), rfl⟩⟩
    · exact (Multiset.count_zero _).symm
    · exact (Multiset.count_zero _).symm

theorem solvent_of_tour (h : s.Solvent trips) (htour : s.tour? (Operation.faltering trips) gs = some s') :
    s'.Solvent trips :=
  tour_induction (p := Solvent trips) (fun _ _ _ hstep h => h.step hstep) htour h

end Scene
end BitmapWorks
