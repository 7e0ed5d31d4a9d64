import BitmapWorks.Dispatcher.Basic
import BitmapWorks.Proofs.Crew.Jobs
import Mathlib.Data.Multiset.Filter
/-!
# Strand — what a dispatcher has of one task

The strand of a task is all that a dispatcher has of it: the cell, the chores for it, the completions that wait, the
errands for it, and what happened to it.  Changes of the dispatcher that are about other tasks leave it as it is.
-/
namespace BitmapWorks

variable {W B V : Type}

def Chore.task? : Chore → Option Nat
  | submit id | submitPart id _ _ | abandon id _ _ | complete id | conclude id => some id
  | _ => none

def Event.task? : Event V → Option Nat
  | prepared id | called id _ | flushed id _ | cleanedUp id | asked id | settled id _ | discarded id => some id
  | checkpoint => none

/-- All that a dispatcher has of a task: the cell if there is one, the chores for it in order, how many of its
completions wait, the errands for it, and what happened to it, the latest first. -/
@[ext] structure Strand (B V : Type) where
  cell : Option (Cell B V)
  chores : List Chore
  posted : Nat
  errands : Multiset Errand
  story : List (Event V)

def Dispatcher.strand (d : Dispatcher W B V) (id : Nat) : Strand B V where
  cell := d.cells[id]?
  chores := d.agenda.filter (·.task? = some id)
  posted := d.inbox.count id
  errands := d.crew.hand.filter (·.id = id)
  story := d.history.filter (·.task? = some id)

/-! ## Strands of changed dispatchers -/

theorem filter_chore {chore : Chore} {id : Nat} (h : chore.task? = some id) (cs : List Chore) :
    (chore :: cs).filter (·.task? = some id) = chore :: cs.filter (·.task? = some id) :=
  List.filter_cons_of_pos (by simpa using h)

theorem filter_chore_of_ne {chore : Chore} {id : Nat} (h : chore.task? ≠ some id) (cs : List Chore) :
    (chore :: cs).filter (·.task? = some id) = cs.filter (·.task? = some id) :=
  List.filter_cons_of_neg (by simpa using h)

theorem filter_event {e : Event V} {id : Nat} (h : e.task? = some id) (es : List (Event V)) :
    (e :: es).filter (·.task? = some id) = e :: es.filter (·.task? = some id) :=
  List.filter_cons_of_pos (by simpa using h)

theorem filter_event_of_ne {e : Event V} {id : Nat} (h : e.task? ≠ some id) (es : List (Event V)) :
    (e :: es).filter (·.task? = some id) = es.filter (·.task? = some id) :=
  List.filter_cons_of_neg (by simpa using h)

theorem filter_errand (e : Errand) {id : Nat} (h : e.id = id) (es : Multiset Errand) :
    (e ::ₘ es).filter (·.id = id) = e ::ₘ es.filter (·.id = id) := Multiset.filter_cons_of_pos es h

theorem filter_errand_of_ne (e : Errand) {id : Nat} (h : e.id ≠ id) (es : Multiset Errand) :
    (e ::ₘ es).filter (·.id = id) = es.filter (·.id = id) := Multiset.filter_cons_of_neg es h

namespace Dispatcher

variable {bh : Behaviour W B V} {d : Dispatcher W B V} {id id' : Nat}

theorem cells_modifyCell_of_ne (h : id' ≠ id) (f : Cell B V → Cell B V) : (d.modifyCell id' f).cells[id]? = d.cells[id]? :=
  List.getElem?_modify_ne f d.cells h

theorem cells_modifyCell {c : Cell B V} (h : d.cells[id]? = some c) (f : Cell B V → Cell B V) :
    (d.modifyCell id f).cells[id]? = some (f c) := by
  have hmodify := List.getElem?_modify_eq f id d.cells
  rw [h] at hmodify
  exact hmodify

theorem strand_modifyCell_of_ne (h : id' ≠ id) (f : Cell B V → Cell B V) : (d.modifyCell id' f).strand id = d.strand id :=
  Strand.ext (cells_modifyCell_of_ne h f) rfl rfl rfl rfl

theorem strand_plan_of_ne {chores : List Chore} (h : ∀ chore ∈ chores, chore.task? ≠ some id) :
    (d.plan chores).strand id = d.strand id := by
  have hnone : chores.filter (·.task? = some id) = [] :=
    List.filter_eq_nil_iff.2 fun chore hchore => by simpa using h chore hchore
  refine Strand.ext rfl ?_ rfl rfl rfl
  show (chores ++ d.agenda).filter _ = _
  rw [List.filter_append, hnone]
  rfl

theorem strand_log_of_ne {e : Event V} (h : e.task? ≠ some id) : (d.log e).strand id = d.strand id :=
  Strand.ext rfl rfl rfl rfl (filter_event_of_ne h _)

theorem strand_crew {crew : Crew Errand} (h : crew.hand.filter (·.id = id) = d.crew.hand.filter (·.id = id)) :
    ({ d with crew } : Dispatcher W B V).strand id = d.strand id :=
  Strand.ext rfl rfl rfl h rfl

theorem strand_of_agenda {chore : Chore} {rest : List Chore} (h : d.agenda = chore :: rest)
    (hchore : chore.task? = some id) : d.strand id = { ({ d with agenda := rest } : Dispatcher W B V).strand id with
      chores := chore :: (({ d with agenda := rest } : Dispatcher W B V).strand id).chores } :=
  Strand.ext rfl (by show d.agenda.filter _ = _; rw [h, filter_chore hchore]; rfl) rfl rfl rfl

theorem strand_of_agenda_of_ne {chore : Chore} {rest : List Chore} (h : d.agenda = chore :: rest)
    (hchore : chore.task? ≠ some id) : d.strand id = ({ d with agenda := rest } : Dispatcher W B V).strand id :=
  Strand.ext rfl (by show d.agenda.filter _ = _; rw [h, filter_chore_of_ne hchore]; rfl) rfl rfl rfl

end Dispatcher
end BitmapWorks
