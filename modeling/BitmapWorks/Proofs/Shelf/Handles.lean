import BitmapWorks.Proofs.Bitmap.Members
import BitmapWorks.Proofs.Decoding.RoundTrip
import BitmapWorks.Proofs.Shelf.Slots
/-!
# Handles — requests to a shelf, and to the sets that it stands for

Handles and guards are given numbers in the order in which they are made (`Holders`).  A desk has the shelf with the
bitmaps (`Desk`).  The catalogue that it is compared with has finite sets instead, each with a mark whether it is used in
place, and counts nothing: a set is frozen if one of the guards that are alive is of it (`Catalogue`).
-/
namespace BitmapWorks

namespace Change

def onSet (s : Finset UInt32) : Change → Finset UInt32
  | add v => insert v s
  | addMany vs => s ∪ vs.toFinset
  | remove v => s.erase v
  | clear => ∅

def isNewTo (s : Finset UInt32) : Change → Bool
  | add v => decide (v ∉ s)
  | _ => false

variable {b : Bitmap}

/-- **A change of a bitmap is the change of its set of members.** -/
theorem apply_spec (hb : b.valid = true) (c : Change) :
    (c.apply b).valid = true ∧ (c.apply b).members = c.onSet b.members := by
  cases c with
  | add v => exact ⟨Bitmap.valid_add hb v, Bitmap.members_add hb v⟩
  | addMany vs => exact Bitmap.members_addMany hb vs
  | remove v => exact ⟨Bitmap.valid_remove hb v, Bitmap.members_remove hb v⟩
  | clear => exact ⟨rfl, Bitmap.members_empty⟩

theorem isNew_eq (hb : b.valid = true) (c : Change) : c.isNew b = c.isNewTo b.members := by
  cases c with
  | add v => simp [isNew, isNewTo, Bitmap.contains_eq_decide hb]
  | addMany vs => rfl
  | remove v => rfl
  | clear => rfl

end Change

/-! ## Holders -/

/-- Every handle and every guard that was made, with the number of its bitmap while it is alive. -/
structure Holders where
  handles : List (Option Nat)
  guards : List (Option Nat)
  deriving Repr

namespace Holders

def none : Holders := ⟨[], []⟩

def handle? (o : Holders) (h : Nat) : Option Nat := o.handles[h]?.join

def guard? (o : Holders) (g : Nat) : Option Nat := o.guards[g]?.join

def addHandle (o : Holders) (i : Nat) : Holders := { o with handles := o.handles ++ [some i] }

def addGuard (o : Holders) (i : Nat) : Holders := { o with guards := o.guards ++ [some i] }

def dropHandle (o : Holders) (h : Nat) : Holders := { o with handles := o.handles.set h Option.none }

def dropGuard (o : Holders) (g : Nat) : Holders := { o with guards := o.guards.set g Option.none }

end Holders

/-! ## Requests -/

/-- Where the bitmap of a new handle comes from: nowhere, a list of values, a bitmap, or a bitmap that was serialized
in a format that is used in place, with memory given at two addresses. -/
inductive Origin where
  | fresh
  | values (vs : List UInt32)
  | owned (b : Bitmap) (rules : b.valid = true)
  | view (b : Bitmap) (rules : b.valid = true) (f : Format) (inPlace : f.isFrozen = true) (base copyBase : Nat)

namespace Origin

def content : Origin → Except Fault Content
  | fresh => .ok (.owned .empty)
  | values vs => .ok (.owned (.ofList vs))
  | owned b _ => .ok (.owned b)
  | view b _ f _ base copyBase => do Decoding.decode copyBase (← Encoding.serialize base b f).visible f

def members : Origin → Finset UInt32
  | fresh => ∅
  | values vs => vs.toFinset
  | owned b _ => b.members
  | view b .. => b.members

def isView : Origin → Bool
  | view .. => true
  | _ => false

/-- Whether a layout that is looked at in place can say where the bodies start. -/
def Fits : Origin → Prop
  | view b _ f _ _ _ => f = .frozenPortable → Portable.addressable b = true
  | _ => True

end Origin

inductive Question where
  | contains (v : UInt32)
  | card
  | isEmpty
  | values
  | isView
  | isFrozen

inductive Desk.Request where
  | bring (o : Origin)
  | clone (h : Nat)
  | snapshot (h : Nat)
  | drop (h : Nat)
  | freeze (h : Nat)
  | unfreeze (g : Nat)
  | change (h : Nat) (c : Change)
  | ask (h : Nat) (q : Question)
  | same (h k : Nat)

def Desk.Request.Fits : Desk.Request → Prop
  | bring o => o.Fits
  | _ => True

/-- The answer to a request.  A handle or a guard that is not alive is `absent`. -/
inductive Answer where
  | absent
  | refused (fault : Fault)
  | handle (h : Nat)
  | guard (g : Nat)
  | dropped
  | changed (result : Except Fault Bool)
  | yes (b : Bool)
  | count (n : Nat)
  | listed (vs : List UInt32)
  | inPlace (b : Bool)

/-! ## The desk -/

def Slot.reply (t : Slot) : Question → Answer
  | .contains v => .yes (t.bitmap.contains v)
  | .card => .count t.bitmap.card
  | .isEmpty => .yes t.bitmap.isEmpty
  | .values => .listed t.bitmap.values
  | .isView => .inPlace t.content.isView
  | .isFrozen => .yes t.isFrozen

structure Desk where
  shelf : Shelf
  holders : Holders

namespace Desk

def empty : Desk := ⟨.empty, .none⟩

def look (d : Desk) (h : Nat) : Option (Nat × Slot) := do
  let i ← d.holders.handle? h
  return (i, ← d.shelf.get? i)

def place (d : Desk) (c : Content) : Answer × Desk :=
  let (i, shelf) := d.shelf.put c none
  (.handle d.holders.handles.length, ⟨shelf, d.holders.addHandle i⟩)

def step (d : Desk) : Desk.Request → Answer × Desk
  | .bring o =>
    match o.content with
    | .ok c => d.place c
    | .error fault => (.refused fault, d)
  | .clone h =>
    match d.look h with
    | some (i, _) => (.handle d.holders.handles.length, ⟨d.shelf.hold i, d.holders.addHandle i⟩)
    | none => (.absent, d)
  | .snapshot h =>
    match d.look h with
    | some (_, t) => d.place (.owned t.bitmap)
    | none => (.absent, d)
  | .drop h =>
    match d.holders.handle? h with
    | some i => (.dropped, ⟨(d.shelf.drop i).2, d.holders.dropHandle h⟩)
    | none => (.absent, d)
  | .freeze h =>
    match d.look h with
    | some (i, _) => (.guard d.holders.guards.length, ⟨d.shelf.freeze i, d.holders.addGuard i⟩)
    | none => (.absent, d)
  | .unfreeze g =>
    match d.holders.guard? g with
    | some i => (.dropped, ⟨(d.shelf.unfreeze i).2, d.holders.dropGuard g⟩)
    | none => (.absent, d)
  | .change h c =>
    match d.look h with
    | some (i, _) =>
      let (result, shelf) := d.shelf.change i c
      (.changed result, { d with shelf })
    | none => (.absent, d)
  | .ask h q =>
    match d.look h with
    | some (_, t) => (t.reply q, d)
    | none => (.absent, d)
  | .same h k =>
    match d.look h, d.look k with
    | some (i, _), some (j, _) => (.yes (d.shelf.same i j), d)
    | _, _ => (.absent, d)

def run (d : Desk) : List Desk.Request → List Answer × Desk
  | [] => ([], d)
  | q :: qs =>
    let (answer, d) := d.step q
    let (answers, d) := d.run qs
    (answer :: answers, d)

end Desk

/-! ## The catalogue -/

/-- A shared set, and whether it is looked at in place. -/
structure Entry where
  members : Finset UInt32
  isView : Bool

def Entry.reply (e : Entry) (frozen : Bool) : Question → Answer
  | .contains v => .yes (decide (v ∈ e.members))
  | .card => .count e.members.card
  | .isEmpty => .yes (decide (e.members = ∅))
  | .values => .listed (e.members.sort (· ≤ ·))
  | .isView => .inPlace e.isView
  | .isFrozen => .yes frozen

structure Catalogue where
  sets : List Entry
  holders : Holders

namespace Catalogue

def empty : Catalogue := ⟨[], .none⟩

def look (c : Catalogue) (h : Nat) : Option (Nat × Entry) := do
  let i ← c.holders.handle? h
  return (i, ← c.sets[i]?)

def isFrozen (c : Catalogue) (i : Nat) : Bool := decide (some i ∈ c.holders.guards)

def place (c : Catalogue) (e : Entry) : Answer × Catalogue :=
  (.handle c.holders.handles.length, ⟨c.sets ++ [e], c.holders.addHandle c.sets.length⟩)

def step (c : Catalogue) : Desk.Request → Answer × Catalogue
  | .bring o => c.place ⟨o.members, o.isView⟩
  | .clone h =>
    match c.look h with
    | some (i, _) => (.handle c.holders.handles.length, { c with holders := c.holders.addHandle i })
    | none => (.absent, c)
  | .snapshot h =>
    match c.look h with
    | some (_, e) => c.place ⟨e.members, false⟩
    | none => (.absent, c)
  | .drop h =>
    match c.holders.handle? h with
    | some _ => (.dropped, { c with holders := c.holders.dropHandle h })
    | none => (.absent, c)
  | .freeze h =>
    match c.look h with
    | some (i, _) => (.guard c.holders.guards.length, { c with holders := c.holders.addGuard i })
    | none => (.absent, c)
  | .unfreeze g =>
    match c.holders.guard? g with
    | some _ => (.dropped, { c with holders := c.holders.dropGuard g })
    | none => (.absent, c)
  | .change h x =>
    match c.look h with
    | some (i, e) =>
      if c.isFrozen i then (.changed (.error .frozen), c)
      else (.changed (.ok (x.isNewTo e.members)), { c with sets := c.sets.set i ⟨x.onSet e.members, false⟩ })
    | none => (.absent, c)
  | .ask h q =>
    match c.look h with
    | some (i, e) => (e.reply (c.isFrozen i) q, c)
    | none => (.absent, c)
  | .same h k =>
    match c.look h, c.look k with
    | some (_, e), some (_, e') => (.yes (decide (e.members = e'.members)), c)
    | _, _ => (.absent, c)

def run (c : Catalogue) : List Desk.Request → List Answer × Catalogue
  | [] => ([], c)
  | q :: qs =>
    let (answer, c) := c.step q
    let (answers, c) := c.run qs
    (answer :: answers, c)

end Catalogue

end BitmapWorks
