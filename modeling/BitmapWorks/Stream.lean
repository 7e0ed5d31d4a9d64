import BitmapWorks.Bytes
/-!
# Stream — bytes that go out and come in piece by piece

The other side decides how much of an offer it takes and how long the pieces are that it hands out, and it may fail or
be interrupted at any call.  Its decisions are a script, one reply for each call.  `Destination.writeAll` repeats an
offer until all of it is taken; `Source.next` asks for the next piece.
-/
namespace BitmapWorks

/-! ## Going out -/

inductive WriteFault where
  /-- The operating system gives an error number. -/
  | errno (n : Int)
  /-- The destination takes nothing of an offer. -/
  | nothingTaken
  deriving DecidableEq, Repr

inductive WriteReply where
  /-- It takes at most so many bytes. -/
  | takes (most : Nat)
  /-- The call is interrupted and has to be made again. -/
  | interrupted
  /-- The call fails. -/
  | fails (errno : Int)
  deriving DecidableEq, Repr

/-- A destination: its replies to come, what it takes of an offer when they are used up (`none`: everything), how it
answers a flush, and what it has got so far. -/
structure Destination where
  replies : List WriteReply
  most : Option Nat
  flushFault : Option WriteFault
  received : Array UInt8
  sizes : Array Nat
  flushes : Nat
  deriving Repr

namespace Destination

def scripted (replies : List WriteReply) (most : Option Nat) : Destination := ⟨replies, most, none, #[], #[], 0⟩

def unlimited : Destination := scripted [] none

def take (d : Destination) (bs : Bytes) : Destination :=
  { d with received := d.received.appendList bs, sizes := d.sizes.push bs.length }

def cut : Option Nat → Bytes → Bytes × Bytes
  | none, bs => (bs, [])
  | some most, bs => (bs.take most, bs.drop most)

theorem length_cut (most : Option Nat) (bs : Bytes) : (cut most bs).1.length + (cut most bs).2.length = bs.length := by
  cases most with
  | none => simp [cut]
  | some n =>
    simp only [cut, List.length_take, List.length_drop]
    omega

/-- Offers bytes until all of them are taken: the destination afterwards, and why it stopped early if it did. -/
def writeAll (d : Destination) (bs : Bytes) : Destination × Option WriteFault :=
  if bs.isEmpty then (d, none)
  else match _h : d.replies with
    | .interrupted :: rest => writeAll { d with replies := rest } bs
    | .fails n :: rest => ({ d with replies := rest }, some (.errno n))
    | .takes most :: rest =>
      let parts := cut (some most) bs
      let d' := ({ d with replies := rest } : Destination).take parts.1
      if parts.1.isEmpty then (d', some .nothingTaken) else writeAll d' parts.2
    | [] =>
      let parts := cut d.most bs
      if _h' : parts.1.isEmpty then (d.take parts.1, some .nothingTaken) else writeAll (d.take parts.1) parts.2
termination_by d.replies.length + bs.length
decreasing_by
  · simp [_h]
  · have := length_cut (some most) bs
    simp only [take, _h, List.length_cons]
    omega
  · have := length_cut d.most bs
    have h : ¬(cut d.most bs).1.length = 0 := fun h0 => _h' (List.isEmpty_iff_length_eq_zero.2 h0)
    simp only [take]
    omega

def writePieces (d : Destination) : List Bytes → Destination × Option WriteFault
  | [] => (d, none)
  | piece :: rest =>
    match d.writeAll piece with
    | (d', none) => writePieces d' rest
    | stopped => stopped

def flush (d : Destination) : Destination × Option WriteFault := ({ d with flushes := d.flushes + 1 }, d.flushFault)

end Destination

/-! ## Coming in -/

inductive ReadReply where
  /-- The bytes that are there; no bytes are the end. -/
  | piece (bs : Bytes)
  /-- The call is interrupted and has to be made again. -/
  | interrupted
  /-- The call fails. -/
  | fails (errno : Int)
  deriving DecidableEq, Repr

/-- A source as its answers to come; when they are used up it is at its end. -/
abbrev Source := List ReadReply

namespace Source

def weight : Source → Nat
  | [] => 0
  | .piece bs :: rest => bs.length + 1 + weight rest
  | _ :: rest => 1 + weight rest

/-- Asks for at most `room + 1` bytes: the bytes, or an error number, and the source afterwards.  A piece that is longer
is handed out in parts. -/
def next (room : Nat) : Source → Except Int Bytes × Source
  | [] => (.ok [], [])
  | .interrupted :: rest => next room rest
  | .fails n :: rest => (.error n, rest)
  | .piece bs :: rest =>
    let behind := bs.drop (room + 1)
    (.ok (bs.take (room + 1)), if behind.isEmpty then rest else .piece behind :: rest)

theorem weight_next_lt (room : Nat) :
    ∀ s : Source, ∀ b bs s', next room s = (.ok (b :: bs), s') → weight s' < weight s
  | [], _, _, _, h => by simp [next] at h
  | .interrupted :: rest, b, bs, s', h => by
    have := weight_next_lt room rest b bs s' (by simpa [next] using h)
    simp only [weight]
    omega
  | .fails _ :: _, _, _, _, h => by simp [next] at h
  | .piece ps :: rest, b, bs, s', h => by
    simp only [next, Prod.mk.injEq, Except.ok.injEq] at h
    obtain ⟨h1, rfl⟩ := h
    have hl : 0 < ps.length := by
      cases ps with
      | nil => simp at h1
      | cons => simp
    split
    · simp only [weight]
      omega
    · simp only [weight, List.length_drop]
      omega

end Source
end BitmapWorks
