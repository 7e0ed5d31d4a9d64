import BitmapWorks.Behaviour
import BitmapWorks.World
/-!
# Operation — bitmap work for a crew

The tasks of this library: encoding a bitmap into memory, a file or text, decoding bitmaps from bytes or a file, one or
many, and building a bitmap from values.  What a caller asks for is a request; preparing it resolves the names of formats
and gives the plan, and the tasks that read a bitmap freeze it until they are cleaned up.  Each call of the work fills a
slot with a product, and everything that is new in a product is charged.
-/
namespace BitmapWorks

/-- A buffer of a caller that is to be written to, and the bytes that it is charged with if an earlier task gave it. -/
structure Target where
  window : Window
  charge : Option Nat
  deriving Repr

instance : Coe Window Target := ⟨fun window => ⟨window, none⟩⟩

/-- What a caller asks for.  Bitmaps go by their number on the shelf. -/
inductive Request where
  | serialize (bitmap : Nat) (selector : Selector) (target : Option Target)
  | serializeFile (bitmap : Nat) (path format : String)
  | toText (bitmap : Nat) (style : String)
  | deserialize (bytes : Bytes) (selector : Selector)
  | deserializeFile (path format : String)
  | deserializeMany (inputs : List (Bytes × Selector)) (concurrency : Option Nat)
  | fromValues (values : List UInt32)
  deriving Repr

inductive Assignment where
  | serialize (bitmap : Nat) (format : Format) (target : Option Target)
  | save (bitmap : Nat) (path : String) (format : FileFormat)
  | render (bitmap : Nat) (style : TextStyle)
  | decode (bytes : Bytes) (format : Format)
  | load (path : String) (format : FileFormat)
  | decodeMany (items : List (Bytes × Format))
  | build (values : List UInt32)
  deriving Repr

inductive Product where
  | buffer (window : Window) (charge : Option Nat)
  | text (bytes : Bytes) (charge : Nat)
  | saved (bytes : Nat)
  /-- A handle of a bitmap on the shelf. -/
  | bitmap (number : Nat)
  | bitmaps (numbers : List Nat)
  deriving Repr

/-- The body of an operation: what is asked, what is to be done, the bitmap that is frozen for it, and the slots of the
products. -/
structure Operation where
  request : Request
  assignment : Option Assignment
  guarded : Option Nat
  slots : List (Option Product)
  deriving Repr

namespace Request

def bitmap? : Request → Option Nat
  | serialize i _ _ | serializeFile i _ _ | toText i _ => some i
  | _ => none

def charge? : Request → Option Nat
  | serialize _ _ (some target) => target.charge
  | _ => none

def spent : Request → Request
  | serialize i selector _ => serialize i selector none
  | r => r

def checkPath (path : String) : Except Fault Unit :=
  if path.isEmpty then .error (.argument "file path must not be empty") else .ok ()

def resolve : Request → Except Fault Assignment
  | serialize i selector target => return .serialize i (← selector.resolve) target
  | serializeFile i path format => do
    checkPath path
    return .save i path (← FileFormat.ofName format)
  | toText i style => return .render i (← TextStyle.ofName style)
  | deserialize bytes selector => return .decode bytes (← selector.resolve)
  | deserializeFile path format => do
    checkPath path
    return .load path (← FileFormat.ofName format)
  | deserializeMany inputs concurrency => do
    if concurrency = some 0 then throw (.argument "concurrency must be at least 1")
    return .decodeMany (← inputs.mapM fun (bytes, selector) => return (bytes, ← selector.resolve))
  | fromValues values => return .build values

end Request

namespace Assignment

def slots : Assignment → Nat
  | decodeMany items => items.length
  | _ => 1

end Assignment

def World.uncharge (w : World) : Option Nat → World
  | some bytes => w.discharge bytes
  | none => w

namespace Product

def release (w : World) : Product → World
  | buffer _ charge => w.uncharge charge
  | text _ charge => w.discharge charge
  | saved _ => w
  | bitmap i => w.letGo i
  | bitmaps is => is.foldl World.letGo w

end Product

namespace Operation

def ofRequest (r : Request) : Operation := ⟨r, none, none, []⟩

def ask (w : World) (r : Request) : World × Operation :=
  (match r.bitmap? with
    | some i => w.hold i
    | none => w, ofRequest r)

/-- Resolves the request, and freezes the bitmap that is read. -/
def prepare (w : World) (o : Operation) : Except Fault Unit × World × Operation :=
  match o.request.resolve with
  | .error fault => (.error fault, w, o)
  | .ok a =>
    let o := { o with assignment := some a, guarded := o.request.bitmap?, slots := List.replicate a.slots none }
    (.ok (), match o.guarded with
      | some i => w.freeze i
      | none => w, o)

def items (o : Operation) : Option Nat :=
  match o.request with
  | .deserializeMany inputs _ => some inputs.length
  | _ => none

def wanted (o : Operation) : Option Nat :=
  match o.request with
  | .deserializeMany _ concurrency => concurrency
  | _ => none

/-! ## The work -/

/-- The memory that grows to hold text which comes in pieces: it doubles when a piece does not fit, is large enough for
the piece, and never below eight bytes. -/
def grow (capacity length : Nat) : List Nat → Nat
  | [] => capacity
  | 0 :: rest => grow capacity length rest
  | piece :: rest =>
    let length := length + piece
    grow (if capacity < length then max (max (2 * capacity) length) 8 else capacity) length rest

def shelve (w : World) (c : Content) : Product × World × Nat :=
  let (i, w) := w.place c (some c.footprint)
  (.bitmap i, w, c.footprint)

def serializeInto (b : Bitmap) (f : Format) (target : Window) : Except Fault Window :=
  match Encoding.writeInto b f target.start target.visible with
  | (.error fault, _) => .error fault
  | (.ok written, bytes) => .ok ((target.write bytes).truncate written)

/-- Does one item of an assignment: the product or a fault, the world afterwards, and the bytes that are charged.  A
buffer that comes to be written to keeps its charge, and is dropped if that fails. -/
def perform (w : World) (item : Nat) : Assignment → Except Fault Product × World × Nat
  | .serialize i f none =>
    match Encoding.serialize 0 (w.bitmap i) f with
    | .error fault => (.error fault, w, 0)
    | .ok window => (.ok (.buffer window (some window.allocated)), w, window.allocated)
  | .serialize i f (some target) =>
    match serializeInto (w.bitmap i) f target.window with
    | .error fault => (.error fault, w.uncharge target.charge, 0)
    | .ok window => (.ok (.buffer window target.charge), w, 0)
  | .save i path f =>
    let (answer, files) := w.files.save (w.bitmap i) path f
    (Product.saved <$> answer, { w with files }, 0)
  | .render i style =>
    let pieces := Text.pieces style (w.bitmap i).values
    let capacity := grow 0 0 (pieces.map List.length)
    (.ok (.text pieces.flatten capacity), w, capacity)
  | .decode bytes f => store w (Decoding.decode 0 bytes f)
  | .load path f => store w (w.files.load path f)
  | .decodeMany items =>
    match items[item]? with
    | none => (.error (.internal "no such item"), w, 0)
    | some (bytes, f) => store w (Decoding.decode 0 bytes f)
  | .build values => store w (.ok (.owned (Bitmap.ofList values).optimize))
where
  /-- Puts contents on the shelf, if there are any. -/
  store (w : World) : Except Fault Content → Except Fault Product × World × Nat
    | .error fault => (.error fault, w, 0)
    | .ok c =>
      let (product, w, bytes) := shelve w c
      (.ok product, w, bytes)

/-- One call of the work; it uses the buffer up that came with the request. -/
def work (w : World) (o : Operation) (item : Nat) : Work World Operation :=
  match o.assignment with
  | none => ⟨w, o, 0, none, .failed (.internal "nothing is assigned")⟩
  | some a =>
    let request := o.request.spent
    match perform w item a with
    | (.error fault, w, _) => ⟨w, { o with request }, 0, none, .failed fault⟩
    | (.ok product, w, bytes) =>
      ⟨w, { o with request, slots := o.slots.set item (some product) }, Ledger.entry bytes, none, .done⟩

/-! ## The end -/

def cleanUp (w : World) (o : Operation) : World × Operation :=
  (match o.guarded with
    | some i => w.unfreeze i
    | none => w, { o with guarded := none })

def releaseAll (w : World) (slots : List (Option Product)) : World :=
  slots.foldl (fun w slot => match slot with
    | some product => product.release w
    | none => w) w

def dropRequest (w : World) (r : Request) : World :=
  (match r.bitmap? with
    | some i => w.letGo i
    | none => w).uncharge r.charge?

def discard (w : World) (o : Operation) : World :=
  let (w, o) := cleanUp w o
  releaseAll (dropRequest w o.request) o.slots

def missing : Request → Fault
  | .serialize _ _ _ => .internal "serialization produced no output"
  | .serializeFile _ _ _ => .internal "file was not written"
  | .toText _ _ => .internal "text was not rendered"
  | .fromValues _ => .internal "bitmap was not built"
  | _ => .internal "deserialization produced no bitmap"

/-- The bitmaps in the slots from a number on, or the fault of the first slot that has none. -/
def collect : Nat → List (Option Product) → Except Fault (List Nat)
  | _, [] => .ok []
  | n, some (.bitmap i) :: rest => (i :: ·) <$> collect (n + 1) rest
  | n, _ :: _ => .error (.internal ("item " ++ toString n ++ " was not decoded"))

/-- The result of an operation, and the world without what the body held besides. -/
def result (w : World) (o : Operation) : Except Fault Product × World :=
  let w := dropRequest w o.request
  match o.request with
  | .deserializeMany _ _ =>
    match collect 0 o.slots with
    | .ok is => (.ok (.bitmaps is), w)
    | .error fault => (.error fault, releaseAll w o.slots)
  | r =>
    match o.slots with
    | [some product] => (.ok product, w)
    | _ => (.error (missing r), w)

def behaviour : Behaviour World Operation Product where
  prepare := prepare
  items := items
  wanted := wanted
  ready _ _ _ := true
  work := work
  cleanUp w o := (false, cleanUp w o)
  result w o := let (answer, w) := result w o; (some answer, w)
  discard := discard
  release w v := v.release w
  credit := World.credit

end Operation
end BitmapWorks
