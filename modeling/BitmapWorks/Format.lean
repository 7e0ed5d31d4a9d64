import BitmapWorks.Fault
import BitmapWorks.Text.Quoted
/-!
# Format — the encodings of a bitmap and their names

Four binary formats, four text styles, and the formats of a file, which are all of these and plain words.  Every name
stands for at most one of each kind; `ofName` refuses what it does not know with the name in quotes.
-/
namespace BitmapWorks

/-! ## Binary formats -/

inductive Format where
  /-- A tag byte, then plain values or the portable layout, whichever is smaller. -/
  | tagged
  /-- The portable layout, read into a bitmap of its own. -/
  | portable
  /-- The native layout, used in place. -/
  | frozenNative
  /-- The portable layout, used in place. -/
  | frozenPortable
  deriving DecidableEq, Repr

namespace Format

def all : List Format := [tagged, portable, frozenNative, frozenPortable]

def name : Format → String
  | tagged => "croaring"
  | portable => "portable"
  | frozenNative => "unsafe_frozen_croaring"
  | frozenPortable => "unsafe_frozen_portable"

def label : Format → String
  | tagged => "Croaring"
  | portable => "Portable"
  | frozenNative => "UnsafeFrozenNative"
  | frozenPortable => "UnsafeFrozenPortable"

def frozenAlignment : Nat := 32

def alignment : Format → Nat
  | frozenNative => frozenAlignment
  | _ => 1

def isFrozen : Format → Bool
  | frozenNative | frozenPortable => true
  | _ => false

def ofName (name : String) : Except Fault Format :=
  match all.find? (·.name == name) with
  | some format => .ok format
  | none => .error (.argument ("invalid serialization format: " ++ Text.quote name))

def ofFlag : Bool → Format
  | true => portable
  | false => tagged

theorem mem_all (f : Format) : f ∈ all := by cases f <;> decide

theorem ofName_name (f : Format) : ofName f.name = .ok f := by cases f <;> rfl

end Format

inductive Selector where
  | name (name : String)
  | flag (portable : Bool)
  | format (format : Format)
  deriving DecidableEq, Repr

def Selector.resolve : Selector → Except Fault Format
  | .name n => Format.ofName n
  | .flag portable => .ok (Format.ofFlag portable)
  | .format f => .ok f

/-! ## Text styles -/

inductive TextStyle where
  | lines
  | commas
  | tabs
  | jsonArray
  deriving DecidableEq, Repr

namespace TextStyle

def all : List TextStyle := [lines, commas, tabs, jsonArray]

def name : TextStyle → String
  | lines => "newline_separated_values"
  | commas => "comma_separated_values"
  | tabs => "tab_separated_values"
  | jsonArray => "json_array"

def ofName (name : String) : Except Fault TextStyle :=
  match all.find? (·.name == name) with
  | some style => .ok style
  | none => .error (.argument ("invalid text format: " ++ Text.quote name))

theorem mem_all (s : TextStyle) : s ∈ all := by cases s <;> decide

theorem ofName_name (s : TextStyle) : ofName s.name = .ok s := by cases s <;> rfl

end TextStyle

/-! ## File formats -/

inductive FileFormat where
  | binary (format : Format)
  | words
  | text (style : TextStyle)
  deriving DecidableEq, Repr

namespace FileFormat

def all : List FileFormat := Format.all.map binary ++ [words] ++ TextStyle.all.map text

def name : FileFormat → String
  | binary format => format.name
  | words => "uint32_array"
  | text style => style.name

def ofName (name : String) : Except Fault FileFormat :=
  match all.find? (·.name == name) with
  | some format => .ok format
  | none => .error (.argument ("invalid file format: " ++ Text.quote name))

theorem ofName_name (f : FileFormat) : ofName f.name = .ok f := by
  cases f with
  | binary f => cases f <;> rfl
  | words => rfl
  | text s => cases s <;> rfl

end FileFormat
end BitmapWorks
