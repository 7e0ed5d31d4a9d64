import BitmapWorks.Bytes
import BitmapWorks.Settings
import BitmapWorks.Text.Blank
import BitmapWorks.Text.Quoted
/-!
# Environment — settings from variables

The environment gives byte strings names.  Each field of the settings has a variable, whose text is read as a number;
a variable that is not there leaves the default.  A value that is no text, or no number below the limit, is named in the
fault with its variable.
-/
namespace BitmapWorks

/-- Names with their values, the first of a name counting. -/
abbrev Environment := List (String × Bytes)

namespace Environment

def bytes? (env : Environment) (name : String) : Option Bytes := (env.find? (·.1 == name)).map Prod.snd

def text? (env : Environment) (name : String) : Option String := (env.bytes? name).bind Text.ofUtf8?

def set (env : Environment) (name : String) (value : String) : Environment :=
  (name, value.toUTF8.toList) :: env.filter (·.1 != name)

/-! ## Numbers -/

inductive NumberFault where
  | empty
  | badDigit
  | tooLarge
  deriving DecidableEq, Repr

def NumberFault.message : NumberFault → String
  | empty => "cannot parse integer from empty string"
  | badDigit => "invalid digit found in string"
  | tooLarge => "number too large to fit in target type"

/-- Reads digits behind a number; the first character that is no digit or leads to the limit is the fault. -/
def digitsBehind (limit : Nat) : Nat → List Char → Except NumberFault Nat
  | n, [] => .ok n
  | n, c :: cs =>
    if !c.isDigit then .error .badDigit
    else
      let m := n * 10 + (c.toNat - 48)
      if limit ≤ m then .error .tooLarge else digitsBehind limit m cs

/-- Reads a number below the limit: digits, perhaps behind a plus sign. -/
def number (limit : Nat) : List Char → Except NumberFault Nat
  | [] => .error .empty
  | ['+'] => .error .badDigit
  | '+' :: cs => digitsBehind limit 0 cs
  | cs => digitsBehind limit 0 cs

/-! ## Settings -/

def stem : String := "ROARING_OFFLOAD_"

def variableOf (f : SettingField) : String := stem ++ String.ofList (f.name.toList.map Char.toUpper)

def readField (env : Environment) (s : Settings) (f : SettingField) : Except String Settings :=
  let name := variableOf f
  match env.bytes? name with
  | none => .ok s
  | some bytes =>
    match Text.ofUtf8? bytes with
    | none =>
      .error ("cannot read " ++ name ++ ": environment variable was not valid unicode: " ++ Text.quoteBytes bytes)
    | some raw =>
      match number Settings.limit (Text.trim raw.toList) with
      | .ok n => .ok (s.set n f)
      | .error fault => .error ("invalid value for " ++ name ++ ": " ++ Text.quote raw ++ ": " ++ fault.message)

/-- The settings that the variables give, over the defaults of a machine. -/
def settings (processors : Nat) (env : Environment) : Except String Settings := do
  (← SettingField.all.foldlM (readField env) (Settings.defaults processors)).check

end Environment
end BitmapWorks
