/-!
# Json — texts of the interchange notation

A strict reader: one value, blanks around it, and nothing else.  Strings may name half of a surrogate pair alone, which
is no text; such a string reads as `none`.  Numbers are kept as they are spelled, since most readers of a number want it
exactly or not at all.
-/
namespace BitmapWorks

inductive Json where
  | null
  | bool (b : Bool)
  | number (spelling : List Char)
  | string (text : Option String)
  | array (items : List Json)
  | object (members : List (Option String × Json))

namespace Json

/-! ## Leaves -/

def isBlank (c : Char) : Bool := c == ' ' || c == '\t' || c == '\n' || c == '\r'

def skipBlanks (cs : List Char) : List Char := cs.dropWhile isBlank

def behind? : List Char → List Char → Option (List Char)
  | [], cs => some cs
  | w :: ws, c :: cs => if w = c then behind? ws cs else none
  | _ :: _, [] => none

def digits? (cs : List Char) : Option (List Char × List Char) :=
  match cs.takeWhile Char.isDigit with
  | [] => none
  | ds => some (ds, cs.dropWhile Char.isDigit)

/-- The whole part of a number: a zero alone, or digits that start with another one. -/
def whole? (cs : List Char) : Option (List Char × List Char) :=
  match digits? cs with
  | some ('0' :: _ :: _, _) => none
  | other => other

/-- The fraction of a number, if there is one; `none` if its digits are missing. -/
def fraction? : List Char → Option (List Char × List Char)
  | '.' :: cs => (digits? cs).map fun (ds, rest) => ('.' :: ds, rest)
  | cs => some ([], cs)

def exponent? : List Char → Option (List Char × List Char)
  | e :: cs =>
    if e = 'e' || e = 'E' then
      match cs with
      | s :: cs' =>
        if s = '+' || s = '-' then (digits? cs').map fun (ds, rest) => (e :: s :: ds, rest)
        else (digits? cs).map fun (ds, rest) => (e :: ds, rest)
      | [] => none
    else some ([], e :: cs)
  | [] => some ([], [])

def number? (cs : List Char) : Option (List Char × List Char) := do
  let (sign, cs) := match cs with
    | '-' :: rest => (['-'], rest)
    | _ => ([], cs)
  let (w, cs) ← whole? cs
  let (f, cs) ← fraction? cs
  let (e, cs) ← exponent? cs
  return (sign ++ w ++ f ++ e, cs)

/-! ## Strings -/

def hexValue? (c : Char) : Option Nat :=
  if '0' ≤ c ∧ c ≤ '9' then some (c.toNat - 48)
  else if 'a' ≤ c ∧ c ≤ 'f' then some (c.toNat - 87)
  else if 'A' ≤ c ∧ c ≤ 'F' then some (c.toNat - 55)
  else none

def unit? : List Char → Option (Nat × List Char)
  | a :: b :: c :: d :: rest => do
    let (a, b, c, d) := (← hexValue? a, ← hexValue? b, ← hexValue? c, ← hexValue? d)
    return (((a * 16 + b) * 16 + c) * 16 + d, rest)
  | _ => none

def plainEscape? : Char → Option Char
  | '"' => some '"'
  | '\\' => some '\\'
  | '/' => some '/'
  | 'b' => some '\x08'
  | 'f' => some '\x0c'
  | 'n' => some '\n'
  | 'r' => some '\r'
  | 't' => some '\t'
  | _ => none

/-- The 16-bit units of a string up to its closing quote, in front of which those before stand (newest first). -/
def units? : Nat → List Char → List (Char ⊕ Nat) → Option (List (Char ⊕ Nat) × List Char)
  | 0, _, _ => none
  | fuel + 1, cs, read =>
    match cs with
    | '"' :: rest => some (read.reverse, rest)
    | '\\' :: 'u' :: rest =>
      match unit? rest with
      | some (u, rest) => units? fuel rest (.inr u :: read)
      | none => none
    | '\\' :: c :: rest =>
      match plainEscape? c with
      | some c => units? fuel rest (.inl c :: read)
      | none => none
    | c :: rest => if c.toNat < 0x20 || c = '\\' then none else units? fuel rest (.inl c :: read)
    | [] => none

/-- The text of characters and 16-bit units; `none` if half of a surrogate pair stands alone. -/
def textOf? : List (Char ⊕ Nat) → Option (List Char)
  | [] => some []
  | .inl c :: rest => (textOf? rest).map (c :: ·)
  | .inr u :: .inr v :: rest =>
    if 0xD800 ≤ u ∧ u < 0xDC00 ∧ 0xDC00 ≤ v ∧ v < 0xE000 then
      (textOf? rest).map (Char.ofNat (0x10000 + (u - 0xD800) * 0x400 + (v - 0xDC00)) :: ·)
    else if 0xD800 ≤ u ∧ u < 0xE000 then none
    else (textOf? (.inr v :: rest)).map (Char.ofNat u :: ·)
  | .inr u :: rest => if 0xD800 ≤ u ∧ u < 0xE000 then none else (textOf? rest).map (Char.ofNat u :: ·)

def string? (cs : List Char) : Option (Option String × List Char) :=
  (units? (cs.length + 1) cs []).map fun (us, rest) => ((textOf? us).map String.ofList, rest)

/-! ## Values -/

mutual

/-- A value from the front; `fuel` bounds the steps. -/
def value? : Nat → List Char → Option (Json × List Char)
  | 0, _ => none
  | fuel + 1, cs =>
    match cs with
    | '"' :: rest => (string? rest).map fun (t, rest) => (string t, rest)
    | '[' :: rest =>
      match skipBlanks rest with
      | ']' :: rest => some (array [], rest)
      | rest => items? fuel rest []
    | '\x7b' :: rest =>
      match skipBlanks rest with
      | '\x7d' :: rest => some (object [], rest)
      | rest => members? fuel rest []
    | 'n' :: _ => (behind? ['n', 'u', 'l', 'l'] cs).map fun rest => (null, rest)
    | 't' :: _ => (behind? ['t', 'r', 'u', 'e'] cs).map fun rest => (bool true, rest)
    | 'f' :: _ => (behind? ['f', 'a', 'l', 's', 'e'] cs).map fun rest => (bool false, rest)
    | _ => (number? cs).map fun (n, rest) => (number n, rest)

/-- The items of an array from one on, behind those read before (newest first). -/
def items? : Nat → List Char → List Json → Option (Json × List Char)
  | 0, _, _ => none
  | fuel + 1, cs, read =>
    match value? fuel (skipBlanks cs) with
    | none => none
    | some (v, rest) =>
      match skipBlanks rest with
      | ',' :: rest => items? fuel rest (v :: read)
      | ']' :: rest => some (array (v :: read).reverse, rest)
      | _ => none

def members? : Nat → List Char → List (Option String × Json) → Option (Json × List Char)
  | 0, _, _ => none
  | fuel + 1, cs, read =>
    match skipBlanks cs with
    | '"' :: rest =>
      match string? rest with
      | none => none
      | some (key, rest) =>
        match skipBlanks rest with
        | ':' :: rest =>
          match value? fuel (skipBlanks rest) with
          | none => none
          | some (v, rest) =>
            match skipBlanks rest with
            | ',' :: rest => members? fuel rest ((key, v) :: read)
            | '\x7d' :: rest => some (object ((key, v) :: read).reverse, rest)
            | _ => none
        | _ => none
    | _ => none

end

/-- The value of a text, if it is one value with blanks around it. -/
def parse? (text : String) : Option Json :=
  let cs := text.toList
  match value? (2 * cs.length + 2) (skipBlanks cs) with
  | some (v, rest) => if (skipBlanks rest).isEmpty then some v else none
  | none => none

/-! ## Reading values -/

/-- The number that a spelling stands for, if it is made of digits alone and is below the limit. -/
def natBelow? (limit : Nat) : Json → Option Nat
  | number spelling =>
    if spelling.all Char.isDigit then
      let n := spelling.foldl (fun n c => n * 10 + (c.toNat - 48)) 0
      if n < limit then some n else none
    else none
  | _ => none

/-- A name alone: a string, or an object with this single key and nothing behind it. -/
def name? : Json → Option String
  | string text => text
  | object [(key, null)] => key
  | _ => none

end Json
end BitmapWorks
