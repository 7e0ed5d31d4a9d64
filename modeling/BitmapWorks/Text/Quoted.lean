import BitmapWorks.Text.Unprintable
/-!
# Quoted — a text between double quotes, as error messages show it

Quotes, backslashes and the usual control characters get a backslash, unprintable characters their code point in
braces, and everything else stands for itself.  `quoteBytes` shows a byte string that need not be text: what is not
UTF-8 appears byte by byte.
-/
namespace BitmapWorks
namespace Text

def hex (n : Nat) : List Char := Nat.toDigits 16 n

def escape (c : Char) : List Char :=
  if c = '\x00' then ['\\', '0']
  else if c = '\t' then ['\\', 't']
  else if c = '\r' then ['\\', 'r']
  else if c = '\n' then ['\\', 'n']
  else if c = '"' || c = '\\' then ['\\', c]
  else if isUnprintable c then ['\\', 'u', '\x7b'] ++ hex c.toNat ++ ['\x7d']
  else [c]

def quote (s : String) : String := String.ofList ('"' :: s.toList.flatMap escape ++ ['"'])

/-! ## Byte strings -/

/-- The character that a byte string starts with in UTF-8 and how many bytes it takes, if there is one. -/
def firstChar? (bs : List UInt8) : Option (Char × Nat) :=
  let tails (n : Nat) : Option (List Nat) :=
    let more := (bs.drop 1).take n
    if more.length = n ∧ more.all (fun b => b.toNat / 64 == 2) then some (more.map fun b => b.toNat % 64) else none
  let char (n least : Nat) (lead : Nat) : Option (Char × Nat) := do
    let point := (← tails n).foldl (fun acc t => acc * 64 + t) lead
    if least ≤ point ∧ point.isValidChar then some (Char.ofNat point, n + 1) else none
  match bs with
  | [] => none
  | b :: _ =>
    let lead := b.toNat
    if lead < 0x80 then some (Char.ofNat lead, 1)
    else if lead < 0xC0 then none
    else if lead < 0xE0 then char 1 0x80 (lead % 32)
    else if lead < 0xF0 then char 2 0x800 (lead % 16)
    else if lead < 0xF8 then char 3 0x10000 (lead % 8)
    else none

/-- A byte string cut into characters and the bytes between them that belong to none. -/
def charsAndBytes : List UInt8 → List (Char ⊕ UInt8)
  | [] => []
  | b :: rest =>
    match firstChar? (b :: rest) with
    | some (c, n) => .inl c :: charsAndBytes (rest.drop (n - 1))
    | none => .inr b :: charsAndBytes rest
termination_by bs => bs.length
decreasing_by
  · simp only [List.length_drop, List.length_cons]
    omega
  · simp

def ofUtf8? (bs : List UInt8) : Option String :=
  (charsAndBytes bs).foldr (fun part text => match part, text with
    | .inl c, some cs => some (c :: cs)
    | _, _ => none) (some []) |>.map String.ofList

def escapeByte (b : UInt8) : List Char :=
  let digit (n : Nat) : Char := (Nat.digitChar n).toUpper
  ['\\', 'x', digit (b.toNat / 16), digit (b.toNat % 16)]

/-- A byte string in quotes.  Here an apostrophe gets a backslash too. -/
def quoteBytes (bs : List UInt8) : String :=
  let shown := (charsAndBytes bs).flatMap fun part => match part with
    | .inl c => if c = '\x27' then ['\\', c] else escape c
    | .inr b => escapeByte b
  String.ofList ('"' :: shown ++ ['"'])

end Text
end BitmapWorks
