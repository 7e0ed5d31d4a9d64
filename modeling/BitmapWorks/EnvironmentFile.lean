import BitmapWorks.Environment
/-!
# EnvironmentFile — variables defined line by line

A line is `KEY=VALUE`, perhaps behind the word `export` and with blanks around the equals sign.  A value stands bare,
between apostrophes, where every character is itself, or between quotes; in the latter and in bare values a backslash
escapes, and a dollar sign puts in the value of another variable.  A number sign starts a comment at the start of a line
or behind a blank.  Quotes and a backslash at the end let a line go on behind its end.

`lines` cuts a text into such lines, `parseLine` reads one, and `load` defines the variables.
-/
namespace BitmapWorks
namespace EnvironmentFile

/-! ## Lines -/

inductive Within where
  | plain
  | blank
  | escape
  | strong
  | strongEscape
  | weak
  | weakEscape
  | comment
  deriving DecidableEq, Repr

def opened (c : Char) : Within :=
  if c = '\\' then .escape else if c = '\x22' then .weak else if c = '\x27' then .strong else .plain

def Within.next (c : Char) : Within → Within
  | .blank => if c = '#' then .comment else opened c
  | .plain => if Text.isBlank c && c != '\n' && c != '\r' then .blank else opened c
  | .escape => .plain
  | .weak => if c = '\\' then .weakEscape else if c = '\x22' then .plain else .weak
  | .weakEscape => .weak
  | .strong => if c = '\\' then .strongEscape else if c = '\x27' then .plain else .strong
  | .strongEscape => .strong
  | .comment => .comment

/-- Reads the characters of one physical line: what comes before a comment, and what the line is in the middle of at
its end. -/
def scan : Within → List Char → List Char → List Char × Within
  | w, [], read => (read, w)
  | w, c :: cs, read =>
    match w.next c with
    | .comment => (read, .comment)
    | w' => scan w' cs (c :: read)

def physicalLines : List Char → List Char → List (List Char)
  | [], [] => []
  | [], line => [line.reverse]
  | '\n' :: cs, line => ('\n' :: line).reverse :: physicalLines cs []
  | c :: cs, line => physicalLines cs (c :: line)

def chomp (reversed : List Char) : List Char :=
  match reversed with
  | '\n' :: '\r' :: rest => rest.reverse
  | '\n' :: rest => rest.reverse
  | _ => reversed.reverse

/-- Puts physical lines together; `none` stands for a line that has no end. -/
def assemble : Within → List Char → List (List Char) → List (Option (List Char))
  | .plain, [], [] => []
  | w, _, [] => if w = .plain then [] else [none]
  | w, read, l :: ls =>
    if (Text.trimFront (read.reverse ++ l)).head? = some '#' then some [] :: assemble .plain [] ls
    else match scan w l read with
      | (read', .plain) => some (chomp read') :: assemble .plain [] ls
      | (read', .comment) => some read'.reverse :: assemble .plain [] ls
      | (read', w') => assemble w' read' ls

def lines (text : List Char) : List (Option (List Char)) := assemble .plain [] (physicalLines text [])

/-! ## Values -/

/-- A value that is being read: what has come of it (newest first), what the reader is in the middle of, and the name
behind a dollar sign. -/
inductive Reading where
  | plain
  | ended
  | escape (weak : Bool)
  | strong
  | weak
  /-- Behind a dollar sign. -/
  | name (weak : Bool)
  /-- Between braces behind a dollar sign. -/
  | braced (weak : Bool)
  deriving DecidableEq, Repr

def substitute (env : Environment) (earlier : List (String × String)) (name : List Char) : List Char :=
  let key := String.ofList name.reverse
  match env.text? key with
  | some text => text.toList
  | none => ((earlier.find? (·.1 == key)).map Prod.snd).getD "" |>.toList

def outside (weak : Bool) : Reading := if weak then .weak else .plain

/-- Reads a value; `read` is what has come of it and `name` the name at hand, both newest first. -/
def value? (env : Environment) (earlier : List (String × String)) :
    Reading → List Char → List Char → List Char → Option (List Char)
  | .strong, [], _, _ | .weak, [], _, _ | .braced _, [], _, _ | .escape true, [], _, _ | .name true, [], _, _ => none
  | _, [], read, name => some ((substitute env earlier name).reverse ++ read).reverse
  | .ended, c :: cs, read, name =>
    if c = ' ' || c = '\t' then value? env earlier .ended cs read name
    else if c = '#' then some ((substitute env earlier name).reverse ++ read).reverse else none
  | .escape weak, c :: cs, read, name =>
    if c = '\\' || c = '\x27' || c = '\x22' || c = '$' || c = ' ' then
      value? env earlier (outside weak) cs (c :: read) name
    else if c = 'n' then value? env earlier (outside weak) cs ('\n' :: read) name
    else none
  | .strong, c :: cs, read, name =>
    if c = '\x27' then value? env earlier .plain cs read name else value? env earlier .strong cs (c :: read) name
  | .name weak, c :: cs, read, name =>
    if c.isAlphanum then value? env earlier (.name weak) cs read (c :: name)
    else if c = '\x7b' && name.isEmpty then value? env earlier (.braced weak) cs read []
    else
      let read := (substitute env earlier name).reverse ++ read
      if c = '$' then value? env earlier (.name weak) cs read []
      else value? env earlier (outside weak) cs (c :: read) []
  | .braced weak, c :: cs, read, name =>
    if c = '\x7d' then value? env earlier (outside weak) cs ((substitute env earlier name).reverse ++ read) []
    else value? env earlier (.braced weak) cs read (c :: name)
  | .weak, c :: cs, read, name =>
    if c = '$' then value? env earlier (.name true) cs read name
    else if c = '\x22' then value? env earlier .plain cs read name
    else if c = '\\' then value? env earlier (.escape true) cs read name
    else value? env earlier .weak cs (c :: read) name
  | .plain, c :: cs, read, name =>
    if c = '$' then value? env earlier (.name false) cs read name
    else if c = '\x27' then value? env earlier .strong cs read name
    else if c = '\x22' then value? env earlier .weak cs read name
    else if c = '\\' then value? env earlier (.escape false) cs read name
    else if c = ' ' || c = '\t' then value? env earlier .ended cs read name
    else value? env earlier .plain cs (c :: read) name

/-! ## Definitions -/

inductive Line where
  | nothing
  | define (key value : String)
  | malformed
  deriving DecidableEq, Repr

def isKeyStart (c : Char) : Bool := c.isAlpha || c == '_'
def isKeyChar (c : Char) : Bool := c.isAlphanum || c == '_' || c == '.'

def key? (cs : List Char) : Option (List Char × List Char) :=
  match cs with
  | c :: _ => if isKeyStart c then some (cs.takeWhile isKeyChar, Text.trimFront (cs.dropWhile isKeyChar)) else none
  | [] => none

/-- A key and what stands behind its equals sign.  The word `export` is a key only if the sign follows it. -/
def definition? (cs : List Char) : Option (List Char × List Char) :=
  match key? cs with
  | none => none
  | some (key, '=' :: rest) => some (key, rest)
  | some (key, rest) =>
    if String.ofList key = "export" then
      match key? rest with
      | some (key, '=' :: rest) => some (key, rest)
      | _ => none
    else none

def parseLine (env : Environment) (earlier : List (String × String)) (line : List Char) : Line :=
  let cs := Text.trim line
  if cs.isEmpty || cs.head? == some '#' then .nothing
  else match definition? cs with
    | none => .malformed
    | some (key, rest) =>
      let rest := Text.trimFront rest
      if rest.isEmpty || rest.head? == some '#' then .define (String.ofList key) ""
      else match value? env earlier .plain rest [] [] with
        | some value => .define (String.ofList key) (String.ofList value)
        | none => .malformed

/-- Defines the variables of lines one by one, until a line is malformed. -/
def define : Environment → List (String × String) → List (Option (List Char)) → Environment
  | env, _, [] => env
  | env, _, none :: _ => env
  | env, earlier, some line :: rest =>
    match parseLine env earlier line with
    | .nothing => define env earlier rest
    | .malformed => env
    | .define key value =>
      let env := if (env.text? key).isSome then env else env.set key value
      define env ((key, value) :: earlier) rest

def byteOrderMark : Char := '\ufeff'

def load (env : Environment) (text : String) : Environment :=
  let cs := text.toList
  define env [] (lines (if cs.head? = some byteOrderMark then cs.tail else cs))

end EnvironmentFile
end BitmapWorks
