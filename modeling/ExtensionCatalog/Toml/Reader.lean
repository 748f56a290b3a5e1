import ExtensionCatalog.Toml.DateTime
import ExtensionCatalog.Toml.Number
import ExtensionCatalog.Toml.Quoted
import ExtensionCatalog.Toml.Table

/-!
# Reading TOML documents (spec §B.3)

A document is read line by line, after one byte order mark at most. Each reader
takes a text and gives what it read and the rest of the text, or refuses.

* `Table.parse?` — the tables of a document.
-/

namespace ExtensionCatalog.Toml

/-! ### Keys -/

/-- The characters of keys without quotes. -/
def isBare (c : Char) : Bool :=
  c.isAlphanum || c = '-' || c = '_'

/-- One part of a key. -/
def keyPart (s : List Char) : Option (String × List Char) :=
  match quotedLine s with
  | some part => some part
  | none =>
    let bare := s.takeWhile isBare
    if bare = [] then none else some (String.ofList bare, s.drop bare.length)

/-- The parts of a key, at most `limit` of them: the path before the last one,
and the last one. -/
def key : (limit : Nat) → List Char → Option ((List String × String) × List Char)
  | 0, _ => none
  | limit + 1, s => do
    let (part, rest) ← keyPart (skipSpace s)
    match skipSpace rest with
    | '.' :: rest =>
      let ((path, last), rest) ← key limit rest
      return ((part :: path, last), rest)
    | rest => return (([], part), rest)

/-- No key has more parts, and no value is nested more deeply. -/
def nestingLimit : Nat := 79

/-! ### Words -/

/-- The characters of numbers, truth values, dates and times. -/
def isWordChar (c : Char) : Bool :=
  c.isAlphanum || c = '+' || c = '-' || c = '_' || c = '.' || c = ':'

/-- The value of a word. -/
def word? (w : List Char) : Option Value :=
  if w = "true".toList then some (.boolean true)
  else if w = "false".toList then some (.boolean false)
  else if isDateTime w then some (.dateTime (String.ofList w))
  else match integer? w with
    | some i => some (.integer i)
    | none => if isFloat w then some (.float (String.ofList w)) else none

/-- The value of a word, or of two words that are a date and a time. -/
def word (s : List Char) : Option (Value × List Char) :=
  let w := s.takeWhile isWordChar
  let rest := s.drop w.length
  match rest with
  | ' ' :: c :: more =>
    if dropDate w = some [] ∧ c.isDigit then
      let time := (c :: more).takeWhile isWordChar
      if isOffsetTime time then
        some (.dateTime (String.ofList (w ++ ' ' :: time)), (c :: more).drop time.length)
      else none
    else (word? w).map (·, rest)
  | _ => (word? w).map (·, rest)

/-! ### Values

A container is read with a reader `value` for what is inside it. -/

section Containers

variable (value : List Char → Option (Value × List Char))

/-- The items of an array, after its bracket or a comma; blanks, line ends and
comments may stand around each, and a comma after the last. The text holds at
most `fuel` items. -/
def items : (fuel : Nat) → List Char → Option (List Value × List Char)
  | 0, _ => none
  | fuel + 1, s =>
    match skipBlank false s with
    | ']' :: rest => some ([], rest)
    | s => do
      let (v, rest) ← value s
      match skipBlank false rest with
      | ',' :: rest =>
        let (vs, rest) ← items fuel rest
        return (v :: vs, rest)
      | ']' :: rest => return ([v], rest)
      | _ => none

/-- A key, an equals sign and a value. -/
def pair (s : List Char) : Option ((List String × String × Value) × List Char) := do
  let ((path, last), rest) ← key nestingLimit s
  match rest with
  | '=' :: rest =>
    let (v, rest) ← value (skipSpace rest)
    return ((path, last, v), rest)
  | _ => none

/-- The pairs of an inline table, the first or after a comma. The text holds at
most `fuel` pairs. -/
def pairs : (fuel : Nat) → List Char →
    Option (List (List String × String × Value) × List Char)
  | 0, _ => none
  | fuel + 1, s => do
    let (p, rest) ← pair value s
    match skipSpace rest with
    | ',' :: rest =>
      let (ps, rest) ← pairs fuel rest
      return (p :: ps, rest)
    | '}' :: rest => return ([p], rest)
    | _ => none

/-- An inline table, after its brace. -/
def inlineTable (s : List Char) : Option (Value × List Char) :=
  match skipSpace s with
  | '}' :: rest => some (.table .inline [], rest)
  | s => do
    let (ps, rest) ← pairs value s.length s
    return (← Value.ofPairs? ps, rest)

end Containers

/-- A value in which arrays and inline tables are nested at most `depth`
deep. -/
def value (depth : Nat) (s : List Char) : Option (Value × List Char) :=
  match s, depth with
  | '[' :: rest, depth + 1 =>
    (items (value depth) rest.length rest).map fun (vs, after) => (.array vs, after)
  | '{' :: rest, depth + 1 => inlineTable (value depth) rest
  | c :: rest, _ =>
    if c = '"' || c = '\'' then (quoted (c :: rest)).map fun (t, after) => (.string t, after)
    else word (c :: rest)
  | [], _ => none

/-! ### Lines -/

/-- What stands in a line before its end: a header between brackets, of an
array of tables between double ones, or a pair. -/
def line (s : List Char) : Option (Line × List Char) :=
  match s with
  | '[' :: '[' :: rest => do
    match ← key nestingLimit rest with
    | ((path, last), ']' :: ']' :: rest) => return (.elementHeader path last, rest)
    | _ => none
  | '[' :: rest => do
    match ← key nestingLimit rest with
    | ((path, last), ']' :: rest) => return (.header path last, rest)
    | _ => none
  | _ => do
    let ((path, last, v), rest) ← pair (value nestingLimit) s
    return (.pair path last v, rest)

/-- The lines of a text, of which it has at most `fuel`; blank lines and
comments hold nothing. -/
def lines : (fuel : Nat) → List Char → Option (List Line)
  | 0, _ => none
  | fuel + 1, s =>
    match skipSpace s with
    | [] => some []
    | c :: rest =>
      if c = '#' || c = '\n' || c = '\r' then do lines fuel (← endLine (c :: rest))
      else do
        let (l, rest) ← line (c :: rest)
        return l :: (← lines fuel (← endLine rest))

/-- The text without one byte order mark at its start. -/
def dropMark : List Char → List Char
  | '\uFEFF' :: rest => rest
  | s => s

/-- The tables of a document. -/
def Table.parse? (text : String) : Option Table := do
  let s := dropMark text.toList
  Table.ofLines? (← lines (s.length + 1) s)

end ExtensionCatalog.Toml
