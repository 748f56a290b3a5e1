import ExtensionCatalog.Text.Hex
import ExtensionCatalog.Toml.Blank

/-!
# Quoted texts in TOML

A text between double quotes has escapes, one between single quotes has none.
Three quotes in a row open a text that may run over several lines; a line end
right after them is not part of it, and of the up to five quotes at its end the
last three close it.

The readers work on the text after the opening quotes and give the quoted text
and what follows the closing ones. They walk over the characters of an escape
one by one, `skip` of which are still to be passed over.
-/

namespace ExtensionCatalog.Toml

/-! ### Escapes -/

/-- The character of a code point in hexadecimal digits; none for a surrogate
or beyond the last code point. -/
def ofCode? (digits : List Char) : Option Char := do
  let values ← digits.mapM Text.hexValue?
  let n := values.foldl (fun n d => 16 * n + d) 0
  if n.isValidChar then some (Char.ofNat n) else none

/-- The character that is written by an escape, given the text after the
backslash, and the number of characters that the escape takes from it. -/
def escape? : List Char → Option (Char × Nat)
  | 'b' :: _ => some ('\x08', 1)
  | 't' :: _ => some ('\t', 1)
  | 'n' :: _ => some ('\n', 1)
  | 'f' :: _ => some ('\x0c', 1)
  | 'r' :: _ => some ('\r', 1)
  | '"' :: _ => some ('"', 1)
  | '\\' :: _ => some ('\\', 1)
  | 'u' :: rest =>
    if (rest.take 4).length = 4 then (ofCode? (rest.take 4)).map (·, 5) else none
  | 'U' :: rest =>
    if (rest.take 8).length = 8 then (ofCode? (rest.take 8)).map (·, 9) else none
  | _ => none

/-! ### Texts on one line -/

/-- A text between double quotes. -/
def basic (skip : Nat) : List Char → Option (List Char × List Char)
  | [] => none
  | c :: rest =>
    match skip with
    | n + 1 => basic n rest
    | 0 =>
      if c = '"' then some ([], rest)
      else if c = '\\' then do
        let (d, n) ← escape? rest
        let (s, after) ← basic n rest
        return (d :: s, after)
      else if isPlain c then do
        let (s, after) ← basic 0 rest
        return (c :: s, after)
      else none

/-- A text between single quotes. -/
def literal : List Char → Option (List Char × List Char)
  | [] => none
  | c :: rest =>
    if c = '\'' then some ([], rest)
    else if isPlain c then do
      let (s, after) ← literal rest
      return (c :: s, after)
    else none

/-! ### Texts on several lines -/

/-- The number of spaces, tabs and line ends that a text starts with. -/
def blankLength : List Char → Nat
  | [] => 0
  | c :: rest =>
    if isSpace c || c = '\n' || (c = '\r' && rest.head? = some '\n') then blankLength rest + 1
    else 0

/-- The length of what a backslash before it makes disappear: the rest of a
blank line and all blanks on the lines after it. -/
def continuation? (s : List Char) : Option Nat :=
  if (dropLineEnd (skipSpace s)).isSome then some (blankLength s) else none

/-- The quotes that belong to a text and what follows the closing ones, if
enough quotes stand here to close it. -/
def closing? (quote : Char) (s : List Char) : Option (List Char × List Char) :=
  let run := (s.takeWhile (· = quote)).length
  if run < 3 then none
  else
    let inside := min (run - 3) 2
    some (List.replicate inside quote, s.drop (inside + 3))

/-- A text between three double quotes. -/
def basicLines (skip : Nat) : List Char → Option (List Char × List Char)
  | [] => none
  | c :: rest =>
    match skip with
    | n + 1 => basicLines n rest
    | 0 =>
      match closing? '"' (c :: rest) with
      | some closed => some closed
      | none =>
        if c = '\\' then
          match continuation? rest with
          | some n => basicLines n rest
          | none => do
            let (d, n) ← escape? rest
            let (s, after) ← basicLines n rest
            return (d :: s, after)
        else if c = '\r' && rest.head? = some '\n' then basicLines 0 rest
        else if c = '\n' || isPlain c then do
          let (s, after) ← basicLines 0 rest
          return (c :: s, after)
        else none

/-- A text between three single quotes. -/
def literalLines : List Char → Option (List Char × List Char)
  | [] => none
  | c :: rest =>
    match closing? '\'' (c :: rest) with
    | some closed => some closed
    | none =>
      if c = '\r' && rest.head? = some '\n' then literalLines rest
      else if c = '\n' || isPlain c then do
        let (s, after) ← literalLines rest
        return (c :: s, after)
      else none

/-- The text without a line end at its start. -/
def dropFirstLineEnd (s : List Char) : List Char :=
  (dropLineEnd s).getD s

/-! ### Any quoted text -/

/-- A quoted text on one line, as keys are written. -/
def quotedLine : List Char → Option (String × List Char)
  | '"' :: rest => (basic 0 rest).map fun (s, after) => (String.ofList s, after)
  | '\'' :: rest => (literal rest).map fun (s, after) => (String.ofList s, after)
  | _ => none

/-- A quoted text of any kind. -/
def quoted (s : List Char) : Option (String × List Char) :=
  match s with
  | '"' :: '"' :: '"' :: rest =>
    (basicLines 0 (dropFirstLineEnd rest)).map fun (s, after) => (String.ofList s, after)
  | '\'' :: '\'' :: '\'' :: rest =>
    (literalLines (dropFirstLineEnd rest)).map fun (s, after) => (String.ofList s, after)
  | _ => quotedLine s

end ExtensionCatalog.Toml
