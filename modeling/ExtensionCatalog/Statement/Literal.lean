import ExtensionCatalog.Text.Blank

/-!
# Literals in statements (spec §3, §C.6)

A name, a path or an option value is written between two quotes of one kind,
single or double, and then may hold anything but that quote; or it is written
bare, and then ends at the first blank. There are no escapes.

* `splitLiteral` — the literal a text starts with, as it is written.
* `unquote` — what a literal stands for.
-/

namespace ExtensionCatalog.Statement

/-- The quote characters (`is_quote`). -/
def isQuote (c : Char) : Bool :=
  c = '\'' || c = '"'

/-- The text without the quotes, of either kind, that it starts and ends
with (`normalize_path_literal`). -/
def stripQuotes (s : List Char) : List Char :=
  Text.dropEndWhile isQuote (s.dropWhile isQuote)

/-- The text of a literal: without the blanks around it, and then without one
pair of equal quotes around it (`unquote`). -/
def unquote (s : List Char) : List Char :=
  match Text.trim s with
  | [] => []
  | q :: rest =>
    if isQuote q && rest.getLast? = some q then rest.dropLast else q :: rest

/-- Why no literal can be split off a text. -/
inductive LiteralError where
  /-- The text is blank. -/
  | missing
  /-- The quote that the text starts with is not closed. -/
  | unterminated (text : String)
deriving DecidableEq, Repr

/-- The wording of a refusal. -/
def LiteralError.message : LiteralError → String
  | .missing => "Expected a literal"
  | .unterminated text => "Unterminated literal: " ++ text

/-- The literal that a text starts with, quotes included, and the rest of the
text; both without the blanks around them (`split_literal`). A quoted literal ends with
its quote whatever follows. -/
def splitLiteral (s : List Char) : Except LiteralError (List Char × List Char) :=
  match Text.trimStart s with
  | [] => .error .missing
  | q :: rest =>
    if isQuote q then
      if q ∈ rest then
        let body := rest.takeWhile (· ≠ q)
        .ok (q :: body ++ [q], Text.trim (rest.drop (body.length + 1)))
      else .error (.unterminated (String.ofList (q :: rest)))
    else
      .ok (Text.firstWord (q :: rest), Text.trim (Text.afterFirstWord (q :: rest)))

end ExtensionCatalog.Statement
