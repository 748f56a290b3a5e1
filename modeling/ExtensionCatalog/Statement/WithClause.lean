import ExtensionCatalog.OptionMap
import ExtensionCatalog.Statement.Literal
import ExtensionCatalog.Text.Caseless
import ExtensionCatalog.Text.Lowercase

/-!
# The options of a statement (spec §C.6)

A statement may end in a clause `WITH (name = value, ...)`. The names of options
do not depend on letter case; a value is a literal. A comma between quotes does
not separate options, and of an option given twice the last value counts.

* `splitOutsideQuotes_ne_nil` — a text has at least one part.
* `OptionMap.ofClause` — the options of a clause.
-/

namespace ExtensionCatalog

namespace Statement

/-- The parts of a text between separators that stand outside quotes (`split_unquoted`).
A quote opens a section that ends with the next quote of its kind, or with the text;
`open?` is the quote of the section in which the text starts. -/
def splitOutsideQuotes (separator : Char) (open? : Option Char) : List Char → List (List Char)
  | [] => [[]]
  | c :: rest =>
    match open? with
    | some q =>
      (splitOutsideQuotes separator (if c = q then none else some q) rest).modifyHead (c :: ·)
    | none =>
      if isQuote c then
        (splitOutsideQuotes separator (some c) rest).modifyHead (c :: ·)
      else if c = separator then [] :: splitOutsideQuotes separator none rest
      else (splitOutsideQuotes separator none rest).modifyHead (c :: ·)

/-- A text has at least one part. -/
theorem splitOutsideQuotes_ne_nil (separator : Char) (open? : Option Char) (s : List Char) :
    splitOutsideQuotes separator open? s ≠ [] := by
  fun_induction splitOutsideQuotes separator open? s <;>
    simp_all [List.modifyHead_eq_nil_iff]

/-- Why a text is no clause of options. -/
inductive ClauseError where
  /-- It does not start with the keyword. -/
  | noKeyword (clause : String)
  /-- Its options are not in parentheses. -/
  | noParentheses
  /-- Nothing stands between two commas. -/
  | emptyEntry
  /-- An option has no equals sign. -/
  | noValue (entry : String)
  /-- An option has no name. -/
  | noName (entry : String)
  /-- It has no options. -/
  | noOptions
deriving DecidableEq, Repr

/-- The wording of a refusal. -/
def ClauseError.message : ClauseError → String
  | .noKeyword clause => "Expected WITH clause, found '" ++ clause ++ "'"
  | .noParentheses => "WITH options must be enclosed in parentheses"
  | .emptyEntry => "Empty entry in WITH options"
  | .noValue entry => "Expected key = value in WITH options, found '" ++ entry ++ "'"
  | .noName entry => "Missing option name in '" ++ entry ++ "'"
  | .noOptions => "WITH clause requires at least one option"

/-- The name and the value of one option, one turn of the loop of `parse_with_options`. -/
def readOption (entry : List Char) : Except ClauseError (String × String) :=
  let entry := Text.trim entry
  if entry = [] then .error .emptyEntry
  else
    let name := entry.takeWhile (· ≠ '=')
    match entry.drop name.length with
    | [] => .error (.noValue (String.ofList entry))
    | _ :: value =>
      let key := Text.lower (Text.trim name)
      if key = [] then .error (.noName (String.ofList entry))
      else .ok (String.ofList key, String.ofList (unquote value))

/-- What stands between the parentheses of a clause, as `parse_with_options` finds it
before its loop. -/
def clauseBody (clause : List Char) : Except ClauseError (List Char) :=
  let clause := Text.trim clause
  match Text.dropCaseless "WITH".toList clause with
  | none => .error (.noKeyword (String.ofList clause))
  | some rest =>
    match Text.trim rest with
    | '(' :: body =>
      if body.getLast? = some ')' then .ok body.dropLast else .error .noParentheses
    | _ => .error .noParentheses

end Statement

/-- The options of a clause, at least one (`parse_with_options`). -/
def OptionMap.ofClause (clause : List Char) : Except Statement.ClauseError OptionMap := do
  let body ← Statement.clauseBody clause
  let bindings ← (Statement.splitOutsideQuotes ',' none body).mapM Statement.readOption
  let options := OptionMap.ofList bindings
  if options.entries = [] then throw .noOptions else return options

end ExtensionCatalog
