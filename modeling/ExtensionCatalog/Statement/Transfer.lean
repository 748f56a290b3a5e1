import ExtensionCatalog.Statement.WithClause

/-!
# Clauses that name a table and a file (spec §C.6)

The common form of statements that move a table to or from a file: a command, a
table, a keyword, a path, and optionally options. Commands and keywords are read
in any case of ASCII letters, and the statement may end in semicolons.

The readers of this module are the steps of `parse_table_file_statement`, from what it
cuts off the text (`core`) to what it does with the rest behind the path
(`readOptions`); `Transfer.read` puts them together.

* `Transfer.read` — the parts of a statement with a given command and keyword.
-/

namespace ExtensionCatalog.Statement

/-- The parts of a statement. -/
structure Transfer where
  table : String
  /-- The path as it is written, with its quotes. -/
  path : String
  options : Option OptionMap
deriving DecidableEq

/-- Why a text is no statement of a given command. -/
inductive TransferError where
  /-- It does not start with the command. -/
  | wrongCommand (command : String)
  /-- No table is named. -/
  | noTable
  /-- The keyword does not follow the table. -/
  | noKeyword (keyword command : String)
  /-- No path follows the keyword. -/
  | noPath (cause : LiteralError)
  /-- What follows the path is no clause of options. -/
  | badOptions (cause : ClauseError)
deriving DecidableEq, Repr

/-- The wording of a refusal. -/
def TransferError.message : TransferError → String
  | .wrongCommand command => "Expected " ++ command ++ " statement"
  | .noTable => "Table name is required"
  | .noKeyword keyword command => "Expected " ++ keyword ++ " clause in " ++ command
  | .noPath cause => "File path is required: " ++ cause.message
  | .badOptions cause => cause.message

/-- The rest of a text after the words of a command. A word of the text counts
with its ASCII letters in upper case. -/
def dropCommand : List (List Char) → List Char → Option (List Char)
  | [], s => some s
  | word :: words, s =>
    let s := Text.trimStart s
    if Text.upperAscii (Text.firstWord s) = word then
      dropCommand words (Text.afterFirstWord s)
    else none

/-- The text of a statement, from which everything else is read: without blanks around
it and without the semicolons at its end. Only the last run of semicolons is left out,
with the blanks before it. -/
def core (sql : List Char) : List Char :=
  Text.trimEnd (Text.dropEndWhile (· = ';') (Text.trim sql))

/-- The rest of a text after a keyword and at least one blank. -/
def dropKeyword (keyword s : List Char) : Option (List Char) := do
  let rest ← Text.dropCaseless keyword s
  if rest.head?.any Text.isBlank then some rest else none

/-- The table that a text starts with, and the rest of the text. The keyword
itself is no table. -/
def readTable (keyword s : List Char) : Except TransferError (List Char × List Char) :=
  match splitLiteral s with
  | .error _ => .error .noTable
  | .ok (table, rest) =>
    if Text.sameLetters table keyword || (unquote table).isEmpty then .error .noTable
    else .ok (unquote table, rest)

/-- The options that a text holds after the path; none if nothing follows. -/
def readOptions (s : List Char) : Except TransferError (Option OptionMap) :=
  if s = [] then .ok none
  else match OptionMap.ofClause s with
    | .ok options => .ok (some options)
    | .error cause => .error (.badOptions cause)

/-- The parts of a statement (`parse_table_file_statement`). -/
def Transfer.read (command keyword sql : String) : Except TransferError Transfer :=
  match dropCommand (Text.words command.toList) (core sql.toList) with
  | none => .error (.wrongCommand command)
  | some s => do
    let (table, s) ← readTable keyword.toList s
    match dropKeyword keyword.toList s with
    | none => .error (.noKeyword keyword command)
    | some s =>
      match splitLiteral s with
      | .error cause => .error (.noPath cause)
      | .ok (path, s) => do
        let options ← readOptions s
        return ⟨String.ofList table, String.ofList path, options⟩

end ExtensionCatalog.Statement
