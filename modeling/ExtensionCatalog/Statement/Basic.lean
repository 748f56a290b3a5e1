import ExtensionCatalog.Json.Token
import ExtensionCatalog.Statement.Transfer

/-!
# Statements that restore and dump tables (spec §4.5, §C.6)

`RESTORE TABLE t FROM 'path'` reads a table from a file, `DUMP TABLE t TO 'path'`
writes one to a file, and either may end in a clause of options. A statement is
handed on as a JSON object.

* `Statement.parse` — the statement that a text holds.
* `Statement.text` — the written form of a statement's object.
-/

namespace ExtensionCatalog

/-- Whether a table is read from a file or written to one. -/
inductive Direction where
  | restore
  | dump
deriving DecidableEq, Repr

namespace Direction

/-- The words a statement starts with. -/
def command : Direction → String
  | restore => "RESTORE TABLE"
  | dump => "DUMP TABLE"

/-- The word between the table and the path. -/
def keyword : Direction → String
  | restore => "FROM"
  | dump => "TO"

/-- The command as the object of a statement names it. -/
def name : Direction → String
  | restore => "RESTORE_TABLE"
  | dump => "DUMP_TABLE"

/-- The direction as refusals name it. -/
def noun : Direction → String
  | restore => "Restore"
  | dump => "Dump"

end Direction

/-- A statement that restores or dumps a table (`RestoreTableStatement`,
`DumpTableStatement`). -/
structure Statement where
  direction : Direction
  table : String
  /-- The path, without quotes around it. -/
  path : String
  options : Option OptionMap
deriving DecidableEq

/-- Why a text is no statement. -/
inductive StatementError where
  | badForm (cause : Statement.TransferError)
  /-- The path consists of quotes. -/
  | emptyPath (direction : Direction)
deriving DecidableEq, Repr

/-- The wording of a refusal. -/
def StatementError.message : StatementError → String
  | .badForm cause => cause.message
  | .emptyPath direction => direction.noun ++ " file path cannot be empty"

namespace Statement

/-- The path that a literal, quoted or not, stands for. -/
def pathOf (literal : String) : String :=
  String.ofList (stripQuotes literal.toList)

/-- The statement with a path as it is written (`new`). -/
def ofParts (direction : Direction) (table literal : String) (options : Option OptionMap) :
    Statement :=
  ⟨direction, table, pathOf literal, options⟩

/-- The statement that a text holds (`parse`). -/
def parse (direction : Direction) (sql : String) : Except StatementError Statement :=
  match Transfer.read direction.command direction.keyword sql with
  | .error cause => .error (.badForm cause)
  | .ok t =>
    let s := ofParts direction t.table t.path t.options
    if s.path = "" then .error (.emptyPath direction) else .ok s

/-- The options as an object, by ascending name. -/
def optionsJson (options : OptionMap) : Json.Value :=
  .object (options.entries.map fun e => (e.1, .string e.2))

/-- The object of a statement (`TableFilePayload`). Options that were not given are left
out. -/
def json (s : Statement) : Json.Value :=
  .object ([("command", .string s.direction.name), ("tableName", .string s.table),
    ("filePath", .string s.path)] ++
    s.options.toList.map fun options => ("options", optionsJson options))

/-- The written form of a statement's object (`to_json_string`). -/
def text (s : Statement) : String :=
  s.json.text

end Statement

end ExtensionCatalog
