import ExtensionCatalog.Settings.Basic
import ExtensionCatalog.Toml.Reader

/-!
# Settings from TOML (spec §B.3)

Settings are given in two tables, `validation` and `logging`, either of which
may be absent or incomplete: what is not given keeps its default. Other keys are
not looked at. In place of a table the values alone may be given, as an array in
the order of the settings, which may be shorter or longer than there are
settings.

* `Settings.parse` — the settings of a text, validated.
-/

namespace ExtensionCatalog

open Toml (Value Table)

/-! ### Sections -/

/-- The settings of a section by name, if the value can be a section. A date
holds no settings. -/
def Toml.Value.section? (names : List String) : Value → Option Table
  | .table _ entries => some entries
  | .array items => some (names.zip items)
  | .dateTime _ => some []
  | _ => none

/-- The entries of a section of a document; none given, none set. -/
def Toml.Table.section? (t : Table) (key : String) (names : List String) : Option Table :=
  match t.lookup key with
  | none => some []
  | some v => v.section? names

/-- A truth value that may be left out. -/
def Toml.Table.bool? (t : Table) (key : String) (default : Bool) : Option Bool :=
  match t.lookup key with
  | none => some default
  | some (.boolean b) => some b
  | some _ => none

/-- A text that may be left out. -/
def Toml.Table.string? (t : Table) (key : String) (default : String) : Option String :=
  match t.lookup key with
  | none => some default
  | some (.string s) => some s
  | some _ => none

/-! ### Settings -/

/-- The names of the checks, in their order. -/
def Checks.names : List String :=
  ["strict_pointer_args", "allow_duplicate_overloads"]

/-- The checks of a section. -/
def Checks.ofTable? (t : Table) : Option Checks := do
  return {
    strictPointers := ← t.bool? "strict_pointer_args" true
    allowDuplicates := ← t.bool? "allow_duplicate_overloads" false }

/-- The names of what is reported, in their order. -/
def Logging.names : List String :=
  ["level", "target"]

/-- What a section says of reports. -/
def Logging.ofTable? (t : Table) : Option Logging := do
  let default : Logging := {}
  return {
    level := ← t.string? "level" default.level
    target := ← t.string? "target" default.target }

namespace Settings

/-- The settings of a document. -/
def ofTable? (t : Table) : Option Settings := do
  return {
    checks := ← Checks.ofTable? (← t.section? "validation" Checks.names)
    logging := ← Logging.ofTable? (← t.section? "logging" Logging.names) }

/-- The settings of a text, which must be valid (`from_toml_str`). -/
def parse (text : String) : Except SettingsError Settings :=
  match Table.parse? text >>= ofTable? with
  | none => .error .malformed
  | some s => s.validate.map fun _ => s

/-- The settings of a file with the given contents; none if there is no
file (`from_file`). -/
def ofFile (contents : Option ByteArray) : Except SettingsError Settings :=
  match contents >>= String.fromUTF8? with
  | none => .error .unreadable
  | some text => parse text

end Settings

end ExtensionCatalog
