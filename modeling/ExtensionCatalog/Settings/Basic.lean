import ExtensionCatalog.Log
import ExtensionCatalog.Text.Blank
import ExtensionCatalog.Text.Caseless

/-!
# Settings of the catalog (spec §B.3)

How strictly signatures are checked when they are registered, and what is
reported under which name. Settings are valid if the level is one of the known
ones, spelled in small letters, and the name for reports is not blank.

* `validate_eq_ok_iff` — the condition for valid settings.
-/

namespace ExtensionCatalog

/-- The checks at registration (`ValidationSettings`). -/
structure Checks where
  /-- Every pointer of a row function is followed by its length. -/
  strictPointers : Bool := true
  /-- An overload may be registered a second time. -/
  allowDuplicates : Bool := false
deriving DecidableEq, Repr

/-- What is reported (`LoggingSettings`). -/
structure Logging where
  /-- The name of the least grave level that is reported. -/
  level : String := "info"
  /-- The name under which the catalog reports. -/
  target : String := "extfn::registry"
deriving DecidableEq, Repr

/-- The settings of a catalog (`RegistryConfig`). -/
structure Settings where
  checks : Checks := {}
  logging : Logging := {}
deriving DecidableEq, Repr

/-- A cause for refusing settings. -/
inductive SettingsError where
  /-- The file is missing, or is no text. -/
  | unreadable
  /-- The text is no TOML, or a setting has a value of the wrong type. -/
  | malformed
  | unknownLevel (level : String)
  | blankTarget
deriving DecidableEq, Repr

namespace Logging

/-- The levels that may be set (`VALID_LOG_LEVELS`). -/
def levelNames : List String :=
  ["error", "warn", "info", "debug", "trace"]

/-- The filter of the level that is set, in any letter case. A level that is
none reports as much as the default does (`level_filter`). -/
def filter (l : Logging) : LevelFilter :=
  (LevelFilter.all.find? fun f => Text.sameLetters f.name.toList l.level.toList).getD (.upTo .info)

/-- The record of a report, unless the filter keeps it back (spec §B.2). -/
def report (l : Logging) (level : Level) (message : String) : List LogRecord :=
  if l.filter.admits level then [⟨level, l.target, message⟩] else []

end Logging

/-- The wording of a refusal. -/
def SettingsError.message : SettingsError → String
  | .unreadable => "Failed to read config file"
  | .malformed => "Failed to parse config file"
  | .unknownLevel level =>
    "Invalid log level '" ++ level ++ "'. Must be one of: " ++
      ", ".intercalate Logging.levelNames
  | .blankTarget => "logging.target cannot be empty"

namespace Settings

/-- Accepts settings, or tells the first thing wrong with them (`validate`). -/
def validate (s : Settings) : Except SettingsError Unit :=
  if s.logging.level ∉ Logging.levelNames then .error (.unknownLevel s.logging.level)
  else if Text.trim s.logging.target.toList = [] then .error .blankTarget
  else .ok ()

/-- Settings are valid with a known level and a name that is not blank. -/
theorem validate_eq_ok_iff {s : Settings} :
    s.validate = .ok () ↔
      s.logging.level ∈ Logging.levelNames ∧ Text.trim s.logging.target.toList ≠ [] := by
  unfold validate
  split
  · simp_all
  · split <;> simp_all

end Settings

end ExtensionCatalog
