/-!
# Log records (spec §B.2)

What the catalog reports of its work. A record has a level, and a filter lets
the records of its own level and the graver ones pass.

* `LevelFilter.admits_of_le` — a filter that lets a record pass lets every
  graver one pass.
-/

namespace ExtensionCatalog

/-- The gravity of a record, gravest first. -/
inductive Level where
  | error
  | warn
  | info
  | debug
  | trace
deriving DecidableEq, Repr

/-- The number of graver levels. -/
def Level.rank : Level → Nat
  | .error => 0
  | .warn => 1
  | .info => 2
  | .debug => 3
  | .trace => 4

/-- The level as records show it. -/
def Level.name : Level → String
  | .error => "ERROR"
  | .warn => "WARN"
  | .info => "INFO"
  | .debug => "DEBUG"
  | .trace => "TRACE"

/-- Which records pass: none, or those up to a level. -/
inductive LevelFilter where
  | off
  | upTo (level : Level)
deriving DecidableEq, Repr

namespace LevelFilter

/-- The filter as settings name it, in capitals. -/
def name : LevelFilter → String
  | off => "OFF"
  | upTo level => level.name

/-- All filters. -/
def all : List LevelFilter :=
  [off, upTo .error, upTo .warn, upTo .info, upTo .debug, upTo .trace]

/-- The filter lets records of the level pass. -/
def admits : LevelFilter → Level → Bool
  | off, _ => false
  | upTo most, level => level.rank ≤ most.rank

/-- A filter that lets a record pass lets every graver one pass. -/
theorem admits_of_le {f : LevelFilter} {l m : Level} (hle : l.rank ≤ m.rank)
    (h : f.admits m = true) : f.admits l = true := by
  cases f with
  | off => exact h
  | upTo most =>
    simp only [admits, decide_eq_true_eq] at h ⊢
    exact Nat.le_trans hle h

end LevelFilter

/-- One report. -/
structure LogRecord where
  level : Level
  /-- The name under which the catalog reports. -/
  target : String
  message : String
deriving DecidableEq, Repr

end ExtensionCatalog
