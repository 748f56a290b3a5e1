/-!
# TOML values and tables

The values of a TOML document. A table remembers how it came about, since that
decides what may still be added to it: a header opens a table once, dotted keys
extend only the tables that dotted keys made, and an inline table is complete
where it stands. Floats and dates are kept as they are spelled.
-/

namespace ExtensionCatalog.Toml

/-- How a table came about. -/
inductive Origin where
  /-- Opened by a header of its own. -/
  | header
  /-- Passed through by the header of a table inside it. -/
  | implied
  /-- Made by a dotted key. -/
  | dotted
  /-- Written between braces. -/
  | inline
deriving DecidableEq, Repr

/-- A TOML value. -/
inductive Value where
  | string (s : String)
  | integer (i : Int)
  | float (spelling : String)
  | boolean (b : Bool)
  | dateTime (spelling : String)
  | array (items : List Value)
  | table (origin : Origin) (entries : List (String × Value))
  /-- The tables that the headers of an array of tables opened, in order. -/
  | tables (elements : List (List (String × Value)))
deriving Repr, Inhabited

/-- The entries of a table, in the order in which their keys first stood. -/
abbrev Table := List (String × Value)

namespace Table

/-- The table with the entry of a key replaced by what `f` makes of it; none if
`f` refuses. A new entry comes last. -/
def alter (key : String) (f : Option Value → Option Value) : Table → Option Table
  | [] => (f none).map fun v => [(key, v)]
  | (k, v) :: rest =>
    if k = key then (f (some v)).map fun w => (k, w) :: rest
    else (alter key f rest).map ((k, v) :: ·)

end Table

end ExtensionCatalog.Toml
