import ExtensionCatalog.Toml.Value

/-!
# Building TOML tables

A document is a list of lines, each of which adds to the tables that the lines
before it made: a header opens a table or a further element of an array of
tables, and a pair binds a key in the table opened last. A line that would
define something a second time is refused.

* `Table.bindNew` — a key is bound once.
* `Table.insertAt` — where the parts of a dotted key lead.
* `Table.within` — where the parts of a header lead.
-/

namespace ExtensionCatalog.Toml

namespace Table

/-- Binds a key that is not bound yet. -/
def bindNew (key : String) (v : Value) : Table → Option Table :=
  alter key fun
    | none => some v
    | some _ => none

/-- The list with its last table changed. -/
def onLast (f : Table → Option Table) (ts : List Table) : Option (List Table) := do
  return ts.dropLast ++ [← f (← ts.getLast?)]

/-! ### Dotted keys -/

/-- Changes the table that the parts of a dotted key lead to, starting from the
value of the first part. On the way they may pass through tables that headers
implied and through the last element of an array of tables, but the table at
the end must be made by dotted keys. -/
def underDotted (f : Table → Option Table) : List String → Option Value → Option Value
  | [], none => (f []).map (.table .dotted)
  | [], some (.table .dotted t) => (f t).map (.table .dotted)
  | [], some _ => none
  | k :: path, none => (alter k (underDotted f path) []).map (.table .dotted)
  | k :: path, some (.table .dotted t) => (alter k (underDotted f path) t).map (.table .dotted)
  | k :: path, some (.table .implied t) => (alter k (underDotted f path) t).map (.table .implied)
  | k :: path, some (.tables ts) => (onLast (alter k (underDotted f path)) ts).map .tables
  | _ :: _, some _ => none

/-- Binds the key at the end of a dotted path; without dots, in the table
itself. -/
def insertAt (path : List String) (key : String) (v : Value) : Table → Option Table :=
  match path with
  | [] => bindNew key v
  | k :: rest => alter k (underDotted (bindNew key v) rest)

/-! ### Headers -/

/-- Changes the table that the parts of a header lead to: an array of tables
stands for its last element, and tables not met before are implied. -/
def within (f : Table → Option Table) : List String → Table → Option Table
  | [] => f
  | k :: path => alter k fun
    | none => (within f path []).map (.table .implied)
    | some (.table .inline _) => none
    | some (.table origin t) => (within f path t).map (.table origin)
    | some (.tables ts) => (onLast (within f path) ts).map .tables
    | some _ => none

/-- Opens a table, which nothing but the header of a table inside it may have
mentioned. -/
def openTable (key : String) : Table → Option Table :=
  alter key fun
    | none => some (.table .header [])
    | some (.table .implied t) => some (.table .header t)
    | some _ => none

/-- Opens a further element of an array of tables. -/
def openElement (key : String) : Table → Option Table :=
  alter key fun
    | none => some (.tables [[]])
    | some (.tables ts) => some (.tables (ts ++ [[]]))
    | some _ => none

end Table

/-! ### Lines -/

/-- A line of a document. A key in parts is given as its last part and the path
before it. -/
inductive Line where
  | header (path : List String) (key : String)
  | elementHeader (path : List String) (key : String)
  | pair (path : List String) (key : String) (v : Value)

/-- Adds lines to a document in which the header `current` stood last. -/
def Table.addLines : (current : List String) → Table → List Line → Option Table
  | _, t, [] => some t
  | _, t, .header path key :: rest => do
    addLines (path ++ [key]) (← within (openTable key) path t) rest
  | _, t, .elementHeader path key :: rest => do
    addLines (path ++ [key]) (← within (openElement key) path t) rest
  | current, t, .pair path key v :: rest => do
    addLines current (← within (insertAt path key v) current t) rest

/-- The document of some lines. -/
def Table.ofLines? (lines : List Line) : Option Table :=
  addLines [] [] lines

/-- The inline table of some pairs. -/
def Value.ofPairs? (pairs : List (List String × String × Value)) : Option Value := do
  let t ← pairs.foldlM (fun t (path, key, v) => Table.insertAt path key v t) []
  return .table .inline t

end ExtensionCatalog.Toml
