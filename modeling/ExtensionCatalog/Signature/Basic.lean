import ExtensionCatalog.NativeType.Sql
import ExtensionCatalog.OptionMap
import ExtensionCatalog.Signature.Error

/-!
# Signatures (spec §3, §4.3, §C.2)

What the catalog knows of one overload of an extension function: the native
types of its arguments, what it gives, and optionally names for arguments and
output columns and further options. A row function gives one value per input
row, a table function a relation.

A row function takes a pointer together with the number of elements behind it,
the argument that follows; a caller writes the pointer's array alone. So the
operands of a call are fewer than the arguments of the native code.

* `length_argNames`, `length_outNames` — the list of names is cut in two, one name
  for each argument and one for each output column.
* `withNames_eq_ok_iff` — names are accepted exactly one for each argument and
  each output column.
-/

namespace ExtensionCatalog

/-- What a function gives (`FunctionKind`). -/
inductive Returns where
  /-- One value per input row. -/
  | row (type : NativeType)
  /-- A relation with these columns. -/
  | table (columns : List NativeType)
deriving DecidableEq, Repr

/-- The output columns; a row function has none (`declared_outs`). -/
def Returns.columns : Returns → List NativeType
  | .row _ => []
  | .table columns => columns

/-- One overload of an extension function (`ExtensionFunction`, spec §3). -/
structure Signature where
  args : List NativeType
  returns : Returns
  /-- The names of the arguments, then those of the output columns. -/
  names : Option (List String) := none
  options : Option OptionMap := none
  /-- Where there are names, each argument and each output column has one. -/
  length_names : ∀ l ∈ names, l.length = args.length + returns.columns.length := by simp
deriving DecidableEq

namespace Signature

/-- A row function. -/
def row (args : List NativeType) (type : NativeType) : Signature :=
  ⟨args, .row type, none, none, by simp⟩

/-- A table function. -/
def table (args columns : List NativeType) : Signature :=
  ⟨args, .table columns, none, none, by simp⟩

def isRow (s : Signature) : Bool :=
  match s.returns with
  | .row _ => true
  | .table _ => false

def isTable (s : Signature) : Bool :=
  !s.isRow

/-- The signature with names, in place of any it had (`with_names`, the invariant of
spec §3). -/
def withNames (s : Signature) (names : List String) : Except SignatureError Signature :=
  if h : names.length = s.args.length + s.returns.columns.length then
    .ok { s with names := some names, length_names := by simpa using h }
  else .error (.nameCountMismatch (s.args.length + s.returns.columns.length) names.length)

/-- The signature with options, in place of any it had (`with_options`). -/
def withOptions (s : Signature) (options : OptionMap) : Signature :=
  { s with options := some options }

/-- Names are accepted exactly one for each argument and each output column. -/
theorem withNames_eq_ok_iff {s t : Signature} {names : List String} :
    s.withNames names = .ok t ↔
      names.length = s.args.length + s.returns.columns.length ∧
        t.args = s.args ∧ t.returns = s.returns ∧ t.names = some names ∧
          t.options = s.options := by
  unfold withNames
  split
  · rename_i h
    constructor
    · intro ht
      cases ht
      exact ⟨h, rfl, rfl, rfl, rfl⟩
    · rintro ⟨-, h1, h2, h3, h4⟩
      obtain ⟨args, returns, names', options, hn⟩ := t
      simp_all
  · rename_i h
    simp [h]

/-! ### Names (spec §C.2) -/

/-- The names of the arguments (`arg_names`). -/
def argNames (s : Signature) : Option (List String) :=
  s.names.map (List.take s.args.length)

/-- The names of the output columns (`out_names`). -/
def outNames (s : Signature) : Option (List String) :=
  s.names.map (List.drop s.args.length)

/-- A name up to its first opening bracket, behind which the size of an array
stands. -/
def plainName (name : String) : String :=
  String.ofList (name.toList.takeWhile (· ≠ '['))

/-- The names of the arguments without the sizes of arrays (`pretty_arg_names`). -/
def plainArgNames (s : Signature) : Option (List String) :=
  s.argNames.map (List.map plainName)

theorem length_argNames {s : Signature} {a : List String} (h : s.argNames = some a) :
    a.length = s.args.length := by
  obtain ⟨l, hl, rfl⟩ := Option.map_eq_some_iff.mp h
  have := s.length_names l hl
  rw [List.length_take]
  omega

theorem length_outNames {s : Signature} {b : List String} (h : s.outNames = some b) :
    b.length = s.returns.columns.length := by
  obtain ⟨l, hl, rfl⟩ := Option.map_eq_some_iff.mp h
  have := s.length_names l hl
  rw [List.length_drop]
  omega

/-! ### Results (spec §4.3, §C.2) -/

/-- The result of a row function (`ret`). -/
def result (s : Signature) : Except Fault NativeType :=
  match s.returns with
  | .row type => .ok type
  | .table _ => .error .resultOfTable

/-- The output columns of a table function (`outs`). -/
def outputs (s : Signature) : Except Fault (List NativeType) :=
  match s.returns with
  | .row _ => .error .outputsOfRow
  | .table columns => .ok columns

/-- The result of a row function in SQL; a void result has none (`sql_ret`). -/
def sqlResult (s : Signature) : Except Fault (Option SqlType) :=
  s.result.map NativeType.sqlType?

/-- The output columns of a table function in SQL, each as its single values
are (`sql_outs`). -/
def sqlOutputs (s : Signature) : Except Fault (List SqlType) := do
  (← s.outputs).mapM fun t => do (← t.valueType).sqlType

/-! ### Operands (spec §4.3) -/

/-- The arguments that a caller of a row function writes: all but the one after
each pointer, which is the pointer's length. -/
def writtenArgs : List NativeType → List NativeType
  | [] => []
  | [t] => [t]
  | t :: u :: rest => t :: if t.isPointer then writtenArgs rest else writtenArgs (u :: rest)

/-- The families of the operands of a call (`to_sql_signature`). A table function has
no lengths to leave out. -/
def operandFamilies (s : Signature) : Except Fault (List SqlFamily) :=
  match s.returns with
  | .row _ => (writtenArgs s.args).mapM NativeType.family
  | .table _ => s.args.mapM NativeType.family

/-- Two overloads of the same arguments and the same result; names and options
do not tell overloads apart (the test for duplicates in `register`, spec §C.5). -/
def sameTypes (s t : Signature) : Bool :=
  s.args = t.args && s.returns = t.returns

theorem sameTypes_iff {s t : Signature} :
    s.sameTypes t = true ↔ s.args = t.args ∧ s.returns = t.returns := by
  simp [sameTypes]

end Signature

end ExtensionCatalog
