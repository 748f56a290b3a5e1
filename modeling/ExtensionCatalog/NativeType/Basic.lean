/-!
# Native types (spec §3, §4.1)

The types in which the native code of an extension function takes its
arguments and gives its results: scalars, and the pointers, arrays, columns and
lists of columns made of them; texts, timestamps, geometries and cursors.

Here and in all modules, a citation such as (`is_pointer`, spec §4.1) gives the operation
that a definition is and the section of the catalog's specification that describes it.

* `mem_all` — every type is listed in `NativeType.all`, the order of the
  catalog.
* `valueType?_of_valueType?` — a value type is its own value type.
-/

namespace ExtensionCatalog

/-- The machine scalars. -/
inductive Scalar where
  | int8
  | int16
  | int32
  | int64
  | float
  | double
  | bool
deriving DecidableEq, Repr

/-- The integers, which may count the elements behind a pointer. -/
def Scalar.isInteger : Scalar → Bool
  | .int8 | .int16 | .int32 | .int64 => true
  | .float | .double | .bool => false

/-- The type of an argument or a result of native code (`ExtArgumentType`, spec §3). -/
inductive NativeType where
  /-- One machine scalar. -/
  | scalar (s : Scalar)
  /-- No value: what a function without a result gives. -/
  | void
  /-- Scalars at an address; how many is passed as an argument of its own. -/
  | pointer (s : Scalar)
  /-- An array that knows its length. -/
  | array (s : Scalar)
  /-- A column of scalars. -/
  | column (s : Scalar)
  /-- A column of timestamps. -/
  | columnTimestamp
  /-- A column of texts in dictionary encoding. -/
  | columnTextDict
  /-- Several columns of one scalar. -/
  | columnList (s : Scalar)
  /-- Several columns of texts in dictionary encoding. -/
  | columnListTextDict
  | geoPoint
  | geoLineString
  | geoPolygon
  | geoMultiPolygon
  /-- The rows of a query. -/
  | cursor
  /-- A text in no encoding. -/
  | textNone
  /-- A text in dictionary encoding. -/
  | textDict
  | timestamp
deriving DecidableEq, Repr

namespace NativeType

/-- All types, in the order of the catalog (`ALL`, spec §C.1). -/
def all : List NativeType := [
  scalar .int8, scalar .int16, scalar .int32, scalar .int64, scalar .float, scalar .double,
  void,
  pointer .int8, pointer .int16, pointer .int32, pointer .int64, pointer .float,
  pointer .double, pointer .bool,
  scalar .bool,
  array .int8, array .int16, array .int32, array .int64, array .float, array .double,
  array .bool,
  column .int8, column .int16, column .int32, column .int64, column .float, column .double,
  column .bool, columnTimestamp,
  geoPoint, geoLineString, cursor, geoPolygon, geoMultiPolygon,
  textNone, textDict, timestamp,
  columnList .int8, columnList .int16, columnList .int32, columnList .int64,
  columnList .float, columnList .double, columnList .bool,
  columnTextDict, columnListTextDict]

theorem mem_all (t : NativeType) : t ∈ all := by
  cases t <;> try rename_i s; cases s
  all_goals decide

/-- The place of a type in the catalog. -/
def rank (t : NativeType) : Nat :=
  all.idxOf t

/-- The list in the order of the catalog, repeated types included. -/
def inCatalogOrder (l : List NativeType) : List NativeType :=
  l.mergeSort fun t u => t.rank ≤ u.rank

/-! ### Classes of types (spec §4.1) -/

/-- Scalars at an address (`is_pointer`). -/
def isPointer : NativeType → Bool
  | pointer _ => true
  | _ => false

/-- An array of scalars (`is_array`). -/
def isArray : NativeType → Bool
  | array _ => true
  | _ => false

/-- One column, whatever it holds (`is_column`). -/
def isColumn : NativeType → Bool
  | column _ | columnTimestamp | columnTextDict => true
  | _ => false

/-- Several columns, whatever they hold (`is_column_list`). -/
def isColumnList : NativeType → Bool
  | columnList _ | columnListTextDict => true
  | _ => false

/-- The types that may count the elements behind a pointer (`is_length_type`,
spec §C.4). -/
def isLength : NativeType → Bool
  | scalar s => s.isInteger
  | _ => false

/-! ### Value types (spec §4.1) -/

/-- The type of a single value of the type: the element of a pointer, an array
or a column, and a scalar, a text in dictionary encoding or a timestamp itself.
The void, geometries, cursors and texts in no encoding have none (`try_value_type`). -/
def valueType? : NativeType → Option NativeType
  | scalar s | pointer s | array s | column s | columnList s => some (scalar s)
  | textDict | columnTextDict | columnListTextDict => some textDict
  | timestamp | columnTimestamp => some timestamp
  | void | geoPoint | geoLineString | geoPolygon | geoMultiPolygon | cursor | textNone => none

/-- A value type is its own value type (spec §8). -/
theorem valueType?_of_valueType? {t v : NativeType} (h : t.valueType? = some v) :
    v.valueType? = some v := by
  cases t <;> simp_all [valueType?] <;> subst h <;> rfl

end NativeType

end ExtensionCatalog
