import ExtensionCatalog.Fault
import ExtensionCatalog.SqlType

/-!
# Native types as SQL sees them (spec §4.3)

Every native type but the void appears in SQL under one type: a pointer is an
array like an array is, and all geometries are one type.

* `sqlType?_eq_none_iff` — only the void has no SQL type.
* `sqlType_eq_ok_iff`, `valueType_eq_ok_iff` — the questions that can fault are
  answered by the partial maps behind them.
-/

namespace ExtensionCatalog

/-- A scalar in SQL. -/
def Scalar.sqlType : Scalar → SqlType
  | .int8 => .tinyInt
  | .int16 => .smallInt
  | .int32 => .integer
  | .int64 => .bigInt
  | .float => .float
  | .double => .double
  | .bool => .boolean

namespace NativeType

/-- The type in SQL; the void has none (`sql_type`). -/
def sqlType? : NativeType → Option SqlType
  | scalar s => some s.sqlType
  | void => none
  | pointer _ | array _ => some .array
  | column _ | columnTimestamp | columnTextDict => some .column
  | columnList _ | columnListTextDict => some .columnList
  | geoPoint | geoLineString | geoPolygon | geoMultiPolygon => some .geometry
  | cursor => some .cursor
  | textNone | textDict => some .varchar
  | timestamp => some .timestamp

/-- Only the void has no SQL type. -/
theorem sqlType?_eq_none_iff {t : NativeType} : t.sqlType? = none ↔ t = void := by
  cases t <;> simp [sqlType?]

/-! ### The same questions, asked where there must be an answer -/

/-- The SQL type of an operand or an output, which must not be void
(`to_sql_type_name`). -/
def sqlType (t : NativeType) : Except Fault SqlType :=
  match t.sqlType? with
  | some s => .ok s
  | none => .error (.noSqlType t)

theorem sqlType_eq_ok_iff {t : NativeType} {s : SqlType} :
    t.sqlType = .ok s ↔ t.sqlType? = some s := by
  unfold sqlType
  split <;> simp_all

/-- The value type of an output column, which must have one (`value_type`, spec §4.1). -/
def valueType (t : NativeType) : Except Fault NativeType :=
  match t.valueType? with
  | some v => .ok v
  | none => .error (.noValueType t)

theorem valueType_eq_ok_iff {t v : NativeType} :
    t.valueType = .ok v ↔ t.valueType? = some v := by
  unfold valueType
  split <;> simp_all

/-- The family of an operand, which must not be void. -/
def family (t : NativeType) : Except Fault SqlFamily :=
  t.sqlType.map SqlType.family

end NativeType

end ExtensionCatalog
