import ExtensionCatalog.NativeType.Basic
import ExtensionCatalog.Text.Blank

/-!
# Code names of native types (spec §4.2, §C.1)

Each native type has one name that the code generator and the documents of the
catalog use, such as `i32*` or `Column<TextEncodingDict>`. A name is read back
without regard to the blanks around it, and in no other spelling.

Writing and reading go by tables of their own: `codeName` puts the name of a type
together from the type it is made of, `ofExactName?` lists the names one by one.
Neither is defined through the other, and each is inverse to the other.

* `ofExactName?_codeName`, `codeName_of_ofExactName?` — the tables agree, in both
  directions.
* `ofCodeName?_eq_some_iff` — a type is read from exactly the texts that are
  its name once trimmed.
-/

namespace ExtensionCatalog

/-- A scalar as the code generator spells it; a truth value is one bit. -/
def Scalar.codeName : Scalar → String
  | .int8 => "i8"
  | .int16 => "i16"
  | .int32 => "i32"
  | .int64 => "i64"
  | .float => "float"
  | .double => "double"
  | .bool => "i1"

/-- A scalar as the element of an array or a column, where a truth value is
spelled out. -/
def Scalar.elementName : Scalar → String
  | .bool => "bool"
  | s => s.codeName

namespace NativeType

/-- The name of the type in generated code and in documents: `typeName` of
spec §4.2. -/
def codeName : NativeType → String
  | scalar s => s.codeName
  | void => "void"
  | pointer s => s.codeName ++ "*"
  | array s => "Array<" ++ s.elementName ++ ">"
  | column s => "Column<" ++ s.elementName ++ ">"
  | columnTimestamp => "Column<timestamp>"
  | columnTextDict => "Column<TextEncodingDict>"
  | columnList s => "ColumnList<" ++ s.elementName ++ ">"
  | columnListTextDict => "ColumnList<TextEncodingDict>"
  | geoPoint => "geo_point"
  | geoLineString => "geo_linestring"
  | geoPolygon => "geo_polygon"
  | geoMultiPolygon => "geo_multi_polygon"
  | cursor => "cursor"
  | textNone => "TextEncodingNone"
  | textDict => "TextEncodingDict"
  | timestamp => "timestamp"

/-- The type of this very name: the table of `from_type_name` (spec §C.1), row by
row. -/
def ofExactName? : String → Option NativeType
  | "i1" => some (scalar .bool)
  | "i8" => some (scalar .int8)
  | "i16" => some (scalar .int16)
  | "i32" => some (scalar .int32)
  | "i64" => some (scalar .int64)
  | "float" => some (scalar .float)
  | "double" => some (scalar .double)
  | "void" => some void
  | "i8*" => some (pointer .int8)
  | "i16*" => some (pointer .int16)
  | "i32*" => some (pointer .int32)
  | "i64*" => some (pointer .int64)
  | "float*" => some (pointer .float)
  | "double*" => some (pointer .double)
  | "i1*" => some (pointer .bool)
  | "Array<i8>" => some (array .int8)
  | "Array<i16>" => some (array .int16)
  | "Array<i32>" => some (array .int32)
  | "Array<i64>" => some (array .int64)
  | "Array<float>" => some (array .float)
  | "Array<double>" => some (array .double)
  | "Array<bool>" => some (array .bool)
  | "Column<i8>" => some (column .int8)
  | "Column<i16>" => some (column .int16)
  | "Column<i32>" => some (column .int32)
  | "Column<i64>" => some (column .int64)
  | "Column<float>" => some (column .float)
  | "Column<double>" => some (column .double)
  | "Column<bool>" => some (column .bool)
  | "Column<TextEncodingDict>" => some columnTextDict
  | "Column<timestamp>" => some columnTimestamp
  | "geo_point" => some geoPoint
  | "cursor" => some cursor
  | "geo_linestring" => some geoLineString
  | "geo_polygon" => some geoPolygon
  | "geo_multi_polygon" => some geoMultiPolygon
  | "timestamp" => some timestamp
  | "TextEncodingNone" => some textNone
  | "TextEncodingDict" => some textDict
  | "ColumnList<i8>" => some (columnList .int8)
  | "ColumnList<i16>" => some (columnList .int16)
  | "ColumnList<i32>" => some (columnList .int32)
  | "ColumnList<i64>" => some (columnList .int64)
  | "ColumnList<float>" => some (columnList .float)
  | "ColumnList<double>" => some (columnList .double)
  | "ColumnList<bool>" => some (columnList .bool)
  | "ColumnList<TextEncodingDict>" => some columnListTextDict
  | _ => none

/-! ### The tables agree -/

/-- Every type is listed under its name. -/
@[simp] theorem ofExactName?_codeName (t : NativeType) : ofExactName? t.codeName = some t := by
  cases t with
  | scalar s | pointer s | array s | column s | columnList s => cases s <;> rfl
  | _ => rfl

/-- A type is listed under no other name. -/
theorem codeName_of_ofExactName? {name : String} {t : NativeType}
    (h : ofExactName? name = some t) : t.codeName = name := by
  unfold ofExactName? at h
  split at h <;> cases h <;> rfl

theorem ofExactName?_eq_some_iff {name : String} {t : NativeType} :
    ofExactName? name = some t ↔ t.codeName = name := by
  constructor
  · exact codeName_of_ofExactName?
  · rintro rfl
    exact ofExactName?_codeName t

/-! ### Blanks around a name -/

/-- The type that has the text for its name, blanks around it aside. -/
def ofCodeName? (text : String) : Option NativeType :=
  ofExactName? (String.ofList (Text.trim text.toList))

/-- A type is read from exactly the texts that are its name once trimmed. -/
theorem ofCodeName?_eq_some_iff {text : String} {t : NativeType} :
    ofCodeName? text = some t ↔ t.codeName = String.ofList (Text.trim text.toList) :=
  ofExactName?_eq_some_iff

end NativeType

end ExtensionCatalog
