import ExtensionCatalog.NativeType.Basic

/-!
# Tags of native types (spec §7)

The short names by which diagnostics speak of native types.
-/

namespace ExtensionCatalog

def Scalar.tag : Scalar → String
  | .int8 => "Int8"
  | .int16 => "Int16"
  | .int32 => "Int32"
  | .int64 => "Int64"
  | .float => "Float"
  | .double => "Double"
  | .bool => "Bool"

namespace NativeType

/-- The type as diagnostics name it. -/
def tag : NativeType → String
  | scalar s => s.tag
  | void => "Void"
  | pointer s => "P" ++ s.tag
  | array s => "Array" ++ s.tag
  | column s => "Column" ++ s.tag
  | columnTimestamp => "ColumnTimestamp"
  | columnTextDict => "ColumnTextEncodingDict"
  | columnList s => "ColumnList" ++ s.tag
  | columnListTextDict => "ColumnListTextEncodingDict"
  | geoPoint => "GeoPoint"
  | geoLineString => "GeoLineString"
  | geoPolygon => "GeoPolygon"
  | geoMultiPolygon => "GeoMultiPolygon"
  | cursor => "Cursor"
  | textNone => "TextEncodingNone"
  | textDict => "TextEncodingDict"
  | timestamp => "Timestamp"

end NativeType

end ExtensionCatalog
