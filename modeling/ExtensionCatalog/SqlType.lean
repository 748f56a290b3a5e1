/-!
# SQL types (spec §4.3)

The types under which SQL sees the arguments and results of an extension
function, and the coarser families by which a call is matched with a function:
all numbers are one family, as are all arrays whatever they hold.
-/

namespace ExtensionCatalog

/-- A type of the SQL catalog (`SqlTypeName`). -/
inductive SqlType where
  | boolean
  | tinyInt
  | smallInt
  | integer
  | bigInt
  | float
  | double
  | varchar
  | timestamp
  | array
  | geometry
  | cursor
  | column
  | columnList
deriving DecidableEq, Repr

/-- A class of SQL types that are interchangeable as operands of a call
(`SqlTypeFamily`). -/
inductive SqlFamily where
  | boolean
  | numeric
  | character
  | timestamp
  | array
  | geo
  | cursor
  | column
  | columnList
deriving DecidableEq, Repr

/-- The family a type belongs to (`family`). -/
def SqlType.family : SqlType → SqlFamily
  | .boolean => .boolean
  | .tinyInt | .smallInt | .integer | .bigInt | .float | .double => .numeric
  | .varchar => .character
  | .timestamp => .timestamp
  | .array => .array
  | .geometry => .geo
  | .cursor => .cursor
  | .column => .column
  | .columnList => .columnList

/-- The type as SQL spells it (`sql_name`). -/
def SqlType.name : SqlType → String
  | .boolean => "BOOLEAN"
  | .tinyInt => "TINYINT"
  | .smallInt => "SMALLINT"
  | .integer => "INTEGER"
  | .bigInt => "BIGINT"
  | .float => "FLOAT"
  | .double => "DOUBLE"
  | .varchar => "VARCHAR"
  | .timestamp => "TIMESTAMP"
  | .array => "ARRAY"
  | .geometry => "GEOMETRY"
  | .cursor => "CURSOR"
  | .column => "COLUMN"
  | .columnList => "COLUMN_LIST"

/-- A single value of a row, as opposed to a composite one: an array, a column,
a list of columns, a geometry or a cursor. -/
def SqlType.isScalar : SqlType → Bool
  | .array | .geometry | .cursor | .column | .columnList => false
  | _ => true

/-- The family as diagnostics name it. -/
def SqlFamily.name : SqlFamily → String
  | .boolean => "Boolean"
  | .numeric => "Numeric"
  | .character => "Character"
  | .timestamp => "Timestamp"
  | .array => "Array"
  | .geo => "Geo"
  | .cursor => "Cursor"
  | .column => "Column"
  | .columnList => "ColumnList"

end ExtensionCatalog
