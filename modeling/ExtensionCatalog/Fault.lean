import ExtensionCatalog.NativeType.Tag

/-!
# Faults (spec §7, §B.1)

Questions that must not be asked, such as that for the value type of a cursor.
They are mistakes of the caller and not of the input: a signature that passed
its checks raises none when a call is matched with it.
-/

namespace ExtensionCatalog

/-- A question about a type or a signature that has no answer. -/
inductive Fault where
  /-- The value type of a type without one (`value_type`). -/
  | noValueType (type : NativeType)
  /-- The SQL type of the void (`to_sql_type_name`). -/
  | noSqlType (type : NativeType)
  /-- The result of a function that gives a table (`ret`). -/
  | resultOfTable
  /-- The output columns of a function that gives one value (`outs`). -/
  | outputsOfRow
deriving DecidableEq, Repr

/-- The wording of a fault. -/
def Fault.message : Fault → String
  | .noValueType t => "ExtArgumentType::" ++ t.tag ++ " has no value type"
  | .noSqlType t => "ExtArgumentType::" ++ t.tag ++ " cannot be mapped to a SQL type"
  | .resultOfTable => "ExtensionFunction::ret called on a table function"
  | .outputsOfRow => "ExtensionFunction::outs called on a row function"

end ExtensionCatalog
