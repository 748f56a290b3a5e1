/-!
# JSON values (spec §6)

The values of JSON documents. An object keeps its members in the order they
stand in, repeated names included: which repetitions are allowed is for the
reader of a document to say. A number is kept as it is spelled.

* `asStrings?_ofStrings` — an array of strings holds the texts it was made of.
-/

namespace ExtensionCatalog.Json

/-- A JSON value. -/
inductive Value where
  | null
  | bool (b : Bool)
  | number (spelling : String)
  | string (s : String)
  | array (items : List Value)
  | object (members : List (String × Value))
deriving Repr, BEq, Inhabited

namespace Value

/-- The text of a string. -/
def asString? : Value → Option String
  | string s => some s
  | _ => none

/-- The items of an array. -/
def asArray? : Value → Option (List Value)
  | array items => some items
  | _ => none

/-- The members of an object. -/
def asObject? : Value → Option (List (String × Value))
  | object members => some members
  | _ => none

/-- The texts of an array of strings. -/
def asStrings? (v : Value) : Option (List String) := do
  (← v.asArray?).mapM asString?

/-- The array of some texts. -/
def ofStrings (l : List String) : Value :=
  array (l.map string)

/-- An array of strings is read as the texts it was made of. -/
theorem asStrings?_ofStrings (l : List String) : (ofStrings l).asStrings? = some l := by
  have h : (l.map string).mapM asString? = some l := by
    induction l with
    | nil => rfl
    | cons s l ih => simp [List.mapM_cons, ih, asString?]
  simpa [asStrings?, ofStrings, asArray?] using h

end Value

end ExtensionCatalog.Json
