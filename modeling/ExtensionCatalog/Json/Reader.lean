import ExtensionCatalog.Json.Lexer

/-!
# Reading JSON values

The tokens of a text are read one after the other, with the containers that are
open kept on a stack. The reading is strict: one value, no comma before the end
of a container, and nothing after the value.

* `Expect.run_append` — reading two lists of tokens one after the other is reading the
  second where the first one left off.
-/

namespace ExtensionCatalog.Json

/-- An open container, with what it holds so far, latest first. -/
inductive Frame where
  /-- An array, one item of which is being read. -/
  | items (before : List Value)
  /-- An object, whose member of the name is being read. -/
  | members (before : List (String × Value)) (key : String)

/-- What may follow, and the containers that are open around it, innermost
first. -/
inductive Expect where
  /-- A value must follow. -/
  | value (outer : List Frame)
  /-- The first item of an array, or its end. -/
  | firstItem (outer : List Frame)
  /-- The first member of an object, or its end. -/
  | firstMember (outer : List Frame)
  /-- The name of a further member. -/
  | furtherMember (before : List (String × Value)) (outer : List Frame)
  /-- The colon after the name of a member. -/
  | colon (before : List (String × Value)) (key : String) (outer : List Frame)
  /-- A value is complete; what follows continues or ends the container. -/
  | after (v : Value) (outer : List Frame)

/-- Reads a token where a value must start. -/
def Expect.startValue (outer : List Frame) : Token → Option Expect
  | .openArray => some (.firstItem outer)
  | .openObject => some (.firstMember outer)
  | .null => some (.after .null outer)
  | .bool b => some (.after (.bool b) outer)
  | .number spelling => some (.after (.number spelling) outer)
  | .string s => some (.after (.string s) outer)
  | .closeArray | .closeObject | .comma | .colon => none

/-- Reads one token. -/
def Expect.step : Expect → Token → Option Expect
  | .value outer, t => startValue outer t
  | .firstItem outer, t =>
    if t = .closeArray then some (.after (.array []) outer)
    else startValue (.items [] :: outer) t
  | .firstMember outer, .closeObject => some (.after (.object []) outer)
  | .firstMember outer, .string key => some (.colon [] key outer)
  | .firstMember _, _ => none
  | .furtherMember before outer, .string key => some (.colon before key outer)
  | .furtherMember _ _, _ => none
  | .colon before key outer, .colon => some (.value (.members before key :: outer))
  | .colon _ _ _, _ => none
  | .after v (.items before :: outer), .comma => some (.value (.items (v :: before) :: outer))
  | .after v (.items before :: outer), .closeArray =>
    some (.after (.array (v :: before).reverse) outer)
  | .after v (.members before key :: outer), .comma =>
    some (.furtherMember ((key, v) :: before) outer)
  | .after v (.members before key :: outer), .closeObject =>
    some (.after (.object ((key, v) :: before).reverse) outer)
  | .after _ _, _ => none

/-- Reads tokens one after the other. -/
def Expect.run (st : Expect) (ts : List Token) : Option Expect :=
  ts.foldlM Expect.step st

theorem Expect.run_append (st : Expect) (ts us : List Token) :
    st.run (ts ++ us) = (st.run ts).bind (·.run us) :=
  List.foldlM_append

/-- The value that the tokens spell. -/
def ofTokens? (ts : List Token) : Option Value :=
  match Expect.run (.value []) ts with
  | some (.after v []) => some v
  | _ => none

/-- The value that a text spells. -/
def parse? (text : String) : Option Value :=
  lex text.toList >>= ofTokens?

end ExtensionCatalog.Json
