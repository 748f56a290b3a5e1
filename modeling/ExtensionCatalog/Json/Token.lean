import ExtensionCatalog.Json.Value
import ExtensionCatalog.Text.Hex

/-!
# JSON tokens

The words of JSON text, how each is written, and the words that a value is
written with. Text is written in one form only: without blanks, members in
their order, and of the characters in a string only the quote, the backslash
and the controls below U+0020 escaped.

* `Value.text` — the written form of a value.
-/

namespace ExtensionCatalog.Json

/-- A word of JSON text. -/
inductive Token where
  | openArray
  | closeArray
  | openObject
  | closeObject
  | comma
  | colon
  | null
  | bool (b : Bool)
  | number (spelling : String)
  | string (s : String)
deriving DecidableEq, Repr

/-! ### How a token is written -/

/-- A character of a string as it is written. -/
def escape (c : Char) : List Char :=
  if c = '"' then ['\\', '"']
  else if c = '\\' then ['\\', '\\']
  else if c = '\x08' then ['\\', 'b']
  else if c = '\t' then ['\\', 't']
  else if c = '\n' then ['\\', 'n']
  else if c = '\x0c' then ['\\', 'f']
  else if c = '\r' then ['\\', 'r']
  else if c.toNat < 0x20 then
    ['\\', 'u', '0', '0', Text.hexDigit (c.toNat / 16), Text.hexDigit (c.toNat % 16)]
  else [c]

/-- A string between its quotes. -/
def quote (s : String) : List Char :=
  '"' :: s.toList.flatMap escape ++ ['"']

/-- A token as it is written. -/
def Token.chars : Token → List Char
  | openArray => ['[']
  | closeArray => [']']
  | openObject => ['{']
  | closeObject => ['}']
  | comma => [',']
  | colon => [':']
  | null => "null".toList
  | bool true => "true".toList
  | bool false => "false".toList
  | number spelling => spelling.toList
  | string s => quote s

@[simp] theorem Token.chars_openArray : Token.openArray.chars = ['['] := rfl

@[simp] theorem Token.chars_closeArray : Token.closeArray.chars = [']'] := rfl

@[simp] theorem Token.chars_openObject : Token.openObject.chars = ['{'] := rfl

@[simp] theorem Token.chars_closeObject : Token.closeObject.chars = ['}'] := rfl

@[simp] theorem Token.chars_comma : Token.comma.chars = [','] := rfl

@[simp] theorem Token.chars_colon : Token.colon.chars = [':'] := rfl

@[simp] theorem Token.chars_string (s : String) : (Token.string s).chars = quote s := rfl

/-! ### The tokens of a value -/

mutual
/-- The tokens a value is written with. -/
def Value.tokens : Value → List Token
  | .null => [.null]
  | .bool b => [.bool b]
  | .number spelling => [.number spelling]
  | .string s => [.string s]
  | .array [] => [.openArray, .closeArray]
  | .array (v :: rest) =>
    .openArray :: v.tokens ++ moreItems rest ++ [.closeArray]
  | .object [] => [.openObject, .closeObject]
  | .object ((key, v) :: rest) =>
    .openObject :: .string key :: .colon :: v.tokens ++ moreMembers rest ++ [.closeObject]

/-- The items of an array after its first, a comma before each. -/
def moreItems : List Value → List Token
  | [] => []
  | v :: rest => .comma :: v.tokens ++ moreItems rest

/-- The members of an object after its first, a comma before each. -/
def moreMembers : List (String × Value) → List Token
  | [] => []
  | (key, v) :: rest => .comma :: .string key :: .colon :: v.tokens ++ moreMembers rest
end

/-- The written form of a value. -/
def Value.text (v : Value) : String :=
  String.ofList (v.tokens.flatMap Token.chars)

end ExtensionCatalog.Json
