import ExtensionCatalog.Json.Reader
import ExtensionCatalog.Signature.Basic

/-!
# Signature documents (spec §4.4, §6, §C.3)

The form in which signatures are exchanged: a JSON object with the function's
name, its result (`ret`) or its output columns (`outs`), its arguments, and
optionally names and options. Types stand under their code names, and are not
looked at until the whole document has been read. The same values may stand in
an array instead, in the order of `memberNames`.

* `Document.ofMembers?` — a document is read from members of any order, none
  repeated and none unknown; an absent member and one that is null are the same.
* `Document.decode` — the checks on a document, in the order in which their
  failures are reported.
* `Signature.text` — the written form, which leaves names and options out.
-/

namespace ExtensionCatalog

open Json (Value)

/-- A document with its types as they are spelled (`SignatureDocument`). -/
structure Document where
  name : String
  /-- The result of a row function. -/
  result : Option String
  /-- The output columns of a table function. -/
  outputs : Option (List String)
  args : List String
  names : Option (List String)
  options : Option OptionMap
deriving DecidableEq

namespace Document

/-! ### Reading a document -/

/-- The members of a document, in the order in which an array gives them. -/
def memberNames : List String :=
  ["name", "ret", "outs", "args", "names", "options"]

/-- A member that may be left out or null. -/
def optional? {α : Type} (read : Value → Option α) : Option Value → Option (Option α)
  | none | some .null => some none
  | some v => (read v).map some

/-- The options of an object of texts; of a repeated option the last value
counts. -/
def options? (v : Value) : Option OptionMap := do
  let bindings ← (← v.asObject?).mapM fun m => m.2.asString?.map (m.1, ·)
  return OptionMap.ofList bindings

/-- The members of a document each stand once, and no others stand beside
them. -/
def wellNamed (members : List (String × Value)) : Bool :=
  (members.map Prod.fst).Nodup ∧ ∀ key ∈ members.map Prod.fst, key ∈ memberNames

/-- The document of an object's members. -/
def ofMembers? (members : List (String × Value)) : Option Document := do
  guard (wellNamed members)
  return {
    name := ← members.lookup "name" >>= Value.asString?
    result := ← optional? Value.asString? (members.lookup "ret")
    outputs := ← optional? Value.asStrings? (members.lookup "outs")
    args := ← members.lookup "args" >>= Value.asStrings?
    names := ← optional? Value.asStrings? (members.lookup "names")
    options := ← optional? options? (members.lookup "options") }

/-- The document of an object, or of an array of the same values. -/
def ofValue? : Value → Option Document
  | .object members => ofMembers? members
  | .array items =>
    if items.length ≤ memberNames.length then ofMembers? (memberNames.zip items) else none
  | _ => none

/-- The document that a text holds. -/
def parse? (text : String) : Option Document :=
  Json.parse? text >>= ofValue?

/-- The documents that a text holds in an array, as `load_json` reads them. -/
def parseList? (text : String) : Option (List Document) := do
  (← (← Json.parse? text).asArray?).mapM ofValue?

/-! ### From documents to signatures -/

/-- What the function gives: a result or output columns, and not both. -/
def returns (d : Document) : Except SignatureError Returns :=
  match d.result, d.outputs with
  | some result, none => (NativeType.read result).map .row
  | none, some outputs => (outputs.mapM NativeType.read).map .table
  | some _, some _ => .error (.resultAndOutputs d.name)
  | none, none => .error (.noResultNoOutputs d.name)

/-- The name and the signature that a document declares, or the first thing
wrong with it (`into_function`). -/
def decode (d : Document) : Except SignatureError (String × Signature) := do
  if Text.trim d.name.toList = [] then throw .blankName
  let args ← d.args.mapM NativeType.read
  let returns ← d.returns
  let plain : Signature := { args, returns }
  let named ← match d.names with
    | some names => plain.withNames names
    | none => pure plain
  return (d.name, match d.options with
    | some options => named.withOptions options
    | none => named)

end Document

namespace Signature

/-- The signature that a text declares, and the name it declares it for (`from_json`,
spec §C.3). -/
def parse (text : String) : Except SignatureError (String × Signature) :=
  match Document.parse? text with
  | some d => d.decode
  | none => .error .noDocument

/-! ### Writing a signature -/

/-- The code names of some types. -/
def codeNames (types : List NativeType) : Value :=
  .ofStrings (types.map NativeType.codeName)

/-- The member that tells what a function gives. -/
def returnsMember : Returns → String × Value
  | .row type => ("ret", .string type.codeName)
  | .table columns => ("outs", codeNames columns)

/-- The document of a signature under a name (`SignatureWire`). -/
def json (s : Signature) (name : String) : Value :=
  .object [("name", .string name), returnsMember s.returns, ("args", codeNames s.args)]

/-- The written form of a signature under a name (`to_json`, spec §4.4). -/
def text (s : Signature) (name : String) : String :=
  (s.json name).text

end Signature

end ExtensionCatalog
