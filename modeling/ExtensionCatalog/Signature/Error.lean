import ExtensionCatalog.NativeType.CodeName

/-!
# Why a signature is refused (spec §B.1)

The causes for which a type name, a document or a registration is refused, and
their wordings.
-/

namespace ExtensionCatalog

/-- A cause for refusing a signature (`SignatureError`). Positions count from zero. -/
inductive SignatureError where
  /-- No native type has the name. -/
  | unknownTypeName (name : String)
  /-- The text is no signature document. -/
  | noDocument
  /-- A document whose function name is blank. -/
  | blankName
  /-- A document that gives a result as well as output columns. -/
  | resultAndOutputs (name : String)
  /-- A document that gives neither a result nor output columns. -/
  | noResultNoOutputs (name : String)
  /-- As many names as arguments and output columns were wanted. -/
  | nameCountMismatch (expected actual : Nat)
  /-- A pointer that its length does not follow. -/
  | pointerWithoutLength (function : String) (index : Nat)
  /-- The void as an argument or an output column. -/
  | voidOperand (function : String) (index : Nat)
  /-- An output column without a value type. -/
  | outputWithoutValueType (function : String) (index : Nat) (type : NativeType)
  /-- The name has an overload of the same arguments and the same result. -/
  | duplicateOverload (function : String)
deriving DecidableEq, Repr

/-- The wording of a refusal. -/
def SignatureError.message : SignatureError → String
  | .unknownTypeName name => "Unknown extension argument type name: '" ++ name ++ "'"
  | .noDocument => "Malformed signature: not a signature document"
  | .blankName => "Malformed signature: signature name cannot be empty"
  | .resultAndOutputs name =>
    "Malformed signature: '" ++ name ++ "' declares both \"ret\" and \"outs\""
  | .noResultNoOutputs name =>
    "Malformed signature: '" ++ name ++ "' declares neither \"ret\" nor \"outs\""
  | .nameCountMismatch expected actual =>
    "Signature declares " ++ toString expected ++ " types but " ++ toString actual ++ " names"
  | .pointerWithoutLength function index =>
    "Pointer argument " ++ toString index ++ " of '" ++ function ++
      "' must be followed by a length argument"
  | .voidOperand function index =>
    "Void is only valid as a return type ('" ++ function ++ "', position " ++
      toString index ++ ")"
  | .outputWithoutValueType function index type =>
    "Output " ++ toString index ++ " of '" ++ function ++ "' has no SQL column type (" ++
      type.codeName ++ ")"
  | .duplicateOverload function =>
    "Overload of '" ++ function ++ "' with the same argument types is already registered"

/-- The type that a text names, blanks around it aside, or a refusal under what is left
of the text without them (`from_type_name`, spec §C.1). -/
def NativeType.read (text : String) : Except SignatureError NativeType :=
  match ofCodeName? text with
  | some t => .ok t
  | none => .error (.unknownTypeName (String.ofList (Text.trim text.toList)))

/-- A type is read exactly where one has the name. -/
theorem NativeType.read_eq_ok_iff {text : String} {t : NativeType} :
    NativeType.read text = .ok t ↔ ofCodeName? text = some t := by
  unfold NativeType.read
  split <;> simp_all

end ExtensionCatalog
