import ExtensionCatalog.Signature.Basic

/-!
# Checks on signatures (spec §C.4)

What a signature must satisfy to be registered, so that no later question about
it faults: the void is no argument and no output column, and every output
column has a value type. Strict checking also wants every pointer of a row
function to be followed by its length.

The checks are made in this order, and of each the first position that fails it
is reported.
-/

namespace ExtensionCatalog.Signature

/-- The first void among the arguments and the output columns after them. -/
def voidPosition? (s : Signature) : Option Nat :=
  (s.args ++ s.returns.columns).findIdx? (· = .void)

/-- The first output column without a value type, and its position among the
output columns. -/
def valuelessOutput? (s : Signature) : Option (NativeType × Nat) :=
  s.returns.columns.zipIdx.find? fun output => output.1.valueType?.isNone

/-- The position of the first pointer that no length follows, in arguments that
start at position `i`. A length that follows is not looked at again. -/
def loosePointerFrom (i : Nat) : List NativeType → Option Nat
  | [] => none
  | [t] => if t.isPointer then some i else none
  | t :: u :: rest =>
    if t.isPointer then
      if u.isLength then loosePointerFrom (i + 2) rest else some i
    else loosePointerFrom (i + 1) (u :: rest)

/-- The first pointer without a length; table functions pass no lengths. -/
def loosePointer? (s : Signature) : Option Nat :=
  match s.returns with
  | .row _ => loosePointerFrom 0 s.args
  | .table _ => none

/-- Accepts a signature for registration under a name, or tells the first thing
wrong with it (`validate`). -/
def check (s : Signature) (function : String) (strict : Bool) : Except SignatureError Unit :=
  match s.voidPosition? with
  | some i => .error (.voidOperand function i)
  | none =>
    match s.valuelessOutput? with
    | some (t, i) => .error (.outputWithoutValueType function i t)
    | none =>
      match if strict then s.loosePointer? else none with
      | some i => .error (.pointerWithoutLength function i)
      | none => .ok ()

end ExtensionCatalog.Signature
