import ExtensionCatalog.Text.Hex

/-!
# Numbers in TOML

Integers are decimal with an optional sign, or unsigned in base sixteen, eight
or two after a marker, and fit 64 bits with sign. Floats have a fraction or an
exponent or both. Underscores may stand between two digits. A decimal number
does not start with a zero, unless the zero stands alone.
-/

namespace ExtensionCatalog.Toml

/-! ### Digits -/

/-- The digits of a run in which each underscore stands between two digits. -/
def grouped (isDigit : Char → Bool) : List Char → Option (List Char)
  | [] => none
  | [c] => if isDigit c then some [c] else none
  | c :: '_' :: rest => if isDigit c then (grouped isDigit rest).map (c :: ·) else none
  | c :: d :: rest => if isDigit c then (grouped isDigit (d :: rest)).map (c :: ·) else none

/-- The number that digits spell in a base. -/
def ofDigits (base : Nat) (digits : List Char) : Nat :=
  digits.foldl (fun n c => base * n + (Text.hexValue? c).getD 0) 0

/-- The number of decimal digits without a superfluous zero in front. -/
def whole? (s : List Char) : Option Nat := do
  let digits ← grouped Char.isDigit s
  if digits.head? = some '0' ∧ digits.length ≠ 1 then none
  else return ofDigits 10 digits

/-- The sign of a number, true for minus, and what follows it. -/
def splitSign : List Char → Bool × List Char
  | '-' :: rest => (true, rest)
  | '+' :: rest => (false, rest)
  | s => (false, s)

/-! ### Integers -/

/-- The digits of base eight. -/
def isOctal (c : Char) : Bool :=
  '0' ≤ c && c ≤ '7'

/-- The digits of base two. -/
def isBinary (c : Char) : Bool :=
  c = '0' || c = '1'

/-- The integer that fits 64 bits with sign. -/
def fitting? (i : Int) : Option Int :=
  if -0x8000000000000000 ≤ i ∧ i < 0x8000000000000000 then some i else none

/-- The integer that a word spells. -/
def integer? : List Char → Option Int
  | '0' :: 'x' :: rest => do
    fitting? (ofDigits 16 (← grouped (Text.hexValue? · |>.isSome) rest))
  | '0' :: 'o' :: rest => do fitting? (ofDigits 8 (← grouped isOctal rest))
  | '0' :: 'b' :: rest => do fitting? (ofDigits 2 (← grouped isBinary rest))
  | s => do
    let (negative, digits) := splitSign s
    let n ← whole? digits
    fitting? (if negative then -n else n)

/-! ### Floats -/

/-- A decimal fraction: the number without its point, and the power of ten that
it is to be multiplied with. -/
structure Decimal where
  digits : Nat
  exponent : Int

/-- The smallest number that is nearer to infinity than to the greatest finite
number of 64 bits; it counts as infinite itself. -/
def overflowBound : Nat :=
  Nat.pow 2 1024 - Nat.pow 2 970

/-- The number is too great for 64 bits. A number is compared with the bound
only if as many digits stand before its point as in the bound. -/
def Decimal.overflows (d : Decimal) : Bool :=
  if d.digits = 0 then false
  else
    let whole : Int := (Nat.toDigits 10 d.digits).length + d.exponent
    if whole < 309 then false
    else if 309 < whole then true
    else overflowBound * Nat.pow 10 (-d.exponent).toNat ≤ d.digits * Nat.pow 10 d.exponent.toNat

/-- The number of an exponent, sign included. -/
def exponent? (s : List Char) : Option Int := do
  let (negative, digits) := splitSign s
  let n := ofDigits 10 (← grouped Char.isDigit digits)
  return if negative then -n else n

/-- The float that an unsigned word spells. -/
def decimal? (s : List Char) : Option Decimal := do
  let mantissa := s.takeWhile fun c => c ≠ 'e' && c ≠ 'E'
  let exponent ← match s.drop mantissa.length with
    | [] => some 0
    | _ :: rest => exponent? rest
  let before := mantissa.takeWhile (· ≠ '.')
  let whole ← whole? before
  match mantissa.drop before.length with
  | [] => if mantissa.length = s.length then none else return ⟨whole, exponent⟩
  | _ :: rest =>
    let fraction ← grouped Char.isDigit rest
    return ⟨whole * Nat.pow 10 fraction.length + ofDigits 10 fraction, exponent - fraction.length⟩

/-- The word spells a float. A positive number too great for 64 bits is none;
a negative one counts as infinite. -/
def isFloat (s : List Char) : Bool :=
  let (negative, unsigned) := splitSign s
  unsigned = "inf".toList || unsigned = "nan".toList ||
    match decimal? unsigned with
    | some d => negative || !d.overflows
    | none => false

end ExtensionCatalog.Toml
