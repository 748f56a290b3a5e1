/-!
# Hexadecimal digits

Digits as escapes in quoted texts write them: read in either letter case,
written in lower case.

* `hexValue?_hexDigit` — the digit written for a value is read as that value.
-/

namespace ExtensionCatalog.Text

/-- The digit of a value below sixteen. -/
def hexDigit (n : Nat) : Char :=
  if n < 10 then Char.ofNat (0x30 + n) else Char.ofNat (0x57 + n)

/-- The value of a digit; none for any other character. -/
def hexValue? (c : Char) : Option Nat :=
  let n := c.toNat
  if 0x30 ≤ n ∧ n ≤ 0x39 then some (n - 0x30)
  else if 0x41 ≤ n ∧ n ≤ 0x46 then some (n - 0x37)
  else if 0x61 ≤ n ∧ n ≤ 0x66 then some (n - 0x57)
  else none

/-- The digit written for a value is read as that value. -/
theorem hexValue?_hexDigit {n : Nat} (h : n < 16) : hexValue? (hexDigit n) = some n := by
  have key : ∀ n, n < 16 → hexValue? (hexDigit n) = some n := by decide
  exact key n h

end ExtensionCatalog.Text
