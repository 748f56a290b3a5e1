/-!
# Dates and times in TOML

A date, a time of day, or both, and after both an offset from universal time.
Only whether a word is one of these matters; the calendar is checked, leap
years included, and a minute may have a leap second.
-/

namespace ExtensionCatalog.Toml

/-- The number of two digits. -/
def twoDigits? (c d : Char) : Option Nat :=
  if c.isDigit ∧ d.isDigit then some (10 * (c.toNat - 48) + (d.toNat - 48)) else none

/-- Years in which the second month has a day more. -/
def isLeapYear (year : Nat) : Bool :=
  year % 4 = 0 && (year % 100 ≠ 0 || year % 400 = 0)

/-- The number of days in a month. -/
def daysIn (year month : Nat) : Nat :=
  if month = 2 then (if isLeapYear year then 29 else 28)
  else if month = 4 ∨ month = 6 ∨ month = 9 ∨ month = 11 then 30
  else 31

/-- The text after a date such as `1979-05-27`. -/
def dropDate : List Char → Option (List Char)
  | y1 :: y2 :: y3 :: y4 :: '-' :: m1 :: m2 :: '-' :: d1 :: d2 :: rest => do
    let year := 100 * (← twoDigits? y1 y2) + (← twoDigits? y3 y4)
    let month ← twoDigits? m1 m2
    let day ← twoDigits? d1 d2
    guard (1 ≤ month ∧ month ≤ 12 ∧ 1 ≤ day ∧ day ≤ daysIn year month)
    return rest
  | _ => none

/-- The text after the fraction of a second, if one stands there. -/
def dropSecondFraction : List Char → Option (List Char)
  | '.' :: c :: rest => if c.isDigit then some (rest.dropWhile Char.isDigit) else none
  | '.' :: [] => none
  | s => some s

/-- The text after a time of day such as `07:32:00.5`. -/
def dropTime : List Char → Option (List Char)
  | h1 :: h2 :: ':' :: m1 :: m2 :: ':' :: s1 :: s2 :: rest => do
    guard ((← twoDigits? h1 h2) ≤ 23 ∧ (← twoDigits? m1 m2) ≤ 59 ∧ (← twoDigits? s1 s2) ≤ 60)
    dropSecondFraction rest
  | _ => none

/-- An offset such as `-07:00`, or none. -/
def isOffset : List Char → Bool
  | [] | ['Z'] | ['z'] => true
  | [sign, h1, h2, ':', m1, m2] =>
    (sign = '+' || sign = '-') && (twoDigits? h1 h2).any (· ≤ 23) &&
      (twoDigits? m1 m2).any (· ≤ 59)
  | _ => false

/-- The word is a time of day with or without an offset. -/
def isOffsetTime (s : List Char) : Bool :=
  (dropTime s).any isOffset

/-- The word is a date, a time of day, or a date and a time joined by a `T`. -/
def isDateTime (s : List Char) : Bool :=
  match dropDate s with
  | some [] => true
  | some (c :: rest) => (c = 'T' || c = 't') && isOffsetTime rest
  | none => dropTime s = some []

end ExtensionCatalog.Toml
