import ExtensionCatalog.Text.Lowercase.CaseIgnorable
import ExtensionCatalog.Text.Lowercase.Cased
import ExtensionCatalog.Text.Lowercase.Table

/-!
# Lower-casing

Unicode's full lower-casing, which function names and option names are compared
under. Every character is mapped by itself, with two exceptions: the dotted
capital I becomes two characters, and the capital sigma has a form of its own
at the end of a word.

* `lowerChar_of_ascii` — on ASCII, lower-casing is core's `Char.toLower`.
-/

namespace ExtensionCatalog.Text

/-- The lower-case form of one character, wherever it stands. -/
def lowerChar (c : Char) : List Char :=
  if c = '\u0130' then ['i', '\u0307'] else [Char.ofNat (lowerCode c.toNat)]

/-- On ASCII, lower-casing is core's. -/
theorem lowerChar_of_ascii {c : Char} (h : c.toNat < 128) : lowerChar c = [c.toLower] := by
  have key : ∀ n, n < 128 →
      Char.ofNat (if 0x41 ≤ n ∧ n ≤ 0x5A then n + 32 else n) = (Char.ofNat n).toLower := by
    decide +kernel
  have hc : c ≠ '\u0130' := by rintro rfl; exact absurd h (by decide)
  rw [lowerChar, if_neg hc, lowerCode_of_ascii h, key _ h, Char.ofNat_toNat]

/-- The nearest character that is not passed over is a cased one. -/
def casedFirst (s : List Char) : Bool :=
  (s.dropWhile isCaseIgnorable).head?.any isCased

/-- The small sigma between two texts, the first one read backwards: final after
a cased letter and before none. -/
def smallSigma (before after : List Char) : Char :=
  if casedFirst before && !casedFirst after then 'ς' else 'σ'

/-- The lower-case form of a character between two texts, the first one read
backwards. -/
def lowerBetween (before : List Char) (c : Char) (after : List Char) : List Char :=
  if c = 'Σ' then [smallSigma before after] else lowerChar c

/-- The lower-case form of a text that continues another one, which is given
backwards. -/
def lowerFrom (before : List Char) : List Char → List Char
  | [] => []
  | c :: after => lowerBetween before c after ++ lowerFrom (c :: before) after

/-- The lower-case form of a text. -/
def lower (s : List Char) : List Char :=
  lowerFrom [] s

@[simp] theorem lower_nil : lower [] = [] := rfl

theorem lowerBetween_ne_nil (before : List Char) (c : Char) (after : List Char) :
    lowerBetween before c after ≠ [] := by
  rw [lowerBetween, lowerChar]
  split
  · exact List.cons_ne_nil _ _
  · split <;> exact List.cons_ne_nil _ _

/-- No text is lower-cased away. -/
theorem lower_eq_nil_iff {s : List Char} : lower s = [] ↔ s = [] := by
  cases s with
  | nil => simp
  | cons c s => simp [lower, lowerFrom, lowerBetween_ne_nil]

/-- The name under which a spelling is looked up: its lower-case form. -/
def foldName (name : String) : String :=
  String.ofList (lower name.toList)

@[simp] theorem toList_foldName (name : String) :
    (foldName name).toList = lower name.toList :=
  String.toList_ofList

end ExtensionCatalog.Text
