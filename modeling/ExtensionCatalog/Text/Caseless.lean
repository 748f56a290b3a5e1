/-!
# ASCII letter case

Keywords and level names are matched without regard to the case of ASCII
letters; every other character, a letter of another alphabet included, only
matches itself.

* `sameLetters_iff` — two texts match exactly when they have one upper-case
  form.
* `dropCaseless_eq_some` — dropping a leading keyword returns a rest only of a
  text that starts with the keyword in some letter case.
-/

namespace ExtensionCatalog.Text

/-- The text with its ASCII letters in upper case. Core's `Char.toUpper` knows
ASCII only, which is the rule here. -/
def upperAscii (s : List Char) : List Char :=
  s.map Char.toUpper

/-- Two texts that differ at most in the case of ASCII letters. -/
def sameLetters (s t : List Char) : Bool :=
  upperAscii s = upperAscii t

theorem sameLetters_iff {s t : List Char} :
    sameLetters s t = true ↔ upperAscii s = upperAscii t := by
  simp [sameLetters]

/-- The rest of a text after a leading keyword, in any ASCII letter case; none
if the text does not start with it. -/
def dropCaseless : List Char → List Char → Option (List Char)
  | [], s => some s
  | _ :: _, [] => none
  | k :: ks, c :: s => if k.toUpper = c.toUpper then dropCaseless ks s else none

/-- The keyword is a leading part of the text, up to letter case. -/
theorem dropCaseless_eq_some {k s r : List Char} (h : dropCaseless k s = some r) :
    ∃ p, s = p ++ r ∧ sameLetters k p = true := by
  fun_induction dropCaseless k s with
  | case1 s => exact ⟨[], by simpa using h, by simp [sameLetters]⟩
  | case2 => simp at h
  | case3 k ks c s hc ih =>
    obtain ⟨p, rfl, hp⟩ := ih h
    refine ⟨c :: p, rfl, ?_⟩
    rw [sameLetters_iff] at hp ⊢
    simpa [upperAscii, hc] using hp
  | case4 => simp at h

end ExtensionCatalog.Text
