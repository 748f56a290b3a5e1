import ExtensionCatalog.Proofs.Text.Blank
import ExtensionCatalog.Text.Caseless

/-!
# Words in any letter case

Letter case does not make a character blank, so a text that differs from a word
in letter case is a word as well.

* `dropCaseless_eq_some_iff` — the rest of a text after a keyword.
* `Solid.of_sameLetters` — a keyword is one word in every letter case.
-/

namespace ExtensionCatalog.Text

theorem sameLetters_comm (s t : List Char) : sameLetters s t = sameLetters t s := by
  rw [Bool.eq_iff_iff, sameLetters_iff, sameLetters_iff]
  exact eq_comm

theorem ne_nil_of_sameLetters {s t : List Char} (h : sameLetters s t = true) (ht : t ≠ []) :
    s ≠ [] := by
  rintro rfl
  rw [sameLetters_iff] at h
  exact ht (List.map_eq_nil_iff.mp h.symm)

theorem dropCaseless_append {k p : List Char} (h : sameLetters p k = true) (s : List Char) :
    dropCaseless k (p ++ s) = some s := by
  rw [sameLetters_iff] at h
  induction k generalizing p with
  | nil =>
    obtain rfl : p = [] := by simpa [upperAscii] using h
    rfl
  | cons c k ih =>
    cases p with
    | nil => simp [upperAscii] at h
    | cons d p =>
      obtain ⟨hhead, htail⟩ := List.cons_eq_cons.mp h
      rw [List.cons_append, dropCaseless, if_pos hhead.symm]
      exact ih htail

theorem dropCaseless_eq_some_iff {k s r : List Char} :
    dropCaseless k s = some r ↔ ∃ p, s = p ++ r ∧ sameLetters p k = true := by
  constructor
  · intro h
    obtain ⟨p, hs, hp⟩ := dropCaseless_eq_some h
    exact ⟨p, hs, by rw [sameLetters_comm, hp]⟩
  · rintro ⟨p, rfl, hp⟩
    exact dropCaseless_append hp r

/-- Only the small letters of ASCII have a capital form other than themselves. -/
theorem toUpper_eq_self {c : Char} (h : ¬ (97 ≤ c.toNat ∧ c.toNat ≤ 122)) : c.toUpper = c := by
  refine dif_neg ?_
  rintro ⟨hlower, hupper⟩
  exact h ⟨UInt32.le_iff_toNat_le.mp hlower, UInt32.le_iff_toNat_le.mp hupper⟩

/-- What has one value for the two cases of every ASCII letter does not see case. -/
theorem apply_toUpper {α : Type} {f : Char → α}
    (h : ∀ n < 26, f (Char.ofNat (97 + n)).toUpper = f (Char.ofNat (97 + n))) (c : Char) :
    f c.toUpper = f c := by
  by_cases hc : 97 ≤ c.toNat ∧ c.toNat ≤ 122
  · have hcase := h (c.toNat - 97) (by omega)
    rwa [Nat.add_sub_cancel' hc.1, Char.ofNat_toNat] at hcase
  · rw [toUpper_eq_self hc]

theorem isBlank_toUpper (c : Char) : isBlank c.toUpper = isBlank c :=
  apply_toUpper (by decide +kernel) c

theorem Solid.of_sameLetters {s t : List Char} (h : sameLetters s t = true) (ht : Solid t) :
    Solid s := by
  rw [sameLetters_iff] at h
  intro c hc
  have hupper : c.toUpper ∈ upperAscii t := h ▸ List.mem_map_of_mem hc
  obtain ⟨d, hd, hcd⟩ := List.mem_map.mp hupper
  rw [← isBlank_toUpper, ← hcd, isBlank_toUpper]
  exact ht d hd

end ExtensionCatalog.Text
