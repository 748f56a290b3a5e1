import ExtensionCatalog.Proofs.Text.Caseless
import ExtensionCatalog.Text.Lowercase

/-!
# What lower-casing leaves

What letters are mapped to are small letters, which are mapped to nothing further.
So a text in lower case is its own lower-case form, and no lower-case form has a
blank or an equals sign that did not stand in the text.

A capital sigma looks at its neighbours. What it asks of them, whether they are
cased and whether they are passed over, has one answer for the two cases of an
ASCII letter, so texts that differ in the case of ASCII letters have one
lower-case form.

* `lower_lower` — lower-casing a second time changes nothing.
* `lower_congr` — the case of ASCII letters makes no difference.
* `startTrimmed_lower`, `endTrimmed_lower`, `equals_not_mem_lower` — what a name
  does not have at its ends, or at all, its lower-case form does not have either.
-/

namespace ExtensionCatalog.Text

/-! ### The table -/

/-- The run's letters are mapped past the letters of another run: to code points
before or behind it, or between its letters where it takes every second code
point. -/
def LetterRun.misses (r q : LetterRun) : Bool :=
  (r.lower + (r.last - r.first)).blt q.first || q.last.blt r.lower ||
    (q.step.beq 2 && (r.step.beq 2 || r.first.beq r.last) && ((r.lower + q.first) % 2).beq 1)

theorem LetterRun.misses_iff {r q : LetterRun} :
    r.misses q = true ↔
      (r.lower + (r.last - r.first) < q.first ∨ q.last < r.lower) ∨
        (q.step = 2 ∧ (r.step = 2 ∨ r.first = r.last)) ∧ (r.lower + q.first) % 2 = 1 := by
  simp [misses, Nat.blt_eq, Nat.beq_eq]

theorem LetterRun.map?_eq_some_iff {r : LetterRun} {n m : Nat} :
    r.map? n = some m ↔ (r.first ≤ n ∧ n ≤ r.last ∧ (n - r.first) % r.step = 0) ∧
      r.lower + (n - r.first) = m := by
  simp [LetterRun.map?]

/-- What a run maps to, a run that it misses does not map further. -/
theorem LetterRun.map?_eq_none_of_misses {r q : LetterRun} (h : r.misses q = true) {n m : Nat}
    (hm : r.map? n = some m) : q.map? m = none := by
  obtain ⟨⟨hfirst, hlast, hstep⟩, rfl⟩ := LetterRun.map?_eq_some_iff.mp hm
  refine if_neg ?_
  rintro ⟨hqfirst, hqlast, hqstep⟩
  rcases LetterRun.misses_iff.mp h with (hbefore | hbehind) | ⟨⟨hq, hr | hr⟩, hodd⟩
  · omega
  · omega
  · rw [hr] at hstep
    rw [hq] at hqstep
    omega
  · rw [hq] at hqstep
    omega

theorem letterRuns_miss : ∀ r ∈ letterRuns, letterRuns.all r.misses = true := by
  decide +kernel

/-- Ranges of code points to which no letter is mapped: the ASCII characters
before the small letters, all blanks beyond them, the dotted capital I, and what
is no character. -/
def unmappedRanges : List (Nat × Nat) :=
  [(0, 0x60), (0x85, 0x85), (0xA0, 0xA0), (0x130, 0x130), (0x1680, 0x1680), (0x2000, 0x205F),
    (0x3000, 0x3000), (0xD800, 0xDFFF)]

theorem letterRuns_miss_unmappedRanges :
    ∀ r ∈ letterRuns, r.lower + (r.last - r.first) < 0x110000 ∧
      ∀ g ∈ unmappedRanges, r.lower + (r.last - r.first) < g.1 ∨ g.2 < r.lower := by
  decide +kernel

/-- A code point is its own lower-case form, or is mapped by a run. -/
theorem lowerCode_cases (n : Nat) :
    lowerCode n = n ∨ ∃ r ∈ letterRuns, r.map? n = some (lowerCode n) := by
  rw [lowerCode]
  cases h : letterRuns.findSome? (·.map? n) with
  | none => exact .inl rfl
  | some m => exact .inr (List.exists_of_findSome?_eq_some h)

theorem lowerCode_lowerCode (n : Nat) : lowerCode (lowerCode n) = lowerCode n := by
  rcases lowerCode_cases n with h | ⟨r, hr, h⟩
  · rw [h, h]
  · have hnone : letterRuns.findSome? (·.map? (lowerCode n)) = none :=
      List.findSome?_eq_none_iff.mpr fun q hq =>
        LetterRun.map?_eq_none_of_misses (List.all_eq_true.mp (letterRuns_miss r hr) q hq) h
    conv_lhs => rw [lowerCode, hnone]
    rfl

theorem lowerCode_eq_self_of_unmapped {n : Nat}
    (h : inRanges unmappedRanges (lowerCode n) = true) : lowerCode n = n := by
  rcases lowerCode_cases n with hn | ⟨r, hr, hn⟩
  · exact hn
  · obtain ⟨g, hg, hlow, hhigh⟩ := inRanges_iff.mp h
    obtain ⟨⟨-, hlast, -⟩, heq⟩ := LetterRun.map?_eq_some_iff.mp hn
    have hmiss := (letterRuns_miss_unmappedRanges r hr).2 g hg
    omega

theorem isValidChar_lowerCode (c : Char) : (lowerCode c.toNat).isValidChar := by
  rcases lowerCode_cases c.toNat with hn | ⟨r, hr, hn⟩
  · rw [hn]
    exact c.valid
  · obtain ⟨⟨-, hlast, -⟩, heq⟩ := LetterRun.map?_eq_some_iff.mp hn
    obtain ⟨hbound, hmiss⟩ := letterRuns_miss_unmappedRanges r hr
    have hsurrogates := hmiss (0xD800, 0xDFFF) (by decide)
    simp only [Nat.isValidChar]
    omega

/-! ### Characters -/

/-- The character is its own lower-case form, wherever it stands. -/
def Small (c : Char) : Prop := c ≠ 'Σ' ∧ lowerChar c = [c]

instance (c : Char) : Decidable (Small c) :=
  inferInstanceAs (Decidable (_ ∧ _))

/-- A lower-case form consists of a small sigma, of the two characters of the dotted
capital I, or of what the table maps to. -/
theorem mem_lowerBetween {before after : List Char} {c d : Char}
    (h : d ∈ lowerBetween before c after) :
    d ∈ ['ς', 'σ', 'i', '\u0307'] ∨ (c ≠ '\u0130' ∧ d.toNat = lowerCode c.toNat) := by
  rw [lowerBetween] at h
  split at h
  · left
    rw [List.mem_singleton, smallSigma] at h
    split at h
    · simp [h]
    · simp [h]
  · rw [lowerChar] at h
    split at h
    · left
      rcases List.mem_pair.mp h with rfl | rfl
      · simp
      · simp
    · rename_i hdotted
      right
      refine ⟨hdotted, ?_⟩
      rw [List.mem_singleton.mp h, Char.ofNat, dif_pos (isValidChar_lowerCode c)]
      rfl

/-- A character of which no letter is a capital form comes from itself. -/
theorem eq_of_mem_lowerBetween {before after : List Char} {c d : Char}
    (h : d ∈ lowerBetween before c after) (hd : inRanges unmappedRanges d.toNat = true) :
    d = c := by
  rcases mem_lowerBetween h with hspecial | ⟨-, hcode⟩
  · simp only [List.mem_cons, List.not_mem_nil, or_false] at hspecial
    rcases hspecial with rfl | rfl | rfl | rfl <;> exact absurd hd (by decide)
  · rw [hcode] at hd
    rw [lowerCode_eq_self_of_unmapped hd] at hcode
    exact Char.toNat_inj.mp hcode

/-- Lower-casing leaves small letters only. -/
theorem small_of_mem_lowerBetween {before after : List Char} {c d : Char}
    (h : d ∈ lowerBetween before c after) : Small d := by
  rcases mem_lowerBetween h with hspecial | ⟨hc, hcode⟩
  · simp only [List.mem_cons, List.not_mem_nil, or_false] at hspecial
    rcases hspecial with rfl | rfl | rfl | rfl <;> decide +kernel
  · have hfixed : lowerCode d.toNat = d.toNat := by
      rw [hcode, lowerCode_lowerCode]
    have hsigma : d ≠ 'Σ' := by
      rintro rfl
      exact absurd hfixed (by decide +kernel)
    have hdotted : d ≠ '\u0130' := by
      rintro rfl
      exact hc (eq_of_mem_lowerBetween h rfl).symm
    refine ⟨hsigma, ?_⟩
    rw [lowerChar, if_neg hdotted, hfixed, Char.ofNat_toNat]

/-! ### Lower-casing twice -/

/-- Every character of a lower-case form belongs to that of one character. -/
theorem exists_mem_lowerBetween {before s : List Char} {d : Char} (h : d ∈ lowerFrom before s) :
    ∃ c ∈ s, ∃ before after, d ∈ lowerBetween before c after := by
  induction s generalizing before with
  | nil => cases h
  | cons c s ih =>
    rcases List.mem_append.mp h with h | h
    · exact ⟨c, List.mem_cons_self, before, s, h⟩
    · obtain ⟨e, he, h⟩ := ih h
      exact ⟨e, List.mem_cons_of_mem c he, h⟩

theorem lowerFrom_of_small {s : List Char} (h : ∀ c ∈ s, Small c) (before : List Char) :
    lowerFrom before s = s := by
  induction s generalizing before with
  | nil => rfl
  | cons c s ih =>
    obtain ⟨hsigma, hc⟩ := h c List.mem_cons_self
    rw [lowerFrom, lowerBetween, if_neg hsigma, hc,
      ih (fun d hd => h d (List.mem_cons_of_mem c hd))]
    rfl

/-- On a text in ASCII, lower-casing is core's. -/
theorem lower_of_ascii {s : List Char} (h : ∀ c ∈ s, c.toNat < 128) :
    lower s = s.map Char.toLower := by
  have hfrom : ∀ before, lowerFrom before s = s.map Char.toLower := by
    induction s with
    | nil => exact fun _ => rfl
    | cons c s ih =>
      intro before
      have hc := h c List.mem_cons_self
      have hsigma : c ≠ 'Σ' := by
        rintro rfl
        exact absurd hc (by decide)
      rw [lowerFrom, lowerBetween, if_neg hsigma, lowerChar_of_ascii hc,
        ih fun d hd => h d (List.mem_cons_of_mem c hd)]
      rfl
  exact hfrom []

/-- **Lower-casing a second time changes nothing.** -/
theorem lower_lower (s : List Char) : lower (lower s) = lower s := by
  refine lowerFrom_of_small ?_ []
  intro d hd
  obtain ⟨c, -, before, after, hd⟩ := exists_mem_lowerBetween hd
  exact small_of_mem_lowerBetween hd

theorem foldName_foldName (name : String) : foldName (foldName name) = foldName name := by
  rw [foldName, toList_foldName, lower_lower]
  rfl

/-! ### What does not come into a text -/

theorem unmapped_of_isBlank {c : Char} (h : isBlank c = true) :
    inRanges unmappedRanges c.toNat = true := by
  simp only [isBlank, Bool.or_eq_true, Bool.and_eq_true, decide_eq_true_eq] at h
  simp only [inRanges, unmappedRanges, List.any_cons, List.any_nil, Bool.or_false,
    Bool.or_eq_true, Bool.and_eq_true, decide_eq_true_eq]
  omega

theorem equals_not_mem_lower {s : List Char} (h : '=' ∉ s) : '=' ∉ lower s := by
  intro hmem
  obtain ⟨c, hc, before, after, hequals⟩ := exists_mem_lowerBetween hmem
  exact h ((eq_of_mem_lowerBetween hequals rfl).symm ▸ hc)

theorem isBlank_of_mem_lowerBetween {before after : List Char} {c d : Char}
    (hc : isBlank c = false) (h : d ∈ lowerBetween before c after) : isBlank d = false := by
  by_contra hd
  rw [Bool.not_eq_false] at hd
  rw [← eq_of_mem_lowerBetween h (unmapped_of_isBlank hd), hd] at hc
  cases hc

theorem startTrimmed_lower {s : List Char} (h : StartTrimmed s) : StartTrimmed (lower s) := by
  cases s with
  | nil => exact h
  | cons c s =>
    intro d hd
    rw [lower, lowerFrom, List.head?_append_of_ne_nil _ (lowerBetween_ne_nil [] c s)] at hd
    exact isBlank_of_mem_lowerBetween (startTrimmed_cons.mp h) (List.mem_of_mem_head? hd)

theorem lowerFrom_ne_nil {s : List Char} (h : s ≠ []) (before : List Char) :
    lowerFrom before s ≠ [] := by
  cases s with
  | nil => exact absurd rfl h
  | cons c s => exact List.append_ne_nil_of_left_ne_nil (lowerBetween_ne_nil before c s) _

theorem endTrimmed_lowerFrom {s : List Char} (h : EndTrimmed s) (before : List Char) :
    EndTrimmed (lowerFrom before s) := by
  induction s generalizing before with
  | nil => exact h
  | cons c s ih =>
    by_cases hs : s = []
    · subst hs
      intro d hd
      rw [lowerFrom, lowerFrom, List.append_nil] at hd
      exact isBlank_of_mem_lowerBetween (h c rfl) (List.mem_of_getLast? hd)
    · rw [lowerFrom]
      have hrest : EndTrimmed s := h.of_append (s := [c])
      exact (ih hrest (c :: before)).append (lowerFrom_ne_nil hs _) _

theorem endTrimmed_lower {s : List Char} (h : EndTrimmed s) : EndTrimmed (lower s) :=
  endTrimmed_lowerFrom h []

/-! ### The case of ASCII letters -/

theorem isCased_toUpper (c : Char) : isCased c.toUpper = isCased c :=
  apply_toUpper (by decide +kernel) c

/-- Of ASCII, no letter is passed over. -/
theorem isCaseIgnorable_of_ascii_letter {c : Char}
    (h : (0x41 ≤ c.toNat ∧ c.toNat ≤ 0x5A) ∨ (0x61 ≤ c.toNat ∧ c.toNat ≤ 0x7A)) :
    isCaseIgnorable c = false := by
  have hmiss : ∀ g ∈ caseIgnorableRanges,
      (g.2 < 0x41 ∨ 0x5A < g.1) ∧ (g.2 < 0x61 ∨ 0x7A < g.1) := by
    decide +kernel
  rw [isCaseIgnorable, ← Bool.not_eq_true, inRanges_iff]
  rintro ⟨g, hg, hlow, hhigh⟩
  have := hmiss g hg
  omega

theorem isCaseIgnorable_toUpper (c : Char) : isCaseIgnorable c.toUpper = isCaseIgnorable c := by
  refine apply_toUpper (fun n hn => ?_) c
  have hletters : ∀ n < 26, (Char.ofNat (97 + n)).toNat = 0x61 + n ∧
      (Char.ofNat (97 + n)).toUpper.toNat = 0x41 + n := by
    decide
  obtain ⟨hsmall, hcapital⟩ := hletters n hn
  rw [isCaseIgnorable_of_ascii_letter (by omega), isCaseIgnorable_of_ascii_letter (by omega)]

theorem lowerChar_toUpper (c : Char) : lowerChar c.toUpper = lowerChar c :=
  apply_toUpper (by decide +kernel) c

theorem toUpper_eq_sigma_iff (c : Char) : c.toUpper = 'Σ' ↔ c = 'Σ' := by
  have h := apply_toUpper (f := fun d => decide (d = 'Σ')) (by decide +kernel) c
  exact decide_eq_decide.mp h

/-- A sigma asks the same of its neighbours in either case. -/
theorem casedFirst_upperAscii (s : List Char) : casedFirst (upperAscii s) = casedFirst s := by
  rw [casedFirst, casedFirst, upperAscii, List.dropWhile_map, List.head?_map]
  rw [show isCaseIgnorable ∘ Char.toUpper = isCaseIgnorable from funext isCaseIgnorable_toUpper]
  cases (s.dropWhile isCaseIgnorable).head? with
  | none => rfl
  | some c => exact isCased_toUpper c

theorem lowerBetween_upperAscii (before : List Char) (c : Char) (after : List Char) :
    lowerBetween (upperAscii before) c.toUpper (upperAscii after) =
      lowerBetween before c after := by
  rw [lowerBetween, lowerBetween, smallSigma, smallSigma, casedFirst_upperAscii,
    casedFirst_upperAscii, lowerChar_toUpper]
  exact if_congr (toUpper_eq_sigma_iff c) rfl rfl

theorem lowerFrom_upperAscii (before s : List Char) :
    lowerFrom (upperAscii before) (upperAscii s) = lowerFrom before s := by
  induction s generalizing before with
  | nil => rfl
  | cons c s ih =>
    have hrest : lowerFrom (c.toUpper :: upperAscii before) (upperAscii s) =
        lowerFrom (c :: before) s := ih (c :: before)
    have hfirst := lowerBetween_upperAscii before c s
    exact congrArg₂ (· ++ ·) hfirst hrest

/-- **The case of ASCII letters makes no difference**, wherever a sigma stands. -/
theorem lower_congr {s t : List Char} (h : sameLetters s t = true) : lower s = lower t := by
  have hlower : ∀ u, lower (upperAscii u) = lower u := lowerFrom_upperAscii []
  rw [← hlower s, sameLetters_iff.mp h, hlower]

end ExtensionCatalog.Text
