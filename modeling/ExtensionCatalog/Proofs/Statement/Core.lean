import ExtensionCatalog.Proofs.Text.Blank
import ExtensionCatalog.Statement.Transfer

/-!
# The text of a statement (spec §C.6)

What is read of the text of a statement is its `core`: the blanks around the text are
left out, then one run of semicolons at its end, then the blanks before that run. No
more is left out, so a semicolon that blanks part from the last run stays, and what is
left ends in a semicolon exactly in this case.

* `core_eq_iff` — a text is what is left of the texts that are put together from it and
  these blanks and semicolons.
* `core_append_of_blank`, `core_append_semicolons`, `core_eq_trim` — what is left with
  blanks or a run of semicolons at the end, and without a semicolon there.
-/

namespace ExtensionCatalog.Statement

open Text (Blank StartTrimmed EndTrimmed)

/-! ### Semicolons -/

theorem isBlank_semicolon : Text.isBlank ';' = false := by
  rfl

theorem dropSemicolons_eq_self {s : List Char} (h : s.getLast? ≠ some ';') :
    Text.dropEndWhile (· = ';') s = s := by
  apply Text.dropEndWhile_eq_self
  intro c hc
  exact decide_eq_false fun heq => h (heq ▸ hc)

theorem dropSemicolons_append {s : List Char} (h : s.getLast? ≠ some ';') (n : Nat) :
    Text.dropEndWhile (· = ';') (s ++ List.replicate n ';') = s := by
  rw [Text.dropEndWhile_append_of_forall _ (by simp), dropSemicolons_eq_self h]

/-- Every text ends in a run of semicolons, which may be empty. -/
theorem exists_append_semicolons (s : List Char) :
    ∃ t n, s = t ++ List.replicate n ';' ∧ t.getLast? ≠ some ';' := by
  obtain ⟨run, hrun, hs⟩ := Text.exists_append_dropEndWhile (· = ';') s
  refine ⟨Text.dropEndWhile (· = ';') s, run.length, ?_, ?_⟩
  · rwa [← List.eq_replicate_of_mem fun c hc => of_decide_eq_true (hrun c hc)]
  · intro hlast
    exact of_decide_eq_false (Text.eq_false_of_mem_getLast?_dropEndWhile hlast) rfl

theorem trim_append_semicolons (s : List Char) (n : Nat) :
    Text.trim (s ++ List.replicate (n + 1) ';') =
      Text.trimStart s ++ List.replicate (n + 1) ';' := by
  have hend : EndTrimmed (List.replicate n ';') := by
    intro c hc
    rw [List.eq_of_mem_replicate (List.mem_of_getLast? hc)]
    exact isBlank_semicolon
  rw [List.replicate_succ, Text.trim_append_cons isBlank_semicolon, Text.trimEnd_eq_self hend]

/-! ### The text that is left -/

theorem core_append_of_blank (s : List Char) {x : List Char} (hx : Blank x) :
    core (s ++ x) = core s := by
  rw [core, core, Text.trim_append_blank s hx]

theorem core_eq_trim {s : List Char} (h : (Text.trim s).getLast? ≠ some ';') :
    core s = Text.trim s := by
  rw [core, dropSemicolons_eq_self h, Text.trimEnd_eq_self (Text.endTrimmed_trim s)]

/-- A run of semicolons at the end of a text is left out, and nothing before it but
blanks. -/
theorem core_append_semicolons {s : List Char} (hs : s.getLast? ≠ some ';') (n : Nat)
    {b : List Char} (hb : Blank b) :
    core (s ++ (List.replicate (n + 1) ';' ++ b)) = Text.trim s := by
  have hlast : (Text.trimStart s).getLast? ≠ some ';' := by
    intro hlast
    obtain ⟨a, -, ha⟩ := Text.exists_blank_append_trimStart s
    apply hs
    rw [ha, List.getLast?_append, hlast]
    rfl
  rw [← List.append_assoc, core_append_of_blank _ hb, core, trim_append_semicolons,
    dropSemicolons_append hlast]
  rfl

theorem core_isPrefix_trim (sql : List Char) : core sql <+: Text.trim sql :=
  (Text.dropEndWhile_isPrefix _ _).trans (Text.dropEndWhile_isPrefix _ _)

/-- What stands around the text that is left. -/
theorem exists_around_core (s : List Char) :
    ∃ a b n d, Blank a ∧ Blank b ∧ Blank d ∧
      s = a ++ (core s ++ (b ++ (List.replicate n ';' ++ d))) ∧ StartTrimmed (core s) ∧
      EndTrimmed (core s) ∧ ((core s).getLast? = some ';' → b ≠ [] ∧ n ≠ 0) := by
  obtain ⟨a, d, ha, hd, hs⟩ := Text.exists_blanks_around_trim s
  obtain ⟨u, n, hu, hlast⟩ := exists_append_semicolons (Text.trim s)
  obtain ⟨b, hb, hub⟩ := Text.exists_append_blank_trimEnd u
  have hcore : core s = Text.trimEnd u := by
    rw [core, hu, dropSemicolons_append hlast]
  have hstart : StartTrimmed (core s) :=
    StartTrimmed.of_isPrefix (core_isPrefix_trim s) (Text.startTrimmed_trim s)
  refine ⟨a, b, n, d, ha, hb, hd, ?_, hstart, Text.endTrimmed_trimEnd _, ?_⟩
  · conv_lhs => rw [hs, hu, hub]
    simp [hcore]
  · -- The semicolon is not one of the last run, so something stands between them.
    intro hsemicolon
    rw [hcore] at hsemicolon
    have hne : Text.trimEnd u ≠ u := by
      intro heq
      exact hlast (heq ▸ hsemicolon)
    constructor
    · rintro rfl
      exact hne (hub.trans (List.append_nil _)).symm
    · rintro rfl
      rw [List.replicate_zero, List.append_nil] at hu
      exact hne (Text.trimEnd_eq_self (hu ▸ Text.endTrimmed_trim s))

/-- With blanks around it, a text ends in a semicolon only if it ends in one itself and no
blanks stand behind it. -/
theorem getLast?_ne_semicolon {a t b : List Char} (ha : Blank a) (hb : Blank b)
    (ht : t.getLast? = some ';' → b ≠ []) : (a ++ (t ++ b)).getLast? ≠ some ';' := by
  intro h
  rw [List.getLast?_append, List.getLast?_append, Option.or_eq_some_iff,
    Option.or_eq_some_iff] at h
  obtain (hlast | ⟨hnil, hlast⟩) | ⟨-, hlast⟩ := h
  · exact hb.not_mem isBlank_semicolon (List.mem_of_getLast? hlast)
  · exact ht hlast (List.getLast?_eq_none_iff.mp hnil)
  · exact ha.not_mem isBlank_semicolon (List.mem_of_getLast? hlast)

/-- **What is left out.** A text is left of another one exactly if the other one is made
of blanks, this text, blanks again, a run of semicolons, and blanks at the end. The text
is trimmed, and where it ends in a semicolon itself, blanks part that semicolon from the
run. -/
theorem core_eq_iff {s t : List Char} :
    core s = t ↔
      ∃ a b n d, Blank a ∧ Blank b ∧ Blank d ∧
        s = a ++ (t ++ (b ++ (List.replicate n ';' ++ d))) ∧ StartTrimmed t ∧ EndTrimmed t ∧
        (t.getLast? = some ';' → b ≠ [] ∧ n ≠ 0) := by
  constructor
  · rintro rfl
    exact exists_around_core s
  · rintro ⟨a, b, n, d, ha, hb, hd, rfl, hstart, hend, hsemicolon⟩
    have htrim : Text.trim (a ++ (t ++ b)) = t := Text.trim_append_append ha hb hstart hend
    cases n with
    | zero =>
      have hlast : t.getLast? ≠ some ';' := fun h => (hsemicolon h).2 rfl
      rw [List.replicate_zero, List.nil_append, ← List.append_assoc t, ← List.append_assoc,
        core_append_of_blank _ hd, core_eq_trim (htrim.symm ▸ hlast), htrim]
    | succ n =>
      have hlast := getLast?_ne_semicolon ha hb fun h => (hsemicolon h).1
      rw [← List.append_assoc t, ← List.append_assoc, core_append_semicolons hlast n hd, htrim]

-- Of two runs of semicolons the first one is part of what is left.
example : core "\tRESTORE TABLE t FROM /x; ;;\n".toList = "RESTORE TABLE t FROM /x;".toList := by
  rfl

theorem startTrimmed_core (sql : List Char) : StartTrimmed (core sql) := by
  obtain ⟨-, -, -, -, -, -, -, -, hstart, -⟩ := core_eq_iff.mp (Eq.refl (core sql))
  exact hstart

theorem endTrimmed_core (sql : List Char) : EndTrimmed (core sql) := by
  obtain ⟨-, -, -, -, -, -, -, -, -, hend, -⟩ := core_eq_iff.mp (Eq.refl (core sql))
  exact hend

end ExtensionCatalog.Statement
