import ExtensionCatalog.Proofs.Statement.Clause
import ExtensionCatalog.Proofs.Statement.Grammar

/-!
# Semicolons at the end of a statement (spec §C.6)

Of the text of a statement one run of semicolons is left out at the end, with the
blanks around it (`core_eq_iff`). So semicolons behind a statement are ignored as long
as they belong to that run (`Adjoins`); when they do not, some of them stay in the text
that is read, where they are taken for the end of a bare path or cannot be read at all.

* `Adjoins.core_eq` and `exists_core_append` — what is left of the semicolons.
* `parse_append_terminators` — what a statement is read as with semicolons behind it.
-/

namespace ExtensionCatalog.Statement

open Text (Blank Breaks Gap EndTrimmed)

/-! ### Terminators -/

/-- The text consists of semicolons and blanks. -/
def Terminators (s : List Char) : Prop :=
  ∀ c ∈ s, c = ';' ∨ Text.isBlank c = true

instance (s : List Char) : Decidable (Terminators s) := List.decidableBAll _ s

/-- Terminators that are no second run of semicolons at the end of the text `s`: they
are blank, or they are the first run, or they go on with the run that `s` ends with. -/
inductive Adjoins (s : List Char) : List Char → Prop where
  | blank {x : List Char} : Blank x → Adjoins s x
  | first {a b : List Char} (n : Nat) : Blank a → Blank b → (Text.trim s).getLast? ≠ some ';' →
      Adjoins s (a ++ (List.replicate (n + 1) ';' ++ b))
  | more {b : List Char} (n : Nat) : Blank b → s.getLast? = some ';' →
      Adjoins s (List.replicate (n + 1) ';' ++ b)

/-- Terminators that adjoin a text are left out with what the text ends with. -/
theorem Adjoins.core_eq {s x : List Char} (h : Adjoins s x) : core (s ++ x) = core s := by
  cases h with
  | blank hx => exact core_append_of_blank s hx
  | @first a b n ha hb hs =>
    have hlast : (s ++ a).getLast? ≠ some ';' := by
      intro hlast
      apply hs
      rw [← Text.trim_append_blank s ha]
      exact Text.getLast?_trim hlast isBlank_semicolon
    rw [← List.append_assoc, core_append_semicolons hlast n hb, Text.trim_append_blank s ha,
      core_eq_trim hs]
  | @more b n hb hs =>
    obtain ⟨t, m, rfl, ht⟩ := exists_append_semicolons s
    cases m with
    | zero => exact absurd (by simpa using hs) ht
    | succ m =>
      have hrun : t ++ List.replicate (m + 1) ';' ++ (List.replicate (n + 1) ';' ++ b) =
          t ++ (List.replicate (m + n + 1 + 1) ';' ++ b) := by
        rw [List.append_assoc, ← List.append_assoc (List.replicate _ _),
          List.replicate_append_replicate, show m + 1 + (n + 1) = m + n + 1 + 1 by omega]
      have hnil := core_append_semicolons ht m Text.blank_nil
      rw [List.append_nil] at hnil
      rw [hrun, core_append_semicolons ht (m + n + 1) hb, hnil]

theorem Terminators.of_append {s t : List Char} (h : Terminators (s ++ t)) : Terminators s :=
  fun c hc => h c (List.mem_append_left t hc)

/-- Terminators that are not blank have a last semicolon. -/
theorem Terminators.exists_last {x : List Char} (hx : Terminators x) (h : ¬ Blank x) :
    ∃ t b, x = t ++ ';' :: b ∧ Blank b := by
  obtain ⟨b, hb, hs⟩ := Text.exists_append_blank_trimEnd x
  have hne : Text.trimEnd x ≠ [] := fun hnil => h (Text.trimEnd_eq_nil_iff.mp hnil)
  have hlast := List.getLast?_eq_some_getLast hne
  have hmem : (Text.trimEnd x).getLast hne ∈ x :=
    (Text.dropEndWhile_isPrefix _ x).subset (List.getLast_mem hne)
  have hsemicolon : (Text.trimEnd x).getLast hne = ';' := by
    apply (hx _ hmem).resolve_right
    rw [Text.endTrimmed_trimEnd x _ hlast]
    exact Bool.false_ne_true
  refine ⟨(Text.trimEnd x).dropLast, b, ?_, hb⟩
  rw [List.append_cons, ← hsemicolon, List.dropLast_concat_getLast hne]
  exact hs

/-- Of a text with a semicolon at its end more than that semicolon is left out. -/
theorem core_isPrefix_of_trim_eq {s w : List Char} (h : Text.trim s = w ++ [';']) :
    core s <+: w := by
  rw [core, h, Text.dropEndWhile_append_of_forall _ (by simp)]
  exact (Text.dropEndWhile_isPrefix _ _).trans (Text.dropEndWhile_isPrefix _ _)

/-- Terminators that do not adjoin a text leave at least a semicolon behind it. -/
theorem exists_core_append {s x : List Char} (hx : Terminators x) (h : ¬ Adjoins s x) :
    ∃ y, core (s ++ x) = core s ++ (y ++ [';']) := by
  obtain ⟨t, b, rfl, hb⟩ := hx.exists_last fun hblank => h (.blank hblank)
  obtain ⟨t, n, rfl, ht⟩ := exists_append_semicolons t
  have hrun : t ++ List.replicate n ';' ++ ';' :: b = t ++ (List.replicate (n + 1) ';' ++ b) := by
    simp [List.replicate_succ']
  rw [hrun] at hx h ⊢
  have hlast : (s ++ t).getLast? ≠ some ';' := by
    cases t with
    | nil => exact fun hs => h (.more n hb (by simpa using hs))
    | cons c t => rwa [List.getLast?_append_of_ne_nil _ (List.cons_ne_nil c t)]
  rw [← List.append_assoc, core_append_semicolons hlast n hb]
  suffices hrest : ∃ w, Text.trim (s ++ t) = w ++ [';'] ∧ core s <+: w by
    obtain ⟨w, hw, y, rfl⟩ := hrest
    exact ⟨y, by rw [hw, List.append_assoc]⟩
  by_cases hblank : Blank t
  · have hs : (Text.trim s).getLast? = some ';' := by
      by_contra hne
      exact h (.first n hblank hb hne)
    obtain ⟨w, hw⟩ := List.getLast?_eq_some_iff.mp hs
    rw [Text.trim_append_blank s hblank]
    exact ⟨w, hw, core_isPrefix_of_trim_eq hw⟩
  · obtain ⟨t', b', rfl, hb'⟩ := hx.of_append.exists_last hblank
    refine ⟨Text.trimStart (s ++ t'), ?_, ?_⟩
    · rw [← List.append_assoc, Text.trim_append_cons isBlank_semicolon,
        Text.trimEnd_eq_nil_iff.mpr hb']
    · exact (core_isPrefix_trim s).trans ((Text.dropEndWhile_isPrefix _ _).trans
        (Text.trimStart_isPrefix_append s t'))

/-! ### Statements -/

theorem parse_congr {d : Direction} {s t : String} (h : core s.toList = core t.toList) :
    parse d s = parse d t := by
  rw [parse, parse, Transfer.read, Transfer.read, h]

/-- No clause of options ends with a semicolon. -/
theorem getLast?_of_readOptions {s : List Char} {options : Option OptionMap}
    (h : readOptions s = .ok options) : s.getLast? ≠ some ';' := by
  cases readOptions_eq_ok_iff.mp h with
  | none => simp
  | some hclause =>
    obtain ⟨body, -, hbody, -⟩ := ofClause_eq_ok_iff.mp hclause
    obtain ⟨before, keyword, between, after, -, -, hafter, -, rfl⟩ :=
      clauseBody_eq_ok_iff.mp hbody
    have hclosed : ('(' :: (body ++ [')'])).getLast? = some ')' := by
      simp [List.getLast?_cons]
    have hne := List.cons_ne_nil '(' (body ++ [')'])
    intro hlast
    rw [List.getLast?_append_of_ne_nil _ (by simp), List.getLast?_append_of_ne_nil _ (by simp),
      List.getLast?_append_of_ne_nil _ (by simp), List.getLast?_append, hclosed] at hlast
    cases hend : after.getLast? with
    | none =>
      rw [hend] at hlast
      cases hlast
    | some c =>
      rw [hend] at hlast
      cases hlast
      exact hafter.not_mem isBlank_semicolon (List.mem_of_getLast? hend)

namespace Layout

variable {d : Direction} (l : Layout d)

/-- Behind a statement, a semicolon is read only as the end of a bare path. -/
theorem path_of_leftover {y path rest : List Char} {options : Option OptionMap}
    (hpath : splitLiteral (l.beforePath ++ (l.fromPath ++ (y ++ [';']))) = .ok (path, rest))
    (hoptions : readOptions rest = .ok options) :
    ∃ c w, isQuote c = false ∧ l.path.chars = c :: w ∧ l.clause = [] ∧ rest = [] ∧
      path = c :: w ++ (y ++ [';']) := by
  have hfrom : l.fromPath ++ (y ++ [';']) =
      l.path.chars ++ (l.afterPath ++ (l.clause ++ (y ++ [';']))) := by
    simp [fromPath]
  have hrefused : ∀ {s}, s.getLast? = some ';' → rest ≠ Text.trim s := by
    rintro s hs rfl
    exact getLast?_of_readOptions hoptions (Text.getLast?_trim hs isBlank_semicolon)
  by_cases hend : l.path.IsQuoted ∨ Breaks (l.afterPath ++ (l.clause ++ (y ++ [';'])))
  · rw [hfrom, splitLiteral_append l.beforePath_gap.1 hend] at hpath
    cases hpath
    exact absurd rfl (hrefused (by simp))
  · obtain ⟨hbare, hbreaks⟩ := not_or.mp hend
    have hafter : l.afterPath = [] := by
      by_contra hne
      exact hbreaks (Gap.breaks_append ⟨l.afterPath_blank.1, hne⟩ _)
    have hclause : l.clause = [] :=
      (l.afterPath_blank.2.resolve_left hbare).resolve_left fun hne => hne hafter
    cases hl : l.path with
    | quoted q body hq hbody => exact absurd (hl ▸ trivial) hbare
    | bare c w hc hsolid =>
      rw [hfrom, hafter, hclause, hl] at hpath
      rw [List.nil_append, List.nil_append, Literal.chars,
        splitLiteral_bare_append l.beforePath_gap.1 hc hsolid] at hpath
      cases hpath
      have hsplit := Text.firstWord_append_afterFirstWord (y ++ [';'])
      have hnil : Text.afterFirstWord (y ++ [';']) = [] := by
        by_contra hne
        have hlast := congrArg List.getLast? hsplit
        rw [List.getLast?_append_of_ne_nil _ hne, List.getLast?_concat] at hlast
        exact hrefused hlast rfl
      rw [hnil, List.append_nil] at hsplit
      exact ⟨c, w, hc, rfl, hclause, congrArg Text.trim hnil, congrArg _ hsplit⟩

end Layout

/-- Quotes are left out only at the end of a path that does not start with one. -/
theorem stripQuotes_cons {c : Char} (hc : isQuote c = false) (w : List Char) :
    stripQuotes (c :: w) = Text.dropEndWhile isQuote (c :: w) := by
  rw [stripQuotes, List.dropWhile_cons_of_neg (by simp [hc])]

/-- Semicolons that are left behind a statement become part of a bare path at its end,
or they are refused. -/
theorem parse_of_leftover {d : Direction} {sql : String} {l : Layout d} {y : List Char}
    (hcore : core sql.toList = l.chars ++ (y ++ [';'])) :
    (∃ e, parse d sql = .error e) ∨
      ∃ path, parse d sql = .ok { l.statement with path := path } ∧ l.options = none ∧
        path ≠ l.statement.path ∧ path.toList.getLast? = some ';' := by
  cases hparse : parse d sql with
  | error e => exact .inl ⟨e, rfl⟩
  | ok st =>
    right
    obtain ⟨t, hread, -, rfl⟩ := parse_eq_ok_iff_read.mp hparse
    obtain ⟨s₁, table, s₂, s₃, path, s₄, options, hcommand, htable, hkeyword, hpath, hoptions,
      rfl⟩ := Transfer.read_eq_ok_iff.mp hread
    have hend : EndTrimmed (l.fromKeyword ++ (y ++ [';'])) := by
      rw [← List.append_assoc]
      exact Text.endTrimmed_concat isBlank_semicolon _
    rw [hcore, l.dropCommand_append] at hcommand
    cases hcommand
    rw [l.readTable_append hend] at htable
    cases htable
    rw [l.dropKeyword_append] at hkeyword
    cases hkeyword
    obtain ⟨c, w, hc, hw, hclause, rfl, rfl⟩ := l.path_of_leftover hpath hoptions
    cases hoptions
    have hnone : l.options = none := l.clause_reads.eq_none_iff.mpr hclause
    have hlast : (c :: w ++ (y ++ [';'])).getLast? = some ';' := by
      rw [← List.append_assoc]
      exact List.getLast?_concat
    have hstrip : stripQuotes (c :: w ++ (y ++ [';'])) = c :: w ++ (y ++ [';']) := by
      refine (stripQuotes_cons hc _).trans (Text.dropEndWhile_eq_self ?_)
      intro q hq
      obtain rfl : ';' = q := Option.some_inj.mp (hlast.symm.trans hq)
      rfl
    have hne : c :: w ++ (y ++ [';']) ≠ stripQuotes (c :: w) := by
      rw [stripQuotes_cons hc]
      intro heq
      have hle := (Text.dropEndWhile_isPrefix isQuote (c :: w)).length_le
      rw [← heq] at hle
      simp only [List.length_append, List.length_cons] at hle
      omega
    refine ⟨String.ofList (c :: w ++ (y ++ [';'])), ?_, hnone, ?_, ?_⟩
    · rw [Layout.statement, ofParts, pathOf, String.toList_ofList, hstrip, hnone]
    · rw [Layout.statement, hw]
      exact fun heq => hne (String.ofList_injective heq)
    · rw [String.toList_ofList]
      exact hlast

/-- Terminators behind a text do not change what is read if they adjoin it. Behind a
statement, others are read as the end of its path, or they are refused. -/
theorem parse_append_terminators {d : Direction} {s x : String} (hx : Terminators x.toList) :
    (Adjoins s.toList x.toList → parse d (s ++ x) = parse d s) ∧
      ∀ st, parse d s = .ok st → ¬ Adjoins s.toList x.toList →
        (∃ e, parse d (s ++ x) = .error e) ∨
          ∃ path, parse d (s ++ x) = .ok { st with path := path } ∧ st.options = none ∧
            path ≠ st.path ∧ path.toList.getLast? = some ';' := by
  constructor
  · intro h
    apply parse_congr
    rw [String.toList_append]
    exact h.core_eq
  · intro st hparse hadjoins
    obtain ⟨t, hread, hpath, rfl⟩ := parse_eq_ok_iff_read.mp hparse
    obtain ⟨l, hcore, hstatement⟩ := Layout.exists_of_read hread hpath
    obtain ⟨y, hy⟩ := exists_core_append hx hadjoins
    rw [← String.toList_append, hcore] at hy
    rw [hstatement]
    exact parse_of_leftover hy

/-- One run of semicolons between blanks, and two runs. -/
theorem parse_append_terminators_runs :
    parse .restore ("RESTORE TABLE t FROM /x" ++ " ;;\n") =
        parse .restore "RESTORE TABLE t FROM /x" ∧
      ((∃ e, parse .restore ("RESTORE TABLE t FROM /x" ++ "; ;") = .error e) ∨
        ∃ path, parse .restore ("RESTORE TABLE t FROM /x" ++ "; ;") =
          .ok ⟨.restore, "t", path, none⟩ ∧ path ≠ "/x") := by
  have hone : Adjoins "RESTORE TABLE t FROM /x".toList
      ([' '] ++ (List.replicate (1 + 1) ';' ++ ['\n'])) :=
    .first 1 (by decide) (by decide) (by decide)
  have htwo : ¬ Adjoins "RESTORE TABLE t FROM /x".toList "; ;".toList := by
    intro h
    exact absurd h.core_eq (by decide)
  have hparse : parse .restore "RESTORE TABLE t FROM /x" = .ok ⟨.restore, "t", "/x", none⟩ := by
    rfl
  refine ⟨(parse_append_terminators (by decide)).1 hone, ?_⟩
  obtain he | ⟨path, hpath, -, hne, -⟩ := (parse_append_terminators (by decide)).2 _ hparse htwo
  · exact .inl he
  · exact .inr ⟨path, hpath, hne⟩

/-- Of two runs of semicolons the first is read as the end of the path. -/
theorem parse_two_runs :
    ∃ (sql terminators : String), Terminators terminators.toList ∧
      parse .restore sql = .ok ⟨.restore, "t", "/x", none⟩ ∧
      parse .restore (sql ++ terminators) = .ok ⟨.restore, "t", "/x;", none⟩ :=
  ⟨"RESTORE TABLE t FROM /x", "; ;", by decide, by rfl, by rfl⟩

end ExtensionCatalog.Statement
