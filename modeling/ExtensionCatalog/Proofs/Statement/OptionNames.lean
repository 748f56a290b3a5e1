import ExtensionCatalog.Proofs.Statement.Clause
import ExtensionCatalog.Proofs.Statement.Grammar
import ExtensionCatalog.Proofs.Text.Lowercase

/-!
# The names of options (spec §C.6)

Whatever stands in a clause of options, the names in its map have one form: they are
not empty, no blank stands at their ends, they hold no equals sign, and they are
their own lower-case form. A name is trimmed before it is lower-cased, so this needs
that lower-casing brings neither blanks nor equals signs into a text, and that it
leaves nothing to be lower-cased again.

A clause has at least one entry, so its map is not empty: a statement without a
clause, which has no map at all, and one with a clause never look alike.

* `readOption_isName` — the name of one entry.
* `ofClause_normal`, `options_normal` — the names of a clause and of a statement.
-/

namespace ExtensionCatalog

/-- A binding of a list that is put into a map was in the list. -/
theorem OptionMap.mem_of_mem_foldl_insert {e : String × String} {l : List (String × String)}
    {m : OptionMap} (h : e ∈ (l.foldl (fun m e => m.insert e.1 e.2) m).entries) :
    e ∈ l ∨ e ∈ m.entries := by
  induction l generalizing m with
  | nil => exact .inr h
  | cons d l ih =>
    rcases ih h with h | h
    · exact .inl (List.mem_cons_of_mem d h)
    · rcases OptionMap.mem_place h with rfl | h
      · exact .inl List.mem_cons_self
      · exact .inr h

theorem OptionMap.mem_of_mem_ofList {e : String × String} {l : List (String × String)}
    (h : e ∈ (OptionMap.ofList l).entries) : e ∈ l :=
  (OptionMap.mem_of_mem_foldl_insert h).resolve_right List.not_mem_nil

namespace Statement

open Text (StartTrimmed EndTrimmed)

/-- The form that names of options have. -/
structure IsOptionName (name : String) : Prop where
  ne_empty : name ≠ ""
  trimmed : Text.trim name.toList = name.toList
  no_equals : '=' ∉ name.toList
  folded : Text.foldName name = name

/-- The map binds something, and only names of that form. -/
structure NormalOptions (options : OptionMap) : Prop where
  nonempty : options.entries ≠ []
  names : ∀ e ∈ options.entries, IsOptionName e.1

theorem isOptionName_lower {name : List Char} (hne : name ≠ []) (hstart : StartTrimmed name)
    (hend : EndTrimmed name) (hequals : '=' ∉ name) :
    IsOptionName (String.ofList (Text.lower name)) where
  ne_empty := by
    rw [ne_eq, String.ofList_eq_empty_iff, Text.lower_eq_nil_iff]
    exact hne
  trimmed := by
    rw [String.toList_ofList]
    exact Text.trim_eq_self (Text.startTrimmed_lower hstart) (Text.endTrimmed_lower hend)
  no_equals := by
    rw [String.toList_ofList]
    exact Text.equals_not_mem_lower hequals
  folded := by
    rw [Text.foldName, String.toList_ofList, Text.lower_lower]

/-- The name of an option is what stands before its first equals sign, trimmed and
lower-cased. -/
theorem readOption_isName {entry : List Char} {binding : String × String}
    (h : readOption entry = .ok binding) : IsOptionName binding.1 := by
  obtain ⟨name, value, -, hequals, hblank, rfl⟩ := readOption_eq_ok_iff.mp h
  have htrim : '=' ∉ Text.trim name := by
    obtain ⟨a, b, -, -, hname⟩ := Text.exists_blanks_around_trim name
    rw [hname] at hequals
    exact fun hmem => hequals (List.mem_append_right a (List.mem_append_left b hmem))
  exact isOptionName_lower (fun hnil => hblank (Text.trim_eq_nil_iff.mp hnil))
    (Text.startTrimmed_trim name) (Text.endTrimmed_trim name) htrim

theorem ofClause_normal {clause : List Char} {options : OptionMap}
    (h : OptionMap.ofClause clause = .ok options) : NormalOptions options := by
  obtain ⟨body, bindings, -, hbindings, rfl⟩ := ofClause_eq_ok_iff.mp h
  have hnames : ∀ b ∈ bindings, IsOptionName b.1 :=
    (forall_mem_iff_of_mapM_eq_ok hbindings).mpr fun _ _ _ hread => readOption_isName hread
  refine ⟨?_, fun e he => hnames e (OptionMap.mem_of_mem_ofList he)⟩
  apply OptionMap.entries_ofList_ne_nil
  rintro rfl
  have hparts := List.forall₂_nil_right_iff.mp (mapM_eq_ok_iff.mp hbindings)
  exact splitOutsideQuotes_ne_nil _ _ _ hparts

theorem ClauseReads.normal {clause : List Char} {options : OptionMap}
    (h : ClauseReads clause (Option.some options)) : NormalOptions options := by
  cases h with
  | some hclause => exact ofClause_normal hclause

/-- **Options have names of one form.** The map of every clause that is read binds
something, and its names are not empty, trimmed, without equals signs and their own
lower-case form. The same holds of the options of every statement; and a statement has
none exactly if no clause follows its path, so that no clause is not mistaken for one
without options. -/
theorem options_normal :
    (∀ clause options, OptionMap.ofClause clause = .ok options → NormalOptions options) ∧
      ∀ d sql s, parse d sql = .ok s →
        (∀ options, s.options = some options → NormalOptions options) ∧
        ∃ l : Layout d, core sql.toList = l.chars ∧ s = l.statement ∧
          (s.options = none ↔ l.clause = []) := by
  refine ⟨fun clause options h => ofClause_normal h, ?_⟩
  intro d sql s h
  obtain ⟨t, hread, hpath, rfl⟩ := parse_eq_ok_iff_read.mp h
  obtain ⟨l, hcore, hstatement⟩ := Layout.exists_of_read hread hpath
  rw [hstatement]
  refine ⟨?_, l, hcore, rfl, l.clause_reads.eq_none_iff⟩
  intro options hoptions
  have hreads : ClauseReads l.clause (some options) := hoptions ▸ l.clause_reads
  exact hreads.normal

-- Quotes and parentheses may stand in a name; the sigma at its end is a final one.
example : OptionMap.ofClause "with ( \"(ΑΣ =1)".toList = .ok ⟨[("\"(ας", "1")], by simp⟩ := by
  decide +kernel

end Statement

end ExtensionCatalog
