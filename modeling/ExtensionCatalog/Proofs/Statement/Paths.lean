import ExtensionCatalog.Proofs.Statement.Grammar

/-!
# Paths without quotes (spec §3, §C.6)

The path of a statement is written as a literal, and what is kept of it is the text
without the quotes that it starts and ends with, of whichever kind and however many.
That is a normal form: every literal has one, quotes put around the literal do not
change it, and it is its own. So a statement can be put together again from its own
parts, be it one that was put together or one that was read.

* `pathOf_eq_iff` — the path of a literal, as the one text with quotes around it.
* `pathOf_pathOf`, `pathOf_append_append` — paths are normal forms.
* `path_normal` — both, and that statements are put together again as they were.
-/

namespace ExtensionCatalog.Statement

/-! ### Texts with quotes around them -/

/-- The text consists of quotes of either kind, or is empty. -/
def OnlyQuotes (s : List Char) : Prop := ∀ c ∈ s, isQuote c = true

/-- No quote stands at either end of the text, which may be empty. -/
def Unquoted (s : List Char) : Prop :=
  (∀ c ∈ s.head?, isQuote c = false) ∧ ∀ c ∈ s.getLast?, isQuote c = false

theorem stripQuotes_eq_iff {s t : List Char} :
    stripQuotes s = t ↔
      ∃ a b, OnlyQuotes a ∧ OnlyQuotes b ∧ s = a ++ (t ++ b) ∧ Unquoted t :=
  Text.dropEndWhile_dropWhile_eq_iff

theorem onlyQuotes_append {s t : List Char} :
    OnlyQuotes (s ++ t) ↔ OnlyQuotes s ∧ OnlyQuotes t :=
  List.forall_mem_append

theorem onlyQuotes_nil : OnlyQuotes [] := fun _ hc => absurd hc List.not_mem_nil

/-! ### The path of a literal -/

/-- The literal is the path with quotes around it, and none at the ends of the path. -/
def IsPathOf (path literal : String) : Prop :=
  ∃ before after : String, OnlyQuotes before.toList ∧ OnlyQuotes after.toList ∧
    literal = before ++ path ++ after ∧ Unquoted path.toList

theorem pathOf_eq_iff {path literal : String} :
    pathOf literal = path ↔ IsPathOf path literal := by
  have hchars : pathOf literal = path ↔ stripQuotes literal.toList = path.toList := by
    rw [pathOf, ← String.toList_inj, String.toList_ofList]
  rw [hchars, stripQuotes_eq_iff]
  constructor
  · rintro ⟨a, b, ha, hb, hliteral, hpath⟩
    refine ⟨String.ofList a, String.ofList b, ?_, ?_, ?_, hpath⟩
    · rwa [String.toList_ofList]
    · rwa [String.toList_ofList]
    · rw [← String.toList_inj, hliteral]
      simp
  · rintro ⟨before, after, hbefore, hafter, rfl, hpath⟩
    exact ⟨before.toList, after.toList, hbefore, hafter, by simp, hpath⟩

theorem unquoted_pathOf (literal : String) : Unquoted (pathOf literal).toList := by
  obtain ⟨-, -, -, -, -, hpath⟩ := pathOf_eq_iff.mp (Eq.refl (pathOf literal))
  exact hpath

theorem pathOf_eq_self {path : String} (h : Unquoted path.toList) : pathOf path = path :=
  pathOf_eq_iff.mpr ⟨"", "", onlyQuotes_nil, onlyQuotes_nil, by simp, h⟩

theorem pathOf_pathOf (literal : String) : pathOf (pathOf literal) = pathOf literal :=
  pathOf_eq_self (unquoted_pathOf literal)

/-- Quotes put around a literal do not change its path. -/
theorem pathOf_append_append {before after : String} (hbefore : OnlyQuotes before.toList)
    (hafter : OnlyQuotes after.toList) (literal : String) :
    pathOf (before ++ literal ++ after) = pathOf literal := by
  obtain ⟨before', after', hbefore', hafter', hliteral, hpath⟩ :=
    pathOf_eq_iff.mp (Eq.refl (pathOf literal))
  apply pathOf_eq_iff.mpr
  refine ⟨before ++ before', after' ++ after, ?_, ?_, ?_, hpath⟩
  · rw [String.toList_append]
    exact onlyQuotes_append.mpr ⟨hbefore, hbefore'⟩
  · rw [String.toList_append]
    exact onlyQuotes_append.mpr ⟨hafter', hafter⟩
  · conv_lhs => rw [hliteral]
    simp only [String.append_assoc]

/-! ### Statements put together again -/

/-- The statement is one that is put together of its parts, or one that is read. -/
inductive Made (d : Direction) : Statement → Prop where
  | ofParts (table literal : String) (options : Option OptionMap) :
      Made d (ofParts d table literal options)
  | parse {sql : String} {st : Statement} : Statement.parse d sql = .ok st → Made d st

/-- Statements that are read are put together of what is read. -/
theorem Made.exists_ofParts {d : Direction} {st : Statement} (h : Made d st) :
    ∃ table literal options, st = Statement.ofParts d table literal options := by
  cases h with
  | ofParts table literal options => exact ⟨table, literal, options, rfl⟩
  | parse hparse =>
    obtain ⟨t, -, -, hst⟩ := parse_eq_ok_iff_read.mp hparse
    exact ⟨t.table, t.path, t.options, hst⟩

theorem Made.ofParts_eq_self {d : Direction} {st : Statement} (h : Made d st) :
    Statement.ofParts d st.table st.path st.options = st := by
  obtain ⟨table, literal, options, rfl⟩ := h.exists_ofParts
  simp only [Statement.ofParts, pathOf_pathOf]

/-- **Paths are normal forms.** The path of a literal is the one text that has no quote
at its ends and, with quotes around it, is the literal. It is its own path, and quotes
put around a literal do not change its path. So a statement that was put together or read
is put together again from its table, its path and its options. -/
theorem path_normal :
    (∀ literal path, pathOf literal = path ↔ IsPathOf path literal) ∧
      (∀ literal, pathOf (pathOf literal) = pathOf literal) ∧
      (∀ literal before after : String, OnlyQuotes before.toList → OnlyQuotes after.toList →
        pathOf (before ++ literal ++ after) = pathOf literal) ∧
      ∀ d st, Made d st → ofParts d st.table st.path st.options = st :=
  ⟨fun _ _ => pathOf_eq_iff, pathOf_pathOf,
    fun literal _ _ hbefore hafter => pathOf_append_append hbefore hafter literal,
    fun _ _ hmade => hmade.ofParts_eq_self⟩

-- The runs at the two ends need not match, and of quotes alone nothing is left.
example : pathOf "'\"/it's.csv\"" = "/it's.csv" ∧ pathOf "\"'\"" = "" := by
  decide +kernel

end ExtensionCatalog.Statement
