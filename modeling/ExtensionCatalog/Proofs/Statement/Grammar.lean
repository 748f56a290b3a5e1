import ExtensionCatalog.Proofs.Statement.Core
import ExtensionCatalog.Proofs.Statement.Literal
import ExtensionCatalog.Proofs.Traversal
import ExtensionCatalog.Statement.Basic

/-!
# The grammar of statements (spec §C.6)

A statement to restore or dump a table is a text in a `Layout`: two words, a
table, a keyword, a path and possibly a clause of options, with blanks between
them. Around it stand blanks, and at its end a run of semicolons; what is left
without these is the `core` of the text (`core_eq_iff`). The parser reads the
pieces one after the other, each time from what is left of the text; every piece
is characterised for itself, by what stands in front of it and what is left after
it.

* `dropCommand_eq_some_iff`, `readTable_eq_ok_iff`, `dropKeyword_eq_some_iff`,
  `readOptions_eq_ok_iff` — the pieces.
* `parse_eq_ok_iff` — the statements are the texts in a layout.
-/

namespace ExtensionCatalog

namespace Direction

/-- The first word of a statement. -/
def verb : Direction → String
  | restore => "RESTORE"
  | dump => "DUMP"

theorem words_command (d : Direction) :
    Text.words d.command.toList = [d.verb.toList, "TABLE".toList] := by
  cases d <;> decide

end Direction

namespace Statement

open Text (Blank Gap Breaks Solid StartTrimmed EndTrimmed sameLetters)

/-! ### The words of the command -/

/-- A word in capital letters, in which words of a text are compared. -/
def IsKeyword (word : List Char) : Prop :=
  word ≠ [] ∧ Solid word ∧ Text.upperAscii word = word

instance (word : List Char) : Decidable (IsKeyword word) :=
  inferInstanceAs (Decidable (_ ∧ _ ∧ _))

theorem isKeyword_verb (d : Direction) : IsKeyword d.verb.toList := by
  cases d <;> decide

theorem isKeyword_keyword (d : Direction) : IsKeyword d.keyword.toList := by
  cases d <;> decide

theorem isKeyword_table : IsKeyword "TABLE".toList := by
  decide

theorem IsKeyword.solid {word w : List Char} (hword : IsKeyword word)
    (h : sameLetters w word = true) : Solid w :=
  Solid.of_sameLetters h hword.2.1

theorem IsKeyword.ne_nil {word w : List Char} (hword : IsKeyword word)
    (h : sameLetters w word = true) : w ≠ [] :=
  Text.ne_nil_of_sameLetters h hword.1

theorem IsKeyword.startTrimmed_append {word w : List Char} (hword : IsKeyword word)
    (h : sameLetters w word = true) (s : List Char) : StartTrimmed (w ++ s) :=
  (hword.solid h).startTrimmed.append (hword.ne_nil h) s

/-- A word of the command is read if it follows blanks and ends there. -/
theorem dropCommand_eq_some_iff {word : List Char} (hword : IsKeyword word)
    {words : List (List Char)} {s r : List Char} :
    dropCommand (word :: words) s = some r ↔
      ∃ a w b, Blank a ∧ s = a ++ (w ++ b) ∧ sameLetters w word = true ∧ Breaks b ∧
        dropCommand words b = some r := by
  have hupper := hword.2.2
  constructor
  · intro h
    rw [dropCommand] at h
    split at h
    next hmatch =>
      obtain ⟨a, ha, hs⟩ := Text.exists_blank_append_trimStart s
      refine ⟨a, Text.firstWord (Text.trimStart s), Text.afterFirstWord (Text.trimStart s), ha,
        ?_, ?_, Text.breaks_afterFirstWord _, h⟩
      · rw [Text.firstWord_append_afterFirstWord]
        exact hs
      · rw [Text.sameLetters_iff, hmatch, hupper]
    next => cases h
  · rintro ⟨a, w, b, ha, rfl, hletters, hbreaks, hrest⟩
    have hw : Solid w := hword.solid hletters
    have hstart : Text.trimStart (a ++ (w ++ b)) = w ++ b := by
      rw [Text.trimStart_append_of_blank ha]
      exact Text.trimStart_eq_self (hword.startTrimmed_append hletters b)
    have hmatch : Text.upperAscii w = word := (Text.sameLetters_iff.mp hletters).trans hupper
    rw [dropCommand, hstart, Text.firstWord_append hw hbreaks,
      Text.afterFirstWord_append hw hbreaks, if_pos hmatch]
    exact hrest

/-- A command is two words with a gap between them. -/
theorem dropCommand_words_eq_some_iff {d : Direction} {s r : List Char} :
    dropCommand (Text.words d.command.toList) s = some r ↔
      ∃ start verb gap object, Blank start ∧ Gap gap ∧ Breaks r ∧
        s = start ++ (verb ++ (gap ++ (object ++ r))) ∧
        sameLetters verb d.verb.toList = true ∧ sameLetters object "TABLE".toList = true := by
  rw [d.words_command, dropCommand_eq_some_iff (isKeyword_verb d)]
  constructor
  · rintro ⟨start, verb, s, hstart, rfl, hverb, hbreaks, h⟩
    obtain ⟨gap, object, s, hgap, rfl, hobject, hr, h⟩ :=
      (dropCommand_eq_some_iff isKeyword_table).mp h
    cases h
    have hgap : Gap gap := hgap.gap_of_breaks (isKeyword_table.solid hobject).startTrimmed
      (isKeyword_table.ne_nil hobject) hbreaks
    exact ⟨start, verb, gap, object, hstart, hgap, hr, rfl, hverb, hobject⟩
  · rintro ⟨start, verb, gap, object, hstart, hgap, hr, rfl, hverb, hobject⟩
    refine ⟨start, verb, gap ++ (object ++ r), hstart, rfl, hverb, hgap.breaks_append _, ?_⟩
    exact (dropCommand_eq_some_iff isKeyword_table).mpr
      ⟨gap, object, r, hgap.1, rfl, hobject, hr, rfl⟩

/-! ### The other pieces -/

theorem readTable_eq_ok_iff {keyword s table rest : List Char} :
    readTable keyword s = .ok (table, rest) ↔
      ∃ a l b, Blank a ∧ s = a ++ (Literal.chars l ++ b) ∧ (l.IsQuoted ∨ Breaks b) ∧
        sameLetters l.chars keyword = false ∧ l.content ≠ [] ∧
        table = l.content ∧ rest = Text.trim b := by
  constructor
  · intro h
    rw [readTable] at h
    cases hsplit : splitLiteral s with
    | error e =>
      rw [hsplit] at h
      cases h
    | ok split =>
      obtain ⟨a, l, b, ha, hs, hend, hwritten, hrest⟩ := splitLiteral_eq_ok_iff.mp hsplit
      rw [hsplit] at h
      dsimp only at h
      rw [hwritten, hrest, Literal.unquote_chars] at h
      split at h
      next => cases h
      next hgood =>
        cases h
        obtain ⟨hkeyword, hcontent⟩ := by simpa using hgood
        exact ⟨a, l, b, ha, hs, hend, hkeyword, hcontent, rfl, rfl⟩
  · rintro ⟨a, l, b, ha, rfl, hend, hkeyword, hcontent, rfl, rfl⟩
    rw [readTable, splitLiteral_append ha hend]
    dsimp only
    rw [Literal.unquote_chars, if_neg (by simp [hkeyword, hcontent])]

/-- A keyword is read if a blank follows it. -/
theorem dropKeyword_eq_some_iff {keyword s r : List Char} :
    dropKeyword keyword s = some r ↔
      ∃ k, s = k ++ r ∧ sameLetters k keyword = true ∧ r ≠ [] ∧ Breaks r := by
  have hhead : r.head?.any Text.isBlank = true ↔ r ≠ [] ∧ Breaks r := by
    cases r with
    | nil => simp
    | cons c r => simp [Breaks]
  rw [dropKeyword]
  constructor
  · intro h
    cases hdrop : Text.dropCaseless keyword s with
    | none =>
      rw [hdrop] at h
      cases h
    | some rest =>
      rw [hdrop] at h
      obtain ⟨hblank, rfl⟩ : rest.head?.any Text.isBlank = true ∧ rest = r := by
        simpa using h
      obtain ⟨k, hs, hk⟩ := Text.dropCaseless_eq_some_iff.mp hdrop
      exact ⟨k, hs, hk, hhead.mp hblank⟩
  · rintro ⟨k, rfl, hk, hbreaks⟩
    rw [Text.dropCaseless_append hk r]
    exact if_pos (hhead.mpr hbreaks)

/-- What follows the path: nothing, or a clause of options. -/
inductive ClauseReads : List Char → Option OptionMap → Prop where
  | none : ClauseReads [] .none
  | some {clause : List Char} {options : OptionMap} :
      OptionMap.ofClause clause = .ok options → ClauseReads clause (.some options)

theorem ofClause_trim (clause : List Char) :
    OptionMap.ofClause (Text.trim clause) = OptionMap.ofClause clause := by
  rw [OptionMap.ofClause, OptionMap.ofClause, clauseBody, clauseBody, Text.trim_trim]

theorem readOptions_eq_ok_iff {s : List Char} {options : Option OptionMap} :
    readOptions s = .ok options ↔ ClauseReads s options := by
  rw [readOptions]
  constructor
  · intro h
    split at h
    next hs =>
      cases h
      rw [hs]
      exact .none
    next =>
      cases hclause : OptionMap.ofClause s with
      | error e =>
        rw [hclause] at h
        cases h
      | ok found =>
        rw [hclause] at h
        cases h
        exact .some hclause
  · intro h
    cases h with
    | none => rfl
    | some hclause =>
      split
      next hs =>
        rw [hs] at hclause
        cases hclause
      next => rw [hclause]

/-- Blanks around a clause do not matter. -/
theorem ClauseReads.trim {a clause : List Char} {options : Option OptionMap} (ha : Blank a)
    (h : ClauseReads clause options) : ClauseReads (Text.trim (a ++ clause)) options := by
  rw [Text.trim_append_of_blank ha]
  cases h with
  | none => exact .none
  | some hclause => exact .some ((ofClause_trim clause).trans hclause)

/-- No options are read exactly where no clause stands. -/
theorem ClauseReads.eq_none_iff {clause : List Char} {options : Option OptionMap}
    (h : ClauseReads clause options) : options = Option.none ↔ clause = [] := by
  cases h with
  | none => simp
  | some hclause =>
    simp only [reduceCtorEq, false_iff]
    rintro rfl
    cases hclause

/-! ### The whole statement -/

/-- A statement is read by reading its pieces one after the other. -/
theorem Transfer.read_eq_ok_iff {command keyword sql : String} {t : Transfer} :
    Transfer.read command keyword sql = .ok t ↔
      ∃ s₁ table s₂ s₃ path s₄ options,
        dropCommand (Text.words command.toList) (core sql.toList) = some s₁ ∧
        readTable keyword.toList s₁ = .ok (table, s₂) ∧
        dropKeyword keyword.toList s₂ = some s₃ ∧
        splitLiteral s₃ = .ok (path, s₄) ∧
        readOptions s₄ = .ok options ∧
        t = ⟨String.ofList table, String.ofList path, options⟩ := by
  rw [Transfer.read]
  constructor
  · intro h
    cases hcommand : dropCommand (Text.words command.toList) (core sql.toList) with
    | none =>
      rw [hcommand] at h
      cases h
    | some s₁ =>
      rw [hcommand] at h
      obtain ⟨⟨table, s₂⟩, htable, h⟩ := bind_eq_ok_iff.mp h
      dsimp only at h
      cases hkeyword : dropKeyword keyword.toList s₂ with
      | none =>
        rw [hkeyword] at h
        cases h
      | some s₃ =>
        rw [hkeyword] at h
        dsimp only at h
        cases hpath : splitLiteral s₃ with
        | error e =>
          rw [hpath] at h
          cases h
        | ok split =>
          rw [hpath] at h
          obtain ⟨options, hoptions, h⟩ := bind_eq_ok_iff.mp h
          cases h
          exact ⟨s₁, table, s₂, s₃, split.1, split.2, options, rfl, htable, hkeyword, hpath,
            hoptions, rfl⟩
  · rintro ⟨s₁, table, s₂, s₃, path, s₄, options, hcommand, htable, hkeyword, hpath, hoptions,
      rfl⟩
    rw [hcommand]
    refine bind_eq_ok_iff.mpr ⟨(table, s₂), htable, ?_⟩
    dsimp only
    rw [hkeyword]
    dsimp only
    rw [hpath]
    exact bind_eq_ok_iff.mpr ⟨options, hoptions, rfl⟩

/-- The pieces of a statement, each with the blanks before or after it. -/
structure Layout (d : Direction) where
  verb : List Char
  beforeObject : List Char
  object : List Char
  beforeTable : List Char
  table : Literal
  afterTable : List Char
  keyword : List Char
  beforePath : List Char
  path : Literal
  afterPath : List Char
  clause : List Char
  options : Option OptionMap
  verb_letters : sameLetters verb d.verb.toList = true
  object_letters : sameLetters object "TABLE".toList = true
  keyword_letters : sameLetters keyword d.keyword.toList = true
  beforeObject_gap : Gap beforeObject
  beforeTable_gap : Gap beforeTable
  beforePath_gap : Gap beforePath
  afterTable_blank : Blank afterTable ∧ (table.IsQuoted ∨ afterTable ≠ [])
  afterPath_blank : Blank afterPath ∧ (path.IsQuoted ∨ afterPath ≠ [] ∨ clause = [])
  table_ne_keyword : sameLetters table.chars d.keyword.toList = false
  table_ne_nil : table.content ≠ []
  path_ne_nil : stripQuotes path.chars ≠ []
  clause_reads : ClauseReads clause options

namespace Layout

variable {d : Direction}

def chars (l : Layout d) : List Char :=
  l.verb ++ l.beforeObject ++ l.object ++ l.beforeTable ++ l.table.chars ++ l.afterTable ++
    l.keyword ++ l.beforePath ++ l.path.chars ++ l.afterPath ++ l.clause

def fromPath (l : Layout d) : List Char :=
  l.path.chars ++ (l.afterPath ++ l.clause)

def fromKeyword (l : Layout d) : List Char :=
  l.keyword ++ (l.beforePath ++ l.fromPath)

def fromTable (l : Layout d) : List Char :=
  l.table.chars ++ (l.afterTable ++ l.fromKeyword)

theorem chars_eq (l : Layout d) : l.chars =
    l.verb ++ (l.beforeObject ++ (l.object ++ (l.beforeTable ++ l.fromTable))) := by
  simp [chars, fromTable, fromKeyword, fromPath]

/-- The statement with these pieces. -/
def statement (l : Layout d) : Statement :=
  ⟨d, String.ofList l.table.content, String.ofList (stripQuotes l.path.chars), l.options⟩

end Layout

/-- A statement that is read is refused if nothing is left of its path. -/
theorem parse_eq_ok_iff_read {d : Direction} {sql : String} {st : Statement} :
    parse d sql = .ok st ↔
      ∃ t, Transfer.read d.command d.keyword sql = .ok t ∧
        stripQuotes t.path.toList ≠ [] ∧ st = ofParts d t.table t.path t.options := by
  have hpath : ∀ t : Transfer, (ofParts d t.table t.path t.options).path = "" ↔
      stripQuotes t.path.toList = [] := by
    intro t
    rw [ofParts, pathOf, String.ofList_eq_empty_iff]
  rw [parse]
  constructor
  · intro h
    cases hread : Transfer.read d.command d.keyword sql with
    | error e =>
      rw [hread] at h
      cases h
    | ok t =>
      rw [hread] at h
      dsimp only at h
      split at h
      next => cases h
      next hne =>
        cases h
        exact ⟨t, rfl, fun hnil => hne ((hpath t).mpr hnil), rfl⟩
  · rintro ⟨t, hread, hne, rfl⟩
    rw [hread]
    exact if_neg fun hnil => hne ((hpath t).mp hnil)

/-! ### Reading a layout

The pieces of a layout are read whatever follows it, up to the path. -/

namespace Layout

variable {d : Direction} (l : Layout d)

theorem dropCommand_append (s : List Char) :
    dropCommand (Text.words d.command.toList) (l.chars ++ s) =
      some (l.beforeTable ++ (l.fromTable ++ s)) :=
  dropCommand_words_eq_some_iff.mpr ⟨[], l.verb, l.beforeObject, l.object, Text.blank_nil,
    l.beforeObject_gap, l.beforeTable_gap.breaks_append _, by simp [l.chars_eq], l.verb_letters,
    l.object_letters⟩

theorem readTable_append {s : List Char} (hend : EndTrimmed (l.fromKeyword ++ s)) :
    readTable d.keyword.toList (l.beforeTable ++ (l.fromTable ++ s)) =
      .ok (l.table.content, l.fromKeyword ++ s) := by
  have hstart : StartTrimmed (l.fromKeyword ++ s) := by
    rw [fromKeyword, List.append_assoc]
    exact (isKeyword_keyword d).startTrimmed_append l.keyword_letters _
  have htrim : Text.trim (l.afterTable ++ (l.fromKeyword ++ s)) = l.fromKeyword ++ s := by
    rw [Text.trim_append_of_blank l.afterTable_blank.1]
    exact Text.trim_eq_self hstart hend
  rw [readTable_eq_ok_iff]
  refine ⟨l.beforeTable, l.table, l.afterTable ++ (l.fromKeyword ++ s), l.beforeTable_gap.1,
    by simp [fromTable], ?_, l.table_ne_keyword, l.table_ne_nil, rfl, htrim.symm⟩
  apply l.afterTable_blank.2.imp_right
  intro hne
  exact Gap.breaks_append ⟨l.afterTable_blank.1, hne⟩ _

theorem dropKeyword_append (s : List Char) :
    dropKeyword d.keyword.toList (l.fromKeyword ++ s) =
      some (l.beforePath ++ (l.fromPath ++ s)) := by
  rw [dropKeyword_eq_some_iff]
  refine ⟨l.keyword, by simp [fromKeyword], l.keyword_letters, ?_,
    l.beforePath_gap.breaks_append _⟩
  exact List.append_ne_nil_of_left_ne_nil l.beforePath_gap.2 _

theorem splitLiteral_fromPath :
    splitLiteral (l.beforePath ++ l.fromPath) =
      .ok (l.path.chars, Text.trim (l.afterPath ++ l.clause)) := by
  apply splitLiteral_append l.beforePath_gap.1
  apply l.afterPath_blank.2.imp_right
  rintro (hne | hnil)
  · exact Gap.breaks_append ⟨l.afterPath_blank.1, hne⟩ _
  · rw [hnil]
    exact l.afterPath_blank.1.breaks_append fun _ => Text.breaks_nil

/-- A text in a layout is read as its pieces. -/
theorem read {sql : String} (hcore : core sql.toList = l.chars) :
    Transfer.read d.command d.keyword sql =
      .ok ⟨String.ofList l.table.content, String.ofList l.path.chars, l.options⟩ := by
  have hend : EndTrimmed l.fromKeyword := by
    have hend := endTrimmed_core sql.toList
    rw [hcore, l.chars_eq] at hend
    exact hend.of_append.of_append.of_append.of_append.of_append.of_append
  have hcommand := l.dropCommand_append []
  have htable := l.readTable_append ((List.append_nil l.fromKeyword).symm ▸ hend)
  have hkeyword := l.dropKeyword_append []
  simp only [List.append_nil] at hcommand htable hkeyword
  rw [← hcore] at hcommand
  have hoptions : readOptions (Text.trim (l.afterPath ++ l.clause)) = .ok l.options :=
    readOptions_eq_ok_iff.mpr (l.clause_reads.trim l.afterPath_blank.1)
  exact Transfer.read_eq_ok_iff.mpr ⟨_, _, _, _, _, _, _, hcommand, htable, hkeyword,
    l.splitLiteral_fromPath, hoptions, rfl⟩

/-- A text that is read is in a layout. -/
theorem exists_of_read {sql : String} {t : Transfer}
    (h : Transfer.read d.command d.keyword sql = .ok t)
    (hstrip : stripQuotes t.path.toList ≠ []) :
    ∃ l : Layout d, core sql.toList = l.chars ∧
      ofParts d t.table t.path t.options = l.statement := by
  have hkeyword := isKeyword_keyword d
  obtain ⟨s₁, name, s₂, s₃, written, s₄, options, hcommand, htable, hdrop, hpath, hoptions, rfl⟩ :=
    Transfer.read_eq_ok_iff.mp h
  rw [String.toList_ofList] at hstrip
  obtain ⟨start, verb, beforeObject, object, hstart, hobjectGap, hbreaks, hcore, hverb, hobject⟩ :=
    dropCommand_words_eq_some_iff.mp hcommand
  obtain ⟨beforeTable, table, s, hbeforeTable, rfl, htableEnd, hne, hcontent, rfl, rfl⟩ :=
    readTable_eq_ok_iff.mp htable
  obtain ⟨keyword, htrim, hletters, -, hpathBreaks⟩ := dropKeyword_eq_some_iff.mp hdrop
  obtain ⟨beforePath, path, s', hbeforePath, rfl, hpathEnd, rfl, rfl⟩ :=
    splitLiteral_eq_ok_iff.mp hpath
  -- The text is trimmed, so nothing stands before the first word and every rest ends trimmed.
  have hcoreStart := startTrimmed_core sql.toList
  have hcoreEnd := endTrimmed_core sql.toList
  rw [hcore] at hcoreStart hcoreEnd
  obtain rfl : start = [] := hstart.eq_nil_of_startTrimmed hcoreStart
  obtain ⟨afterTable, hafterTable, hs⟩ := Text.exists_blank_append_trim
    hcoreEnd.of_append.of_append.of_append.of_append.of_append.of_append
  have hkeywordEnd := Text.endTrimmed_trim s
  rw [htrim] at hs hkeywordEnd
  obtain ⟨afterPath, hafterPath, hs'⟩ := Text.exists_blank_append_trim
    hkeywordEnd.of_append.of_append.of_append
  have htableGap : table.IsQuoted ∨ afterTable ≠ [] := by
    apply htableEnd.imp_right
    intro hbreaks
    rw [hs] at hbreaks
    exact (hafterTable.gap_of_breaks (hkeyword.solid hletters).startTrimmed
      (hkeyword.ne_nil hletters) hbreaks).2
  have hpathGap : path.IsQuoted ∨ afterPath ≠ [] ∨ Text.trim s' = [] := by
    apply hpathEnd.imp_right
    intro hbreaks
    rw [hs'] at hbreaks
    exact Text.ne_nil_or_eq_nil_of_breaks_append hbreaks (Text.startTrimmed_trim s')
  have hchars : core sql.toList = verb ++ (beforeObject ++ (object ++ (beforeTable ++
      (table.chars ++ (afterTable ++ (keyword ++ (beforePath ++
        (path.chars ++ (afterPath ++ Text.trim s'))))))))) := by
    rw [← hs', ← hs]
    exact hcore
  let l : Layout d := {
    verb, beforeObject, object, beforeTable, table, afterTable, keyword, beforePath, path,
    afterPath, clause := Text.trim s', options
    verb_letters := hverb
    object_letters := hobject
    keyword_letters := hletters
    beforeObject_gap := hobjectGap
    beforeTable_gap :=
      hbeforeTable.gap_of_breaks table.startTrimmed_chars table.chars_ne_nil hbreaks
    beforePath_gap :=
      hbeforePath.gap_of_breaks path.startTrimmed_chars path.chars_ne_nil hpathBreaks
    afterTable_blank := ⟨hafterTable, htableGap⟩
    afterPath_blank := ⟨hafterPath, hpathGap⟩
    table_ne_keyword := hne
    table_ne_nil := hcontent
    path_ne_nil := hstrip
    clause_reads := readOptions_eq_ok_iff.mp hoptions }
  refine ⟨l, ?_, ?_⟩
  · rw [l.chars_eq]
    exact hchars
  · simp [ofParts, pathOf, statement, l]

end Layout

/-- **The grammar of statements.** A text is a statement exactly if what is left
of it without the blanks around it and the semicolons at its end is in a layout,
and then the statement has the pieces of that layout. What is left out at the ends
is said by `core_eq_iff`. -/
theorem parse_eq_ok_iff {d : Direction} {sql : String} {st : Statement} :
    parse d sql = .ok st ↔ ∃ l : Layout d, core sql.toList = l.chars ∧ st = l.statement := by
  rw [parse_eq_ok_iff_read]
  constructor
  · rintro ⟨t, hread, hpath, rfl⟩
    exact Layout.exists_of_read hread hpath
  · rintro ⟨l, hcore, rfl⟩
    refine ⟨_, l.read hcore, ?_, ?_⟩
    · rw [String.toList_ofList]
      exact l.path_ne_nil
    · simp [ofParts, pathOf, Layout.statement]

-- A quoted table may touch the keyword.
example : parse .restore "restore table 'my table'FROM \"/tmp/a.csv\" ;;" =
    .ok ⟨.restore, "my table", "/tmp/a.csv", none⟩ := by
  rfl

end Statement

end ExtensionCatalog
