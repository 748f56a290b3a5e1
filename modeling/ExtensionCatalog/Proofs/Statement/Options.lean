import ExtensionCatalog.Proofs.Statement.Clause
import ExtensionCatalog.Proofs.Statement.Literal

/-!
# Options, written and read (spec §C.6)

A clause is written from pairs of a name and a value. Whatever stands between the
quotes of a value, and whatever blanks stand around the pieces, the clause is read
as the map of its pairs, names in lower case; of a name that is given twice the
last value counts.

* `WrittenOption.readOption_chars` — an option is read as its pair.
* `ofClause_chars` — a clause is read as the map of its pairs.
-/

namespace ExtensionCatalog

namespace Statement

open Text (Blank StartTrimmed EndTrimmed sameLetters)

/-- A comma separates options. -/
theorem isQuote_comma : isQuote ',' = false := by
  rfl

theorem isPart_of_blank {s : List Char} (h : Blank s) : IsPart ',' s := by
  apply isPart_of_forall
  intro c hc
  constructor
  · rintro rfl
    exact h.not_mem rfl hc
  · cases hquote : isQuote c with
    | false => rfl
    | true => exact absurd hc (h.not_mem (isBlank_of_isQuote hquote))

/-! ### Values -/

/-- The value of an option as it is written: between two quotes that are not in it,
or bare, and then without commas, quotes and blanks at its ends. -/
inductive WrittenValue where
  | quoted (q : Char) (content : List Char) (isQuote_q : isQuote q = true)
      (not_mem : q ∉ content)
  | bare (content : List Char) (plain : ∀ c ∈ content, c ≠ ',' ∧ isQuote c = false)
      (startTrimmed : StartTrimmed content) (endTrimmed : EndTrimmed content)

namespace WrittenValue

def chars : WrittenValue → List Char
  | quoted q content _ _ => q :: (content ++ [q])
  | bare content _ _ _ => content

/-- The value without its quotes. -/
def content : WrittenValue → List Char
  | quoted _ content _ _ => content
  | bare content _ _ _ => content

theorem isPart_chars (v : WrittenValue) : IsPart ',' v.chars := by
  cases v with
  | quoted q content hq hcontent => exact IsPart.quoted isQuote_comma hq hcontent
  | bare content hplain hstart hend => exact isPart_of_forall hplain

theorem unquote_chars (v : WrittenValue) : unquote v.chars = v.content := by
  cases v with
  | quoted q content hq hcontent => exact (Literal.quoted q content hq hcontent).unquote_chars
  | bare content hplain hstart hend =>
    rw [unquote, chars, Text.trim_eq_self hstart hend]
    cases content with
    | nil => rfl
    | cons c rest => simp [WrittenValue.content, (hplain c List.mem_cons_self).2]

end WrittenValue

/-! ### Options -/

/-- A pair as it is written, with the blanks around its pieces. -/
structure WrittenOption where
  beforeKey : List Char
  key : List Char
  afterKey : List Char
  beforeValue : List Char
  value : WrittenValue
  afterValue : List Char
  beforeKey_blank : Blank beforeKey
  afterKey_blank : Blank afterKey
  beforeValue_blank : Blank beforeValue
  afterValue_blank : Blank afterValue
  key_plain : ∀ c ∈ key, c ≠ ',' ∧ c ≠ '=' ∧ isQuote c = false
  key_not_blank : ¬ Blank key

namespace WrittenOption

def name (o : WrittenOption) : List Char :=
  o.beforeKey ++ (o.key ++ o.afterKey)

def chars (o : WrittenOption) : List Char :=
  o.name ++ '=' :: (o.beforeValue ++ (o.value.chars ++ o.afterValue))

/-- The name without the blanks around it and in lower case, and the value. -/
def binding (o : WrittenOption) : String × String :=
  (String.ofList (Text.lower (Text.trim o.key)), String.ofList o.value.content)

variable (o : WrittenOption)

theorem isPart_chars : IsPart ',' o.chars := by
  have hkey : IsPart ',' o.key :=
    isPart_of_forall fun c hc => ⟨(o.key_plain c hc).1, (o.key_plain c hc).2.2⟩
  have hname : IsPart ',' o.name :=
    (isPart_of_blank o.beforeKey_blank).append isQuote_comma
      (hkey.append isQuote_comma (isPart_of_blank o.afterKey_blank))
  have hvalue : IsPart ',' (o.beforeValue ++ (o.value.chars ++ o.afterValue)) :=
    (isPart_of_blank o.beforeValue_blank).append isQuote_comma
      (o.value.isPart_chars.append isQuote_comma (isPart_of_blank o.afterValue_blank))
  have hequals : IsPart ',' ['='] := isPart_of_forall (by simp [isQuote])
  exact hname.append isQuote_comma (hequals.append isQuote_comma hvalue)

theorem trim_name : Text.trim o.name = Text.trim o.key := by
  rw [name, Text.trim_append_of_blank o.beforeKey_blank, Text.trim_append_blank _ o.afterKey_blank]

theorem equals_not_mem_name : '=' ∉ o.name := by
  intro h
  rcases List.mem_append.mp h with h | h
  · exact o.beforeKey_blank.not_mem isBlank_equals h
  · rcases List.mem_append.mp h with h | h
    · exact (o.key_plain _ h).2.1 rfl
    · exact o.afterKey_blank.not_mem isBlank_equals h

theorem readOption_chars : readOption o.chars = .ok o.binding := by
  refine readOption_eq_ok_iff.mpr ⟨o.name, _, rfl, o.equals_not_mem_name, ?_, ?_⟩
  · rw [← Text.trim_eq_nil_iff, o.trim_name, Text.trim_eq_nil_iff]
    exact o.key_not_blank
  · have hvalue : unquote (o.beforeValue ++ (o.value.chars ++ o.afterValue)) = o.value.content := by
      rw [← o.value.unquote_chars]
      apply unquote_congr
      rw [Text.trim_append_of_blank o.beforeValue_blank,
        Text.trim_append_blank _ o.afterValue_blank]
    rw [hvalue, o.trim_name, binding]

end WrittenOption

/-! ### Clauses -/

/-- A clause as it is written, of at least one option. -/
structure WrittenClause where
  before : List Char
  keyword : List Char
  between : List Char
  options : List WrittenOption
  after : List Char
  before_blank : Blank before
  keyword_letters : sameLetters keyword "WITH".toList = true
  between_blank : Blank between
  options_ne_nil : options ≠ []
  after_blank : Blank after

namespace WrittenClause

/-- What stands between the parentheses: the options with commas between them. -/
def body (c : WrittenClause) : List Char :=
  [','].intercalate (c.options.map WrittenOption.chars)

def chars (c : WrittenClause) : List Char :=
  c.before ++ (c.keyword ++ (c.between ++ ('(' :: (c.body ++ [')']) ++ c.after)))

theorem splitOutsideQuotes_body (c : WrittenClause) :
    splitOutsideQuotes ',' none c.body = c.options.map WrittenOption.chars := by
  apply IsPart.splitOutsideQuotes_intercalate isQuote_comma
  · exact fun h => c.options_ne_nil (List.map_eq_nil_iff.mp h)
  · intro part hpart
    obtain ⟨o, -, rfl⟩ := List.mem_map.mp hpart
    exact o.isPart_chars

end WrittenClause

/-- **Options are read as they were written.** A clause of at least one option is
read, as the map that binds exactly the names of its pairs, without the blanks around
them and in lower case, each one to the value of its last pair. -/
theorem ofClause_chars (c : WrittenClause) :
    ∃ options, OptionMap.ofClause c.chars = .ok options ∧
      ∀ key, options.get? key = (c.options.map WrittenOption.binding).reverse.lookup key := by
  refine ⟨OptionMap.ofList (c.options.map WrittenOption.binding), ?_, OptionMap.get?_ofList _⟩
  refine ofClause_eq_ok_iff.mpr ⟨c.body, _, ?_, ?_, rfl⟩
  · exact clauseBody_append c.body c.before_blank c.between_blank c.after_blank c.keyword_letters
  · rw [c.splitOutsideQuotes_body, mapM_eq_ok_iff, List.forall₂_map_left_iff,
      List.forall₂_map_right_iff, List.forall₂_same]
    exact fun o _ => o.readOption_chars

/-- Between quotes a comma, a parenthesis and quotes of the other kind belong to the
value. A name that is given again, in whatever letters, has its last value. -/
theorem ofClause_chars_repeated :
    ∃ c : WrittenClause, c.chars = "With (A = 1,\ta='x, \"y\")' )".toList ∧
      ∃ options, OptionMap.ofClause c.chars = .ok options ∧
        options.get? "a" = some "x, \"y\")" ∧ options.get? "A" = none := by
  let first : WrittenOption := {
    beforeKey := [], key := ['A'], afterKey := [' '], beforeValue := [' ']
    value := .bare ['1'] (by simp [isQuote]) (Text.startTrimmed_cons.mpr rfl)
      (Text.endTrimmed_concat rfl [])
    afterValue := []
    beforeKey_blank := Text.blank_nil
    afterKey_blank := by decide
    beforeValue_blank := by decide
    afterValue_blank := Text.blank_nil
    key_plain := by simp [isQuote]
    key_not_blank := by decide }
  let last : WrittenOption := {
    beforeKey := ['\t'], key := ['a'], afterKey := [], beforeValue := []
    value := .quoted '\'' "x, \"y\")".toList rfl (by decide)
    afterValue := [' ']
    beforeKey_blank := by decide
    afterKey_blank := Text.blank_nil
    beforeValue_blank := Text.blank_nil
    afterValue_blank := by decide
    key_plain := by simp [isQuote]
    key_not_blank := by decide }
  let clause : WrittenClause := {
    before := [], keyword := "With".toList, between := [' '], options := [first, last], after := []
    before_blank := Text.blank_nil
    keyword_letters := rfl
    between_blank := by decide
    options_ne_nil := List.cons_ne_nil _ _
    after_blank := Text.blank_nil }
  obtain ⟨options, hread, hget⟩ := ofClause_chars clause
  exact ⟨clause, rfl, options, hread, (hget "a").trans rfl, (hget "A").trans rfl⟩

end Statement

end ExtensionCatalog
