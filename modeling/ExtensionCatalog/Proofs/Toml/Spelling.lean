import ExtensionCatalog.Toml.Reader
import Mathlib.Data.List.Forall2
import Mathlib.Data.Nat.Digits.Defs

/-!
# The spellings of lines

The same lines are written in many ways: blanks may stand around brackets, equals
signs and values, blank lines and comments anywhere between lines, and a line ends
with either line break or with the text. A character of a text between double quotes
stands for itself or is escaped, shortly or by its code of four or eight digits.

The lines are those of documents in sections: headers and keys in one part without
quotes, and values that are texts or truth values.

* `CharSpelled`, `ValueSpelled` — the spellings of a character and of a value.
* `LineSpelled`, `Spelled` — the spellings of a line and of a document.
* `exists_valueSpelled_string` — every text has a spelling, whatever its characters.
-/

namespace ExtensionCatalog.Toml

/-! ### Blanks and line ends -/

/-- Spaces and tabs, or none. -/
def Spaces (s : List Char) : Prop := ∀ c ∈ s, isSpace c = true

theorem spaces_nil : Spaces [] := fun _ hc => absurd hc List.not_mem_nil

/-- A comment, or nothing. -/
inductive Comment : List Char → Prop where
  | none : Comment []
  | some {text : List Char} : (∀ c ∈ text, isPlain c = true) → Comment ('#' :: text)

/-- A line break and the text after it, or the end of the text. -/
inductive Break : List Char → List Char → Prop where
  | lineFeed (rest : List Char) : Break ('\n' :: rest) rest
  | carriageReturn (rest : List Char) : Break ('\r' :: '\n' :: rest) rest
  | last : Break [] []

/-- Nothing more is said in the line, and `rest` are the lines after it. -/
inductive EndsLine : List Char → List Char → Prop where
  | intro {gap comment stop rest : List Char} : Spaces gap → Comment comment →
      Break stop rest → EndsLine (gap ++ (comment ++ stop)) rest

/-! ### Values -/

/-- Digits that write a number to base sixteen. -/
def IsCode (digits : List Char) (n : Nat) : Prop :=
  ∃ values, List.Forall₂ (fun d v => Text.hexValue? d = some v) digits values ∧
    n = Nat.ofDigits 16 values.reverse

/-- What may follow the backslash of a short escape, and the characters that are
written so. -/
def shortEscapes : List (Char × Char) :=
  [('b', '\x08'), ('t', '\t'), ('n', '\n'), ('f', '\x0c'), ('r', '\r'), ('"', '"'),
    ('\\', '\\')]

/-- The text stands for a character between double quotes. -/
inductive CharSpelled : List Char → Char → Prop where
  /-- The character itself. -/
  | plain {c : Char} : isPlain c = true → c ≠ '"' → c ≠ '\\' → CharSpelled [c] c
  /-- A short escape. -/
  | short {e c : Char} : (e, c) ∈ shortEscapes → CharSpelled ['\\', e] c
  /-- The code of the character in four digits. -/
  | code {digits : List Char} {c : Char} :
      digits.length = 4 → IsCode digits c.toNat → CharSpelled ('\\' :: 'u' :: digits) c
  /-- The code of the character in eight digits. -/
  | longCode {digits : List Char} {c : Char} :
      digits.length = 8 → IsCode digits c.toNat → CharSpelled ('\\' :: 'U' :: digits) c

/-- The text stands for a value: a text between double quotes, or a truth value. -/
inductive ValueSpelled : List Char → Value → Prop where
  | string {parts : List (List Char)} {s : String} :
      List.Forall₂ CharSpelled parts s.toList →
      ValueSpelled ('"' :: (parts.flatten ++ ['"'])) (.string s)
  | true : ValueSpelled "true".toList (.boolean true)
  | false : ValueSpelled "false".toList (.boolean false)

/-! ### Lines -/

/-- The key stands without quotes. -/
def IsBareKey (key : String) : Prop :=
  key.toList ≠ [] ∧ ∀ c ∈ key.toList, isBare c = true

instance (key : String) : Decidable (IsBareKey key) :=
  @instDecidableAnd _ _ _ (List.decidableBAll _ _)

/-- The text stands for a line, without what ends it. -/
inductive LineSpelled : List Char → Line → Prop where
  | header {before after : List Char} {key : String} :
      IsBareKey key → Spaces before → Spaces after →
      LineSpelled ('[' :: (before ++ (key.toList ++ (after ++ [']'])))) (.header [] key)
  | pair {before after text : List Char} {key : String} {v : Value} :
      IsBareKey key → Spaces before → Spaces after → ValueSpelled text v →
      LineSpelled (key.toList ++ (before ++ '=' :: (after ++ text))) (.pair [] key v)

/-- The text holds the lines, with blank lines and comments between them or not. -/
inductive Spelled : List Char → List Line → Prop where
  | nil : Spelled [] []
  | blank {text rest : List Char} {ls : List Line} :
      text ≠ [] → EndsLine text rest → Spelled rest ls → Spelled text ls
  | cons {gap text stop rest : List Char} {l : Line} {ls : List Line} :
      Spaces gap → LineSpelled text l → EndsLine stop rest → Spelled rest ls →
      Spelled (gap ++ (text ++ stop)) (l :: ls)

/-! ### Every text and truth value can be written -/

/-- A character that cannot stand for itself has a code of two digits at most. -/
theorem exists_charSpelled (c : Char) : ∃ part, CharSpelled part c := by
  by_cases hquote : c = '"'
  · subst hquote
    exact ⟨_, .short (e := '"') (by simp [shortEscapes])⟩
  by_cases hslash : c = '\\'
  · subst hslash
    exact ⟨_, .short (e := '\\') (by simp [shortEscapes])⟩
  by_cases hplain : isPlain c = true
  · exact ⟨_, .plain hplain hquote hslash⟩
  have hsmall : c.toNat < 0x80 := by
    simp only [isPlain, Bool.or_eq_true, Bool.and_eq_true, decide_eq_true_eq] at hplain
    omega
  have hfirst := Text.hexValue?_hexDigit (n := c.toNat / 16) (by omega)
  have hsecond := Text.hexValue?_hexDigit (n := c.toNat % 16) (by omega)
  have hcode : IsCode ['0', '0', Text.hexDigit (c.toNat / 16), Text.hexDigit (c.toNat % 16)]
      c.toNat := by
    refine ⟨[0, 0, c.toNat / 16, c.toNat % 16], ?_, ?_⟩
    · exact .cons rfl (.cons rfl (.cons hfirst (.cons hsecond .nil)))
    · simp only [List.reverse_cons, List.reverse_nil, List.nil_append, List.cons_append,
        Nat.ofDigits_cons, Nat.ofDigits_nil]
      omega
  exact ⟨_, .code rfl hcode⟩

theorem exists_charsSpelled (s : List Char) : ∃ parts, List.Forall₂ CharSpelled parts s := by
  induction s with
  | nil => exact ⟨[], .nil⟩
  | cons c s ih =>
    obtain ⟨part, hpart⟩ := exists_charSpelled c
    obtain ⟨parts, hparts⟩ := ih
    exact ⟨part :: parts, .cons hpart hparts⟩

/-- Every text has a spelling between double quotes. -/
theorem exists_valueSpelled_string (s : String) : ∃ text, ValueSpelled text (.string s) := by
  obtain ⟨parts, hparts⟩ := exists_charsSpelled s.toList
  exact ⟨_, .string hparts⟩

theorem exists_valueSpelled_boolean (b : Bool) : ∃ text, ValueSpelled text (.boolean b) := by
  cases b
  · exact ⟨_, .false⟩
  · exact ⟨_, .true⟩

theorem exists_lineSpelled_header {name : String} (h : IsBareKey name) :
    ∃ text, LineSpelled text (.header [] name) :=
  ⟨_, .header h spaces_nil spaces_nil⟩

theorem exists_lineSpelled_pair {name : String} {v : Value} (h : IsBareKey name)
    (hv : ∃ text, ValueSpelled text v) : ∃ text, LineSpelled text (.pair [] name v) := by
  obtain ⟨text, htext⟩ := hv
  exact ⟨_, .pair h spaces_nil spaces_nil htext⟩

/-- Lines that can be written one by one can be written one after the other. -/
theorem exists_spelled {ls : List Line} (h : ∀ l ∈ ls, ∃ text, LineSpelled text l) :
    ∃ text, Spelled text ls := by
  induction ls with
  | nil => exact ⟨[], .nil⟩
  | cons l ls ih =>
    obtain ⟨text, htext⟩ := h l List.mem_cons_self
    obtain ⟨rest, hrest⟩ := ih fun m hm => h m (List.mem_cons_of_mem _ hm)
    have hstop : EndsLine ('\n' :: rest) rest := .intro spaces_nil .none (.lineFeed rest)
    exact ⟨_, .cons spaces_nil htext hstop hrest⟩

end ExtensionCatalog.Toml
