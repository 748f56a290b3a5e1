import ExtensionCatalog.Json.Lexer
import Mathlib.Data.List.Forall2

/-!
# The spellings of a value

A value is written in one form, but it is read from many: blanks may stand before,
between and after the tokens, and a character of a string may be escaped although
it could stand for itself, shortly or by its code. What may not vary are the
tokens and their order.

* `CharSpelled`, `Token.Spelled` — the spellings of a character of a string and of a
  token.
* `Value.Spelled` — the spellings of a value.
* `charSpelled_escape`, `spelled_text` — what is written is one of them.
-/

namespace ExtensionCatalog.Json

/-- Blanks between tokens, or none. -/
def Blanks (s : List Char) : Prop := ∀ c ∈ s, isSpace c = true

theorem blanks_nil : Blanks [] := fun _ hc => absurd hc List.not_mem_nil

/-! ### Strings -/

/-- Four digits that write a number to base sixteen. -/
def IsCode (digits : List Char) (n : Nat) : Prop :=
  ∃ a b c d w x y z, digits = [a, b, c, d] ∧
    Text.hexValue? a = some w ∧ Text.hexValue? b = some x ∧
    Text.hexValue? c = some y ∧ Text.hexValue? d = some z ∧
    n = 16 * (16 * (16 * w + x) + y) + z

/-- The text stands for a character of a string. -/
inductive CharSpelled : List Char → Char → Prop where
  /-- The character itself. -/
  | plain {c : Char} : c ≠ '"' → c ≠ '\\' → ¬ c.toNat < 0x20 → CharSpelled [c] c
  /-- A short escape. -/
  | short {e c : Char} : unescape? e = some c → CharSpelled ['\\', e] c
  /-- The code of the character. -/
  | code {digits : List Char} {c : Char} :
      IsCode digits c.toNat → CharSpelled ('\\' :: 'u' :: digits) c
  /-- The codes of the two surrogates of the character. -/
  | pair {first second : List Char} {high low : Nat} :
      IsCode first high → IsCode second low → isHighSurrogate high = true →
      isLowSurrogate low = true →
      CharSpelled ('\\' :: 'u' :: first ++ '\\' :: 'u' :: second) (ofSurrogates high low)

/-- What is written for a character stands for it. -/
theorem charSpelled_escape (c : Char) : CharSpelled (escape c) c := by
  by_cases hquote : c = '"'
  · subst hquote; exact .short rfl
  by_cases hslash : c = '\\'
  · subst hslash; exact .short rfl
  by_cases hback : c = '\x08'
  · subst hback; exact .short rfl
  by_cases htab : c = '\t'
  · subst htab; exact .short rfl
  by_cases hline : c = '\n'
  · subst hline; exact .short rfl
  by_cases hform : c = '\x0c'
  · subst hform; exact .short rfl
  by_cases hreturn : c = '\r'
  · subst hreturn; exact .short rfl
  simp only [escape, if_neg hquote, if_neg hslash, if_neg hback, if_neg htab, if_neg hline,
    if_neg hform, if_neg hreturn]
  split
  · rename_i hcontrol
    have hfirst := Text.hexValue?_hexDigit (n := c.toNat / 16) (by omega)
    have hsecond := Text.hexValue?_hexDigit (n := c.toNat % 16) (by omega)
    exact .code ⟨'0', '0', _, _, 0, 0, _, _, rfl, rfl, rfl, hfirst, hsecond, by omega⟩
  · rename_i hplain
    exact .plain hquote hslash hplain

/-! ### Tokens and values -/

/-- The text stands for a token. -/
def Token.Spelled (text : List Char) : Token → Prop
  | .string s => ∃ parts, List.Forall₂ CharSpelled parts s.toList ∧
      text = '"' :: parts.flatten ++ ['"']
  | .number spelling => text = spelling.toList ∧ isNumber spelling.toList = true
  | t => text = t.chars

/-- The text holds the tokens, with blanks around them or not. -/
inductive Spaced : List Char → List Token → Prop where
  | nil {gap : List Char} : Blanks gap → Spaced gap []
  | cons {gap word rest : List Char} {t : Token} {ts : List Token} :
      Blanks gap → t.Spelled word → Spaced rest ts → Spaced (gap ++ (word ++ rest)) (t :: ts)

/-- The text spells the value. -/
def Value.Spelled (text : String) (v : Value) : Prop := Spaced text.toList v.tokens

/-- Where tokens are cut, so is the text that holds them. -/
theorem Spaced.of_append_cons {text : List Char} {ts us : List Token} {t : Token}
    (h : Spaced text (ts ++ t :: us)) :
    ∃ before word after, text = before ++ (word ++ after) ∧ Spaced before ts ∧ t.Spelled word ∧
      Spaced after us := by
  induction ts generalizing text with
  | nil =>
    cases h with
    | cons hgap hword hrest => exact ⟨_, _, _, rfl, .nil hgap, hword, hrest⟩
  | cons u ts ih =>
    cases h with
    | cons hgap hfirst hrest =>
      obtain ⟨before, word, after, rfl, hbefore, hword, hafter⟩ := ih hrest
      exact ⟨_, word, after, by simp, .cons hgap hfirst hbefore, hword, hafter⟩

/-! ### What is written -/

/-- A number token holds the spelling of a number. -/
def Token.WellSpelled : Token → Prop
  | .number spelling => isNumber spelling.toList = true
  | _ => True

/-- The numbers of a value are spelled as numbers. -/
def Value.WellSpelled (v : Value) : Prop := ∀ t ∈ v.tokens, t.WellSpelled

theorem Token.spelled_chars {t : Token} (h : t.WellSpelled) : t.Spelled t.chars := by
  cases t with
  | string s =>
    refine ⟨s.toList.map escape, ?_, ?_⟩
    · rw [List.forall₂_map_left_iff, List.forall₂_same]
      exact fun c _ => charSpelled_escape c
    · rw [← List.flatMap_def]
      rfl
  | number spelling => exact ⟨rfl, h⟩
  | null | bool | openArray | closeArray | openObject | closeObject | comma | colon => rfl

theorem spaced_chars {ts : List Token} (h : ∀ t ∈ ts, t.WellSpelled) :
    Spaced (ts.flatMap Token.chars) ts := by
  induction ts with
  | nil => exact .nil blanks_nil
  | cons t ts ih =>
    exact .cons blanks_nil (Token.spelled_chars (h t List.mem_cons_self))
      (ih fun u hu => h u (List.mem_cons_of_mem _ hu))

/-- What is written for a value spells it. -/
theorem Value.spelled_text {v : Value} (h : v.WellSpelled) : v.Spelled v.text := by
  rw [Value.Spelled, Value.text, String.toList_ofList]
  exact spaced_chars h

end ExtensionCatalog.Json
