import ExtensionCatalog.Json.Reader
import ExtensionCatalog.Proofs.Json.Lexing
import Mathlib.Data.List.Forall2

/-!
# Texts of values side by side

Texts that each spell a value, with commas between them and brackets around
them, spell the array of these values. The texts may be written in any way, with
blanks around them or not: what the lexer makes of a text does not depend on the
tokens before it, and what the reader makes of the tokens of a value does not
depend on the containers around it.

* `reads_of_lex` — a text that is read by itself is read behind any tokens.
* `run_under` — tokens that are read by themselves are read in any containers.
* `parse?_brackets` — the array of the values that some texts spell.
-/

namespace ExtensionCatalog.Json

/-! ### Behind other tokens -/

/-- The state with further tokens before those that it completed. -/
def LexState.onto (before : List Token) (st : LexState) : LexState :=
  ⟨st.mode, st.done ++ before⟩

namespace LexState

theorem start_onto (before done : List Token) (c : Char) :
    start (done ++ before) c = (start done c).onto before := by
  unfold start
  split
  · rfl
  split
  · rfl
  split <;> rfl

theorem step_onto (before : List Token) (st : LexState) (c : Char) :
    (st.onto before).step c = (st.step c).map (onto before) := by
  obtain ⟨mode, done⟩ := st
  cases mode with
  | between => exact congrArg some (start_onto before done c)
  | word read =>
    simp only [onto, step]
    split
    · rw [Option.map_map]
      exact congrArg (Option.map · (word? read.reverse))
        (funext fun t => start_onto before (t :: done) c)
    · rfl
  | text read =>
    simp only [onto, step, stepText]
    split
    · rfl
    split
    · rfl
    split <;> rfl
  | escape read =>
    simp only [onto, step]
    split
    · rfl
    · rw [Option.map_map]
      rfl
  | code read high more value =>
    simp only [onto, step, Option.map_map]
    rfl
  | pair read high | pairEscape read high =>
    simp only [onto, step]
    split <;> rfl

theorem feed_onto (before : List Token) (st : LexState) (s : List Char) :
    (st.onto before).feed s = (st.feed s).map (onto before) := by
  induction s generalizing st with
  | nil => rfl
  | cons c s ih =>
    simp only [feed, List.foldlM_cons] at ih ⊢
    rw [step_onto]
    cases st.step c with
    | none => rfl
    | some st' => exact ih st'

theorem finish?_onto (before : List Token) (st : LexState) :
    (st.onto before).finish? = st.finish?.map (· ++ before) := by
  obtain ⟨mode, done⟩ := st
  cases mode with
  | word read => simp [onto, finish?, Function.comp_def]
  | between | text | escape | code | pair | pairEscape => rfl

end LexState

/-- A text that is read by itself is read behind any tokens. -/
theorem reads_of_lex {s : List Char} {ts : List Token} (h : lex s = some ts) : Reads s ts := by
  intro before
  obtain ⟨done, hdone, rfl⟩ := Option.map_eq_some_iff.mp h
  obtain ⟨st, hfeed, hfinish⟩ := Option.bind_eq_some_iff.mp hdone
  refine ⟨st.onto before, ?_, ?_⟩
  · have honto := LexState.feed_onto before ⟨.between, []⟩ s
    rwa [hfeed] at honto
  · rw [LexState.finish?_onto, hfinish, Option.map_some, List.reverse_reverse]

theorem Reads.intercalate {texts : List (List Char)} {tokens : List (List Token)}
    (h : List.Forall₂ Reads texts tokens) :
    Reads ([','].intercalate texts) ([Token.comma].intercalate tokens) := by
  induction h with
  | nil => exact .nil
  | cons hfirst hrest ih =>
    cases hrest with
    | nil => simpa using hfirst
    | cons hsecond hothers =>
      have := hfirst.append_spelled (t := .comma) rfl rfl ih
      simpa [List.intercalate_cons_cons] using this

/-! ### In other containers -/

/-- The same expectation with further containers around those that are open. -/
def Expect.under (outer : List Frame) : Expect → Expect
  | .value inner => .value (inner ++ outer)
  | .firstItem inner => .firstItem (inner ++ outer)
  | .firstMember inner => .firstMember (inner ++ outer)
  | .furtherMember before inner => .furtherMember before (inner ++ outer)
  | .colon before key inner => .colon before key (inner ++ outer)
  | .after v inner => .after v (inner ++ outer)

namespace Expect

theorem startValue_under {inner : List Frame} {t : Token} {st : Expect} (outer : List Frame)
    (h : startValue inner t = some st) : startValue (inner ++ outer) t = some (st.under outer) := by
  cases t <;> cases h <;> rfl

/-- A token that is read by itself is read in any containers. -/
theorem step_under {st st' : Expect} {t : Token} (outer : List Frame) (h : st.step t = some st') :
    (st.under outer).step t = some (st'.under outer) := by
  cases st with
  | value inner => exact startValue_under outer h
  | firstItem inner =>
    rw [step] at h
    rw [under, step]
    split at h
    · rename_i ht
      cases h
      rw [if_pos ht]
      rfl
    · rename_i ht
      rw [if_neg ht]
      exact startValue_under outer h
  | firstMember inner => cases t <;> cases h <;> rfl
  | furtherMember before inner =>
    cases t <;> cases h
    rfl
  | colon before key inner =>
    cases t <;> cases h
    rfl
  | after v inner =>
    cases inner with
    -- With nothing open, no token follows a value.
    | nil => cases h
    | cons frame inner => cases frame <;> cases t <;> cases h <;> rfl

theorem run_under {st st' : Expect} {ts : List Token} (outer : List Frame)
    (h : st.run ts = some st') : (st.under outer).run ts = some (st'.under outer) := by
  induction ts generalizing st with
  | nil =>
    cases h
    rfl
  | cons t ts ih =>
    obtain ⟨next, hstep, hrun⟩ := Option.bind_eq_some_iff.mp h
    simp only [run, List.foldlM_cons, step_under outer hstep]
    exact ih hrun

end Expect

theorem ofTokens?_eq_some_iff {ts : List Token} {v : Value} :
    ofTokens? ts = some v ↔ Expect.run (.value []) ts = some (.after v []) := by
  unfold ofTokens?
  split
  · rename_i u h
    simp [h]
  · rename_i hother
    constructor
    · intro h
      cases h
    · intro h
      exact absurd h (hother v)

/-- Tokens that spell a value complete it, whatever is open around it. -/
theorem run_of_ofTokens? {ts : List Token} {v : Value} (outer : List Frame)
    (h : ofTokens? ts = some v) : Expect.run (.value outer) ts = some (.after v outer) :=
  Expect.run_under outer (ofTokens?_eq_some_iff.mp h)

/-- The first item of an array is read like any other: nothing that spells a
value starts with the end of an array. -/
theorem run_firstItem_of_ofTokens? {ts : List Token} {v : Value} (outer : List Frame)
    (us : List Token) (h : ofTokens? ts = some v) :
    Expect.run (.firstItem outer) (ts ++ us) =
      Expect.run (.value (.items [] :: outer)) (ts ++ us) := by
  cases ts with
  | nil => cases h
  | cons t ts =>
    have ht : t ≠ .closeArray := by
      rintro rfl
      cases h
    simp [Expect.run, Expect.step, ht]

/-- Further items, of which there is one at least, complete the array that is
open. -/
theorem run_items {tokens : List (List Token)} {values : List Value}
    (h : List.Forall₂ (fun ts v => ofTokens? ts = some v) tokens values) :
    ∀ {ts : List Token} {v : Value} (before : List Value) (outer : List Frame),
      ofTokens? ts = some v →
        Expect.run (.value (.items before :: outer))
            ([Token.comma].intercalate (ts :: tokens) ++ [.closeArray]) =
          some (.after (.array (before.reverse ++ v :: values)) outer) := by
  induction h with
  | nil =>
    intro ts v before outer hv
    rw [List.intercalate_singleton, Expect.run_append, run_of_ofTokens? _ hv, Option.bind_some]
    simp [Expect.run, Expect.step]
  | @cons us u tokens values hu _ ih =>
    intro ts v before outer hv
    have hcomma : Expect.run (.after v (.items before :: outer)) [.comma] =
        some (.value (.items (v :: before) :: outer)) := rfl
    rw [List.intercalate_cons_cons, List.append_assoc, List.append_assoc, Expect.run_append,
      run_of_ofTokens? _ hv, Option.bind_some, Expect.run_append, hcomma, Option.bind_some,
      ih (v :: before) outer hu]
    simp

theorem ofTokens?_brackets {tokens : List (List Token)} {values : List Value}
    (h : List.Forall₂ (fun ts v => ofTokens? ts = some v) tokens values) :
    ofTokens? (.openArray :: ([Token.comma].intercalate tokens ++ [.closeArray])) =
      some (.array values) := by
  rw [ofTokens?_eq_some_iff]
  -- The opening bracket is one step.
  change Expect.run (.firstItem []) _ = _
  cases h with
  | nil => rfl
  | @cons ts v tokens values hv hrest =>
    obtain ⟨us, hus⟩ : ts <+: [Token.comma].intercalate (ts :: tokens) := by
      cases tokens with
      | nil => simp
      | cons => simp [List.intercalate_cons_cons]
    rw [← hus, List.append_assoc, run_firstItem_of_ofTokens? [] _ hv, ← List.append_assoc, hus,
      run_items hrest [] [] hv]
    rfl

/-! ### The array of some texts -/

/-- **Values side by side.** Texts that each spell a value, with commas between
them and brackets around them, spell the array of these values. -/
theorem parse?_brackets {texts : List String} {values : List Value}
    (h : List.Forall₂ (fun text v => parse? text = some v) texts values) :
    parse? ("[" ++ ",".intercalate texts ++ "]") = some (.array values) := by
  obtain ⟨tokens, hlex, hread⟩ : ∃ tokens,
      List.Forall₂ Reads (texts.map String.toList) tokens ∧
        List.Forall₂ (fun ts v => ofTokens? ts = some v) tokens values := by
    induction h with
    | nil => exact ⟨[], .nil, .nil⟩
    | cons hv _ ih =>
      obtain ⟨ts, hts, hv⟩ := Option.bind_eq_some_iff.mp hv
      obtain ⟨tokens, hlex, hread⟩ := ih
      exact ⟨ts :: tokens, .cons (reads_of_lex hts) hlex, .cons hv hread⟩
  have hchars : ("[" ++ ",".intercalate texts ++ "]").toList =
      '[' :: ([','].intercalate (texts.map String.toList) ++ [']']) := by
    simp
  have hreads : Reads ('[' :: ([','].intercalate (texts.map String.toList) ++ [']']))
      (.openArray :: ([Token.comma].intercalate tokens ++ [.closeArray])) :=
    Reads.append_spelled (t := .openArray) .nil rfl rfl
      ((Reads.intercalate hlex).append_spelled (t := .closeArray) rfl rfl .nil)
  rw [parse?, hchars, lex_of_reads hreads]
  exact ofTokens?_brackets hread

end ExtensionCatalog.Json
