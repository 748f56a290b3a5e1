import ExtensionCatalog.Proofs.Json.Spelling
import Mathlib.Data.List.TakeWhile

/-!
# Reading tokens back from their spellings

A text that spells some tokens is read as these tokens. Delimiters and strings show
their end by themselves; a word ends where a character that no word holds follows
it, or with the text. So a lexer that has read a word is not between tokens yet, and
what is carried from token to token is what it would have read if the text ended
here (`LexState.finish?`). Two words side by side would be read as one, but no value
has such words: its words stand between delimiters.

* `feed_charSpelled` — a character of a string is read from each of its spellings.
* `apart_tokens` — no two words of a value stand side by side.
* `reads_of_spaced` — tokens of which no two words stand side by side are read from
  each of their spellings.
-/

namespace ExtensionCatalog.Json

/-! ### Strings -/

/-- Four digits are read as the number that they write. -/
theorem feed_code (read : List Char) (high : Option Nat) (done : List Token)
    {digits : List Char} {n : Nat} (h : IsCode digits n) :
    LexState.feed ⟨.code read high 3 0, done⟩ digits =
      (afterCode read high n).map (⟨·, done⟩) := by
  obtain ⟨a, b, c, d, w, x, y, z, rfl, ha, hb, hc, hd, rfl⟩ := h
  simp [LexState.feed, LexState.step, stepCode, ha, hb, hc, hd]

/-- The code of a character stands for it: no character is a surrogate. -/
theorem afterCode_toNat (read : List Char) (c : Char) :
    afterCode read none c.toNat = some (.text (c :: read)) := by
  have hvalid : c.toNat < 0xD800 ∨ 0xDFFF < c.toNat := c.valid.imp_right And.left
  have hhigh : isHighSurrogate c.toNat = false := by simp [isHighSurrogate]; omega
  have hlow : isLowSurrogate c.toNat = false := by simp [isLowSurrogate]; omega
  simp [afterCode, hhigh, hlow, Char.ofNat_toNat]

/-- A character of a string is read from each of its spellings. -/
theorem feed_charSpelled (read : List Char) (done : List Token) {text : List Char} {c : Char}
    (h : CharSpelled text c) :
    LexState.feed ⟨.text read, done⟩ text = some ⟨.text (c :: read), done⟩ := by
  have hescape : LexState.feed ⟨.text read, done⟩ ['\\', 'u'] =
      some ⟨.code read none 3 0, done⟩ := rfl
  cases h with
  | plain hquote hslash hplain =>
    simp [LexState.feed, LexState.step, stepText, hquote, hslash, hplain]
  | @short e c he =>
    have hcode : e ≠ 'u' := by
      rintro rfl
      cases he
    simp [LexState.feed, LexState.step, stepText, he, hcode]
  | @code digits c hcode =>
    rw [show '\\' :: 'u' :: digits = ['\\', 'u'] ++ digits from rfl, LexState.feed_append,
      hescape, Option.bind_some, feed_code _ _ _ hcode, afterCode_toNat, Option.map_some]
  | @pair first second high low hfirst hsecond hhigh hlow =>
    have hpair : LexState.feed ⟨.pair read high, done⟩ ['\\', 'u'] =
        some ⟨.code read (some high) 3 0, done⟩ := rfl
    have hafter : afterCode read none high = some (.pair read high) := by
      simp [afterCode, hhigh]
    have hchar : afterCode read (some high) low =
        some (.text (ofSurrogates high low :: read)) := by
      simp [afterCode, hlow]
    rw [show '\\' :: 'u' :: first ++ '\\' :: 'u' :: second =
        ['\\', 'u'] ++ (first ++ (['\\', 'u'] ++ second)) by simp, LexState.feed_append, hescape,
      Option.bind_some, LexState.feed_append, feed_code _ _ _ hfirst, hafter, Option.map_some,
      Option.bind_some, LexState.feed_append, hpair, Option.bind_some, feed_code _ _ _ hsecond,
      hchar, Option.map_some]

/-- The characters of a string are read one after the other. -/
theorem feed_chars (read : List Char) (done : List Token) {parts : List (List Char)}
    {s : List Char} (h : List.Forall₂ CharSpelled parts s) :
    LexState.feed ⟨.text read, done⟩ parts.flatten =
      some ⟨.text (s.reverse ++ read), done⟩ := by
  induction h generalizing read with
  | nil => rfl
  | cons hc _ ih =>
    rw [List.flatten_cons, LexState.feed_append, feed_charSpelled _ _ hc, Option.bind_some, ih]
    simp

/-- A string is read from each of its spellings. -/
theorem feed_string (done : List Token) {text : List Char} {s : String}
    (h : (Token.string s).Spelled text) :
    LexState.feed ⟨.between, done⟩ text = some ⟨.between, .string s :: done⟩ := by
  obtain ⟨parts, hparts, rfl⟩ := h
  have hopen : LexState.feed ⟨.between, done⟩ ['"'] = some ⟨.text [], done⟩ := rfl
  have hclose : LexState.feed ⟨.text s.toList.reverse, done⟩ ['"'] =
      some ⟨.between, .string s :: done⟩ := by
    simp [LexState.feed, LexState.step, stepText]
  rw [show '"' :: parts.flatten = ['"'] ++ parts.flatten from rfl, LexState.feed_append,
    LexState.feed_append, hopen, Option.bind_some, feed_chars _ _ hparts, List.append_nil,
    Option.bind_some, hclose]

/-! ### Words -/

/-- Tokens that show their own end. -/
def Token.isDelimiter : Token → Bool
  | .null | .bool _ | .number _ => false
  | _ => true

/-- Characters of words: none of them ends a word. -/
def IsWord (w : List Char) : Prop := ∀ c ∈ w, endsWord c = false

instance (w : List Char) : Decidable (IsWord w) := List.decidableBAll _ w

theorem endsWord_of_isDigit {c : Char} (h : c.isDigit = true) : endsWord c = false := by
  have key : ∀ n : Fin 128, (Char.ofNat n).isDigit = true → endsWord (Char.ofNat n) = false := by
    decide +kernel
  have hsmall : c.toNat < 128 := by
    simp only [Char.isDigit, Bool.and_eq_true, decide_eq_true_eq] at h
    have := UInt32.le_iff_toNat_le.mp h.2
    exact Nat.lt_of_le_of_lt this (by decide)
  simpa [Char.ofNat_toNat] using key ⟨c.toNat, hsmall⟩ (by simpa [Char.ofNat_toNat] using h)

theorem IsWord.append {v w : List Char} (hv : IsWord v) (hw : IsWord w) : IsWord (v ++ w) := by
  intro c hc
  rcases List.mem_append.mp hc with hc | hc
  · exact hv c hc
  · exact hw c hc

theorem IsWord.cons {c : Char} {w : List Char} (hc : endsWord c = false) (hw : IsWord w) :
    IsWord (c :: w) := by
  intro d hd
  rcases List.mem_cons.mp hd with rfl | hd
  · exact hc
  · exact hw d hd

/-- Digits that are dropped are characters of words. -/
theorem isWord_of_dropDigits {s r : List Char} (h : dropDigits s = some r) (hr : IsWord r) :
    IsWord s := by
  cases s with
  | nil => simp [dropDigits] at h
  | cons c s =>
    simp only [dropDigits] at h
    split at h
    · rename_i hc
      cases h
      refine IsWord.cons (endsWord_of_isDigit hc) ?_
      rw [← List.takeWhile_append_dropWhile (p := Char.isDigit) (l := s)]
      refine IsWord.append (fun d hd => endsWord_of_isDigit ?_) hr
      exact List.mem_takeWhile_imp hd
    · simp at h

theorem isWord_of_dropWhole {s r : List Char} (h : dropWhole s = some r) (hr : IsWord r) :
    IsWord s := by
  unfold dropWhole at h
  split at h
  · cases h
    exact IsWord.cons rfl hr
  · exact isWord_of_dropDigits h hr

theorem isWord_of_dropFraction {s r : List Char} (h : dropFraction s = some r)
    (hr : IsWord r) : IsWord s := by
  unfold dropFraction at h
  split at h
  · exact IsWord.cons rfl (isWord_of_dropDigits h hr)
  · cases h
    exact hr

theorem isWord_of_dropExponent {s r : List Char} (h : dropExponent s = some r)
    (hr : IsWord r) : IsWord s := by
  unfold dropExponent at h
  split at h
  · rename_i c rest
    split at h
    · rename_i hc
      have hmark : endsWord c = false := by rcases hc with rfl | rfl <;> rfl
      cases rest with
      | nil => simp at h
      | cons d digits =>
        simp only at h
        split at h
        · rename_i hd
          have hsign : endsWord d = false := by rcases hd with rfl | rfl <;> rfl
          exact IsWord.cons hmark (IsWord.cons hsign (isWord_of_dropDigits h hr))
        · exact IsWord.cons hmark (isWord_of_dropDigits h hr)
    · cases h
      exact hr
  · cases h
    exact hr

/-- The spelling of a number holds no character that ends a word. -/
theorem isWord_of_isNumber {s : List Char} (h : isNumber s = true) : IsWord s := by
  have key : ∀ u : List Char,
      (dropWhole u >>= dropFraction >>= dropExponent) = some [] → IsWord u := by
    intro u hu
    obtain ⟨v, hv, hlast⟩ := Option.bind_eq_some_iff.mp hu
    obtain ⟨w, hw, hmiddle⟩ := Option.bind_eq_some_iff.mp hv
    have hnil : IsWord [] := fun c hc => absurd hc List.not_mem_nil
    exact isWord_of_dropWhole hw
      (isWord_of_dropFraction hmiddle (isWord_of_dropExponent hlast hnil))
  simp only [isNumber, decide_eq_true_eq] at h
  split at h
  · exact IsWord.cons rfl (key _ h)
  · exact key _ h

/-! ### One token -/

/-- Delimiters and quotes end the word before them: what follows is read as if
that word had ended with the text. -/
theorem step_of_finish? {st : LexState} {done : List Token} {c : Char}
    (h : st.finish? = some done) (hc : endsWord c = true) :
    st.step c = some (LexState.start done c) := by
  obtain ⟨mode, before⟩ := st
  cases mode with
  | between =>
    cases h
    rfl
  | word read =>
    obtain ⟨t, ht, rfl⟩ := Option.map_eq_some_iff.mp h
    simp [LexState.step, hc, ht]
  | text | escape | code | pair | pairEscape => simp [LexState.finish?] at h

/-- Reading a text that starts by ending a word. -/
theorem feed_cons_of_finish? {st : LexState} {done : List Token} {c : Char} (s : List Char)
    (h : st.finish? = some done) (hc : endsWord c = true) :
    st.feed (c :: s) = LexState.feed ⟨.between, done⟩ (c :: s) := by
  have hbetween : LexState.finish? ⟨.between, done⟩ = some done := rfl
  simp only [LexState.feed, List.foldlM_cons, step_of_finish? h hc, step_of_finish? hbetween hc]

/-- A delimiter or a string is read from each of its spellings, whatever stands
before it. -/
theorem feed_delimiter {st : LexState} {done : List Token} (h : st.finish? = some done)
    {t : Token} (ht : t.isDelimiter = true) {text : List Char} (htext : t.Spelled text) :
    st.feed text = some ⟨.between, t :: done⟩ := by
  cases t with
  | string s =>
    have hstring := feed_string done htext
    obtain ⟨parts, -, rfl⟩ := htext
    rw [List.cons_append, feed_cons_of_finish? _ h rfl]
    exact hstring
  | null | bool | number => simp [Token.isDelimiter] at ht
  | openArray | closeArray | openObject | closeObject | comma | colon =>
    obtain rfl := htext
    exact (feed_cons_of_finish? [] h rfl).trans rfl

/-- Characters of words are collected. -/
theorem feed_word (read : List Char) (done : List Token) {w : List Char} (hw : IsWord w) :
    LexState.feed ⟨.word read, done⟩ w = some ⟨.word (w.reverse ++ read), done⟩ := by
  induction w generalizing read with
  | nil => rfl
  | cons c w ih =>
    have hc : endsWord c = false := hw c List.mem_cons_self
    have hrest : IsWord w := fun d hd => hw d (List.mem_cons_of_mem _ hd)
    have hstep : LexState.step ⟨.word read, done⟩ c = some ⟨.word (c :: read), done⟩ := by
      simp [LexState.step, hc]
    have := ih (c :: read) hrest
    simp only [LexState.feed, List.foldlM_cons, hstep] at this ⊢
    simpa using this

/-- A word between tokens is read as the token it spells, if the text ends
after it. -/
theorem feed_of_word? (done : List Token) {w : List Char} {t : Token} (hw : IsWord w)
    (hne : w ≠ []) (ht : word? w = some t) :
    ∃ st, LexState.feed ⟨.between, done⟩ w = some st ∧ st.finish? = some (t :: done) := by
  cases w with
  | nil => exact absurd rfl hne
  | cons c w =>
    have hc : endsWord c = false := hw c List.mem_cons_self
    have hrest : IsWord w := fun d hd => hw d (List.mem_cons_of_mem _ hd)
    have hstart : LexState.start done c = ⟨.word [c], done⟩ := by
      simp only [endsWord, Bool.or_eq_false_iff, decide_eq_false_iff_not,
        Option.isSome_eq_false_iff, Option.isNone_iff_eq_none] at hc
      simp [LexState.start, hc]
    refine ⟨⟨.word (w.reverse ++ [c]), done⟩, ?_, by simp [LexState.finish?, ht]⟩
    have := feed_word [c] done hrest
    simp only [LexState.feed, List.foldlM_cons, LexState.step, hstart] at this ⊢
    exact this

/-- A number is the token of its spelling: no number is spelled like one of the
three names. -/
theorem word?_of_isNumber {w : List Char} (h : isNumber w = true) :
    word? w = some (.number (String.ofList w)) := by
  have hne : ∀ name, isNumber name = false → w ≠ name := by
    rintro name hname rfl
    rw [hname] at h
    cases h
  have hnull : w ≠ "null".toList := hne _ rfl
  have htrue : w ≠ "true".toList := hne _ rfl
  have hfalse : w ≠ "false".toList := hne _ rfl
  rw [word?, if_neg hnull, if_neg htrue, if_neg hfalse, if_pos h]

/-- A word is read from its spelling, if the text ends after it. -/
theorem feed_word_spelled (done : List Token) {t : Token} (ht : t.isDelimiter = false)
    {text : List Char} (htext : t.Spelled text) :
    ∃ st, LexState.feed ⟨.between, done⟩ text = some st ∧ st.finish? = some (t :: done) := by
  cases t with
  | null =>
    obtain rfl := htext
    exact feed_of_word? done (w := "null".toList) (by decide) (by decide) rfl
  | bool b =>
    obtain rfl := htext
    cases b with
    | true => exact feed_of_word? done (w := "true".toList) (by decide) (by decide) rfl
    | false => exact feed_of_word? done (w := "false".toList) (by decide) (by decide) rfl
  | number spelling =>
    obtain ⟨rfl, hnumber⟩ := htext
    have hne : spelling.toList ≠ [] := by
      intro hnil
      rw [hnil] at hnumber
      cases hnumber
    refine feed_of_word? done (isWord_of_isNumber hnumber) hne ?_
    rw [word?_of_isNumber hnumber, String.ofList_toList]
  | openArray | closeArray | openObject | closeObject | comma | colon | string => cases ht

/-! ### Blanks -/

theorem endsWord_of_isSpace {c : Char} (h : isSpace c = true) : endsWord c = true := by
  simp [endsWord, h]

theorem feed_blanks (done : List Token) {gap : List Char} (hgap : Blanks gap) :
    LexState.feed ⟨.between, done⟩ gap = some ⟨.between, done⟩ := by
  induction gap with
  | nil => rfl
  | cons c gap ih =>
    have hc : isSpace c = true := hgap c List.mem_cons_self
    have hrest := ih fun d hd => hgap d (List.mem_cons_of_mem _ hd)
    simp only [LexState.feed, List.foldlM_cons, LexState.step, LexState.start, hc] at hrest ⊢
    exact hrest

/-- Blanks end the word before them, and nothing else comes of them. -/
theorem exists_feed_blanks {st : LexState} {done : List Token} (h : st.finish? = some done)
    {gap : List Char} (hgap : Blanks gap) :
    ∃ st', st.feed gap = some st' ∧ st'.finish? = some done := by
  cases gap with
  | nil => exact ⟨st, rfl, h⟩
  | cons c gap =>
    have hc : endsWord c = true := endsWord_of_isSpace (hgap c List.mem_cons_self)
    exact ⟨_, (feed_cons_of_finish? gap h hc).trans (feed_blanks done hgap), rfl⟩

/-! ### Texts between delimiters -/

/-- The text is read as the tokens, behind whatever tokens stand before them. -/
def Reads (s : List Char) (ts : List Token) : Prop :=
  ∀ done, ∃ st, LexState.feed ⟨.between, done⟩ s = some st ∧
    st.finish? = some (ts.reverse ++ done)

theorem Reads.nil : Reads [] [] :=
  fun done => ⟨⟨.between, done⟩, rfl, rfl⟩

theorem Reads.singleton {text : List Char} {t : Token} (htext : t.Spelled text) :
    Reads text [t] := by
  intro done
  cases ht : t.isDelimiter with
  | true => exact ⟨_, feed_delimiter rfl ht htext, rfl⟩
  | false => exact feed_word_spelled done ht htext

theorem Reads.blanks_append {gap s : List Char} {ts : List Token} (hgap : Blanks gap)
    (h : Reads s ts) : Reads (gap ++ s) ts := by
  intro done
  rw [LexState.feed_append, feed_blanks done hgap]
  exact h done

theorem Reads.append_blanks {gap s : List Char} {ts : List Token} (h : Reads s ts)
    (hgap : Blanks gap) : Reads (s ++ gap) ts := by
  intro done
  obtain ⟨st, hfeed, hfinish⟩ := h done
  rw [LexState.feed_append, hfeed]
  exact exists_feed_blanks hfinish hgap

/-- A delimiter keeps what stands on its two sides apart. -/
theorem Reads.append_spelled {r s text : List Char} {ts us : List Token} {t : Token}
    (hr : Reads r ts) (ht : t.isDelimiter = true) (htext : t.Spelled text) (hs : Reads s us) :
    Reads (r ++ (text ++ s)) (ts ++ t :: us) := by
  intro done
  obtain ⟨st, hfeed, hfinish⟩ := hr done
  obtain ⟨st', hfeed', hfinish'⟩ := hs (t :: (ts.reverse ++ done))
  refine ⟨st', ?_, by simpa using hfinish'⟩
  rw [LexState.feed_append, hfeed, Option.bind_some, LexState.feed_append,
    feed_delimiter hfinish ht htext, Option.bind_some, hfeed']

/-- What is read behind any tokens is read behind none. -/
theorem lex_of_reads {s : List Char} {ts : List Token} (h : Reads s ts) : lex s = some ts := by
  obtain ⟨st, hfeed, hfinish⟩ := h []
  simp [lex, hfeed, hfinish]

/-! ### The tokens of a value -/

/-- Tokens of which no two words stand side by side. -/
inductive Apart : List Token → Prop where
  | nil : Apart []
  | singleton (t : Token) : Apart [t]
  | append_cons {ts us : List Token} {t : Token} :
      Apart ts → t.isDelimiter = true → Apart us → Apart (ts ++ t :: us)

theorem Apart.cons {us : List Token} {t : Token} (ht : t.isDelimiter = true) (hus : Apart us) :
    Apart (t :: us) :=
  .append_cons .nil ht hus

theorem Apart.append_singleton {ts : List Token} {t : Token} (hts : Apart ts)
    (ht : t.isDelimiter = true) : Apart (ts ++ [t]) :=
  .append_cons hts ht .nil

mutual
/-- No two words of a value stand side by side. -/
theorem apart_tokens : ∀ v : Value, Apart v.tokens
  | .null => .singleton _
  | .bool _ => .singleton _
  | .number _ => .singleton _
  | .string _ => .singleton _
  | .array [] => .cons rfl (.singleton _)
  | .array (v :: rest) =>
      (apart_moreItems rest (.cons rfl (apart_tokens v))).append_singleton rfl
  | .object [] => .cons rfl (.singleton _)
  | .object ((_, v) :: rest) =>
      (apart_moreMembers rest
        (.cons rfl (.cons rfl (.cons rfl (apart_tokens v))))).append_singleton rfl

theorem apart_moreItems : ∀ (items : List Value) {ts : List Token}, Apart ts →
    Apart (ts ++ moreItems items)
  | [], ts, hts => by simpa [moreItems] using hts
  | v :: rest, ts, hts => by
      have hv : Apart (ts ++ .comma :: v.tokens) := .append_cons hts rfl (apart_tokens v)
      simpa [moreItems] using apart_moreItems rest hv

theorem apart_moreMembers : ∀ (members : List (String × Value)) {ts : List Token}, Apart ts →
    Apart (ts ++ moreMembers members)
  | [], ts, hts => by simpa [moreMembers] using hts
  | (key, v) :: rest, ts, hts => by
      have hv : Apart (ts ++ .comma :: .string key :: .colon :: v.tokens) :=
        .append_cons hts rfl (.cons rfl (.cons rfl (apart_tokens v)))
      simpa [moreMembers] using apart_moreMembers rest hv
end

/-! ### Spellings -/

/-- Tokens of which no two words stand side by side are read from each of their
spellings. -/
theorem reads_of_spaced {ts : List Token} (h : Apart ts) {text : List Char}
    (htext : Spaced text ts) : Reads text ts := by
  induction h generalizing text with
  | nil =>
    cases htext with
    | nil hgap => simpa using Reads.nil.append_blanks hgap
  | singleton t =>
    cases htext with
    | cons hgap hword hrest =>
      cases hrest with
      | nil hlast => exact .blanks_append hgap ((Reads.singleton hword).append_blanks hlast)
  | append_cons _ ht _ ihbefore ihafter =>
    obtain ⟨before, word, after, rfl, hbefore, hword, hafter⟩ := htext.of_append_cons
    exact (ihbefore hbefore).append_spelled ht hword (ihafter hafter)

/-- The tokens of a value are read from each of its spellings. -/
theorem lex_of_spelled {v : Value} {text : String} (h : v.Spelled text) :
    lex text.toList = some v.tokens :=
  lex_of_reads (reads_of_spaced (apart_tokens v) h)

end ExtensionCatalog.Json
