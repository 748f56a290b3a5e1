import ExtensionCatalog.Proofs.Text.Caseless
import ExtensionCatalog.Statement.Literal

/-!
# The literals of a text (spec §C.6)

A `Literal` is a text that is written as a literal should be. Splitting finds
the one that a text starts with, and fails where there is none. Of the text only
blanks are lost: those at its ends, and those between the literal and the rest.

* `splitLiteral_eq_ok_iff` — what is split off is a literal, after blanks; a
  bare one ends before a blank.
* `Literal.unquote_chars` — what a literal stands for.
* `splitLiteral_eq_error_iff` — the texts that start with no literal.
* `splitLiteral_divides` — all others, put together of a literal and a rest.
-/

namespace ExtensionCatalog.Statement

open Text (Blank Breaks Solid StartTrimmed EndTrimmed)

theorem isBlank_of_isQuote {c : Char} (h : isQuote c = true) : Text.isBlank c = false := by
  obtain rfl | rfl : c = '\'' ∨ c = '"' := by simpa [isQuote] using h
  · rfl
  · rfl

/-- A literal: a body between two quotes that are not in it, or a word that does
not start with a quote. -/
inductive Literal where
  | quoted (q : Char) (body : List Char) (isQuote_q : isQuote q = true) (not_mem : q ∉ body)
  | bare (c : Char) (rest : List Char) (isQuote_c : isQuote c = false)
      (solid : Solid (c :: rest))

namespace Literal

/-- The literal as it is written. -/
def chars : Literal → List Char
  | quoted q body _ _ => q :: (body ++ [q])
  | bare c rest _ _ => c :: rest

/-- The literal without its quotes. -/
def content : Literal → List Char
  | quoted _ body _ _ => body
  | bare c rest _ _ => c :: rest

def IsQuoted : Literal → Prop
  | quoted .. => True
  | bare .. => False

theorem chars_ne_nil (l : Literal) : l.chars ≠ [] := by
  cases l with
  | quoted q body hq hbody => exact List.cons_ne_nil _ _
  | bare c rest hc hsolid => exact List.cons_ne_nil _ _

theorem startTrimmed_chars (l : Literal) : StartTrimmed l.chars := by
  cases l with
  | quoted q body hq hbody => exact Text.startTrimmed_cons.mpr (isBlank_of_isQuote hq)
  | bare c rest hc hsolid => exact hsolid.startTrimmed

theorem endTrimmed_chars (l : Literal) : EndTrimmed l.chars := by
  cases l with
  | quoted q body hq hbody => exact Text.endTrimmed_concat (isBlank_of_isQuote hq) (q :: body)
  | bare c rest hc hsolid =>
    intro d hd
    exact hsolid d (List.mem_of_getLast? hd)

/-- Of a literal only its quotes are taken. -/
theorem unquote_chars (l : Literal) : unquote l.chars = l.content := by
  rw [unquote, Text.trim_eq_self l.startTrimmed_chars l.endTrimmed_chars]
  cases l with
  | quoted q body hq hbody => simp [chars, content, hq]
  | bare c rest hc hsolid => simp [chars, content, hc]

end Literal

/-- A literal is split off whatever it holds, a bare one if it ends there. -/
theorem splitLiteral_append {a s : List Char} {l : Literal} (ha : Blank a)
    (hend : l.IsQuoted ∨ Breaks s) :
    splitLiteral (a ++ (l.chars ++ s)) = .ok (l.chars, Text.trim s) := by
  have hstart : Text.trimStart (a ++ (l.chars ++ s)) = l.chars ++ s := by
    rw [Text.trimStart_append_of_blank ha]
    exact Text.trimStart_eq_self (l.startTrimmed_chars.append l.chars_ne_nil s)
  rw [splitLiteral, hstart]
  cases l with
  | quoted q body hq hbody =>
    have hrest : (body ++ q :: s).drop (body.length + 1) = s := by
      rw [← List.drop_drop, List.drop_left, List.drop_succ_cons, List.drop_zero]
    rw [Literal.chars, List.cons_append, List.append_assoc, List.singleton_append]
    dsimp only
    rw [if_pos hq, if_pos List.mem_append_cons_self,
      Text.takeWhile_ne_append hbody, hrest]
    rfl
  | bare c rest hc hsolid =>
    have hbreaks : Breaks s := hend.resolve_left id
    rw [Literal.chars, List.cons_append]
    dsimp only
    rw [hc, ← List.cons_append, Text.firstWord_append hsolid hbreaks,
      Text.afterFirstWord_append hsolid hbreaks]
    rfl

/-- A bare literal goes on as far as the text goes on without a blank. -/
theorem splitLiteral_bare_append {a : List Char} (ha : Blank a) {c : Char} {rest : List Char}
    (hc : isQuote c = false) (hsolid : Solid (c :: rest)) (s : List Char) :
    splitLiteral (a ++ (c :: rest ++ s)) =
      .ok (c :: rest ++ Text.firstWord s, Text.trim (Text.afterFirstWord s)) := by
  have hword : Solid (c :: (rest ++ Text.firstWord s)) :=
    List.forall_mem_append.mpr ⟨hsolid, Text.solid_firstWord s⟩
  have hs : c :: rest ++ s =
      Literal.chars (.bare c _ hc hword) ++ Text.afterFirstWord s := by
    rw [Literal.chars, ← List.cons_append, List.append_assoc,
      Text.firstWord_append_afterFirstWord]
  rw [hs, splitLiteral_append ha (.inr (Text.breaks_afterFirstWord s))]
  rfl

/-! ### Texts with and without a literal -/

/-- Why a text starts with no literal: it is blank, or the first character that is not
blank is a quote that does not occur again. -/
inductive NoLiteral (s : List Char) : LiteralError → Prop where
  | blank : Blank s → NoLiteral s .missing
  | unclosed {a : List Char} {q : Char} {rest : List Char} : Blank a → s = a ++ q :: rest →
      isQuote q = true → q ∉ rest → NoLiteral s (.unterminated (String.ofList (q :: rest)))

theorem NoLiteral.splitLiteral_eq {s : List Char} {e : LiteralError} (h : NoLiteral s e) :
    splitLiteral s = .error e := by
  cases h with
  | blank hblank => rw [splitLiteral, Text.trimStart_eq_nil_iff.mpr hblank]
  | @unclosed a q rest ha hs hquote hmem =>
    have hstart : Text.trimStart s = q :: rest := by
      rw [hs, Text.trimStart_append_of_blank ha]
      exact Text.trimStart_eq_self (Text.startTrimmed_cons.mpr (isBlank_of_isQuote hquote))
    rw [splitLiteral, hstart]
    dsimp only
    rw [if_pos hquote, if_neg hmem]

/-- A text starts with a literal unless one of these causes stands against it. -/
theorem noLiteral_or_exists_literal (s : List Char) :
    (∃ e, NoLiteral s e) ∨
      ∃ a l b, Blank a ∧ s = a ++ (Literal.chars l ++ b) ∧ (l.IsQuoted ∨ Breaks b) := by
  obtain ⟨a, ha, hs⟩ := Text.exists_blank_append_trimStart s
  cases hstart : Text.trimStart s with
  | nil => exact .inl ⟨_, .blank (Text.trimStart_eq_nil_iff.mp hstart)⟩
  | cons q rest =>
    rw [hstart] at hs
    by_cases hquote : isQuote q = true
    · by_cases hmem : q ∈ rest
      · obtain ⟨body, b, rfl, hbody⟩ := List.eq_append_cons_of_mem hmem
        refine .inr ⟨a, .quoted q body hquote hbody, b, ha, ?_, .inl trivial⟩
        simpa [Literal.chars] using hs
      · exact .inl ⟨_, .unclosed ha hs hquote hmem⟩
    · have hq : Text.isBlank q = false :=
        Text.startTrimmed_cons.mp (hstart ▸ Text.startTrimmed_trimStart s)
      have hsplit := Text.firstWord_append_afterFirstWord (q :: rest)
      have hsolid := Text.solid_firstWord (q :: rest)
      have hword : Text.firstWord (q :: rest) = q :: Text.firstWord rest := by
        simp [Text.firstWord, hq]
      rw [hword] at hsplit hsolid
      refine .inr ⟨a, .bare q (Text.firstWord rest) (by simpa using hquote) hsolid,
        Text.afterFirstWord (q :: rest), ha, ?_, .inr (Text.breaks_afterFirstWord _)⟩
      rw [Literal.chars, hsplit]
      exact hs

theorem splitLiteral_eq_ok_iff {s written rest : List Char} :
    splitLiteral s = .ok (written, rest) ↔
      ∃ a l b, Blank a ∧ s = a ++ (Literal.chars l ++ b) ∧ (l.IsQuoted ∨ Breaks b) ∧
        written = l.chars ∧ rest = Text.trim b := by
  constructor
  · intro h
    rcases noLiteral_or_exists_literal s with ⟨e, he⟩ | ⟨a, l, b, ha, rfl, hend⟩
    · rw [he.splitLiteral_eq] at h
      cases h
    · rw [splitLiteral_append ha hend] at h
      cases h
      exact ⟨a, l, b, ha, rfl, hend, rfl, rfl⟩
  · rintro ⟨a, l, b, ha, rfl, hend, rfl, rfl⟩
    exact splitLiteral_append ha hend

theorem splitLiteral_eq_error_iff {s : List Char} {e : LiteralError} :
    splitLiteral s = .error e ↔ NoLiteral s e := by
  constructor
  · intro h
    rcases noLiteral_or_exists_literal s with ⟨e', he⟩ | ⟨a, l, b, ha, rfl, hend⟩
    · rw [he.splitLiteral_eq] at h
      cases h
      exact he
    · rw [splitLiteral_append ha hend] at h
      cases h
  · exact NoLiteral.splitLiteral_eq

/-! ### What a text is divided into -/

/-- A text, the blanks at its ends aside, put together of a literal, blanks and a rest.
A bare literal goes on up to a blank or to the end of the text. -/
structure Division (s : List Char) where
  literal : Literal
  gap : List Char
  rest : List Char
  trim_eq : Text.trim s = literal.chars ++ (gap ++ rest)
  gap_blank : Blank gap
  rest_startTrimmed : StartTrimmed rest
  rest_endTrimmed : EndTrimmed rest
  literal_ends : literal.IsQuoted ∨ Breaks (gap ++ rest)

/-- The literal of a division is the one that is split off. -/
theorem Division.splitLiteral_eq {s : List Char} (p : Division s) :
    splitLiteral s = .ok (p.literal.chars, p.rest) := by
  obtain ⟨a, b, ha, hb, hs⟩ := Text.exists_blanks_around_trim s
  rw [p.trim_eq, List.append_assoc, List.append_assoc] at hs
  have hends : p.literal.IsQuoted ∨ Breaks (p.gap ++ (p.rest ++ b)) := by
    rw [← List.append_assoc]
    exact p.literal_ends.imp_right fun hbreaks => hbreaks.append_of_blank hb
  have hrest : Text.trim (p.gap ++ (p.rest ++ b)) = p.rest :=
    Text.trim_append_append p.gap_blank hb p.rest_startTrimmed p.rest_endTrimmed
  rw [congrArg splitLiteral hs, splitLiteral_append ha hends, hrest]

theorem exists_division {s : List Char} {split : List Char × List Char}
    (h : splitLiteral s = .ok split) : ∃ p : Division s, split = (p.literal.chars, p.rest) := by
  obtain ⟨a, l, b, ha, rfl, hend, hwritten, hrest⟩ := splitLiteral_eq_ok_iff.mp h
  obtain ⟨after, hafter, hb⟩ := Text.exists_append_blank_trimEnd b
  obtain ⟨gap, hgap, hdivided⟩ := Text.exists_blank_append_trim (Text.endTrimmed_trimEnd b)
  have htrim : Text.trim (Text.trimEnd b) = Text.trim b := by
    conv_rhs => rw [hb]
    exact (Text.trim_append_blank _ hafter).symm
  rw [htrim] at hdivided
  have hlast : EndTrimmed (l.chars ++ Text.trimEnd b) := by
    by_cases hnil : Text.trimEnd b = []
    · rw [hnil, List.append_nil]
      exact l.endTrimmed_chars
    · exact (Text.endTrimmed_trimEnd b).append hnil l.chars
  have hall : Text.trim (a ++ (l.chars ++ b)) = l.chars ++ Text.trimEnd b := by
    conv_lhs => rw [hb, ← List.append_assoc l.chars]
    exact Text.trim_append_append ha hafter
      (l.startTrimmed_chars.append l.chars_ne_nil _) hlast
  have hbreaks : l.IsQuoted ∨ Breaks (Text.trimEnd b) :=
    hend.imp_right (Breaks.of_isPrefix (Text.dropEndWhile_isPrefix _ b))
  rw [hdivided] at hall hbreaks
  exact ⟨⟨l, gap, Text.trim b, hall, hgap, Text.startTrimmed_trim b, Text.endTrimmed_trim b,
    hbreaks⟩, Prod.ext hwritten hrest⟩

/-- **A literal is split off a text without loss.** Splitting fails for blank texts and
for those that start with a quote that is not closed, and for no others. All others have
a division: without the blanks at its ends the text is a literal, blanks and a rest
without blanks at its ends. Splitting gives the literal as it is written and the rest of
every division, so these are the same for all divisions; and of the literal only its
quotes are taken to get what it stands for. -/
theorem splitLiteral_divides (s : List Char) :
    (∀ e, splitLiteral s = .error e ↔ NoLiteral s e) ∧
      ((∃ p : Division s, splitLiteral s = .ok (p.literal.chars, p.rest)) ↔
        ∀ e, ¬ NoLiteral s e) ∧
      ∀ p : Division s, splitLiteral s = .ok (p.literal.chars, p.rest) ∧
        unquote p.literal.chars = p.literal.content := by
  refine ⟨fun e => splitLiteral_eq_error_iff, ?_, fun p => ⟨p.splitLiteral_eq,
    p.literal.unquote_chars⟩⟩
  constructor
  · rintro ⟨p, hp⟩ e he
    rw [splitLiteral_eq_error_iff.mpr he] at hp
    cases hp
  · intro h
    cases hsplit : splitLiteral s with
    | error e => exact absurd (splitLiteral_eq_error_iff.mp hsplit) (h e)
    | ok split =>
      obtain ⟨p, rfl⟩ := exists_division hsplit
      exact ⟨p, rfl⟩

-- A quoted literal may touch what follows it; all of Unicode's white space parts a bare one.
example : splitLiteral " 'a b'c ".toList = .ok ("'a b'".toList, ['c']) := by
  rfl

example : splitLiteral "it's\u2003'x ".toList = .ok ("it's".toList, "'x".toList) := by
  rfl

end ExtensionCatalog.Statement
