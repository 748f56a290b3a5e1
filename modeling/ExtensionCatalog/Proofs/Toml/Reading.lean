import ExtensionCatalog.Proofs.Text.Blank
import ExtensionCatalog.Proofs.Toml.Spelling
import ExtensionCatalog.Proofs.Traversal
import Mathlib.Data.List.TakeWhile

/-!
# Reading lines back from their spellings

A run of characters of one kind is read up to the first character of another kind, so
each reader is exact on a spelling as soon as what follows cannot belong to it: a key
ends before a blank, an equals sign or a bracket, a word where its line may end, and
a quote closes a text unless it is the first of three.

* `basic_spelled` — a text between double quotes is read from each of its spellings.
* `line_spelled` — so is a line.
* `parse?_spelled` — the lines of a document are read from each of its spellings.
-/

namespace ExtensionCatalog.Toml

/-! ### Runs -/

/-- The text does not start with a character of this kind. -/
def Stops (p : Char → Bool) (s : List Char) : Prop := ∀ c ∈ s.head?, p c = false

section Runs

variable {p : Char → Bool} {w s : List Char}

theorem stops_cons {c : Char} (h : p c = false) (s : List Char) : Stops p (c :: s) := by
  intro d hd
  cases hd
  exact h

theorem Stops.ne_cons {c : Char} (h : Stops p s) (hc : p c = true) (rest : List Char) :
    s ≠ c :: rest := by
  rintro rfl
  rw [h c rfl] at hc
  cases hc

theorem Stops.dropWhile_eq_self (h : Stops p s) : s.dropWhile p = s := by
  cases s with
  | nil => rfl
  | cons c s => exact List.dropWhile_cons_of_neg (by simp [h c rfl])

theorem Stops.dropWhile_append (h : Stops p s) (hw : ∀ c ∈ w, p c = true) :
    (w ++ s).dropWhile p = s := by
  rw [List.dropWhile_append_of_pos hw, h.dropWhile_eq_self]

theorem skipSpace_append (hw : Spaces w) (h : Stops isSpace s) : skipSpace (w ++ s) = s :=
  h.dropWhile_append hw

theorem stops_skipSpace (s : List Char) : Stops isSpace (skipSpace s) :=
  fun _ hc => Text.eq_false_of_mem_head?_dropWhile hc

/-- Blanks end a run that they do not belong to. -/
theorem Spaces.stops_append (hw : Spaces w) (hspace : ∀ c, isSpace c = true → p c = false)
    (h : Stops p s) : Stops p (w ++ s) := by
  cases w with
  | nil => exact h
  | cons c w => exact stops_cons (hspace c (hw c List.mem_cons_self)) _

end Runs

theorem isSpace_iff {c : Char} : isSpace c = true ↔ c = ' ' ∨ c = '\t' := by
  simp [isSpace]

/-! ### Line ends -/

section LineEnds

variable {s rest : List Char}

/-- What ends a line, and blanks before it, starts with one of few characters. -/
theorem EndsLine.mem_of_head (h : EndsLine s rest) :
    ∀ c ∈ s.head?, c ∈ [' ', '\t', '#', '\n', '\r'] := by
  obtain ⟨hgap, hcomment, hbreak⟩ := h
  rename_i gap comment stop
  intro c hc
  cases gap with
  | cons d gap =>
    cases hc
    rcases isSpace_iff.mp (hgap c List.mem_cons_self) with rfl | rfl <;> simp
  | nil =>
    cases hcomment with
    | some => cases hc; simp
    | none =>
      cases hbreak with
      | lineFeed => cases hc; simp
      | carriageReturn => cases hc; simp
      | last => cases hc

theorem EndsLine.stops {p : Char → Bool} (h : EndsLine s rest)
    (hp : [' ', '\t', '#', '\n', '\r'].any p = false) : Stops p s := by
  intro c hc
  exact eq_false_of_ne_true (List.any_eq_false.mp hp c (h.mem_of_head c hc))

theorem Break.stops {p : Char → Bool} (h : Break s rest) (hfeed : p '\n' = false)
    (hreturn : p '\r' = false) : Stops p s := by
  cases h with
  | lineFeed => exact stops_cons hfeed _
  | carriageReturn => exact stops_cons hreturn _
  | last => intro c hc; cases hc

/-- Without the blanks before it, what ends a line still ends it. -/
theorem endsLine_skipSpace (h : EndsLine s rest) : EndsLine (skipSpace s) rest := by
  obtain ⟨hgap, hcomment, hbreak⟩ := h
  rename_i gap comment stop
  have hstops : Stops isSpace (comment ++ stop) := by
    cases hcomment with
    | none => exact hbreak.stops rfl rfl
    | some => exact stops_cons rfl _
  rw [skipSpace_append hgap hstops]
  exact .intro spaces_nil hcomment hbreak

theorem endLine_of_endsLine (h : EndsLine s rest) : endLine s = some rest := by
  obtain ⟨hgap, hcomment, hbreak⟩ := h
  rename_i gap comment stop
  have hstop : (if stop = [] then some [] else dropLineEnd stop) = some rest := by
    cases hbreak <;> rfl
  cases hcomment with
  | none =>
    have hskip : skipSpace (gap ++ ([] ++ stop)) = stop :=
      skipSpace_append hgap (hbreak.stops rfl rfl)
    have hhash : stop.head? ≠ some '#' := by cases hbreak <;> simp
    simp only [endLine, hskip, if_neg hhash, hstop]
  | @some text htext =>
    have hskip : skipSpace (gap ++ ('#' :: text ++ stop)) = '#' :: text ++ stop :=
      skipSpace_append hgap (stops_cons rfl _)
    have hdrop : ('#' :: text ++ stop).dropWhile isPlain = stop :=
      (hbreak.stops rfl rfl).dropWhile_append (List.forall_mem_cons.mpr ⟨rfl, htext⟩)
    have hhash : ('#' :: text ++ stop).head? = some '#' := rfl
    simp only [endLine, hskip, if_pos hhash, hdrop, hstop]

theorem EndsLine.length_lt (h : EndsLine s rest) : rest.length < s.length ∨ rest = [] := by
  obtain ⟨-, -, hbreak⟩ := h
  cases hbreak with
  | lineFeed | carriageReturn => exact .inl (by simp; omega)
  | last => exact .inr rfl

end LineEnds

/-! ### Quoted texts -/

/-- A character is read from its code. -/
theorem ofCode?_of_isCode {digits : List Char} {c : Char} (h : IsCode digits c.toNat) :
    ofCode? digits = some c := by
  obtain ⟨values, hvalues, hc⟩ := h
  have hfold : values.foldl (fun n d => 16 * n + d) 0 = c.toNat := by
    rw [hc, Nat.ofDigits_eq_foldr, List.foldr_reverse]
    simp only [Nat.cast_id, Nat.add_comm]
  have hvalid : c.toNat.isValidChar := c.valid
  rw [ofCode?, mapM_eq_some_iff.mpr hvalues]
  simp only [Option.bind_eq_bind, Option.bind_some, hfold, if_pos hvalid, Char.ofNat_toNat]

/-- The characters of an escape are passed over. -/
theorem basic_skip (skipped rest : List Char) :
    basic skipped.length (skipped ++ rest) = basic 0 rest := by
  induction skipped with
  | nil => rfl
  | cons c skipped ih => exact ih

/-- The characters of an escape after its backslash, and the character it writes. -/
theorem basic_escape (text : List Char) {rest s after : List Char} {c : Char}
    (hescape : escape? (text ++ rest) = some (c, text.length))
    (hrest : basic 0 rest = some (s, after)) :
    basic 0 ('\\' :: (text ++ rest)) = some (c :: s, after) := by
  have hskip : basic text.length (text ++ rest) = some (s, after) := by
    rw [basic_skip, hrest]
  simp [basic, hescape, hskip]

theorem escape?_short {e c : Char} (h : (e, c) ∈ shortEscapes) (rest : List Char) :
    escape? (e :: rest) = some (c, 1) := by
  simp only [shortEscapes, List.mem_cons, Prod.mk.injEq, List.not_mem_nil, or_false] at h
  rcases h with ⟨rfl, rfl⟩ | ⟨rfl, rfl⟩ | ⟨rfl, rfl⟩ | ⟨rfl, rfl⟩ | ⟨rfl, rfl⟩ | ⟨rfl, rfl⟩ |
    ⟨rfl, rfl⟩ <;> rfl

/-- A character between double quotes is read from each of its spellings. -/
theorem basic_charSpelled {text rest s after : List Char} {c : Char} (h : CharSpelled text c)
    (hrest : basic 0 rest = some (s, after)) :
    basic 0 (text ++ rest) = some (c :: s, after) := by
  cases h with
  | plain hplain hquote hslash => simp [basic, hplain, hquote, hslash, hrest]
  | @short e _ he => exact basic_escape [e] (escape?_short he rest) hrest
  | @code digits _ hlength hcode =>
    refine basic_escape ('u' :: digits) ?_ hrest
    have htake : (digits ++ rest).take 4 = digits := List.take_left' hlength
    simp [escape?, htake, hlength, ofCode?_of_isCode hcode]
  | @longCode digits _ hlength hcode =>
    refine basic_escape ('U' :: digits) ?_ hrest
    have htake : (digits ++ rest).take 8 = digits := List.take_left' hlength
    simp [escape?, htake, hlength, ofCode?_of_isCode hcode]

/-- A text between double quotes is read from each of its spellings. -/
theorem basic_spelled {parts : List (List Char)} {s : List Char}
    (h : List.Forall₂ CharSpelled parts s) (rest : List Char) :
    basic 0 (parts.flatten ++ '"' :: rest) = some (s, rest) := by
  induction h with
  | nil => rfl
  | cons hc _ ih =>
    rw [List.flatten_cons, List.append_assoc]
    exact basic_charSpelled hc ih

/-- No quote starts the spelling of a character. -/
theorem CharSpelled.exists_cons {text : List Char} {c : Char} (h : CharSpelled text c) :
    ∃ d rest, text = d :: rest ∧ d ≠ '"' := by
  cases h with
  | plain _ hquote _ => exact ⟨_, _, rfl, hquote⟩
  | short | code | longCode => exact ⟨_, _, rfl, by simp⟩

/-- After the quote that opens a text no two more follow: one that closes it at once
is the last. -/
theorem flatten_ne_quotes {parts : List (List Char)} {s rest : List Char}
    (h : List.Forall₂ CharSpelled parts s) (hrest : Stops (· = '"') rest) (more : List Char) :
    parts.flatten ++ '"' :: rest ≠ '"' :: '"' :: more := by
  intro heq
  cases h with
  | nil =>
    simp only [List.flatten_nil, List.nil_append, List.cons.injEq, true_and] at heq
    subst heq
    exact absurd (hrest '"' rfl) (by simp)
  | cons hc _ =>
    obtain ⟨d, tail, rfl, hd⟩ := hc.exists_cons
    simp only [List.flatten_cons, List.cons_append, List.cons.injEq] at heq
    exact hd heq.1

/-- So a text on one line is not taken for the start of one on several lines. -/
theorem quoted_spelled {parts : List (List Char)} {s : String} {rest : List Char}
    (h : List.Forall₂ CharSpelled parts s.toList) (hrest : Stops (· = '"') rest) :
    quoted ('"' :: (parts.flatten ++ '"' :: rest)) = some (s, rest) := by
  have hline : quotedLine ('"' :: (parts.flatten ++ '"' :: rest)) = some (s, rest) := by
    simp only [quotedLine, basic_spelled h, Option.map_some, String.ofList_toList]
  rw [← hline]
  unfold quoted
  split
  · rename_i more heq
    exact absurd (List.cons.inj heq).2 (flatten_ne_quotes h hrest more)
  · rename_i heq
    cases heq
  · rfl

/-! ### Values -/

/-- A word is read up to a blank, if it is no date. -/
theorem word_append {w rest : List Char} {v : Value} (hw : w.all isWordChar = true)
    (hrest : Stops isWordChar rest) (hdate : dropDate w ≠ some []) (hv : word? w = some v) :
    word (w ++ rest) = some (v, rest) := by
  have htake : (w ++ rest).takeWhile isWordChar = w :=
    Text.takeWhile_append (List.all_eq_true.mp hw) hrest
  have hdrop : (w ++ rest).drop w.length = rest := List.drop_left
  simp only [word, htake, hdrop, hdate, false_and, if_false, hv, Option.map_some]
  split <;> rfl

/-- A value is read from each of its spellings. -/
theorem value_spelled {text rest : List Char} {v : Value} (depth : Nat)
    (h : ValueSpelled text v) (hquote : Stops (· = '"') rest) (hword : Stops isWordChar rest) :
    value depth (text ++ rest) = some (v, rest) := by
  cases h with
  | string hparts =>
    have hquoted := quoted_spelled hparts hquote
    simp [value, hquoted]
  | true =>
    have htrue := word_append (w := "true".toList) (v := .boolean true) rfl hword
      (by decide) rfl
    simpa [value] using htrue
  | false =>
    have hfalse := word_append (w := "false".toList) (v := .boolean false) rfl hword
      (by decide) rfl
    simpa [value] using hfalse

/-! ### Lines -/

section Keys

variable {name : String}

theorem isBare_of_isSpace {c : Char} (h : isSpace c = true) : isBare c = false := by
  rcases isSpace_iff.mp h with rfl | rfl <;> rfl

theorem IsBareKey.exists_cons (h : IsBareKey name) :
    ∃ c w, name.toList = c :: w ∧ isBare c = true := by
  obtain ⟨hne, hbare⟩ := h
  cases hname : name.toList with
  | nil => exact absurd hname hne
  | cons c w => exact ⟨c, w, rfl, hbare c (hname ▸ List.mem_cons_self)⟩

/-- A key starts with none of the characters that no key without quotes holds. -/
theorem IsBareKey.stops_append (h : IsBareKey name) {p : Char → Bool}
    (hp : ∀ c, isBare c = true → p c = false) (s : List Char) : Stops p (name.toList ++ s) := by
  obtain ⟨c, w, hname, hbare⟩ := h.exists_cons
  rw [hname]
  exact stops_cons (hp c hbare) _

theorem keyPart_append (h : IsBareKey name) {s : List Char} (hs : Stops isBare s) :
    keyPart (name.toList ++ s) = some (name, s) := by
  have hquoted : quotedLine (name.toList ++ s) = none := by
    obtain ⟨c, w, hname, hbare⟩ := h.exists_cons
    rw [hname]
    unfold quotedLine
    split
    · rename_i heq; cases heq; cases hbare
    · rename_i heq; cases heq; cases hbare
    · rfl
  have htake : (name.toList ++ s).takeWhile isBare = name.toList := Text.takeWhile_append h.2 hs
  simp only [keyPart, hquoted, htake, if_neg h.1, List.drop_left, String.ofList_toList]

/-- A key in one part is read with the blanks around it. -/
theorem key_append (h : IsBareKey name) {before after s : List Char} {c : Char} (limit : Nat)
    (hbefore : Spaces before) (hafter : Spaces after) (hbare : isBare c = false)
    (hspace : isSpace c = false) (hdot : c ≠ '.') :
    key (limit + 1) (before ++ (name.toList ++ (after ++ c :: s))) =
      some (([], name), c :: s) := by
  have hfirst : skipSpace (before ++ (name.toList ++ (after ++ c :: s))) =
      name.toList ++ (after ++ c :: s) := by
    refine skipSpace_append hbefore (h.stops_append (fun d hd => ?_) _)
    exact eq_false_of_ne_true fun hblank => by simp [isBare_of_isSpace hblank] at hd
  have hsecond : skipSpace (after ++ c :: s) = c :: s :=
    skipSpace_append hafter (stops_cons hspace s)
  have hpart : keyPart (name.toList ++ (after ++ c :: s)) = some (name, after ++ c :: s) :=
    keyPart_append h (hafter.stops_append (fun _ => isBare_of_isSpace) (stops_cons hbare s))
  simp only [key, hfirst, hpart, Option.bind_eq_bind, Option.bind_some, hsecond]
  split
  · rename_i heq
    cases heq
    exact absurd rfl hdot
  · rfl

end Keys

/-- The spelling of a value starts with none of the characters around it. -/
theorem ValueSpelled.stops_append {text : List Char} {v : Value} (h : ValueSpelled text v)
    (s : List Char) : Stops isSpace (text ++ s) := by
  cases h with
  | string | true | false => exact stops_cons rfl _

theorem ne_bracket_of_isSpace (c : Char) (h : isSpace c = true) : decide (c = '[') = false := by
  rcases isSpace_iff.mp h with rfl | rfl <;> rfl

theorem ne_bracket_of_isBare (c : Char) (h : isBare c = true) : decide (c = '[') = false := by
  rw [decide_eq_false_iff_not]
  rintro rfl
  cases h

/-- A line is read from each of its spellings, up to what ends it. -/
theorem line_spelled {text stop rest : List Char} {l : Line} (h : LineSpelled text l)
    (hstop : EndsLine stop rest) : line (text ++ stop) = some (l, stop) := by
  cases h with
  | @header before after name hname hbefore hafter =>
    have hkey : key nestingLimit (before ++ (name.toList ++ (after ++ ']' :: stop))) =
        some (([], name), ']' :: stop) :=
      key_append hname 78 hbefore hafter rfl rfl (by simp)
    have hbracket : Stops (· = '[') (before ++ (name.toList ++ (after ++ ']' :: stop))) :=
      hbefore.stops_append ne_bracket_of_isSpace (hname.stops_append ne_bracket_of_isBare _)
    simp only [List.cons_append, List.append_assoc, List.nil_append]
    unfold line
    split
    · rename_i heq
      exact absurd (List.cons.inj heq).2 (hbracket.ne_cons rfl _)
    · rename_i heq
      cases heq
      rw [hkey]
      rfl
    · rename_i hne
      exact absurd rfl (hne _)
  | @pair before after text name v hname hbefore hafter hv =>
    have hkey : key nestingLimit (name.toList ++ (before ++ '=' :: (after ++ (text ++ stop)))) =
        some (([], name), '=' :: (after ++ (text ++ stop))) :=
      key_append hname 78 spaces_nil hbefore rfl rfl (by simp)
    have hspace : skipSpace (after ++ (text ++ stop)) = text ++ stop :=
      skipSpace_append hafter (hv.stops_append stop)
    have hvalue : value nestingLimit (text ++ stop) = some (v, stop) :=
      value_spelled nestingLimit hv (hstop.stops rfl) (hstop.stops rfl)
    have hbracket : Stops (· = '[') (name.toList ++ (before ++ '=' :: (after ++ (text ++ stop)))) :=
      hname.stops_append ne_bracket_of_isBare _
    simp only [List.append_assoc, List.cons_append]
    unfold line
    split
    · rename_i heq
      exact absurd heq (hbracket.ne_cons rfl _)
    · rename_i heq
      exact absurd heq (hbracket.ne_cons rfl _)
    · simp only [pair, hkey, Option.bind_eq_bind, Option.bind_some, hspace, hvalue]
      rfl

/-- A line starts with a bracket or with its key, so neither a blank nor the mark of
the byte order comes before it. -/
theorem LineSpelled.exists_cons {text : List Char} {l : Line} (h : LineSpelled text l) :
    ∃ c w, text = c :: w ∧ c ∉ [' ', '\t', '#', '\n', '\r', '\uFEFF'] := by
  cases h with
  | header => exact ⟨_, _, rfl, by simp⟩
  | pair hname =>
    obtain ⟨c, w, hcons, hbare⟩ := hname.exists_cons
    refine ⟨c, _, by rw [hcons, List.cons_append], fun hmem => ?_⟩
    simp only [List.mem_cons, List.not_mem_nil, or_false] at hmem
    rcases hmem with rfl | rfl | rfl | rfl | rfl | rfl <;> cases hbare

/-! ### Documents -/

/-- A blank line, or one with nothing but a comment, holds no line. -/
theorem lines_of_endsLine {text rest : List Char} {fuel : Nat} (h : EndsLine text rest)
    (hfuel : 0 < fuel) : lines (fuel + 1) text = lines fuel rest := by
  have hskip : EndsLine (skipSpace text) rest := endsLine_skipSpace h
  have hend := endLine_of_endsLine hskip
  have hspace := stops_skipSpace text
  rw [lines]
  split
  · rename_i hnil
    rw [hnil] at hend
    cases hend
    obtain ⟨n, rfl⟩ := Nat.exists_eq_add_one_of_ne_zero (Nat.ne_of_gt hfuel)
    rfl
  · rename_i c more hcons
    rw [hcons] at hskip hend hspace
    have hc : (c = '#' || c = '\n' || c = '\r') = true := by
      have hmem := hskip.mem_of_head c rfl
      have hnot := hspace c rfl
      simp [isSpace] at hmem hnot ⊢
      tauto
    rw [if_pos hc, hend]
    rfl

theorem lines_spelled {text : List Char} {ls : List Line} (h : Spelled text ls) {fuel : Nat}
    (hfuel : text.length < fuel) : lines fuel text = some ls := by
  obtain ⟨n, rfl⟩ := Nat.exists_eq_add_one_of_ne_zero (Nat.ne_zero_of_lt hfuel)
  induction h generalizing n with
  | nil => rfl
  | @blank text rest ls hne hend _ ih =>
    have hpos : 0 < text.length := List.length_pos_iff.mpr hne
    have hrest : rest.length < n := by
      rcases hend.length_lt with hlength | rfl
      · omega
      · simp; omega
    obtain ⟨m, rfl⟩ := Nat.exists_eq_add_one_of_ne_zero (Nat.ne_zero_of_lt hrest)
    rw [lines_of_endsLine hend (Nat.succ_pos m)]
    exact ih m hrest
  | @cons gap text stop rest l ls hgap hline hend _ ih =>
    obtain ⟨c, w, rfl, hc⟩ := hline.exists_cons
    simp only [List.mem_cons, List.not_mem_nil, or_false, not_or] at hc
    have hskip : skipSpace (gap ++ (c :: w ++ stop)) = c :: (w ++ stop) :=
      skipSpace_append hgap (stops_cons (by simp [isSpace, hc]) _)
    have hnot : ¬ (c = '#' || c = '\n' || c = '\r') = true := by simp [hc]
    have hread : line (c :: (w ++ stop)) = some (l, stop) := line_spelled hline hend
    have hrest : rest.length < n := by
      simp only [List.length_append, List.length_cons] at hfuel
      rcases hend.length_lt with hlength | rfl
      · omega
      · simp; omega
    obtain ⟨m, rfl⟩ := Nat.exists_eq_add_one_of_ne_zero (Nat.ne_zero_of_lt hrest)
    rw [lines, hskip]
    dsimp only
    rw [if_neg hnot, hread]
    simp only [Option.bind_eq_bind, Option.bind_some, endLine_of_endsLine hend, ih m hrest]
    rfl

/-- No spelling starts with the mark of the byte order. -/
theorem dropMark_spelled {text : List Char} {ls : List Line} (h : Spelled text ls) :
    dropMark text = text := by
  have hhead : text.head? ≠ some '\uFEFF' := by
    intro hmark
    cases h with
    | nil => cases hmark
    | blank _ hend => exact absurd (hend.mem_of_head _ hmark) (by simp)
    | @cons gap text stop rest l ls hgap hline hend hrest =>
      cases gap with
      | cons c gap =>
        cases hmark
        exact absurd (hgap _ List.mem_cons_self) (by simp [isSpace])
      | nil =>
        obtain ⟨c, w, rfl, hc⟩ := hline.exists_cons
        cases hmark
        exact hc (by simp)
  unfold dropMark
  split
  · exact absurd rfl hhead
  · rfl

/-- The lines of a document are read from each of its spellings. -/
theorem parse?_spelled {text : String} {ls : List Line} (h : Spelled text.toList ls) :
    Table.parse? text = Table.ofLines? ls := by
  have hread : lines (text.toList.length + 1) text.toList = some ls :=
    lines_spelled h (Nat.lt_succ_self _)
  simp only [Table.parse?, dropMark_spelled h, hread, Option.bind_eq_bind, Option.bind_some]

end ExtensionCatalog.Toml
