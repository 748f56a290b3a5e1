import ExtensionCatalog.Text.Blank
import Mathlib.Data.List.DropRight

/-!
# Trimming

A text is trimmed at one end when no blank stands there. Trimming leaves a text
that is trimmed, and changes no text that is trimmed already; blanks around a
text make no difference to what is left of it. The same holds of runs of any other
kind of characters that are cut off both ends of a text.

* `dropEndWhile_dropWhile_eq_iff` — what is left of a text when the runs of one kind of
  characters are cut off its ends; `trim_eq_iff` is the case of blanks.
* `trim_eq_nil_iff` — nothing is left exactly of the blank texts.
* `trim_append_of_blank`, `trim_append_blank` — blanks before and after a text are
  trimmed away with its own.
* `firstWord_append`, `afterFirstWord_append` — a run of characters that are not
  blank is cut off where a blank follows or the text ends.
-/

namespace ExtensionCatalog.Text

/-- The text consists of blanks, or is empty. -/
def Blank (s : List Char) : Prop := ∀ c ∈ s, isBlank c = true

/-- No character of the text is blank. -/
def Solid (s : List Char) : Prop := ∀ c ∈ s, isBlank c = false

/-- The text does not start with a blank. -/
def StartTrimmed (s : List Char) : Prop := ∀ c ∈ s.head?, isBlank c = false

/-- The text does not end with a blank. -/
def EndTrimmed (s : List Char) : Prop := ∀ c ∈ s.getLast?, isBlank c = false

/-- The text is empty or starts with a blank, so that a word ends before it. -/
def Breaks (s : List Char) : Prop := ∀ c ∈ s.head?, isBlank c = true

/-- Blanks that part two words. -/
def Gap (s : List Char) : Prop := Blank s ∧ s ≠ []

instance (s : List Char) : Decidable (Blank s) := List.decidableBAll _ s

instance (s : List Char) : Decidable (Solid s) := List.decidableBAll _ s

theorem blank_nil : Blank [] := fun _ hc => absurd hc List.not_mem_nil

theorem blank_append {s t : List Char} : Blank (s ++ t) ↔ Blank s ∧ Blank t :=
  List.forall_mem_append

theorem Blank.not_mem {s : List Char} (h : Blank s) {c : Char} (hc : isBlank c = false) :
    c ∉ s := by
  intro hmem
  rw [h c hmem] at hc
  cases hc

theorem startTrimmed_cons {c : Char} {s : List Char} :
    StartTrimmed (c :: s) ↔ isBlank c = false := by
  simp [StartTrimmed]

theorem breaks_nil : Breaks [] := by
  intro c hc
  cases hc

theorem Breaks.append_of_blank {s b : List Char} (h : Breaks s) (hb : Blank b) :
    Breaks (s ++ b) := by
  cases s with
  | nil =>
    intro c hc
    exact hb c (List.mem_of_mem_head? hc)
  | cons c s => exact h

theorem Breaks.of_isPrefix {s t : List Char} (hs : s <+: t) (ht : Breaks t) : Breaks s := by
  obtain ⟨u, rfl⟩ := hs
  cases s with
  | nil => exact breaks_nil
  | cons c s => exact ht

theorem Blank.breaks_append {a s : List Char} (ha : Blank a) (h : a = [] → Breaks s) :
    Breaks (a ++ s) := by
  cases a with
  | nil => exact h rfl
  | cons c a =>
    intro d hd
    have hd : c = d := by simpa using hd
    exact ha d (hd ▸ List.mem_cons_self)

theorem Gap.breaks_append {a : List Char} (ha : Gap a) (s : List Char) : Breaks (a ++ s) :=
  ha.1.breaks_append fun hnil => absurd hnil ha.2

/-- Where a word ends, a gap follows it, or nothing. -/
theorem ne_nil_or_eq_nil_of_breaks_append {a s : List Char} (h : Breaks (a ++ s))
    (hs : StartTrimmed s) : a ≠ [] ∨ s = [] := by
  cases a with
  | cons c a => exact .inl (List.cons_ne_nil c a)
  | nil =>
    cases s with
    | nil => exact .inr rfl
    | cons c s =>
      have hblank : isBlank c = true := h c rfl
      rw [startTrimmed_cons.mp hs] at hblank
      cases hblank

theorem Blank.eq_nil_of_startTrimmed {a s : List Char} (ha : Blank a)
    (h : StartTrimmed (a ++ s)) : a = [] := by
  cases a with
  | nil => rfl
  | cons c a =>
    have hblank : isBlank c = true := ha c List.mem_cons_self
    rw [startTrimmed_cons.mp h] at hblank
    cases hblank

theorem Solid.startTrimmed {s : List Char} (h : Solid s) : StartTrimmed s :=
  fun c hc => h c (List.mem_of_mem_head? hc)

theorem StartTrimmed.append {s : List Char} (h : StartTrimmed s) (hne : s ≠ [])
    (t : List Char) : StartTrimmed (s ++ t) := by
  cases s with
  | nil => exact absurd rfl hne
  | cons c s => exact startTrimmed_cons.mpr (startTrimmed_cons.mp h)

theorem Blank.gap_of_breaks {a w s : List Char} (ha : Blank a) (hw : StartTrimmed w)
    (hne : w ≠ []) (h : Breaks (a ++ (w ++ s))) : Gap a := by
  refine ⟨ha, (ne_nil_or_eq_nil_of_breaks_append h (hw.append hne s)).resolve_right ?_⟩
  exact List.append_ne_nil_of_left_ne_nil hne s

theorem StartTrimmed.of_append {s t : List Char} (h : StartTrimmed (s ++ t)) :
    StartTrimmed s := by
  cases s with
  | nil => intro c hc; simp at hc
  | cons c s => exact startTrimmed_cons.mpr (startTrimmed_cons.mp h)

theorem StartTrimmed.of_isPrefix {s t : List Char} (h : s <+: t) (ht : StartTrimmed t) :
    StartTrimmed s := by
  obtain ⟨u, rfl⟩ := h
  exact ht.of_append

theorem EndTrimmed.of_append {s t : List Char} (h : EndTrimmed (s ++ t)) : EndTrimmed t := by
  intro c hc
  refine h c ?_
  rw [List.getLast?_append, Option.mem_def.mp hc]
  rfl

theorem EndTrimmed.append {t : List Char} (h : EndTrimmed t) (hne : t ≠ []) (s : List Char) :
    EndTrimmed (s ++ t) := by
  intro c hc
  refine h c ?_
  rwa [List.getLast?_append_of_ne_nil _ hne] at hc

theorem endTrimmed_concat {c : Char} (hc : isBlank c = false) (s : List Char) :
    EndTrimmed (s ++ [c]) := by
  intro d hd
  rw [List.getLast?_concat] at hd
  obtain rfl := Option.some_inj.mp hd
  exact hc

theorem EndTrimmed.cons {c : Char} {s : List Char} (hc : isBlank c = false)
    (h : EndTrimmed s) : EndTrimmed (c :: s) := by
  cases s with
  | nil => exact endTrimmed_concat hc []
  | cons d s => exact h.append (List.cons_ne_nil d s) [c]

/-! ### Cutting runs off the ends -/

section

variable {p : Char → Bool}

theorem eq_false_of_mem_head?_dropWhile {s : List Char} {c : Char}
    (h : c ∈ (s.dropWhile p).head?) : p c = false := by
  have hhead := List.head?_dropWhile_not p s
  rw [Option.mem_def.mp h] at hhead
  exact hhead

theorem exists_append_dropWhile (p : Char → Bool) (s : List Char) :
    ∃ a, (∀ c ∈ a, p c = true) ∧ s = a ++ s.dropWhile p :=
  ⟨s.takeWhile p, fun _ hc => List.mem_takeWhile_imp hc, List.takeWhile_append_dropWhile.symm⟩

theorem eq_false_of_mem_getLast?_dropEndWhile {s : List Char} {c : Char}
    (h : c ∈ (dropEndWhile p s).getLast?) : p c = false := by
  rw [dropEndWhile, List.getLast?_reverse] at h
  exact eq_false_of_mem_head?_dropWhile h

theorem exists_append_dropEndWhile (p : Char → Bool) (s : List Char) :
    ∃ b, (∀ c ∈ b, p c = true) ∧ s = dropEndWhile p s ++ b := by
  obtain ⟨b, hb, hs⟩ := exists_append_dropWhile p s.reverse
  refine ⟨b.reverse, fun c hc => hb c (List.mem_reverse.mp hc), ?_⟩
  rw [dropEndWhile, ← List.reverse_append, ← hs, List.reverse_reverse]

theorem dropEndWhile_eq_self {s : List Char} (h : ∀ c ∈ s.getLast?, p c = false) :
    dropEndWhile p s = s := by
  apply List.rdropWhile_eq_self_iff.mpr
  intro hne
  simp [h _ (List.getLast?_eq_some_getLast hne)]

theorem dropEndWhile_append_of_forall (s : List Char) {t : List Char}
    (h : ∀ c ∈ t, p c = true) : dropEndWhile p (s ++ t) = dropEndWhile p s := by
  rw [dropEndWhile, List.reverse_append, List.dropWhile_append_of_pos]
  · rfl
  · intro c hc
    exact h c (List.mem_reverse.mp hc)

/-- What is dropped at an end stood there. -/
theorem dropEndWhile_isPrefix (p : Char → Bool) (s : List Char) : dropEndWhile p s <+: s :=
  List.rdropWhile_prefix p s

/-- What is left of a text without the runs at its ends is the one text that has no
such ends and, with such runs around it, is the text. -/
theorem dropEndWhile_dropWhile_eq_iff {s t : List Char} :
    dropEndWhile p (s.dropWhile p) = t ↔
      ∃ a b, (∀ c ∈ a, p c = true) ∧ (∀ c ∈ b, p c = true) ∧ s = a ++ (t ++ b) ∧
        (∀ c ∈ t.head?, p c = false) ∧ ∀ c ∈ t.getLast?, p c = false := by
  constructor
  · rintro rfl
    obtain ⟨a, ha, hs⟩ := exists_append_dropWhile p s
    obtain ⟨b, hb, hs'⟩ := exists_append_dropEndWhile p (s.dropWhile p)
    refine ⟨a, b, ha, hb, by rw [← hs', ← hs], ?_, fun c => eq_false_of_mem_getLast?_dropEndWhile⟩
    intro c hc
    obtain ⟨rest, hrest⟩ := dropEndWhile_isPrefix p (s.dropWhile p)
    have hhead : c ∈ (s.dropWhile p).head? := by
      rw [← hrest, List.head?_append, Option.mem_def.mp hc]
      rfl
    exact eq_false_of_mem_head?_dropWhile hhead
  · rintro ⟨a, b, ha, hb, rfl, hhead, hlast⟩
    rw [List.dropWhile_append_of_pos ha]
    cases t with
    | nil =>
      rw [List.nil_append, List.dropWhile_eq_nil_iff.mpr hb]
      rfl
    | cons c t =>
      rw [List.cons_append, List.dropWhile_cons_of_neg (by simp [hhead c rfl]), ← List.cons_append,
        dropEndWhile_append_of_forall _ hb, dropEndWhile_eq_self hlast]

end

/-! ### Trimming the start -/

theorem startTrimmed_trimStart (s : List Char) : StartTrimmed (trimStart s) :=
  fun _ hc => eq_false_of_mem_head?_dropWhile hc

theorem trimStart_eq_self {s : List Char} (h : StartTrimmed s) : trimStart s = s := by
  cases s with
  | nil => rfl
  | cons c s => exact List.dropWhile_cons_of_neg (by simp [startTrimmed_cons.mp h])

theorem trimStart_append_of_blank {a : List Char} (ha : Blank a) (s : List Char) :
    trimStart (a ++ s) = trimStart s :=
  List.dropWhile_append_of_pos ha

theorem trimStart_eq_nil_iff {s : List Char} : trimStart s = [] ↔ Blank s :=
  List.dropWhile_eq_nil_iff

/-- What is left of a text stays where more follows. -/
theorem trimStart_isPrefix_append (s t : List Char) : trimStart s <+: trimStart (s ++ t) := by
  rw [trimStart, trimStart, List.dropWhile_append]
  split
  next hnil =>
    rw [List.isEmpty_iff.mp hnil]
    exact List.nil_prefix
  next => exact List.prefix_append _ _

/-- What stands before the text that is left is blank. -/
theorem exists_blank_append_trimStart (s : List Char) :
    ∃ a, Blank a ∧ s = a ++ trimStart s :=
  exists_append_dropWhile isBlank s

/-! ### Trimming the end -/

theorem endTrimmed_trimEnd (s : List Char) : EndTrimmed (trimEnd s) :=
  fun _ hc => eq_false_of_mem_getLast?_dropEndWhile hc

theorem trimEnd_eq_self {s : List Char} (h : EndTrimmed s) : trimEnd s = s :=
  dropEndWhile_eq_self h

theorem trimEnd_eq_nil_iff {s : List Char} : trimEnd s = [] ↔ Blank s :=
  List.rdropWhile_eq_nil_iff

/-- What stands behind the text that is left is blank. -/
theorem exists_append_blank_trimEnd (s : List Char) :
    ∃ b, Blank b ∧ s = trimEnd s ++ b :=
  exists_append_dropEndWhile isBlank s

/-! ### Trimming both ends -/

theorem trim_eq_nil_iff {s : List Char} : trim s = [] ↔ Blank s := by
  obtain ⟨a, ha, hs⟩ := exists_blank_append_trimStart s
  rw [trim, trimEnd_eq_nil_iff]
  constructor
  · intro h c hc
    rw [hs] at hc
    rcases List.mem_append.mp hc with hc | hc
    · exact ha c hc
    · exact h c hc
  · intro h
    rw [trimStart_eq_nil_iff.mpr h]
    exact blank_nil

/-- A text that is trimmed is what is left of it with blanks around it. -/
theorem trim_eq_iff {s t : List Char} :
    trim s = t ↔
      ∃ a b, Blank a ∧ Blank b ∧ s = a ++ (t ++ b) ∧ StartTrimmed t ∧ EndTrimmed t :=
  dropEndWhile_dropWhile_eq_iff

theorem exists_blanks_around_trim (s : List Char) :
    ∃ a b, Blank a ∧ Blank b ∧ s = a ++ (trim s ++ b) := by
  obtain ⟨a, b, ha, hb, hs, -⟩ := trim_eq_iff.mp (Eq.refl (trim s))
  exact ⟨a, b, ha, hb, hs⟩

theorem startTrimmed_trim (s : List Char) : StartTrimmed (trim s) := by
  obtain ⟨-, -, -, -, -, hstart, -⟩ := trim_eq_iff.mp (Eq.refl (trim s))
  exact hstart

theorem endTrimmed_trim (s : List Char) : EndTrimmed (trim s) :=
  endTrimmed_trimEnd _

theorem trim_append_append {a s b : List Char} (ha : Blank a) (hb : Blank b)
    (hstart : StartTrimmed s) (hend : EndTrimmed s) : trim (a ++ (s ++ b)) = s :=
  trim_eq_iff.mpr ⟨a, b, ha, hb, rfl, hstart, hend⟩

theorem trim_eq_self {s : List Char} (hstart : StartTrimmed s) (hend : EndTrimmed s) :
    trim s = s := by
  rw [trim, trimStart_eq_self hstart, trimEnd_eq_self hend]

theorem trim_trim (s : List Char) : trim (trim s) = trim s :=
  trim_eq_self (startTrimmed_trim s) (endTrimmed_trim s)

theorem trim_append_of_blank {a : List Char} (ha : Blank a) (s : List Char) :
    trim (a ++ s) = trim s := by
  rw [trim, trim, trimStart_append_of_blank ha]

/-- A character that is not blank keeps what stands on either side of it. -/
theorem trim_append_cons {c : Char} (hc : isBlank c = false) (s t : List Char) :
    trim (s ++ c :: t) = trimStart s ++ c :: trimEnd t := by
  obtain ⟨a, ha, hs⟩ := exists_blank_append_trimStart s
  obtain ⟨b, hb, ht⟩ := exists_append_blank_trimEnd t
  have hstart : StartTrimmed (trimStart s ++ c :: trimEnd t) := by
    by_cases hne : trimStart s = []
    · rw [hne]
      exact startTrimmed_cons.mpr hc
    · exact (startTrimmed_trimStart s).append hne _
  have hend : EndTrimmed (trimStart s ++ c :: trimEnd t) :=
    ((endTrimmed_trimEnd t).cons hc).append (List.cons_ne_nil _ _) _
  have hall : s ++ c :: t = a ++ ((trimStart s ++ c :: trimEnd t) ++ b) := by
    conv_lhs => rw [hs, ht]
    simp
  rw [hall]
  exact trim_append_append ha hb hstart hend

theorem getLast?_trim {s : List Char} {c : Char} (hs : s.getLast? = some c)
    (hc : isBlank c = false) : (trim s).getLast? = some c := by
  obtain ⟨t, rfl⟩ := List.getLast?_eq_some_iff.mp hs
  rw [trim_append_cons hc, trimEnd_eq_nil_iff.mpr blank_nil, List.getLast?_concat]

theorem trim_trimStart (s : List Char) : trim (trimStart s) = trim s := by
  rw [trim, trim, trimStart_eq_self (startTrimmed_trimStart s)]

theorem trim_append_blank (s : List Char) {b : List Char} (hb : Blank b) :
    trim (s ++ b) = trim s := by
  obtain ⟨a, b', ha, hb', hs⟩ := exists_blanks_around_trim s
  conv_lhs => rw [hs, List.append_assoc, List.append_assoc]
  exact trim_append_append ha (blank_append.mpr ⟨hb', hb⟩) (startTrimmed_trim s)
    (endTrimmed_trim s)

theorem exists_blank_append_trim {s : List Char} (h : EndTrimmed s) :
    ∃ a, Blank a ∧ s = a ++ trim s := by
  obtain ⟨a, ha, hs⟩ := exists_blank_append_trimStart s
  have hend : EndTrimmed (trimStart s) := by
    rw [hs] at h
    exact h.of_append
  refine ⟨a, ha, ?_⟩
  rw [trim, trimEnd_eq_self hend]
  exact hs

/-! ### Words -/

theorem takeWhile_append {p : Char → Bool} {w r : List Char} (hw : ∀ c ∈ w, p c = true)
    (hr : ∀ c ∈ r.head?, p c = false) : (w ++ r).takeWhile p = w := by
  rw [List.takeWhile_append_of_pos hw]
  cases r with
  | nil => exact List.append_nil w
  | cons c r =>
    have hc : p c = false := hr c rfl
    rw [List.takeWhile_cons_of_neg (by simp [hc]), List.append_nil]

/-- A text is cut before the first character of a kind. -/
theorem takeWhile_ne_append {c : Char} {w : List Char} (hw : c ∉ w) (r : List Char) :
    (w ++ c :: r).takeWhile (· ≠ c) = w := by
  apply takeWhile_append
  · intro d hd
    exact decide_eq_true fun heq => hw (heq ▸ hd)
  · simp

theorem firstWord_append {w r : List Char} (hw : Solid w) (hr : Breaks r) :
    firstWord (w ++ r) = w := by
  apply takeWhile_append
  · intro c hc
    simp [hw c hc]
  · intro c hc
    simp [hr c hc]

theorem afterFirstWord_append {w r : List Char} (hw : Solid w) (hr : Breaks r) :
    afterFirstWord (w ++ r) = r := by
  have h := firstWord_append_afterFirstWord (w ++ r)
  rw [firstWord_append hw hr] at h
  exact List.append_cancel_left h

theorem solid_firstWord (s : List Char) : Solid (firstWord s) := by
  intro c hc
  simpa using List.mem_takeWhile_imp hc

theorem breaks_afterFirstWord (s : List Char) : Breaks (afterFirstWord s) := by
  intro c hc
  simpa using eq_false_of_mem_head?_dropWhile hc

end ExtensionCatalog.Text
