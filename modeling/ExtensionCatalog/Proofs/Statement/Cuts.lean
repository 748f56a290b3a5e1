import ExtensionCatalog.Proofs.Statement.Quotes

/-!
# Where a text is split (spec §C.6)

Which separators of a text stand outside quotes can be said without reading the text
from left to right: in front of such a separator stand characters that are no quotes
and sections that are closed (`Closed`), and nothing else. These are the places at
which a text is split, whatever quotes it holds and whether or not the last of them is
closed; and nothing of the text is lost.

* `closed_iff` — a text is closed if it ends outside sections.
* `cutPositions_splitOutsideQuotes` — the places at which a text is split.
* `splitOutsideQuotes_cuts` — the parts of a text, and that no others have these
  properties.
-/

namespace ExtensionCatalog.Statement

/-! ### Closed texts -/

/-- A text of characters that are no quotes and of sections: bodies between two equal
quotes that are not in them. -/
inductive Closed : List Char → Prop where
  | nil : Closed []
  | plain {c : Char} {s : List Char} (isQuote_c : isQuote c = false) (closed : Closed s) :
      Closed (c :: s)
  | quoted {q : Char} {body s : List Char} (isQuote_q : isQuote q = true) (not_mem : q ∉ body)
      (closed : Closed s) : Closed (q :: (body ++ q :: s))

theorem Closed.quoteAfter_eq_none {s : List Char} (h : Closed s) : quoteAfter none s = none := by
  induction h with
  | nil => rfl
  | plain hc _ ih =>
    rw [quoteAfter_cons, passQuote, hc]
    exact ih
  | quoted hq hbody _ ih =>
    rw [quoteAfter_cons, passQuote, if_pos hq, quoteAfter_append_cons hbody]
    exact ih

/-- The recursion is on the length, since a section is taken off as a whole. -/
theorem closed_of_quoteAfter_eq_none : (s : List Char) → quoteAfter none s = none → Closed s
  | [], _ => .nil
  | c :: s, h => by
    rw [quoteAfter_cons, passQuote] at h
    by_cases hc : isQuote c = true
    · rw [if_pos hc] at h
      have hmem : c ∈ s := by
        by_contra hmem
        rw [quoteAfter_some_of_not_mem hmem] at h
        cases h
      obtain ⟨body, rest, rfl, hbody⟩ := List.eq_append_cons_of_mem hmem
      rw [quoteAfter_append_cons hbody] at h
      exact .quoted hc hbody (closed_of_quoteAfter_eq_none rest h)
    · rw [if_neg hc] at h
      exact .plain (by simpa using hc) (closed_of_quoteAfter_eq_none s h)
termination_by s => s.length

/-- A text is closed if it ends outside sections. -/
theorem closed_iff {s : List Char} : Closed s ↔ quoteAfter none s = none :=
  ⟨Closed.quoteAfter_eq_none, closed_of_quoteAfter_eq_none s⟩

instance (s : List Char) : Decidable (Closed s) := decidable_of_iff _ closed_iff.symm

/-! ### Positions -/

/-- The positions of the separators that stand outside sections, in order. -/
def separatorPositions (separator : Char) (s : List Char) : List Nat :=
  (List.range s.length).filter fun i => s[i]? = some separator ∧ Closed (s.take i)

/-- The positions of the separators in the text that some parts are joined to. -/
def cutPositions : List (List Char) → List Nat
  | [] => []
  | [_] => []
  | part :: next :: parts =>
    part.length :: (cutPositions (next :: parts)).map (· + (part.length + 1))

/-- The positions of the separators outside sections, of a text that starts in the
section of a quote. -/
def separatorPositionsFrom (separator : Char) (open? : Option Char) (s : List Char) : List Nat :=
  (List.range s.length).filter fun i =>
    s[i]? = some separator ∧ quoteAfter open? (s.take i) = none

theorem separatorPositions_eq (separator : Char) (s : List Char) :
    separatorPositions separator s = separatorPositionsFrom separator none s := by
  simp only [separatorPositions, separatorPositionsFrom, closed_iff]

theorem separatorPositionsFrom_cons (separator : Char) (open? : Option Char) (c : Char)
    (s : List Char) :
    separatorPositionsFrom separator open? (c :: s) =
      (if open? = none ∧ c = separator then [0] else []) ++
        (separatorPositionsFrom separator (passQuote open? c) s).map (· + 1) := by
  have hrest : ((fun i => decide ((c :: s)[i]? = some separator ∧
        quoteAfter open? ((c :: s).take i) = none)) ∘ Nat.succ) =
      fun i => decide (s[i]? = some separator ∧
        quoteAfter (passQuote open? c) (s.take i) = none) := by
    funext i
    rw [Bool.eq_iff_iff, Function.comp, decide_eq_true_iff, decide_eq_true_iff]
    simp
  rw [separatorPositionsFrom, List.length_cons, List.range_succ_eq_map, List.filter_cons,
    List.filter_map, hrest]
  by_cases hcut : open? = none ∧ c = separator
  · rw [if_pos hcut, if_pos (by simpa [and_comm] using hcut)]
    rfl
  · rw [if_neg hcut, if_neg (by simpa [and_comm] using hcut)]
    rfl

theorem cutPositions_nil_cons {parts : List (List Char)} (h : parts ≠ []) :
    cutPositions ([] :: parts) = 0 :: (cutPositions parts).map (· + 1) := by
  cases parts with
  | nil => exact absurd rfl h
  | cons part parts => rfl

/-- A character more in the first part moves all cuts. -/
theorem cutPositions_modifyHead (c : Char) (parts : List (List Char)) :
    cutPositions (parts.modifyHead (c :: ·)) = (cutPositions parts).map (· + 1) := by
  match parts with
  | [] => rfl
  | [_] => rfl
  | part :: next :: parts =>
    simp [cutPositions, Nat.add_assoc]

theorem length_cutPositions {parts : List (List Char)} (h : parts ≠ []) :
    parts.length = (cutPositions parts).length + 1 := by
  match parts with
  | [] => exact absurd rfl h
  | [_] => rfl
  | part :: next :: parts =>
    rw [cutPositions, List.length_cons, length_cutPositions (List.cons_ne_nil next parts)]
    simp

/-- Parts are determined by the text that they are joined to and the places at which
they meet. -/
theorem eq_of_cutPositions_eq {separator : Char} {parts others : List (List Char)}
    (hne : parts ≠ []) (hne' : others ≠ [])
    (htext : [separator].intercalate parts = [separator].intercalate others)
    (hcuts : cutPositions parts = cutPositions others) : parts = others := by
  match parts, others with
  | [part], [other] => simpa using htext
  | [part], other :: next :: others => cases hcuts
  | part :: next :: parts, [other] => cases hcuts
  | part :: next :: parts, other :: next' :: others =>
    obtain ⟨hlength, hrest⟩ := List.cons_eq_cons.mp hcuts
    simp only [List.intercalate_cons_cons, List.append_assoc, List.singleton_append] at htext
    obtain ⟨rfl, hjoined⟩ := List.append_inj htext hlength
    have htext := (List.cons_eq_cons.mp hjoined).2
    have hrest := (List.map_inj_right fun _ _ => Nat.add_right_cancel).mp hrest
    rw [eq_of_cutPositions_eq (List.cons_ne_nil _ _) (List.cons_ne_nil _ _) htext hrest]

/-! ### The parts of a text -/

theorem intercalate_modifyHead {separator c : Char} {parts : List (List Char)} (h : parts ≠ []) :
    [separator].intercalate (parts.modifyHead (c :: ·)) = c :: [separator].intercalate parts := by
  match parts with
  | [] => exact absurd rfl h
  | [_] => simp
  | part :: next :: parts =>
    rw [List.modifyHead_cons, List.intercalate_cons_cons, List.intercalate_cons_cons]
    simp

/-- Nothing of a text is lost. -/
theorem intercalate_splitOutsideQuotes {separator : Char} (h : isQuote separator = false)
    (open? : Option Char) (s : List Char) :
    [separator].intercalate (splitOutsideQuotes separator open? s) = s := by
  induction s generalizing open? with
  | nil => rfl
  | cons c s ih =>
    by_cases hcut : open? = none ∧ c = separator
    · obtain ⟨rfl, rfl⟩ := hcut
      rw [splitOutsideQuotes_separator h, List.intercalate_cons_of_ne_nil
        (splitOutsideQuotes_ne_nil _ _ _), ih]
      rfl
    · rw [splitOutsideQuotes_cons hcut, intercalate_modifyHead (splitOutsideQuotes_ne_nil _ _ _),
        ih]

/-- A text is split at the separators outside sections. -/
theorem cutPositions_splitOutsideQuotes {separator : Char} (h : isQuote separator = false)
    (open? : Option Char) (s : List Char) :
    cutPositions (splitOutsideQuotes separator open? s) =
      separatorPositionsFrom separator open? s := by
  induction s generalizing open? with
  | nil => rfl
  | cons c s ih =>
    rw [separatorPositionsFrom_cons]
    by_cases hcut : open? = none ∧ c = separator
    · obtain ⟨rfl, rfl⟩ := hcut
      rw [splitOutsideQuotes_separator h,
        cutPositions_nil_cons (splitOutsideQuotes_ne_nil _ _ _), ih, passQuote, h]
      simp
    · rw [splitOutsideQuotes_cons hcut, cutPositions_modifyHead, ih, if_neg hcut,
        List.nil_append]

/-- **A text is split at the separators outside quotes.** It has at least one part; the
parts, with the separator between them, are the text; and they meet at those separators
in front of which the text is closed, so that they are one more than these. No other
parts are joined to the text at these separators. -/
theorem splitOutsideQuotes_cuts {separator : Char} (h : isQuote separator = false)
    (s : List Char) :
    splitOutsideQuotes separator none s ≠ [] ∧
      [separator].intercalate (splitOutsideQuotes separator none s) = s ∧
      cutPositions (splitOutsideQuotes separator none s) = separatorPositions separator s ∧
      (splitOutsideQuotes separator none s).length = (separatorPositions separator s).length + 1 ∧
      ∀ parts, parts ≠ [] → [separator].intercalate parts = s →
        cutPositions parts = separatorPositions separator s →
          parts = splitOutsideQuotes separator none s := by
  have hne := splitOutsideQuotes_ne_nil separator none s
  have htext := intercalate_splitOutsideQuotes h none s
  have hcuts : cutPositions (splitOutsideQuotes separator none s) =
      separatorPositions separator s := by
    rw [cutPositions_splitOutsideQuotes h, separatorPositions_eq]
  refine ⟨hne, htext, hcuts, ?_, ?_⟩
  · rw [length_cutPositions hne, hcuts]
  · intro parts hparts htext' hcuts'
    exact eq_of_cutPositions_eq hparts hne (htext'.trans htext.symm) (hcuts'.trans hcuts.symm)

/-- Both kinds of quotes, two separators side by side, and a section that is left open. -/
theorem splitOutsideQuotes_cuts_unclosed :
    isQuote ',' = false ∧
      separatorPositions ',' "é,,'a,\"b',\"c',d".toList = [1, 2, 9] ∧
      cutPositions (splitOutsideQuotes ',' none "é,,'a,\"b',\"c',d".toList) = [1, 2, 9] ∧
      (splitOutsideQuotes ',' none "é,,'a,\"b',\"c',d".toList).length = 4 ∧
      splitOutsideQuotes ',' none "é,,'a,\"b',\"c',d".toList =
        ["é".toList, [], "'a,\"b'".toList, "\"c',d".toList] := by
  have hpositions : separatorPositions ',' "é,,'a,\"b',\"c',d".toList = [1, 2, 9] := by
    decide +kernel
  obtain ⟨-, -, hcuts, hlength, hunique⟩ :=
    splitOutsideQuotes_cuts (show isQuote ',' = false from rfl) "é,,'a,\"b',\"c',d".toList
  rw [hpositions] at hcuts hlength hunique
  exact ⟨rfl, hpositions, hcuts, hlength, (hunique _ (by decide) rfl rfl).symm⟩

end ExtensionCatalog.Statement
