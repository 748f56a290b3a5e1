import ExtensionCatalog.Statement.WithClause
import Mathlib.Data.List.Induction

/-!
# Texts in quotes

What has been read of a text decides whether its rest stands between quotes, and in
which: a quote outside sections opens one, and only the same quote closes it. A text
is split at the separators that stand outside sections, so it can be split piece by
piece, and a text put together of parts falls into them again.

* `quoteAfter` — the section that a text ends in.
* `splitOutsideQuotes_append` — a text is split piece by piece.
* `IsPart.splitOutsideQuotes_intercalate` — parts with separators between them.
* `exists_of_quoteAfter_eq_some` — where a section that is left open begins.
-/

namespace ExtensionCatalog.Statement

/-- The quote of the section that a text is in after one more character. -/
def passQuote (open? : Option Char) (c : Char) : Option Char :=
  match open? with
  | some q => if c = q then none else some q
  | none => if isQuote c then some c else none

/-- The quote of the section that a text ends in; none outside sections. -/
def quoteAfter (open? : Option Char) (s : List Char) : Option Char :=
  s.foldl passQuote open?

@[simp] theorem quoteAfter_nil (open? : Option Char) : quoteAfter open? [] = open? := rfl

@[simp] theorem quoteAfter_cons (open? : Option Char) (c : Char) (s : List Char) :
    quoteAfter open? (c :: s) = quoteAfter (passQuote open? c) s := rfl

theorem quoteAfter_append (open? : Option Char) (s t : List Char) :
    quoteAfter open? (s ++ t) = quoteAfter (quoteAfter open? s) t :=
  List.foldl_append

theorem quoteAfter_none_of_forall {s : List Char} (h : ∀ c ∈ s, isQuote c = false) :
    quoteAfter none s = none := by
  induction s with
  | nil => rfl
  | cons c s ih =>
    rw [List.forall_mem_cons] at h
    rw [quoteAfter_cons, passQuote, h.1]
    exact ih h.2

theorem quoteAfter_some_of_not_mem {q : Char} {s : List Char} (h : q ∉ s) :
    quoteAfter (some q) s = some q := by
  induction s with
  | nil => rfl
  | cons c s ih =>
    rw [List.mem_cons, not_or] at h
    obtain ⟨hne, hs⟩ := h
    rw [quoteAfter_cons, passQuote, if_neg (Ne.symm hne)]
    exact ih hs

/-- A section is passed over: behind its closing quote the text is outside again. -/
theorem quoteAfter_append_cons {q : Char} {body : List Char} (h : q ∉ body) (s : List Char) :
    quoteAfter (some q) (body ++ q :: s) = quoteAfter none s := by
  rw [quoteAfter_append, quoteAfter_some_of_not_mem h, quoteAfter_cons, passQuote, if_pos rfl]

/-- A section in which a text ends was opened outside sections and not closed. -/
theorem exists_of_quoteAfter_eq_some {s : List Char} {q : Char} (h : quoteAfter none s = some q) :
    ∃ before rest, s = before ++ q :: rest ∧ quoteAfter none before = none ∧
      isQuote q = true ∧ q ∉ rest := by
  induction s using List.reverseRecOn with
  | nil => cases h
  | append_singleton s c ih =>
    rw [quoteAfter_append, quoteAfter_cons, quoteAfter_nil] at h
    cases hs : quoteAfter none s with
    | none =>
      rw [hs, passQuote] at h
      split at h
      next hquote =>
        cases h
        exact ⟨s, [], rfl, hs, hquote, List.not_mem_nil⟩
      next => cases h
    | some q' =>
      rw [hs, passQuote] at h
      split at h
      next => cases h
      next hne =>
        cases h
        obtain ⟨before, rest, rfl, hbefore, hquote, hrest⟩ := ih hs
        refine ⟨before, rest ++ [c], by simp, hbefore, hquote, ?_⟩
        simp [hrest, Ne.symm hne]

/-! ### Parts -/

theorem modifyHead_eq_append_singleton {α : Type} {f : α → α} {l init : List α} {last : α}
    (h : l.modifyHead f = init ++ [last]) :
    (init = [] ∧ ∃ a, l = [a] ∧ last = f a) ∨
      ∃ a rest, init = f a :: rest ∧ l = a :: (rest ++ [last]) := by
  cases l with
  | nil => simp at h
  | cons a l =>
    rw [List.modifyHead_cons] at h
    cases init with
    | nil =>
      cases h
      exact .inl ⟨rfl, a, rfl, rfl⟩
    | cons b init =>
      obtain ⟨rfl, rfl⟩ := List.cons_eq_cons.mp h
      exact .inr ⟨a, init, rfl, rfl⟩

theorem splitOutsideQuotes_separator {separator : Char} (h : isQuote separator = false)
    (s : List Char) :
    splitOutsideQuotes separator none (separator :: s) =
      [] :: splitOutsideQuotes separator none s := by
  simp [splitOutsideQuotes, h]

theorem splitOutsideQuotes_cons {separator c : Char} {open? : Option Char}
    (h : ¬ (open? = none ∧ c = separator)) (s : List Char) :
    splitOutsideQuotes separator open? (c :: s) =
      (splitOutsideQuotes separator (passQuote open? c) s).modifyHead (c :: ·) := by
  cases open? with
  | some q => rfl
  | none =>
    have hc : c ≠ separator := fun hc => h ⟨rfl, hc⟩
    rw [splitOutsideQuotes, passQuote, if_neg hc]
    cases isQuote c <;> rfl

/-- The last part of a text goes on as the first part of what follows. -/
theorem splitOutsideQuotes_append {separator : Char} (hseparator : isQuote separator = false)
    {open? : Option Char} {s t : List Char} {init rest : List (List Char)}
    {last first : List Char} (hs : splitOutsideQuotes separator open? s = init ++ [last])
    (ht : splitOutsideQuotes separator (quoteAfter open? s) t = first :: rest) :
    splitOutsideQuotes separator open? (s ++ t) = init ++ (last ++ first) :: rest := by
  induction s generalizing open? init last with
  | nil =>
    obtain ⟨rfl, rfl⟩ : init = [] ∧ [] = last := by
      simpa [splitOutsideQuotes, List.append_eq_singleton_iff, eq_comm] using hs
    exact ht
  | cons c s ih =>
    rw [List.cons_append]
    by_cases hcut : open? = none ∧ c = separator
    · obtain ⟨rfl, rfl⟩ := hcut
      rw [splitOutsideQuotes_separator hseparator] at hs ⊢
      rw [quoteAfter_cons, passQuote, hseparator] at ht
      cases init with
      | nil => exact absurd (List.cons_eq_cons.mp hs).2 (splitOutsideQuotes_ne_nil _ _ _)
      | cons part init =>
        obtain ⟨rfl, hparts⟩ := List.cons_eq_cons.mp hs
        rw [ih hparts ht]
        rfl
    · rw [splitOutsideQuotes_cons hcut] at hs ⊢
      obtain ⟨rfl, part, hparts, rfl⟩ | ⟨part, parts, rfl, hparts⟩ :=
        modifyHead_eq_append_singleton hs
      · have hparts : splitOutsideQuotes separator (passQuote open? c) s = [] ++ [part] := hparts
        rw [ih hparts ht]
        rfl
      · rw [← List.cons_append] at hparts
        rw [ih hparts ht]
        rfl

theorem splitOutsideQuotes_append_of_singleton {separator : Char}
    (hseparator : isQuote separator = false) {open? : Option Char} {s t : List Char}
    {rest : List (List Char)} {last first : List Char}
    (hs : splitOutsideQuotes separator open? s = [last])
    (ht : splitOutsideQuotes separator (quoteAfter open? s) t = first :: rest) :
    splitOutsideQuotes separator open? (s ++ t) = (last ++ first) :: rest :=
  splitOutsideQuotes_append hseparator (hs.trans (List.nil_append [last]).symm) ht

/-- A separator outside quotes ends a part. -/
theorem splitOutsideQuotes_append_separator {separator : Char}
    (hseparator : isQuote separator = false) {open? : Option Char} {s : List Char}
    (hs : quoteAfter open? s = none) (t : List Char) :
    splitOutsideQuotes separator open? (s ++ separator :: t) =
      splitOutsideQuotes separator open? s ++ splitOutsideQuotes separator none t := by
  have hparts := List.dropLast_concat_getLast (splitOutsideQuotes_ne_nil separator open? s)
  have hcut : splitOutsideQuotes separator (quoteAfter open? s) (separator :: t) =
      [] :: splitOutsideQuotes separator none t := by
    rw [hs, splitOutsideQuotes_separator hseparator]
  rw [splitOutsideQuotes_append hseparator hparts.symm hcut, List.append_nil]
  conv_rhs => rw [← hparts]
  simp

/-! ### Texts in one part -/

/-- No separator stands outside quotes, and every quote is closed. -/
structure IsPart (separator : Char) (s : List Char) : Prop where
  split_eq : splitOutsideQuotes separator none s = [s]
  closed : quoteAfter none s = none

theorem splitOutsideQuotes_of_forall {separator : Char} {s : List Char}
    (h : ∀ c ∈ s, c ≠ separator ∧ isQuote c = false) :
    splitOutsideQuotes separator none s = [s] := by
  induction s with
  | nil => rfl
  | cons c s ih =>
    obtain ⟨⟨hc, hquote⟩, hs⟩ := List.forall_mem_cons.mp h
    rw [splitOutsideQuotes_cons (fun hcut => hc hcut.2), passQuote, hquote]
    exact congrArg (List.modifyHead _) (ih hs)

theorem splitOutsideQuotes_of_not_mem (separator : Char) {q : Char} {s : List Char}
    (h : q ∉ s) : splitOutsideQuotes separator (some q) s = [s] := by
  induction s with
  | nil => rfl
  | cons c s ih =>
    rw [List.mem_cons, not_or] at h
    rw [splitOutsideQuotes, if_neg (Ne.symm h.1), ih h.2]
    rfl

/-- What is open to the end of a text is one part. -/
theorem splitOutsideQuotes_open (separator : Char) {q : Char} {s : List Char}
    (hq : isQuote q = true) (h : q ∉ s) :
    splitOutsideQuotes separator none (q :: s) = [q :: s] := by
  rw [splitOutsideQuotes, if_pos hq, splitOutsideQuotes_of_not_mem separator h]
  rfl

theorem isPart_of_forall {separator : Char} {s : List Char}
    (h : ∀ c ∈ s, c ≠ separator ∧ isQuote c = false) : IsPart separator s :=
  ⟨splitOutsideQuotes_of_forall h, quoteAfter_none_of_forall fun c hc => (h c hc).2⟩

namespace IsPart

variable {separator : Char} (hseparator : isQuote separator = false)
include hseparator

theorem append {s t : List Char} (hs : IsPart separator s) (ht : IsPart separator t) :
    IsPart separator (s ++ t) := by
  constructor
  · have hrest : splitOutsideQuotes separator (quoteAfter none s) t = [t] := by
      rw [hs.closed]
      exact ht.split_eq
    exact splitOutsideQuotes_append_of_singleton hseparator hs.split_eq hrest
  · rw [quoteAfter_append, hs.closed, ht.closed]

theorem quoted {q : Char} {body : List Char} (hq : isQuote q = true) (hbody : q ∉ body) :
    IsPart separator (q :: (body ++ [q])) := by
  have hafter : quoteAfter none (q :: body) = some q := by
    rw [quoteAfter_cons, passQuote, if_pos hq]
    exact quoteAfter_some_of_not_mem hbody
  have hclose : splitOutsideQuotes separator (quoteAfter none (q :: body)) [q] = [[q]] := by
    rw [hafter]
    simp [splitOutsideQuotes]
  constructor
  · have hopen := splitOutsideQuotes_open separator hq hbody
    exact splitOutsideQuotes_append_of_singleton hseparator hopen hclose
  · rw [quoteAfter_cons, passQuote, if_pos hq, quoteAfter_append_cons hbody]
    rfl

/-- Parts with separators between them are split where they were put together. -/
theorem splitOutsideQuotes_intercalate {parts : List (List Char)} (hne : parts ≠ [])
    (h : ∀ part ∈ parts, IsPart separator part) :
    splitOutsideQuotes separator none ([separator].intercalate parts) = parts := by
  induction parts with
  | nil => exact absurd rfl hne
  | cons part parts ih =>
    obtain ⟨hpart, hparts⟩ := List.forall_mem_cons.mp h
    cases parts with
    | nil => simpa using hpart.split_eq
    | cons next parts =>
      rw [List.intercalate_cons_cons, List.append_assoc, List.singleton_append,
        splitOutsideQuotes_append_separator hseparator hpart.closed, hpart.split_eq,
        ih (List.cons_ne_nil _ _) hparts]
      rfl

end IsPart

end ExtensionCatalog.Statement
