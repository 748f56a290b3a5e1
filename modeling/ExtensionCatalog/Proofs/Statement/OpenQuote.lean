import ExtensionCatalog.Proofs.Statement.Options

/-!
# Clauses with an open quote (spec §C.6)

A quote that is not closed is no reason to refuse a clause. It takes all that is left
of the clause's body, commas included, into the entry that it stands in; and whether
that entry and those before it are options is asked as if the quote were any other
character. So options that were meant to follow are lost in the value of another.

* `splitOutsideQuotes_openQuote` — the entries of a body with an open quote.
* `ofClause_of_open` — when such a clause is read, and as what.
-/

namespace ExtensionCatalog.Statement

open Text (Blank)

/-- A quote that a body leaves open: what stands before and behind it, the entries
that are complete before it, and the beginning of the one that it stands in. -/
structure OpenQuote (body : List Char) (q : Char) where
  before : List Char
  rest : List Char
  entries : List (List Char)
  entry : List Char
  body_eq : body = before ++ q :: rest
  isQuote_q : isQuote q = true
  closed_before : quoteAfter none before = none
  not_mem_rest : q ∉ rest
  split_before : splitOutsideQuotes ',' none before = entries ++ [entry]

theorem nonempty_openQuote {body : List Char} {q : Char} (h : quoteAfter none body = some q) :
    Nonempty (OpenQuote body q) := by
  obtain ⟨before, rest, hbody, hbefore, hq, hrest⟩ := exists_of_quoteAfter_eq_some h
  have hparts := List.dropLast_concat_getLast (splitOutsideQuotes_ne_nil ',' none before)
  exact ⟨⟨before, rest, _, _, hbody, hq, hbefore, hrest, hparts.symm⟩⟩

/-- What follows an open quote belongs to the entry that it stands in. -/
theorem splitOutsideQuotes_openQuote {body : List Char} {q : Char} (o : OpenQuote body q) :
    splitOutsideQuotes ',' none body = o.entries ++ [o.entry ++ q :: o.rest] := by
  have hopen : splitOutsideQuotes ',' (quoteAfter none o.before) (q :: o.rest) = [q :: o.rest] := by
    rw [o.closed_before]
    exact splitOutsideQuotes_open ',' o.isQuote_q o.not_mem_rest
  rw [congrArg (splitOutsideQuotes ',' none) o.body_eq]
  exact splitOutsideQuotes_append isQuote_comma o.split_before hopen

/-! ### Entries that are options -/

/-- The entry has an equals sign, and a name before the first one. -/
def IsOption (entry : List Char) : Prop :=
  ∃ name value, entry = name ++ '=' :: value ∧ '=' ∉ name ∧ ¬ Blank name

theorem exists_readOption_iff {entry : List Char} :
    (∃ binding, readOption entry = .ok binding) ↔ IsOption entry := by
  simp only [readOption_eq_ok_iff]
  constructor
  · rintro ⟨_, name, value, hentry, hequals, hname, -⟩
    exact ⟨name, value, hentry, hequals, hname⟩
  · rintro ⟨name, value, hentry, hequals, hname⟩
    exact ⟨_, name, value, hentry, hequals, hname, rfl⟩

/-- Behind an entry without an equals sign, a quote gives a name to what follows. -/
theorem isOption_append_quote_iff {q : Char} (hq : isQuote q = true) {entry rest : List Char} :
    IsOption (entry ++ q :: rest) ↔ IsOption entry ∨ '=' ∉ entry ∧ '=' ∈ rest := by
  have hequals : '=' ≠ q := by
    rintro rfl
    cases hq
  constructor
  · rintro ⟨name, value, hall, hname, hblank⟩
    by_cases hmem : '=' ∈ entry
    · obtain ⟨name', value', rfl, hname'⟩ := List.eq_append_cons_of_mem hmem
      have hfirst := congrArg (List.takeWhile (· ≠ '=')) hall
      rw [List.append_assoc, List.cons_append, Text.takeWhile_ne_append hname',
        Text.takeWhile_ne_append hname] at hfirst
      exact .inl ⟨name', value', rfl, hname', hfirst ▸ hblank⟩
    · have hrest : '=' ∈ q :: rest := by
        have hin : '=' ∈ entry ++ q :: rest := hall ▸ List.mem_append_cons_self
        exact (List.mem_append.mp hin).resolve_left hmem
      exact .inr ⟨hmem, (List.mem_cons.mp hrest).resolve_left hequals⟩
  · rintro (⟨name, value, rfl, hname, hblank⟩ | ⟨hentry, hrest⟩)
    · exact ⟨name, value ++ q :: rest, by simp, hname, hblank⟩
    · obtain ⟨name, value, rfl, hname⟩ := List.eq_append_cons_of_mem hrest
      refine ⟨entry ++ q :: name, value, by simp, by simp [hentry, hname, hequals], ?_⟩
      intro hblank
      exact hblank.not_mem (isBlank_of_isQuote hq) (by simp)

/-- The options of a clause with an open quote, entry by entry. -/
theorem ofClause_openQuote_iff {clause body : List Char} {q : Char}
    (hbody : clauseBody clause = .ok body) (o : OpenQuote body q) {options : OptionMap} :
    OptionMap.ofClause clause = .ok options ↔
      ∃ bindings binding, o.entries.mapM readOption = .ok bindings ∧
        readOption (o.entry ++ q :: o.rest) = .ok binding ∧
        options = OptionMap.ofList (bindings ++ [binding]) := by
  rw [ofClause_eq_ok_iff]
  constructor
  · rintro ⟨body', all, hbody', hall, rfl⟩
    obtain rfl : body = body' := Except.ok.inj (hbody.symm.trans hbody')
    rw [splitOutsideQuotes_openQuote o, mapM_append_singleton_eq_ok_iff] at hall
    obtain ⟨bindings, binding, hbindings, hbinding, rfl⟩ := hall
    exact ⟨bindings, binding, hbindings, hbinding, rfl⟩
  · rintro ⟨bindings, binding, hbindings, hbinding, rfl⟩
    refine ⟨body, bindings ++ [binding], hbody, ?_, rfl⟩
    rw [splitOutsideQuotes_openQuote o, mapM_append_singleton_eq_ok_iff]
    exact ⟨bindings, binding, hbindings, hbinding, rfl⟩

/-- **Clauses with an open quote.** A clause whose body leaves a quote open is read
exactly if the entries that are complete before the quote are options, and the one that
it stands in is an option with it: either it was one already, or its first equals sign
stands behind the quote. Then the whole rest of the body is part of that last option. -/
theorem ofClause_of_open {clause body : List Char} {q : Char}
    (hbody : clauseBody clause = .ok body) (hopen : quoteAfter none body = some q) :
    Nonempty (OpenQuote body q) ∧ ∀ o : OpenQuote body q,
      ((∃ options, OptionMap.ofClause clause = .ok options) ↔
        (∀ entry ∈ o.entries, IsOption entry) ∧
          (IsOption o.entry ∨ '=' ∉ o.entry ∧ '=' ∈ o.rest)) ∧
      ∀ options, OptionMap.ofClause clause = .ok options ↔
        ∃ bindings binding, o.entries.mapM readOption = .ok bindings ∧
          readOption (o.entry ++ q :: o.rest) = .ok binding ∧
          options = OptionMap.ofList (bindings ++ [binding]) := by
  refine ⟨nonempty_openQuote hopen, ?_⟩
  intro o
  refine ⟨?_, fun options => ofClause_openQuote_iff hbody o⟩
  rw [← isOption_append_quote_iff o.isQuote_q, ← exists_readOption_iff]
  simp only [← exists_readOption_iff, ← exists_mapM_eq_ok_iff, ofClause_openQuote_iff hbody o]
  constructor
  · rintro ⟨_, bindings, binding, hbindings, hbinding, -⟩
    exact ⟨⟨bindings, hbindings⟩, binding, hbinding⟩
  · rintro ⟨⟨bindings, hbindings⟩, binding, hbinding⟩
    exact ⟨_, bindings, binding, hbindings, hbinding, rfl⟩

theorem ofClause_of_open_first :
    clauseBody "WITH (a='1, b=2)".toList = .ok "a='1, b=2".toList ∧
      quoteAfter none "a='1, b=2".toList = some '\'' ∧
      ∃ options, OptionMap.ofClause "WITH (a='1, b=2)".toList = .ok options := by
  have hbody : clauseBody "WITH (a='1, b=2)".toList = .ok "a='1, b=2".toList := rfl
  have hopen : quoteAfter none "a='1, b=2".toList = some '\'' := rfl
  let o : OpenQuote "a='1, b=2".toList '\'' :=
    ⟨"a=".toList, "1, b=2".toList, [], "a=".toList, rfl, rfl, rfl, by decide, rfl⟩
  have hread := ((ofClause_of_open hbody hopen).2 o).1
  exact ⟨hbody, hopen,
    hread.mpr ⟨by simp [o], .inl ⟨['a'], [], rfl, by decide, by decide⟩⟩⟩

/-- A clause with an open quote that is read: its second option is lost in the value of
the first. -/
theorem ofClause_unclosed :
    ∃ clause body q options, clauseBody clause = .ok body ∧
      quoteAfter none body = some q ∧ OptionMap.ofClause clause = .ok options ∧
      options.entries = [("a", "'1, b=2")] :=
  ⟨"WITH (a='1, b=2)".toList, "a='1, b=2".toList, '\'', ⟨[("a", "'1, b=2")], by simp⟩,
    rfl, rfl, rfl, rfl⟩

end ExtensionCatalog.Statement
