import ExtensionCatalog.Proofs.Statement.Quotes
import ExtensionCatalog.Proofs.Text.Caseless
import ExtensionCatalog.Proofs.Traversal

/-!
# What a clause of options is read as

A clause is read from the outside in: the keyword and the parentheses around its
body, the entries of the body, and the name and the value of each entry. Every step
is characterised by the texts that it accepts.

* `clauseBody_eq_ok_iff` — a clause and its body.
* `readOption_eq_ok_iff` — an entry, as a name and a value.
* `ofClause_eq_ok_iff` — a clause, as a map.
-/

namespace ExtensionCatalog

namespace Statement

open Text (Blank StartTrimmed EndTrimmed sameLetters)

/-! ### One option -/

theorem isBlank_equals : Text.isBlank '=' = false := by
  rfl

theorem unquote_congr {s t : List Char} (h : Text.trim s = Text.trim t) :
    unquote s = unquote t := by
  rw [unquote, unquote, h]

theorem unquote_trimEnd (s : List Char) : unquote (Text.trimEnd s) = unquote s := by
  obtain ⟨b, hb, hs⟩ := Text.exists_append_blank_trimEnd s
  conv_rhs => rw [hs]
  exact unquote_congr (Text.trim_append_blank _ hb).symm

theorem readOption_of_trim {entry name value : List Char}
    (h : Text.trim entry = name ++ '=' :: value) (hname : '=' ∉ name) :
    readOption entry =
      if Blank name then .error (.noName (String.ofList (Text.trim entry)))
      else .ok (String.ofList (Text.lower (Text.trim name)), String.ofList (unquote value)) := by
  have hkey : Text.lower (Text.trim name) = [] ↔ Blank name :=
    Text.lower_eq_nil_iff.trans Text.trim_eq_nil_iff
  rw [readOption, h]
  dsimp only
  rw [if_neg (by simp), Text.takeWhile_ne_append hname, List.drop_left]
  exact if_congr hkey rfl rfl

theorem readOption_of_not_mem {entry : List Char} (h : '=' ∉ Text.trim entry) :
    ∃ e, readOption entry = .error e := by
  have htake : (Text.trim entry).takeWhile (· ≠ '=') = Text.trim entry :=
    List.takeWhile_eq_self_iff.mpr fun c hc => decide_eq_true fun heq => h (heq ▸ hc)
  rw [readOption]
  dsimp only
  split
  next => exact ⟨_, rfl⟩
  next =>
    rw [htake, List.drop_length]
    exact ⟨_, rfl⟩

/-- An option is a name that is not blank, an equals sign, and anything. -/
theorem readOption_eq_ok_iff {entry : List Char} {binding : String × String} :
    readOption entry = .ok binding ↔
      ∃ name value, entry = name ++ '=' :: value ∧ '=' ∉ name ∧ ¬ Blank name ∧
        binding = (String.ofList (Text.lower (Text.trim name)), String.ofList (unquote value)) := by
  constructor
  · intro h
    obtain ⟨a, b, ha, hb, hentry⟩ := Text.exists_blanks_around_trim entry
    by_cases hmem : '=' ∈ Text.trim entry
    · obtain ⟨name, value, htrim, hname⟩ := List.eq_append_cons_of_mem hmem
      rw [readOption_of_trim htrim hname] at h
      split at h
      next => cases h
      next hblank =>
        cases h
        refine ⟨a ++ name, value ++ b, ?_, ?_, ?_, ?_⟩
        · rw [htrim] at hentry
          simpa using hentry
        · rw [List.mem_append, not_or]
          exact ⟨ha.not_mem isBlank_equals, hname⟩
        · exact fun hall => hblank (Text.blank_append.mp hall).2
        · rw [Text.trim_append_of_blank ha, unquote_congr (Text.trim_append_blank value hb)]
    · obtain ⟨e, he⟩ := readOption_of_not_mem hmem
      rw [he] at h
      cases h
  · rintro ⟨name, value, rfl, hequals, hname, rfl⟩
    have htrim := Text.trim_append_cons isBlank_equals name value
    have hequals' : '=' ∉ Text.trimStart name := fun h => hequals (List.dropWhile_subset _ h)
    have hname' : ¬ Blank (Text.trimStart name) := by
      rw [← Text.trim_eq_nil_iff, Text.trim_trimStart, Text.trim_eq_nil_iff]
      exact hname
    rw [readOption_of_trim htrim hequals', if_neg hname', Text.trim_trimStart, unquote_trimEnd]

/-! ### The body of a clause -/

/-- The body of a clause is what stands between the outer parentheses, and may hold
parentheses itself. -/
theorem clauseBody_append {before keyword between after : List Char} (body : List Char)
    (hbefore : Blank before) (hbetween : Blank between) (hafter : Blank after)
    (hletters : sameLetters keyword "WITH".toList = true) :
    clauseBody (before ++ (keyword ++ (between ++ ('(' :: (body ++ [')']) ++ after)))) =
      .ok body := by
  have hkeyword : keyword ≠ [] := Text.ne_nil_of_sameLetters hletters (by decide)
  have hstart : StartTrimmed keyword :=
    (Text.Solid.of_sameLetters hletters (by decide)).startTrimmed
  have hclosed : EndTrimmed ('(' :: (body ++ [')'])) := Text.endTrimmed_concat rfl ('(' :: body)
  have hinner : Text.trim (between ++ '(' :: (body ++ [')'])) = '(' :: (body ++ [')']) := by
    rw [Text.trim_append_of_blank hbetween]
    exact Text.trim_eq_self (Text.startTrimmed_cons.mpr rfl) hclosed
  have hclause : Text.trim (before ++ (keyword ++ (between ++ ('(' :: (body ++ [')']) ++ after))))
      = keyword ++ (between ++ '(' :: (body ++ [')'])) := by
    rw [← List.append_assoc between, ← List.append_assoc keyword]
    refine Text.trim_append_append hbefore hafter (hstart.append hkeyword _) ?_
    exact (hclosed.append (List.cons_ne_nil _ _) _).append
      (List.append_ne_nil_of_right_ne_nil _ (List.cons_ne_nil _ _)) _
  rw [clauseBody, hclause, Text.dropCaseless_append hletters]
  simp only [hinner]
  rw [if_pos List.getLast?_concat, List.dropLast_concat]

/-- A clause is a keyword and a body in parentheses, with blanks around both. -/
theorem clauseBody_eq_ok_iff {clause body : List Char} :
    clauseBody clause = .ok body ↔
      ∃ before keyword between after, Blank before ∧ Blank between ∧ Blank after ∧
        sameLetters keyword "WITH".toList = true ∧
        clause = before ++ (keyword ++ (between ++ ('(' :: (body ++ [')']) ++ after))) := by
  constructor
  · intro h
    obtain ⟨before, after, hbefore, hafter, hclause⟩ := Text.exists_blanks_around_trim clause
    rw [clauseBody] at h
    split at h
    next => cases h
    next rest hdrop =>
      obtain ⟨keyword, hkeyword, hletters⟩ := Text.dropCaseless_eq_some_iff.mp hdrop
      obtain ⟨between, after', hbetween, hafter', hrest⟩ := Text.exists_blanks_around_trim rest
      split at h
      next inner hinner =>
        split at h
        next hlast =>
          cases h
          refine ⟨before, keyword, between, after' ++ after, hbefore, hbetween,
            Text.blank_append.mpr ⟨hafter', hafter⟩, hletters, ?_⟩
          rw [List.dropLast_append_getLast? _ hlast, ← hinner]
          rw [hkeyword] at hclause
          conv_lhs => rw [hclause, hrest]
          simp
        next => cases h
      next => cases h
  · rintro ⟨before, keyword, between, after, hbefore, hbetween, hafter, hletters, rfl⟩
    exact clauseBody_append body hbefore hbetween hafter hletters

/-! ### All options -/

/-- A clause is read by reading its entries one after the other. That it has none
cannot happen, since a body has at least one part. -/
theorem ofClause_eq_ok_iff {clause : List Char} {options : OptionMap} :
    OptionMap.ofClause clause = .ok options ↔
      ∃ body bindings, clauseBody clause = .ok body ∧
        (splitOutsideQuotes ',' none body).mapM readOption = .ok bindings ∧
        options = OptionMap.ofList bindings := by
  have hne : ∀ {body bindings},
      (splitOutsideQuotes ',' none body).mapM readOption = .ok bindings →
        (OptionMap.ofList bindings).entries ≠ [] := by
    intro body bindings h
    apply OptionMap.entries_ofList_ne_nil
    rintro rfl
    exact splitOutsideQuotes_ne_nil _ _ _ (List.forall₂_nil_right_iff.mp (mapM_eq_ok_iff.mp h))
  rw [OptionMap.ofClause, bind_eq_ok_iff]
  constructor
  · rintro ⟨body, hbody, h⟩
    obtain ⟨bindings, hbindings, h⟩ := bind_eq_ok_iff.mp h
    dsimp only at h
    rw [if_neg (hne hbindings)] at h
    cases h
    exact ⟨body, bindings, hbody, hbindings, rfl⟩
  · rintro ⟨body, bindings, hbody, hbindings, rfl⟩
    refine ⟨body, hbody, bind_eq_ok_iff.mpr ⟨bindings, hbindings, ?_⟩⟩
    dsimp only
    rw [if_neg (hne hbindings)]
    rfl

end Statement

end ExtensionCatalog
