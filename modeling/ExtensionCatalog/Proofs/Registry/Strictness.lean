import ExtensionCatalog.Proofs.Registry.Separation

/-!
# What stricter settings leave out (spec §B.3, §C.4)

Of two registries that get the same registrations, one may refuse what the other
lets in: overloads that are there already, or pointers without their length.
What it refuses is all that it lacks. The refusals do not add up, because an
overload that only the more lenient registry has never decides over another one:
a repeated overload leaves the one that it repeats in place, and an overload
with a loose pointer can only be repeated by others that have one too.

In each case one attempt commutes with leaving out, so a whole run does.

* `firstOfTypes` — overloads without repetitions.
* `duplicates_change_no_search` — refusing duplicates leaves out repetitions, and
  no search finds these.
* `strictPointers_filter` — checking pointers leaves out the overloads that do
  not pass this check.
-/

namespace ExtensionCatalog

/-! ### Lists without repetitions -/

section Repetitions

variable {α : Type} {r : α → α → Bool}

theorem eraseDupsBy_append_singleton (b : α) (l : List α) :
    (l ++ [b]).eraseDupsBy r =
      l.eraseDupsBy r ++ if (l.eraseDupsBy r).any (r b) then [] else [b] := by
  match l with
  | [] => rfl
  | a :: l =>
    rw [List.cons_append, List.eraseDupsBy_cons, List.eraseDupsBy_cons, List.filter_append]
    cases hba : r b a with
    | true => simp [hba]
    | false =>
      rw [List.filter_cons_of_pos (by simp [hba]), List.filter_nil,
        eraseDupsBy_append_singleton b (l.filter fun c => r c a = false), List.any_cons, hba]
      rfl
termination_by l.length
decreasing_by exact Nat.lt_succ_of_le (List.length_filter_le _ _)

/-- A search that treats an item like the one that it repeats finds nothing
else in a list without its repetitions. -/
theorem find?_eraseDupsBy {p : α → Bool} (hp : ∀ a b, r b a = true → p b = p a) (l : List α) :
    (l.eraseDupsBy r).find? p = l.find? p := by
  match l with
  | [] => rfl
  | a :: l =>
    rw [List.eraseDupsBy_cons, List.find?_cons, List.find?_cons,
      find?_eraseDupsBy hp (l.filter fun c => r c a = false), List.find?_filter]
    cases ha : p a with
    | true => rfl
    | false =>
      have hsame : (fun b => decide (decide (r b a = false) = true ∧ p b = true)) = p := by
        funext b
        cases hba : r b a with
        | true => simp [hp a b hba, ha]
        | false => simp
      rw [hsame]
termination_by l.length
decreasing_by exact Nat.lt_succ_of_le (List.length_filter_le _ _)

end Repetitions

namespace Signature

/-! ### Signatures of the same types -/

theorem sameTypes_eq (s t : Signature) : s.sameTypes t = decide (s.types = t.types) := by
  rw [Bool.eq_iff_iff, sameTypes_iff, decide_eq_true_iff, types, types, Prod.mk.injEq]

theorem bare_eq_of_types_eq {s t : Signature} (h : s.types = t.types) : s.bare = t.bare := by
  obtain ⟨hargs, hreturns⟩ := Prod.mk.inj h
  simp [bare, hargs, hreturns]

theorem admissible_congr {s t : Signature} {strict : Bool} (h : s.types = t.types) :
    s.Admissible strict ↔ t.Admissible strict := by
  rw [← admissible_bare, bare_eq_of_types_eq h, admissible_bare]

theorem operandFamilies_congr {s t : Signature} (h : s.types = t.types) :
    s.operandFamilies = t.operandFamilies :=
  calc s.operandFamilies
    _ = s.bare.operandFamilies := rfl
    _ = t.bare.operandFamilies := by rw [bare_eq_of_types_eq h]
    _ = t.operandFamilies := rfl

end Signature

/-! ### Refusing duplicates -/

/-- The overloads without those that repeat the types of an earlier one. -/
def firstOfTypes (overloads : List Signature) : List Signature :=
  overloads.eraseDupsBy Signature.sameTypes

theorem find?_firstOfTypes {p : Signature → Bool} (hp : ∀ s t, s.types = t.types → p s = p t)
    (overloads : List Signature) : (firstOfTypes overloads).find? p = overloads.find? p := by
  apply find?_eraseDupsBy
  intro s t h
  rw [Signature.sameTypes_eq, decide_eq_true_iff] at h
  exact hp t s h

theorem mem_types_firstOfTypes {s : Signature} {overloads : List Signature} :
    s.types ∈ (firstOfTypes overloads).map Signature.types ↔
      s.types ∈ overloads.map Signature.types := by
  have hfind : (firstOfTypes overloads).find? (·.sameTypes s) =
      overloads.find? (·.sameTypes s) := by
    apply find?_firstOfTypes
    intro t u h
    rw [Signature.sameTypes_eq, Signature.sameTypes_eq, h]
  have hany : (firstOfTypes overloads).any (·.sameTypes s) = overloads.any (·.sameTypes s) := by
    rw [← List.isSome_find?, ← List.isSome_find?, hfind]
  rwa [Signature.any_sameTypes, Signature.any_sameTypes, decide_eq_decide] at hany

theorem firstOfTypes_append_singleton (overloads : List Signature) (s : Signature) :
    firstOfTypes (overloads ++ [s]) =
      if s.types ∈ overloads.map Signature.types then firstOfTypes overloads
      else firstOfTypes overloads ++ [s] := by
  have hany : (firstOfTypes overloads).any s.sameTypes =
      decide (s.types ∈ overloads.map Signature.types) := by
    have hcomm : s.sameTypes = fun t => t.sameTypes s := by
      funext t
      rw [Signature.sameTypes_eq, Signature.sameTypes_eq, decide_eq_decide, eq_comm]
    rw [hcomm, Signature.any_sameTypes, decide_eq_decide, mem_types_firstOfTypes]
  rw [firstOfTypes, eraseDupsBy_append_singleton, ← firstOfTypes, hany]
  by_cases h : s.types ∈ overloads.map Signature.types
  · simp [h]
  · simp [h]

/-- Overloads that repeat others do not decide over an attempt. -/
theorem admitted_firstOfTypes (strict : Bool) (overloads : List Signature) (s : Signature) :
    admitted ⟨strict, false⟩ (firstOfTypes overloads) s =
      firstOfTypes (admitted ⟨strict, true⟩ overloads s) := by
  unfold admitted
  by_cases hadmissible : s.Admissible strict
  · by_cases h : s.types ∈ overloads.map Signature.types
    · simp [hadmissible, mem_types_firstOfTypes, firstOfTypes_append_singleton, h]
    · simp [hadmissible, mem_types_firstOfTypes, firstOfTypes_append_singleton, h]
  · simp [hadmissible]

/-! ### Checking pointers -/

theorem mem_types_filter_admissible {s : Signature} (hs : s.Admissible true)
    {overloads : List Signature} :
    s.types ∈ (overloads.filter fun t => t.Admissible true).map Signature.types ↔
      s.types ∈ overloads.map Signature.types := by
  simp only [List.mem_map, List.mem_filter, decide_eq_true_eq]
  constructor
  · rintro ⟨t, ⟨ht, -⟩, htypes⟩
    exact ⟨t, ht, htypes⟩
  · rintro ⟨t, ht, htypes⟩
    exact ⟨t, ⟨ht, (Signature.admissible_congr htypes).mpr hs⟩, htypes⟩

/-- Overloads with a loose pointer do not decide over an attempt. -/
theorem admitted_filter_admissible (duplicates : Bool) (overloads : List Signature)
    (s : Signature) :
    admitted ⟨true, duplicates⟩ (overloads.filter fun t => t.Admissible true) s =
      (admitted ⟨false, duplicates⟩ overloads s).filter fun t => t.Admissible true := by
  unfold admitted
  by_cases hs : s.Admissible true
  · have hlenient : s.Admissible false := hs.lenient
    simp only [mem_types_filter_admissible hs, hs, hlenient, true_and]
    split
    · rw [List.filter_append, List.filter_singleton]
      simp [hs]
    · rfl
  · rw [if_neg (fun h => hs h.1)]
    split
    · simp [hs]
    · rfl

namespace Registry

/-- Where a change of overloads turns each attempt under some checks into one
under other checks, it turns the overloads after a run into those after the same
run under the other checks. -/
theorem overloads_after_registrations_hom {checks checks' : Checks} (logging : Logging)
    {f : List Signature → List Signature} (hnil : f [] = [])
    (hadmitted : ∀ overloads s,
      admitted checks' (f overloads) s = f (admitted checks overloads s))
    (calls : List (String × Signature)) (name : String) :
    ((new ⟨checks', logging⟩).after (registrations calls)).overloads name =
      f (((new ⟨checks, logging⟩).after (registrations calls)).overloads name) := by
  have hnew : (new ⟨checks', logging⟩).overloads name =
      f ((new ⟨checks, logging⟩).overloads name) := hnil.symm
  rw [overloads_after_registrations, overloads_after_registrations, hnew]
  exact List.foldl_hom f hadmitted

/-- **Refusing duplicates changes no search.** After the same calls, a name has
where duplicates are refused the overloads that it has where they are allowed,
without those that repeat the types of an earlier one; the same names are shown
and known, and every search ends with the same overload, or without one. -/
theorem duplicates_change_no_search (strict : Bool) (logging : Logging)
    (calls : List (String × Signature)) :
    let refusing := (new ⟨⟨strict, false⟩, logging⟩).after (registrations calls)
    let allowing := (new ⟨⟨strict, true⟩, logging⟩).after (registrations calls)
    refusing.names = allowing.names ∧
      ∀ name, refusing.overloads name = firstOfTypes (allowing.overloads name) ∧
        refusing.contains name = allowing.contains name ∧
        ∀ operands, ∃ found, refusing.resolve name operands = .ok found ∧
          allowing.resolve name operands = .ok found := by
  intro refusing allowing
  have hrefusing : refusing.Consistent := consistent_after _ (registrations calls)
  have hallowing : allowing.Consistent := consistent_after _ (registrations calls)
  have hspelling : ∀ name, refusing.spelling? name = allowing.spelling? name := by
    intro name
    rw [spelling?_after_registrations, spelling?_after_registrations]
    rfl
  have hoverloads : ∀ name, refusing.overloads name = firstOfTypes (allowing.overloads name) :=
    overloads_after_registrations_hom logging rfl (admitted_firstOfTypes strict) calls
  refine ⟨hrefusing.names_congr hallowing hspelling, fun name => ?_⟩
  refine ⟨hoverloads name, by rw [contains_eq, contains_eq, hspelling], fun operands => ?_⟩
  refine ⟨_, hrefusing.resolve_eq name operands, ?_⟩
  rw [hallowing.resolve_eq, hoverloads, find?_firstOfTypes]
  intro s t h
  rw [Signature.operandFamilies_congr h]

/-- **Checking pointers only leaves out.** After the same calls, a name has where
pointers are checked exactly those of the overloads that it has where they are
not which pass this check, in the same order. So a further call is let in there
if its signature passes the check and the call is let in where pointers are not
checked, and only then. -/
theorem strictPointers_filter (duplicates : Bool) (logging : Logging)
    (calls : List (String × Signature)) :
    let strict := (new ⟨⟨true, duplicates⟩, logging⟩).after (registrations calls)
    let lenient := (new ⟨⟨false, duplicates⟩, logging⟩).after (registrations calls)
    ∀ name, (strict.overloads name =
        (lenient.overloads name).filter fun s => s.check name true = .ok ()) ∧
      ∀ s, (strict.register name s).result = .ok () ↔
        s.check name true = .ok () ∧ (lenient.register name s).result = .ok () := by
  intro strict lenient name
  have hoverloads : strict.overloads name =
      (lenient.overloads name).filter fun s => s.Admissible true :=
    overloads_after_registrations_hom logging rfl (admitted_filter_admissible duplicates)
      calls name
  have hstrict : strict.settings = ⟨⟨true, duplicates⟩, logging⟩ := settings_after _ _
  have hlenient : lenient.settings = ⟨⟨false, duplicates⟩, logging⟩ := settings_after _ _
  simp only [Signature.check_eq_ok_iff, register_eq_ok_iff]
  refine ⟨hoverloads, fun s => ?_⟩
  constructor
  · rintro ⟨hadmissible, hfresh⟩
    rw [hstrict] at hadmissible hfresh
    refine ⟨hadmissible, ?_, ?_⟩
    · rw [hlenient]
      exact hadmissible.lenient
    · rw [hlenient]
      rwa [hoverloads, mem_types_filter_admissible hadmissible] at hfresh
  · rintro ⟨hadmissible, -, hfresh⟩
    rw [hlenient] at hfresh
    refine ⟨?_, ?_⟩
    · rw [hstrict]
      exact hadmissible
    · rw [hstrict]
      rwa [hoverloads, mem_types_filter_admissible hadmissible]

end Registry

end ExtensionCatalog
