import ExtensionCatalog.Proofs.Registry.Invariant

/-!
# What one registration changes (spec §C.5)

A registration that is refused changes nothing, although it may have opened an
entry before it was refused. One that succeeds adds its overload behind those of
the name, in any letter case, and is seen nowhere else: the overloads of all other
names stay, there is one overload more in all, and the shown names stay as well,
unless the name is new and is shown from now on as it was spelled.

* `result_register_of_check_eq_error`, `eq_duplicateOverload_of_register` — why a
  registration is refused: the checks come first, and only what passes them can be a
  duplicate.
* `names_add_of_contains`, `names_add_perm` — the shown names after an addition.
* `register_effect` — when a registration succeeds, and what it changes.
-/

namespace ExtensionCatalog.Registry

/-! ### Shown names -/

theorem names_eq (r : Registry) :
    r.names = (r.entries.map Entry.spelling).mergeSort fun a b => a ≤ b :=
  List.map_mergeSort fun _ _ _ _ => rfl

theorem map_spelling_add (r : Registry) (name : String) (s : Signature) :
    (r.add name s).entries.map Entry.spelling =
      r.entries.map Entry.spelling ++ if r.contains name then [] else [name] := by
  rw [contains]
  rcases add_cases r name s with ⟨hnone, hadd⟩ | ⟨before, e, after, hentry, -, hentries, hadd⟩
  · rw [hadd, hnone]
    simp
  · rw [hadd, hentry, hentries]
    simp

theorem names_add_of_contains {r : Registry} {name : String} (s : Signature)
    (h : r.contains name = true) : (r.add name s).names = r.names := by
  rw [names_eq, names_eq, map_spelling_add, if_pos h, List.append_nil]

/-- A new name is shown as it was spelled, among those that were shown before. -/
theorem names_add_perm {r : Registry} {name : String} (s : Signature)
    (h : r.contains name = false) : (r.add name s).names.Perm (name :: r.names) := by
  rw [names_eq, names_eq, map_spelling_add, if_neg (by simp [h])]
  refine (List.mergeSort_perm _ _).trans ?_
  refine List.perm_append_comm.trans ?_
  exact (List.mergeSort_perm _ _).symm.cons name

/-! ### Refusals -/

/-- An overload that fails its checks is refused for that, and not as a duplicate. -/
theorem result_register_of_check_eq_error {r : Registry} {name : String} {s : Signature}
    {e : SignatureError} (h : s.check name r.settings.checks.strictPointers = .error e) :
    (r.register name s).result = .error e := by
  rw [register, h]

/-- An overload that passes its checks is refused as a duplicate, if it is refused. -/
theorem eq_duplicateOverload_of_register {r : Registry} {name : String} {s : Signature}
    {e : SignatureError} (hcheck : s.check name r.settings.checks.strictPointers = .ok ())
    (h : (r.register name s).result = .error e) : e = .duplicateOverload name := by
  rw [register, hcheck] at h
  dsimp only at h
  split at h
  · cases h
    rfl
  · cases h

theorem accepts_iff {r : Registry} {name : String} {s : Signature} :
    r.Accepts name s ↔ s.check name r.settings.checks.strictPointers = .ok () ∧
      (r.settings.checks.allowDuplicates = true ∨
        ∀ t ∈ r.overloads name, ¬ (t.args = s.args ∧ t.returns = s.returns)) := by
  have hfresh : s.types ∉ (r.overloads name).map Signature.types ↔
      ∀ t ∈ r.overloads name, ¬ (t.args = s.args ∧ t.returns = s.returns) := by
    simp only [List.mem_map, Signature.types, Prod.mk.injEq, not_exists, not_and]
  rw [← hfresh, Signature.check_eq_ok_iff]
  constructor
  · rintro ⟨hadmissible, hfresh⟩
    refine ⟨hadmissible, ?_⟩
    cases hduplicates : r.settings.checks.allowDuplicates with
    | true => exact .inl rfl
    | false => exact .inr (hfresh hduplicates)
  · rintro ⟨hadmissible, hallowed | hfresh⟩
    · exact ⟨hadmissible, fun hrefused => by rw [hallowed] at hrefused; cases hrefused⟩
    · exact ⟨hadmissible, fun _ => hfresh⟩

/-- **What one registration changes.** It succeeds exactly if the overload passes its
checks and, unless duplicates are allowed, repeats no overload of the name; an
overload that does not pass its checks is refused for that, repeated or not. A
refusal leaves the registry as it is, so no question is answered otherwise. A success
puts the overload, with its names and options, behind those of the name in every
letter case, leaves those of all other names alone, makes one overload more, and
shows no new name, or the one that is new. -/
theorem register_effect (r : Registry) (name : String) (s : Signature) :
    let o := r.register name s
    let checked := s.check name r.settings.checks.strictPointers
    (o.result = .ok () ↔ checked = .ok () ∧ (r.settings.checks.allowDuplicates = true ∨
        ∀ t ∈ r.overloads name, ¬ (t.args = s.args ∧ t.returns = s.returns))) ∧
      (∀ e, checked = .error e → o.result = .error e) ∧
      (∀ e, o.result = .error e → o.registry = r ∧
        (checked = .ok () → e = .duplicateOverload name)) ∧
      (o.result = .ok () →
        (∀ m, Text.foldName m = Text.foldName name →
          o.registry.overloads m = r.overloads m ++ [s]) ∧
        (∀ m, Text.foldName m ≠ Text.foldName name →
          o.registry.overloads m = r.overloads m) ∧
        o.registry.size = r.size + 1 ∧
        (r.contains name = true → o.registry.names = r.names) ∧
        (r.contains name = false → o.registry.names.Perm (name :: r.names))) := by
  intro o checked
  refine ⟨register_eq_ok_iff.trans accepts_iff, fun e => result_register_of_check_eq_error,
    fun e he => ⟨?_, fun hchecked => eq_duplicateOverload_of_register hchecked he⟩, ?_⟩
  · have hrefused : ¬ r.Accepts name s := by
      rw [← register_eq_ok_iff, he]
      simp
    exact (register_of_not_accepts hrefused).1
  · intro hok
    have hadd : o.registry = r.add name s :=
      (register_of_accepts (register_eq_ok_iff.mp hok)).1
    rw [hadd]
    exact ⟨fun m hm => overloads_add_of_eq hm.symm,
      fun m hm => overloads_add_of_ne (Ne.symm hm), size_add r name s,
      names_add_of_contains s, names_add_perm s⟩

end ExtensionCatalog.Registry
