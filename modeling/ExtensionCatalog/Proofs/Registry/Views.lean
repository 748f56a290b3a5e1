import ExtensionCatalog.Proofs.Registry.Invariant

/-!
# What look-ups tell of a registry

A registry can be asked for one name at a time: how the name is shown, and which
overloads it has. All else that can be asked is settled by these two answers for
every name, and so is what is written. The order in which the functions first
came is not: it shows in nothing.

* `find?_eq` — the entry of a name by its two answers.
* `Consistent.names_congr` — the shown names are settled by how names are shown.
* `Consistent.sortedEntries_congr` — the listing, and with it the text and the
  number of overloads, is settled by the entries that look-ups find.
-/

namespace ExtensionCatalog.Registry

/-- How a name is shown, if it is registered. -/
def spelling? (r : Registry) (name : String) : Option String :=
  (r.find? name).map Entry.spelling

theorem find?_eq (r : Registry) (name : String) :
    r.find? name = (r.spelling? name).map fun spelling =>
      ⟨Text.foldName name, spelling, r.overloads name⟩ := by
  cases h : r.find? name with
  | none => simp [spelling?, h]
  | some e =>
    obtain ⟨key, spelling, overloads⟩ := e
    obtain rfl : key = Text.foldName name := (find?_eq_some_iff.mp h).1
    simp [spelling?, h, overloads_of_find?_eq_some h]

theorem contains_eq (r : Registry) (name : String) :
    r.contains name = (r.spelling? name).isSome := by
  rw [contains, spelling?, Option.isSome_map]

/-- An addition shows its name as it spells it, unless the name is shown already. -/
theorem spelling?_add_of_eq {r : Registry} {name m : String} {s : Signature}
    (h : Text.foldName name = Text.foldName m) :
    (r.add name s).spelling? m = (r.spelling? m).or (some name) := by
  rw [spelling?, spelling?, find?_add_of_eq h]
  cases r.find? m <;> rfl

theorem spelling?_add_of_ne {r : Registry} {name m : String} {s : Signature}
    (h : Text.foldName name ≠ Text.foldName m) :
    (r.add name s).spelling? m = r.spelling? m := by
  rw [spelling?, spelling?, find?_add_of_ne h]

/-! ### Entries and shown names -/

theorem Consistent.mem_entries_iff {r : Registry} (h : r.Consistent) {e : Entry} :
    e ∈ r.entries ↔ r.find? e.spelling = some e := by
  constructor
  · intro he
    exact find?_eq_some_of_mem h.keysDistinct he (h.valid e he).keyed
  · exact List.mem_of_find?_eq_some

/-- A name is shown as it is if it is the spelling of its own entry. -/
theorem Consistent.mem_names_iff_spelling? {r : Registry} (h : r.Consistent) {name : String} :
    name ∈ r.names ↔ r.spelling? name = some name := by
  rw [mem_names_iff, spelling?, Option.map_eq_some_iff]
  constructor
  · rintro ⟨e, he, rfl⟩
    exact ⟨e, h.mem_entries_iff.mp (r.sortedEntries_perm.mem_iff.mp he), rfl⟩
  · rintro ⟨e, he, hspelling⟩
    exact ⟨e, r.sortedEntries_perm.mem_iff.mpr (List.mem_of_find?_eq_some he), hspelling⟩

/-! ### Registries that answer alike -/

section Congr

variable {r r' : Registry} (h : r.Consistent) (h' : r'.Consistent)

include h h'

theorem Consistent.names_congr (hspelling : ∀ name, r.spelling? name = r'.spelling? name) :
    r.names = r'.names := by
  have hmem : ∀ name, name ∈ r.names ↔ name ∈ r'.names := by
    intro name
    rw [h.mem_names_iff_spelling?, h'.mem_names_iff_spelling?, hspelling]
  have hperm : r.names.Perm r'.names :=
    (List.perm_ext_iff_of_nodup (List.Nodup.of_map _ h.nodup_foldName_names)
      (List.Nodup.of_map _ h'.nodup_foldName_names)).mpr hmem
  refine hperm.eq_of_pairwise ?_ h.names_ascend h'.names_ascend
  intro a b _ _ hab hba
  exact absurd hba (String.lt_asymm hab)

theorem Consistent.sortedEntries_congr (hfind : ∀ name, r.find? name = r'.find? name) :
    r.sortedEntries = r'.sortedEntries := by
  have hmem : ∀ e, e ∈ r.entries ↔ e ∈ r'.entries := by
    intro e
    rw [h.mem_entries_iff, h'.mem_entries_iff, hfind]
  have hperm : r.sortedEntries.Perm r'.sortedEntries := by
    refine r.sortedEntries_perm.trans (.trans ?_ r'.sortedEntries_perm.symm)
    exact (List.perm_ext_iff_of_nodup (List.Nodup.of_map _ h.keysDistinct)
      (List.Nodup.of_map _ h'.keysDistinct)).mpr hmem
  refine hperm.eq_of_pairwise ?_ r.pairwise_sortedEntries r'.pairwise_sortedEntries
  intro e f he hf hef hfe
  -- Two entries of one spelling are found by the same look-up.
  have hspelling : e.spelling = f.spelling :=
    String.le_antisymm (of_decide_eq_true hef) (of_decide_eq_true hfe)
  have hfound := h.mem_entries_iff.mp (r.sortedEntries_perm.mem_iff.mp he)
  rw [hspelling, hfind,
    h'.mem_entries_iff.mp (r'.sortedEntries_perm.mem_iff.mp hf)] at hfound
  exact (Option.some.inj hfound).symm

end Congr

end ExtensionCatalog.Registry
