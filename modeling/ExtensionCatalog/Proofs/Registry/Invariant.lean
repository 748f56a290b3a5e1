import ExtensionCatalog.Proofs.Registry.Register
import ExtensionCatalog.Proofs.Text.ByteOrder
import Mathlib.Data.List.Nodup
import Mathlib.Data.List.Perm.Basic

/-!
# What holds of every registry (spec §C.5)

An entry stands under the folded form of its spelling, no two entries under the
same one, and each has overloads, which have passed their checks and, unless
duplicates are allowed, differ in their types. An addition that is let in keeps
all of this, so it holds after every run of requests, refused ones included.

The spelling of an entry determines its key. So the shown names are as distinct
as the keys are, and sorting them puts them in strictly ascending order.

* `Consistent`, `consistent_after` — the invariant and its run lemma.
* `registry_invariants` — what the invariant means for what can be asked of a
  registry.
-/

namespace ExtensionCatalog

/-- What holds of every entry. -/
structure Entry.Valid (checks : Checks) (e : Entry) : Prop where
  keyed : e.key = Text.foldName e.spelling
  nonempty : e.overloads ≠ []
  admissible : ∀ s ∈ e.overloads, s.Admissible checks.strictPointers
  distinct : checks.allowDuplicates = false → (e.overloads.map Signature.types).Nodup

theorem Entry.valid_singleton {checks : Checks} {key spelling : String} {s : Signature}
    (hkey : key = Text.foldName spelling) (hs : s.Admissible checks.strictPointers) :
    Entry.Valid checks ⟨key, spelling, [s]⟩ where
  keyed := hkey
  nonempty := by simp
  admissible := by simpa using hs
  distinct := fun _ => List.nodup_singleton _

theorem Entry.Valid.push {checks : Checks} {e : Entry} {s : Signature} (h : e.Valid checks)
    (hs : s.Admissible checks.strictPointers)
    (hfresh : checks.allowDuplicates = false → s.types ∉ e.overloads.map Signature.types) :
    Entry.Valid checks { e with overloads := e.overloads ++ [s] } where
  keyed := h.keyed
  nonempty := by simp
  admissible := by
    intro t ht
    rcases List.mem_append.mp ht with ht | ht
    · exact h.admissible t ht
    · rw [List.mem_singleton.mp ht]
      exact hs
  distinct := by
    intro hduplicates
    rw [List.map_append, List.nodup_append']
    refine ⟨h.distinct hduplicates, List.nodup_singleton _, ?_⟩
    intro types htypes hnew
    rw [List.map_singleton, List.mem_singleton] at hnew
    exact hfresh hduplicates (hnew ▸ htypes)

namespace Registry

/-- What holds of every registry. -/
structure Consistent (r : Registry) : Prop where
  valid : ∀ e ∈ r.entries, e.Valid r.settings.checks
  keysDistinct : (r.entries.map Entry.key).Nodup

theorem consistent_new (settings : Settings) : (new settings).Consistent where
  valid := fun _ he => absurd he List.not_mem_nil
  keysDistinct := List.nodup_nil

theorem keysDistinct_add {r : Registry} (h : (r.entries.map Entry.key).Nodup) (name : String)
    (s : Signature) : ((r.add name s).entries.map Entry.key).Nodup := by
  rcases add_cases r name s with ⟨hnone, hadd⟩ | ⟨before, e, after, -, -, hentries, hadd⟩
  · rw [hadd, List.map_append, List.nodup_append']
    refine ⟨h, List.nodup_singleton _, ?_⟩
    intro key hkey hnew
    obtain ⟨e, he, rfl⟩ := List.mem_map.mp hkey
    exact find?_eq_none_iff.mp hnone e he (by simpa using hnew)
  · rw [hentries] at h
    rw [hadd]
    simpa using h

/-- An addition that is let in keeps the registry consistent. -/
theorem Consistent.add {r : Registry} (h : r.Consistent) {name : String} {s : Signature}
    (haccepts : r.Accepts name s) : (r.add name s).Consistent where
  valid := by
    refine forall_mem_add h.valid (Entry.valid_singleton rfl haccepts.admissible) ?_
    intro e hentry he
    apply he.push haccepts.admissible
    intro hduplicates
    -- The overloads of the entry are those with which the new one was compared.
    rw [← overloads_of_find?_eq_some hentry]
    exact haccepts.fresh hduplicates
  keysDistinct := keysDistinct_add h.keysDistinct name s

/-- **Every registry is consistent**, whatever has been asked of it. -/
theorem consistent_after (settings : Settings) (requests : List Request) :
    ((new settings).after requests).Consistent :=
  after_induction (fun _ _ _ haccepts h => h.add haccepts) (consistent_new settings) requests

theorem Consistent.admissible_overloads {r : Registry} (h : r.Consistent) (name : String) :
    ∀ s ∈ r.overloads name, s.Admissible r.settings.checks.strictPointers := by
  cases hentry : r.find? name with
  | none => simp [overloads_of_find?_eq_none hentry]
  | some e =>
    rw [overloads_of_find?_eq_some hentry]
    exact (h.valid e (List.mem_of_find?_eq_some hentry)).admissible

/-- Where keys are distinct, the entry of a name is the one under its key,
wherever that entry stands. -/
theorem find?_eq_some_of_mem {r : Registry} (h : (r.entries.map Entry.key).Nodup) {e : Entry}
    (he : e ∈ r.entries) {name : String} (hkey : e.key = Text.foldName name) :
    r.find? name = some e := by
  obtain ⟨before, after, hentries⟩ := List.append_of_mem he
  refine find?_eq_some_iff.mpr ⟨hkey, before, after, hentries, ?_⟩
  intro d hd heq
  rw [hentries, List.map_append, List.nodup_append'] at h
  exact h.2.2 (List.mem_map_of_mem hd) (by rw [heq, ← hkey]; exact List.mem_cons_self)

/-! ### Shown names -/

theorem sortedEntries_perm (r : Registry) : r.sortedEntries.Perm r.entries :=
  List.mergeSort_perm _ _

theorem pairwise_sortedEntries (r : Registry) :
    r.sortedEntries.Pairwise fun e f => decide (e.spelling ≤ f.spelling) = true := by
  apply List.pairwise_mergeSort
  · intro e f g hef hfg
    simp only [decide_eq_true_eq] at hef hfg ⊢
    exact String.le_trans hef hfg
  · intro e f
    simpa using String.le_total e.spelling f.spelling

theorem mem_names_iff {r : Registry} {name : String} :
    name ∈ r.names ↔ ∃ e ∈ r.sortedEntries, e.spelling = name := by
  rw [names, List.mem_map]

theorem size_eq (r : Registry) : r.size = (r.sortedEntries.flatMap Entry.overloads).length := by
  rw [size, List.length_flatMap, List.length_flatMap]
  exact ((r.sortedEntries_perm.map fun e => e.overloads.length).sum_nat).symm

theorem Consistent.nodup_foldName_names {r : Registry} (h : r.Consistent) :
    (r.names.map Text.foldName).Nodup := by
  have hperm : (r.names.map Text.foldName).Perm (r.entries.map Entry.key) := by
    have hkeys : (r.entries.map Entry.spelling).map Text.foldName = r.entries.map Entry.key := by
      rw [List.map_map]
      exact List.map_congr_left fun e he => (h.valid e he).keyed.symm
    rw [← hkeys]
    exact (r.sortedEntries_perm.map _).map _
  exact hperm.nodup_iff.mpr h.keysDistinct

/-- The shown names ascend strictly. -/
theorem Consistent.names_ascend {r : Registry} (h : r.Consistent) :
    r.names.Pairwise fun a b => a < b := by
  have hle : r.names.Pairwise fun a b => a ≤ b := by
    refine List.pairwise_map.mpr (r.pairwise_sortedEntries.imp ?_)
    intro e f hef
    exact of_decide_eq_true hef
  have hne : r.names.Nodup := List.Nodup.of_map _ h.nodup_foldName_names
  exact List.Pairwise.imp₂ (fun a b hab hne => Std.lt_of_le_of_ne hab hne) hle hne

/-! ### Emptiness -/

theorem Consistent.contains_iff {r : Registry} (h : r.Consistent) (name : String) :
    r.contains name = true ↔ r.overloads name ≠ [] := by
  rw [contains]
  cases hentry : r.find? name with
  | none => simp [overloads_of_find?_eq_none hentry]
  | some e =>
    have he : e ∈ r.entries := List.mem_of_find?_eq_some hentry
    simpa [overloads_of_find?_eq_some hentry] using (h.valid e he).nonempty

theorem Consistent.size_eq_zero_iff {r : Registry} (h : r.Consistent) :
    r.size = 0 ↔ r.entries = [] := by
  constructor
  · intro hsize
    cases hentries : r.entries with
    | nil => rfl
    | cons e rest =>
      rw [size, hentries, List.flatMap_cons, List.length_append] at hsize
      have hlength : e.overloads.length = 0 := by omega
      exact absurd (List.length_eq_zero_iff.mp hlength)
        (h.valid e (by rw [hentries]; exact List.mem_cons_self)).nonempty
  · intro hentries
    simp [size, hentries]

theorem names_eq_nil_iff {r : Registry} : r.names = [] ↔ r.entries = [] := by
  rw [names, List.map_eq_nil_iff]
  constructor
  · intro h
    exact (h ▸ r.sortedEntries_perm).nil_eq.symm
  · intro h
    simp [sortedEntries, h]

/-- **What every registry guarantees**, whatever its settings and whatever was
registered, loaded or refused before: entries with overloads, under the folded
form of their spelling; overloads that pass their checks, and of different types
unless duplicates are allowed; shown names in strictly ascending order of their
bytes, no two of which fold alike; and agreement of the questions whether
anything is there. -/
theorem registry_invariants (settings : Settings) (requests : List Request) :
    let r := (new settings).after requests
    (∀ e ∈ r.entries, e.overloads ≠ [] ∧ e.key = Text.foldName e.spelling) ∧
      (∀ e ∈ r.entries, ∀ s ∈ e.overloads, ∀ function,
        s.check function settings.checks.strictPointers = .ok ()) ∧
      (settings.checks.allowDuplicates = false → ∀ e ∈ r.entries,
        e.overloads.Pairwise fun s t => ¬ (s.args = t.args ∧ s.returns = t.returns)) ∧
      r.names.Pairwise (fun a b => Text.utf8 a < Text.utf8 b) ∧
      r.names.Pairwise (fun a b => Text.foldName a ≠ Text.foldName b) ∧
      (∀ name, r.contains name = true ↔ r.overloads name ≠ []) ∧
      (r.isEmpty = true ↔ r.size = 0) ∧ (r.size = 0 ↔ r.names = []) := by
  intro r
  have h : r.Consistent := consistent_after settings requests
  have hsettings : r.settings = settings := settings_after (new settings) requests
  refine ⟨fun e he => ⟨(h.valid e he).nonempty, (h.valid e he).keyed⟩, ?_, ?_,
    h.names_ascend.imp Text.utf8_lt_utf8, List.pairwise_map.mp h.nodup_foldName_names,
    h.contains_iff, ?_, h.size_eq_zero_iff.trans names_eq_nil_iff.symm⟩
  · intro e he s hs function
    rw [Signature.check_eq_ok_iff, ← hsettings]
    exact (h.valid e he).admissible s hs
  · intro hduplicates e he
    rw [← hsettings] at hduplicates
    refine (List.pairwise_map.mp ((h.valid e he).distinct hduplicates)).imp ?_
    intro s t hst hsame
    exact hst (Prod.ext hsame.1 hsame.2)
  · rw [h.size_eq_zero_iff, isEmpty, List.isEmpty_iff]

end Registry

end ExtensionCatalog
