import ExtensionCatalog.Proofs.Json.Writing
import ExtensionCatalog.Proofs.Registry.History
import ExtensionCatalog.Proofs.Registry.Reload
import ExtensionCatalog.Proofs.Registry.Views

/-!
# What the text of a registry lists (spec §C.5)

The text of a registry is made by a walk over its entries, sorted by the names
that they show. The same list comes about by asking: for the shown names, and for
the overloads of each. Both name every overload once: an entry is found again
under the name that it shows, and no two entries show the same one. So what was
registered is written, each overload once and under the spelling that the first
registration of its name had, however it was spelled itself.

* `declarations_eq` — the listing by questions.
* `firstSpelling`, `declarations_addAll_perm` — the listing by history.
* `text_listing` — what is written.
-/

namespace ExtensionCatalog

/-- A name as the first of some attempts under it spells it, in any letter case. -/
def firstSpelling (attempts : List Attempt) (name : String) : String :=
  ((attempts.find? fun a => Text.foldName a.name = Text.foldName name).map Attempt.name).getD name

/-- Later attempts do not change the spelling of a name that has been tried. -/
theorem firstSpelling_append_of_mem {attempts : List Attempt} {a : Attempt} (later : List Attempt)
    (h : a ∈ attempts) :
    firstSpelling (attempts ++ later) a.name = firstSpelling attempts a.name := by
  have hfound :
      (attempts.find? fun b => Text.foldName b.name = Text.foldName a.name).isSome = true := by
    rw [List.find?_isSome]
    exact ⟨a, h, by simp⟩
  rw [firstSpelling, firstSpelling, List.find?_append, Option.or_of_isSome hfound]

/-- An attempt spells its own name, unless an earlier one did. -/
theorem firstSpelling_append_self (attempts : List Attempt) (a : Attempt) :
    firstSpelling (attempts ++ [a]) a.name = firstSpelling attempts a.name := by
  rw [firstSpelling, firstSpelling, List.find?_append]
  cases attempts.find? fun b => Text.foldName b.name = Text.foldName a.name <;> simp

namespace Registry

/-! ### The listing by questions -/

/-- What is listed is what the questions for names and overloads answer. -/
theorem Consistent.declarations_eq {r : Registry} (h : r.Consistent) :
    r.declarations = r.names.flatMap fun name => (r.overloads name).map (name, ·) := by
  rw [declarations, names, List.flatMap_map]
  apply List.flatMap_congr
  intro e he
  -- An entry is found under the name that it shows.
  have hentry : r.find? e.spelling = some e :=
    h.mem_entries_iff.mp (r.sortedEntries_perm.mem_iff.mp he)
  rw [overloads_of_find?_eq_some hentry]

theorem text_eq (r : Registry) :
    r.text = "[" ++ ",".intercalate (r.declarations.map fun d => d.2.text d.1) ++ "]" := by
  rw [text, json_eq, Json.text_array, List.map_map]
  rfl

/-! ### The listing by history -/

theorem spelling?_addAll (r : Registry) (attempts : List Attempt) (m : String) :
    (r.addAll attempts).spelling? m = (r.spelling? m).or
      ((attempts.find? fun a => Text.foldName a.name = Text.foldName m).map Attempt.name) := by
  induction attempts generalizing r with
  | nil => exact Option.or_none.symm
  | cons a attempts ih =>
    have hrest := ih (r.add a.name a.signature)
    by_cases h : Text.foldName a.name = Text.foldName m
    · rw [spelling?_add_of_eq h, Option.or_assoc] at hrest
      simpa [addAll, h] using hrest
    · rw [spelling?_add_of_ne h] at hrest
      simpa [addAll, h] using hrest

theorem spelling?_addAll_new (settings : Settings) (attempts : List Attempt) (name : String) :
    (((new settings).addAll attempts).spelling? name).getD name =
      firstSpelling attempts name := by
  rw [spelling?_addAll, firstSpelling]
  rfl

theorem declarations_perm (r : Registry) :
    r.declarations.Perm (r.entries.flatMap fun e => e.overloads.map (e.spelling, ·)) :=
  r.sortedEntries_perm.flatMap_right _

/-- An addition lists one overload more, under the spelling that its name has, or
gets. -/
theorem declarations_add_perm (r : Registry) (name : String) (s : Signature) :
    (r.add name s).declarations.Perm
      (r.declarations ++ [((r.spelling? name).getD name, s)]) := by
  refine (declarations_perm _).trans (.trans ?_ ((declarations_perm r).symm.append_right _))
  rcases add_cases r name s with ⟨hnone, hadd⟩ | ⟨before, e, after, hentry, -, hentries, hadd⟩
  · rw [hadd, spelling?, hnone]
    simp
  · rw [hadd, spelling?, hentry, hentries]
    simp only [List.flatMap_append, List.flatMap_cons, List.map_append, List.append_assoc]
    exact (List.perm_append_comm.append_left _).append_left _

/-- The overloads of some attempts are listed once each, under the spelling of the
first attempt under their names. -/
theorem declarations_addAll_perm (settings : Settings) (attempts : List Attempt) :
    ((new settings).addAll attempts).declarations.Perm
      (attempts.map fun a => (firstSpelling attempts a.name, a.signature)) := by
  induction attempts using List.reverseRecOn with
  | nil => simp [addAll, new, declarations, sortedEntries]
  | append_singleton attempts a ih =>
    have hlast := declarations_add_perm ((new settings).addAll attempts) a.name a.signature
    rw [spelling?_addAll_new] at hlast
    have hearlier : attempts.map (fun b => (firstSpelling (attempts ++ [a]) b.name, b.signature)) =
        attempts.map fun b => (firstSpelling attempts b.name, b.signature) :=
      List.map_congr_left fun b hb => by rw [firstSpelling_append_of_mem [a] hb]
    rw [addAll_append, List.map_append, hearlier, List.map_singleton, firstSpelling_append_self]
    exact hlast.trans (ih.append_right _)

/-- **What the text of a registry lists.** It is the array of the texts of the
overloads, by shown name and under it, those of a name in the order in which they
were registered. Nothing is lost and nothing repeated: what is listed are the
overloads of the registrations that succeeded, each once, under the spelling of
the first of these registrations that had its name. -/
theorem text_listing (settings : Settings) (requests : List Request) :
    let r := (new settings).after requests
    let made := succeeded ((new settings).history requests)
    r.text = "[" ++ ",".intercalate
        (r.names.flatMap fun name => (r.overloads name).map (·.text name)) ++ "]" ∧
      (∀ name, r.overloads name = registered name ((new settings).history requests)) ∧
      (r.names.flatMap fun name => (r.overloads name).map (name, ·)).Perm
        (made.map fun a => (firstSpelling made a.name, a.signature)) ∧
      (r.names.flatMap r.overloads).length = r.size := by
  intro r made
  have h : r.Consistent := consistent_after settings requests
  have hmade : r = (new settings).addAll made := after_eq_addAll (new settings) requests
  refine ⟨?_, overloads_after (new settings) requests, ?_, ?_⟩
  · rw [text_eq, h.declarations_eq, List.map_flatMap]
    simp only [List.map_map]
    rfl
  · rw [← h.declarations_eq, hmade]
    exact declarations_addAll_perm settings made
  · have hsize := r.length_documents
    rw [documents, List.length_map, h.declarations_eq] at hsize
    simpa [List.length_flatMap] using hsize

end Registry

end ExtensionCatalog
