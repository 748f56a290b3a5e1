import ExtensionCatalog.Proofs.Registry.Load
import ExtensionCatalog.Proofs.Registry.Queries

/-!
# Registries read back from their text (spec §C.5)

A registry is written as the array of its overloads' documents, by shown name,
and a new registry of the same settings can load that text. It makes one entry
after the other: the first document of an entry finds no entry of its name, and
each further one is added to the entry made last. Nothing is refused on the way,
as the overloads passed the same checks before and writing does not change their
types; the one exception is a blank name, which is no name in a document.

What the new registry lacks are the names and options of the signatures, which
are not written, and the order in which the functions first came.

* `parseList?_text` — the documents in the text of a registry.
* `loads_documents` — loading them in a new registry.
* `load_text` — when that succeeds, and that nothing that can be asked of the
  new registry tells it apart.
-/

namespace ExtensionCatalog

/-- The entry with its overloads as they are written. -/
def Entry.bare (e : Entry) : Entry := { e with overloads := e.overloads.map Signature.bare }

namespace Registry

open Json (Value)

/-! ### The text of a registry -/

/-- The overloads with the names under which they are shown, by these names. -/
def declarations (r : Registry) : List (String × Signature) :=
  r.sortedEntries.flatMap fun e => e.overloads.map (e.spelling, ·)

/-- The documents of a registry's overloads. -/
def documents (r : Registry) : List Document :=
  r.declarations.map fun d => d.2.document d.1

theorem json_eq (r : Registry) : r.json = .array (r.declarations.map fun d => d.2.json d.1) := by
  rw [json, declarations, List.map_flatMap]
  simp only [List.map_map]
  rfl

theorem mapM_ofValue?_json (declared : List (String × Signature)) :
    (declared.map fun d => d.2.json d.1).mapM Document.ofValue? =
      some (declared.map fun d => d.2.document d.1) :=
  mapM_map_eq_pure (fun d => Document.ofValue?_json d.2 d.1) declared

theorem parseList?_text (r : Registry) : Document.parseList? r.text = some r.documents := by
  have hwell : r.json.WellSpelled := by
    rw [json_eq]
    apply Json.wellSpelled_array
    intro v hv
    obtain ⟨d, -, rfl⟩ := List.mem_map.mp hv
    exact d.2.wellSpelled_json d.1
  rw [Document.parseList?, text, Json.parse?_text hwell, json_eq]
  exact mapM_ofValue?_json r.declarations

/-! ### Loading the documents of an entry -/

/-- Further overloads of the entry made last are added to it. -/
theorem loads_overloads {r : Registry} {before : List Entry} {e : Entry}
    (hentries : r.entries = before ++ [e]) (hkey : e.key = Text.foldName e.spelling)
    (hbefore : ∀ d ∈ before, d.key ≠ e.key) (hname : ¬ Text.Blank e.spelling.toList)
    {overloads : List Signature}
    (hadmissible : ∀ s ∈ overloads, s.Admissible r.settings.checks.strictPointers)
    (hdistinct : r.settings.checks.allowDuplicates = false →
      ((e.overloads ++ overloads).map Signature.types).Nodup) :
    Loads r (overloads.map (·.document e.spelling))
      { r with entries :=
          before ++ [{ e with overloads := e.overloads ++ overloads.map Signature.bare }] } := by
  induction overloads generalizing r e with
  | nil =>
    have hsame : { r with entries := before ++ [e] } = r := by rw [← hentries]
    simpa [hsame] using Loads.nil (r := r)
  | cons s overloads ih =>
    have hbefore' : ∀ d ∈ before, d.key ≠ Text.foldName e.spelling := hkey ▸ hbefore
    have hentry : r.find? e.spelling = some e :=
      find?_eq_some_iff.mpr ⟨hkey, before, [], hentries, hbefore'⟩
    have haccepts : r.Accepts e.spelling s := by
      refine ⟨hadmissible s List.mem_cons_self, ?_⟩
      intro hduplicates hmem
      rw [overloads_of_find?_eq_some hentry] at hmem
      have hnodup := hdistinct hduplicates
      rw [List.map_append, List.nodup_append'] at hnodup
      exact hnodup.2.2 hmem List.mem_cons_self
    have hadd : (r.add e.spelling s.bare).entries =
        before ++ [{ e with overloads := e.overloads ++ [s.bare] }] := by
      rw [add, hentries, ensure_append [] hbefore' hkey, push_append s.bare [] hbefore' hkey]
    have hrest := ih (r := r.add e.spelling s.bare)
      (e := { e with overloads := e.overloads ++ [s.bare] }) hadd hkey hbefore hname
      (fun t ht => hadmissible t (List.mem_cons_of_mem _ ht))
      (fun hduplicates => by simpa using hdistinct hduplicates)
    simpa [add] using Loads.document hname haccepts hrest

/-- The documents of an entry make the entry, at the end, if its name is new. -/
theorem loads_entry {r : Registry} {e : Entry} (he : e.Valid r.settings.checks)
    (hnew : ∀ d ∈ r.entries, d.key ≠ e.key) (hname : ¬ Text.Blank e.spelling.toList) :
    Loads r (e.overloads.map (·.document e.spelling))
      { r with entries := r.entries ++ [e.bare] } := by
  obtain ⟨key, spelling, overloads⟩ := e
  obtain rfl : key = Text.foldName spelling := he.keyed
  cases overloads with
  | nil => exact absurd rfl he.nonempty
  | cons s overloads =>
    have hentry : r.find? spelling = none := find?_eq_none_iff.mpr hnew
    have haccepts : r.Accepts spelling s := by
      refine ⟨he.admissible s List.mem_cons_self, ?_⟩
      intro _ hmem
      simp [overloads_of_find?_eq_none hentry] at hmem
    have hadd : (r.add spelling s.bare).entries =
        r.entries ++ [⟨Text.foldName spelling, spelling, [s.bare]⟩] := by
      rw [add, ensure_of_forall_ne hnew, push_append s.bare [] hnew rfl]
      rfl
    have hadmissible : ∀ t ∈ overloads, t.Admissible r.settings.checks.strictPointers :=
      fun t ht => he.admissible t (List.mem_cons_of_mem _ ht)
    have hrest := loads_overloads (r := r.add spelling s.bare) hadd rfl hnew hname hadmissible
      (fun hduplicates => by simpa using he.distinct hduplicates)
    simpa [add, Entry.bare] using Loads.document hname haccepts hrest

/-- The documents of several entries make them one after the other. -/
theorem loads_entries {r : Registry} {entries : List Entry}
    (hvalid : ∀ e ∈ entries, e.Valid r.settings.checks)
    (hkeys : ((r.entries ++ entries).map Entry.key).Nodup)
    (hnames : ∀ e ∈ entries, ¬ Text.Blank e.spelling.toList) :
    Loads r (entries.flatMap fun e => e.overloads.map (·.document e.spelling))
      { r with entries := r.entries ++ entries.map Entry.bare } := by
  induction entries generalizing r with
  | nil => simpa using Loads.nil (r := r)
  | cons e entries ih =>
    have hnew : ∀ d ∈ r.entries, d.key ≠ e.key := by
      intro d hd heq
      rw [List.map_append, List.nodup_append'] at hkeys
      exact hkeys.2.2 (List.mem_map_of_mem hd) (heq ▸ List.mem_cons_self)
    have hfirst := loads_entry (hvalid e List.mem_cons_self) hnew (hnames e List.mem_cons_self)
    have hrest := ih (r := { r with entries := r.entries ++ [e.bare] })
      (fun d hd => hvalid d (List.mem_cons_of_mem _ hd))
      (by simpa [Entry.bare] using hkeys)
      (fun d hd => hnames d (List.mem_cons_of_mem _ hd))
    rw [List.flatMap_cons]
    simpa using hfirst.append hrest

/-! ### The registry that is read back -/

/-- The registry that the text of a registry makes. -/
def reloaded (r : Registry) : Registry := ⟨r.settings, r.sortedEntries.map Entry.bare⟩

/-- A consistent registry without blank names is loaded from its documents. -/
theorem Consistent.loads_documents {r : Registry} (h : r.Consistent)
    (hnames : ∀ name ∈ r.names, ¬ Text.Blank name.toList) :
    Loads (new r.settings) r.documents r.reloaded := by
  have hdocuments : r.documents =
      r.sortedEntries.flatMap fun e => e.overloads.map (·.document e.spelling) := by
    rw [documents, declarations, List.map_flatMap]
    simp only [List.map_map]
    rfl
  have hvalid : ∀ e ∈ r.sortedEntries, e.Valid r.settings.checks :=
    fun e he => h.valid e (r.sortedEntries_perm.mem_iff.mp he)
  have hkeys : (r.sortedEntries.map Entry.key).Nodup :=
    (r.sortedEntries_perm.map Entry.key).nodup_iff.mpr h.keysDistinct
  have hsolid : ∀ e ∈ r.sortedEntries, ¬ Text.Blank e.spelling.toList :=
    fun e he => hnames e.spelling (mem_names_iff.mpr ⟨e, he, rfl⟩)
  rw [hdocuments]
  exact loads_entries (r := new r.settings) hvalid hkeys hsolid

/-- A blank name keeps the documents from being loaded. -/
theorem Consistent.not_blank_of_loads {r r' r'' : Registry} (h : r.Consistent)
    (hloads : Loads r' r.documents r'') :
    ∀ name ∈ r.names, ¬ Text.Blank name.toList := by
  intro name hname hblank
  obtain ⟨e, he, rfl⟩ := mem_names_iff.mp hname
  obtain ⟨s, hs⟩ := List.exists_mem_of_ne_nil _
    (h.valid e (r.sortedEntries_perm.mem_iff.mp he)).nonempty
  have hmem : s.document e.spelling ∈ r.documents :=
    List.mem_map.mpr ⟨(e.spelling, s),
      List.mem_flatMap.mpr ⟨e, he, List.mem_map_of_mem hs⟩, rfl⟩
  obtain ⟨declared, hdecode⟩ := hloads.decode _ hmem
  rw [Document.decode_document, if_pos hblank] at hdecode
  cases hdecode

theorem length_documents (r : Registry) : r.documents.length = r.size := by
  rw [size_eq, documents, declarations, List.length_map, List.length_flatMap, List.length_flatMap]
  simp only [List.length_map]

/-! ### What the registry that is read back answers -/

theorem sortedEntries_reloaded (r : Registry) :
    r.reloaded.sortedEntries = r.sortedEntries.map Entry.bare :=
  List.mergeSort_of_pairwise (List.pairwise_map.mpr r.pairwise_sortedEntries)

theorem names_reloaded (r : Registry) : r.reloaded.names = r.names := by
  rw [names, sortedEntries_reloaded, List.map_map]
  rfl

theorem size_reloaded (r : Registry) : r.reloaded.size = r.size := by
  rw [size_eq, size_eq, sortedEntries_reloaded]
  simp [List.length_flatMap, List.map_map, Function.comp_def, Entry.bare]

theorem text_reloaded (r : Registry) : r.reloaded.text = r.text := by
  rw [text, text, json, json, sortedEntries_reloaded, List.flatMap_map]
  simp [Entry.bare, List.map_map, Function.comp_def]

theorem Consistent.overloads_reloaded {r : Registry} (h : r.Consistent) (name : String) :
    r.reloaded.overloads name = (r.overloads name).map Signature.bare := by
  have hmem : ∀ e ∈ r.reloaded.entries, ∃ d ∈ r.entries, d.bare = e := by
    intro e he
    obtain ⟨d, hd, rfl⟩ := List.mem_map.mp he
    exact ⟨d, r.sortedEntries_perm.mem_iff.mp hd, rfl⟩
  have hkeys : (r.reloaded.entries.map Entry.key).Nodup := by
    rw [reloaded, List.map_map]
    exact (r.sortedEntries_perm.map Entry.key).nodup_iff.mpr h.keysDistinct
  cases hentry : r.find? name with
  | none =>
    have hnone : r.reloaded.find? name = none := by
      apply find?_eq_none_iff.mpr
      intro e he
      obtain ⟨d, hd, rfl⟩ := hmem e he
      exact find?_eq_none_iff.mp hentry d hd
    rw [overloads_of_find?_eq_none hnone, overloads_of_find?_eq_none hentry]
    rfl
  | some e =>
    obtain ⟨hkey, -⟩ := find?_eq_some_iff.mp hentry
    have he : e ∈ r.entries := List.mem_of_find?_eq_some hentry
    have hbare : e.bare ∈ r.reloaded.entries :=
      List.mem_map_of_mem (r.sortedEntries_perm.mem_iff.mpr he)
    rw [overloads_of_find?_eq_some (find?_eq_some_of_mem hkeys hbare hkey),
      overloads_of_find?_eq_some hentry]
    rfl

/-- Overloads that pass their checks are searched without a fault, and the
search looks at their types only. -/
theorem firstMatch_bare {strict : Bool} (operands : List SqlFamily) {overloads : List Signature}
    (h : ∀ s ∈ overloads, s.Admissible strict) :
    ∃ found, firstMatch operands overloads = .ok found ∧
      firstMatch operands (overloads.map Signature.bare) = .ok (found.map Signature.bare) := by
  have hfamilies : ∀ s ∈ overloads, ∃ families, s.operandFamilies = .ok families :=
    fun s hs => (h s hs).operandFamilies
  have hbare : ∀ s ∈ overloads.map Signature.bare, ∃ families,
      s.operandFamilies = .ok families :=
    List.forall_mem_map.mpr hfamilies
  refine ⟨_, firstMatch_eq operands hfamilies, ?_⟩
  rw [firstMatch_eq operands hbare, List.find?_map]
  -- Without its names and options a signature has the same operands.
  rfl

/-- **Registries are read back from their text**, exactly if no shown name is
blank. The new registry has as many overloads, shows the same names, is written
alike, has the same overloads of every name in the same order, apart from their
names and options, and answers every search alike. -/
theorem load_text (settings : Settings) (requests : List Request) :
    let r := (new settings).after requests
    let o := (new settings).load r.text
    ((∃ n, o.result = .ok n) ↔ ∀ name ∈ r.names, ¬ Text.Blank name.toList) ∧
      ∀ n, o.result = .ok n →
        n = r.size ∧ o.registry.names = r.names ∧ o.registry.size = r.size ∧
        o.registry.text = r.text ∧
        (∀ name, o.registry.overloads name = (r.overloads name).map Signature.bare) ∧
        ∀ name operands, ∃ found, r.resolve name operands = .ok found ∧
          o.registry.resolve name operands = .ok (found.map Signature.bare) := by
  intro r o
  have h : r.Consistent := consistent_after settings requests
  have hsettings : r.settings = settings := settings_after (new settings) requests
  have hreload : (∀ name ∈ r.names, ¬ Text.Blank name.toList) →
      o.registry = r.reloaded ∧ o.result = .ok r.size := by
    intro hnames
    have hloads := h.loads_documents hnames
    rw [hsettings] at hloads
    rw [← length_documents]
    exact hloads.load r.parseList?_text
  have hnames : (∃ n, o.result = .ok n) → ∀ name ∈ r.names, ¬ Text.Blank name.toList := by
    rintro ⟨n, hn⟩
    exact h.not_blank_of_loads (loads_of_load r.parseList?_text hn)
  refine ⟨⟨hnames, fun hblank => ⟨r.size, (hreload hblank).2⟩⟩, ?_⟩
  intro n hn
  obtain ⟨hregistry, hresult⟩ := hreload (hnames ⟨n, hn⟩)
  rw [hresult] at hn
  cases hn
  rw [hregistry]
  refine ⟨rfl, r.names_reloaded, r.size_reloaded, r.text_reloaded, h.overloads_reloaded, ?_⟩
  intro name operands
  obtain ⟨found, hfound, hbare⟩ := firstMatch_bare operands (h.admissible_overloads name)
  refine ⟨found, hfound, ?_⟩
  rw [resolve, h.overloads_reloaded]
  exact hbare

end Registry

end ExtensionCatalog
