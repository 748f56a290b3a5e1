import ExtensionCatalog.Proofs.Json.RoundTrip
import ExtensionCatalog.Proofs.Json.Writing
import ExtensionCatalog.Proofs.Text.ByteOrder
import ExtensionCatalog.Statement.Basic

/-!
# Statements as they are handed on (spec §4.5)

A statement is handed on as an object of its parts: the command, the table, the
path and, where options were given, the options, be they empty. The object exists
as a value and as a text, and a strict reader takes the text back to the value.
So nothing of a statement is lost in its text, and two statements of one text are
the same statement.

* `json_injective` — statements are told apart by their objects.
* `text_reads_back` — the text of a statement and the object in it.
-/

namespace ExtensionCatalog

/-- What a map binds is what it lists. -/
theorem OptionMap.mem_entries_iff {m : OptionMap} {key value : String} :
    (key, value) ∈ m.entries ↔ m.get? key = some value := by
  rw [get?, List.lookup_eq_some_iff]
  constructor
  · intro h
    obtain ⟨before, after, hentries⟩ := List.append_of_mem h
    refine ⟨before, after, hentries, fun e he => ?_⟩
    have hordered := m.ordered
    rw [hentries, List.pairwise_append] at hordered
    have hlt : e.1 < key := hordered.2.2 e he _ List.mem_cons_self
    exact bne_iff_ne.mpr fun heq => String.lt_irrefl _ (heq ▸ hlt)
  · rintro ⟨before, after, hentries, -⟩
    rw [hentries]
    exact List.mem_append_right _ List.mem_cons_self

theorem Direction.name_injective {d e : Direction} (h : d.name = e.name) : d = e := by
  cases d <;> cases e <;> first | rfl | exact absurd h (by decide)

namespace Statement

open Json (Value)

/-! ### Objects -/

theorem optionsJson_injective {options others : OptionMap}
    (h : optionsJson options = optionsJson others) : options = others := by
  have hentries : options.entries = others.entries := by
    refine (List.map_inj_right ?_).mp (Value.object.inj h)
    rintro ⟨key, value⟩ ⟨key', value'⟩ heq
    simpa using heq
  obtain ⟨entries, hordered⟩ := options
  obtain ⟨entries', hordered'⟩ := others
  obtain rfl : entries = entries' := hentries
  rfl

/-- Statements are told apart by their objects. -/
theorem json_injective {s t : Statement} (h : s.json = t.json) : s = t := by
  obtain ⟨direction, table, path, options⟩ := s
  obtain ⟨direction', table', path', options'⟩ := t
  simp only [json, Value.object.injEq, List.cons_append, List.nil_append, List.cons.injEq,
    Prod.mk.injEq, Value.string.injEq, true_and] at h
  obtain ⟨hname, rfl, rfl, hoptions⟩ := h
  obtain rfl := Direction.name_injective hname
  -- Options that were not given differ from an empty map: they have no member.
  cases options with
  | none => cases options' <;> simp_all
  | some map =>
    cases options' with
    | none => simp at hoptions
    | some map' =>
      have hmap : optionsJson map = optionsJson map' := by simpa using hoptions
      rw [optionsJson_injective hmap]

theorem wellSpelled_optionsJson (options : OptionMap) : (optionsJson options).WellSpelled := by
  apply Json.wellSpelled_object
  intro m hm
  obtain ⟨e, -, rfl⟩ := List.mem_map.mp hm
  exact Json.wellSpelled_string e.2

theorem wellSpelled_json (s : Statement) : s.json.WellSpelled := by
  apply Json.wellSpelled_object
  intro m hm
  rcases List.mem_append.mp hm with hm | hm
  · simp only [List.mem_cons, List.not_mem_nil, or_false] at hm
    rcases hm with rfl | rfl | rfl <;> exact Json.wellSpelled_string _
  · obtain ⟨options, -, rfl⟩ := List.mem_map.mp hm
    exact wellSpelled_optionsJson options

/-! ### Texts -/

theorem parse?_text (s : Statement) : Json.parse? s.text = some s.json :=
  Json.parse?_text s.wellSpelled_json

theorem text_injective {s t : Statement} (h : s.text = t.text) : s = t := by
  have hparse := s.parse?_text
  rw [h, t.parse?_text] at hparse
  exact json_injective (Option.some.inj hparse).symm

/-- **Statements are read back from their text.** The text spells the statement's
object, with the members in the order in which they are listed here, and nothing
else: the command, the table, the path as strings, and the options exactly if they
were given. The options are an object of strings, by strictly ascending name, that
binds what the options of the statement bind. No other statement has the text. -/
theorem text_reads_back (s : Statement) :
    ∃ members, s.json = .object members ∧ Json.parse? s.text = some (.object members) ∧
      s.text = "\x7b" ++ ",".intercalate (members.map Json.memberText) ++ "\x7d" ∧
      members.map Prod.fst = ["command", "tableName", "filePath"] ++
        (if s.options.isSome then ["options"] else []) ∧
      members.lookup "command" = some (.string s.direction.name) ∧
      members.lookup "tableName" = some (.string s.table) ∧
      members.lookup "filePath" = some (.string s.path) ∧
      (∀ options, s.options = some options → ∃ bindings : List (String × String),
        members.lookup "options" = some (.object (bindings.map fun b => (b.1, .string b.2))) ∧
        bindings.Pairwise (fun a b => Text.utf8 a.1 < Text.utf8 b.1) ∧
        ∀ key value, (key, value) ∈ bindings ↔ options.get? key = some value) ∧
      ∀ t : Statement, t.text = s.text ↔ t = s := by
  refine ⟨_, rfl, s.parse?_text, Json.text_object _, ?_, rfl, rfl, rfl, ?_, ?_⟩
  · cases hoptions : s.options <;> rfl
  · intro options hoptions
    refine ⟨options.entries, ?_, options.ordered.imp Text.utf8_lt_utf8, fun key value =>
      OptionMap.mem_entries_iff⟩
    rw [hoptions]
    rfl
  · intro t
    exact ⟨text_injective, fun h => by rw [h]⟩

end Statement

end ExtensionCatalog
