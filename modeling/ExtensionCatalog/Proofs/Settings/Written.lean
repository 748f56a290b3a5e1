import ExtensionCatalog.Proofs.Text.Blank
import ExtensionCatalog.Proofs.Toml.Reading
import ExtensionCatalog.Proofs.Toml.Sections
import ExtensionCatalog.Proofs.Traversal
import ExtensionCatalog.Settings.Toml

/-!
# Settings as they are written (spec §B.3)

Each of the four settings may be written or left out, its section may stand before or
after the other one, and a section of which nothing is written may be missing. None of
this makes a difference: a text gives the settings that are written in it, with the
defaults of the others, and these are accepted or refused for what they are.

Levels are compared exactly when settings are checked, but in any letter case when they
are used. So no setting that is accepted is left to the filter that stands in for
unreadable levels.

* `Written`, `Written.SpelledBy` — what is written of the settings, and the texts for it.
* `Settings.parse_written` — what is read from such a text, and the filter of whatever is
  read.
-/

namespace ExtensionCatalog

open Toml (Value Table sectionLines)

/-- What is written of the settings. -/
structure Written where
  strictPointers : Option Bool
  allowDuplicates : Option Bool
  level : Option String
  target : Option String

namespace Written

/-- The settings that are written, and the defaults of the others. -/
def settings (w : Written) : Settings :=
  let default : Settings := {}
  { checks :=
      { strictPointers := w.strictPointers.getD default.checks.strictPointers
        allowDuplicates := w.allowDuplicates.getD default.checks.allowDuplicates }
    logging :=
      { level := w.level.getD default.logging.level
        target := w.target.getD default.logging.target } }

/-! ### Sections -/

/-- The entry of a setting, if it is written. -/
def entry {α : Type} (key : String) (write : α → Value) (o : Option α) : Table :=
  (o.map fun a => (key, write a)).toList

/-- What is written of the checks. -/
def checks (w : Written) : Table :=
  entry "strict_pointer_args" .boolean w.strictPointers ++
    entry "allow_duplicate_overloads" .boolean w.allowDuplicates

/-- What is written of reports. -/
def logging (w : Written) : Table :=
  entry "level" .string w.level ++ entry "target" .string w.target

/-- The sections hold what is written, each its settings in any order. -/
structure Laid (w : Written) (sections : List (String × Table)) : Prop where
  nodup : (sections.map Prod.fst).Nodup
  known : ∀ s ∈ sections,
    s.1 = "validation" ∧ s.2.Perm w.checks ∨ s.1 = "logging" ∧ s.2.Perm w.logging
  /-- Only a section of which nothing is written is left out. -/
  checks_mem : w.checks ≠ [] → "validation" ∈ sections.map Prod.fst
  logging_mem : w.logging ≠ [] → "logging" ∈ sections.map Prod.fst

/-- The text spells what is written. -/
def SpelledBy (w : Written) (text : String) : Prop :=
  ∃ sections, w.Laid sections ∧ Toml.Spelled text.toList (sections.flatMap sectionLines)

/-! ### Sections give what is written -/

section Sections

variable {w : Written} {t : Table} {sections : List (String × Table)}

theorem nodup_keys_checks (w : Written) : (w.checks.map Prod.fst).Nodup := by
  obtain ⟨strict, duplicates, -, -⟩ := w
  cases strict <;> cases duplicates <;> simp [checks, entry]

theorem nodup_keys_logging (w : Written) : (w.logging.map Prod.fst).Nodup := by
  obtain ⟨-, -, level, target⟩ := w
  cases level <;> cases target <;> simp [logging, entry]

/-- The checks are read from their settings in any order. -/
theorem checks_of_perm (h : t.Perm w.checks) : Checks.ofTable? t = some w.settings.checks := by
  have hlookup : ∀ key, t.lookup key = w.checks.lookup key := fun key =>
    (Table.lookup_perm h.symm w.nodup_keys_checks key).symm
  simp only [Checks.ofTable?, Table.bool?, hlookup]
  obtain ⟨strict, duplicates, -, -⟩ := w
  cases strict <;> cases duplicates <;> rfl

theorem logging_of_perm (h : t.Perm w.logging) :
    Logging.ofTable? t = some w.settings.logging := by
  have hlookup : ∀ key, t.lookup key = w.logging.lookup key := fun key =>
    (Table.lookup_perm h.symm w.nodup_keys_logging key).symm
  simp only [Logging.ofTable?, Table.string?, hlookup]
  obtain ⟨-, -, level, target⟩ := w
  cases level <;> cases target <;> rfl

theorem section?_map (sections : List (String × Table)) (name : String) (names : List String) :
    Table.section? (sections.map Table.ofSection) name names =
      some ((sections.lookup name).getD []) := by
  rw [Table.section?, Table.lookup_map_ofSection]
  cases sections.lookup name <;> rfl

/-- A section that is there has its settings, and one that is missing has none. -/
theorem lookup_getD_perm {name : String} {entries : Table}
    (hmem : entries ≠ [] → name ∈ sections.map Prod.fst)
    (hperm : ∀ t, (name, t) ∈ sections → t.Perm entries) :
    ((sections.lookup name).getD []).Perm entries := by
  cases hlookup : sections.lookup name with
  | none =>
    have hnot : name ∉ sections.map Prod.fst := fun hin => by
      obtain ⟨s, hs, rfl⟩ := List.mem_map.mp hin
      simpa using List.lookup_eq_none_iff.mp hlookup s hs
    rw [Decidable.not_not.mp (mt hmem hnot)]
    exact .nil
  | some t =>
    obtain ⟨before, after, rfl, -⟩ := List.lookup_eq_some_iff.mp hlookup
    exact hperm t (by simp)

theorem Laid.checks_perm (h : w.Laid sections) :
    ((sections.lookup "validation").getD []).Perm w.checks := by
  refine lookup_getD_perm h.checks_mem fun t ht => ?_
  rcases h.known _ ht with ⟨-, hperm⟩ | ⟨hname, -⟩
  · exact hperm
  · simp at hname

theorem Laid.logging_perm (h : w.Laid sections) :
    ((sections.lookup "logging").getD []).Perm w.logging := by
  refine lookup_getD_perm h.logging_mem fun t ht => ?_
  rcases h.known _ ht with ⟨hname, -⟩ | ⟨-, hperm⟩
  · simp at hname
  · exact hperm

theorem Laid.nodup_keys (h : w.Laid sections) : ∀ s ∈ sections, (s.2.map Prod.fst).Nodup := by
  intro s hs
  rcases h.known s hs with ⟨-, hperm⟩ | ⟨-, hperm⟩
  · exact (hperm.map Prod.fst).nodup_iff.mpr w.nodup_keys_checks
  · exact (hperm.map Prod.fst).nodup_iff.mpr w.nodup_keys_logging

/-- The settings of a document are those that are written. -/
theorem ofTable?_of_laid (h : w.Laid sections) :
    Settings.ofTable? (sections.map Table.ofSection) = some w.settings := by
  simp only [Settings.ofTable?, section?_map, Option.bind_eq_bind, Option.bind_some,
    checks_of_perm h.checks_perm, logging_of_perm h.logging_perm]
  rfl

/-- What is written is read from each text for it, and then validated. -/
theorem parse_of_spelledBy {text : String} (h : w.SpelledBy text) :
    Settings.parse text = w.settings.validate.map fun _ => w.settings := by
  obtain ⟨sections, hlaid, htext⟩ := h
  have htable : Table.parse? text = some (sections.map Table.ofSection) := by
    rw [Toml.parse?_spelled htext, Table.ofLines?_sections hlaid.nodup hlaid.nodup_keys]
  rw [Settings.parse, htable, Option.bind_eq_bind, Option.bind_some, ofTable?_of_laid hlaid]

end Sections

/-! ### Everything can be written -/

theorem exists_lineSpelled_of_mem_entry {α : Type} {key : String} {write : α → Value}
    {o : Option α} {e : String × Value} (hkey : Toml.IsBareKey key)
    (hwrite : ∀ a, ∃ text, Toml.ValueSpelled text (write a)) (he : e ∈ entry key write o) :
    ∃ text, Toml.LineSpelled text (.pair [] e.1 e.2) := by
  obtain ⟨a, -, rfl⟩ := Option.map_eq_some_iff.mp (Option.mem_toList.mp he)
  exact Toml.exists_lineSpelled_pair hkey (hwrite a)

theorem exists_lineSpelled_of_mem_checks {w : Written} {e : String × Value} (h : e ∈ w.checks) :
    ∃ text, Toml.LineSpelled text (.pair [] e.1 e.2) := by
  rcases List.mem_append.mp h with h | h <;>
    exact exists_lineSpelled_of_mem_entry (by decide +kernel) Toml.exists_valueSpelled_boolean h

theorem exists_lineSpelled_of_mem_logging {w : Written} {e : String × Value}
    (h : e ∈ w.logging) : ∃ text, Toml.LineSpelled text (.pair [] e.1 e.2) := by
  rcases List.mem_append.mp h with h | h <;>
    exact exists_lineSpelled_of_mem_entry (by decide +kernel) Toml.exists_valueSpelled_string h

/-- Whatever is written, in whatever order, has a text. -/
theorem exists_text {w : Written} {sections : List (String × Table)} (h : w.Laid sections) :
    ∃ text : String, Toml.Spelled text.toList (sections.flatMap sectionLines) := by
  have hlines : ∀ l ∈ sections.flatMap sectionLines, ∃ text, Toml.LineSpelled text l := by
    intro l hl
    obtain ⟨⟨name, entries⟩, hs, hl⟩ := List.mem_flatMap.mp hl
    have hknown : name = "validation" ∧ entries.Perm w.checks ∨
        name = "logging" ∧ entries.Perm w.logging := h.known _ hs
    rcases List.mem_cons.mp hl with rfl | hl
    · have hname : Toml.IsBareKey name := by
        rcases hknown with ⟨rfl, -⟩ | ⟨rfl, -⟩ <;> decide +kernel
      exact Toml.exists_lineSpelled_header hname
    · obtain ⟨e, he, rfl⟩ := List.mem_map.mp hl
      rcases hknown with ⟨-, hperm⟩ | ⟨-, hperm⟩
      · exact exists_lineSpelled_of_mem_checks (hperm.mem_iff.mp he)
      · exact exists_lineSpelled_of_mem_logging (hperm.mem_iff.mp he)
  obtain ⟨text, htext⟩ := Toml.exists_spelled hlines
  exact ⟨String.ofList text, by rwa [String.toList_ofList]⟩

/-- Both sections may be written, in either order. -/
theorem laid_both (w : Written) :
    w.Laid [("validation", w.checks), ("logging", w.logging)] ∧
      w.Laid [("logging", w.logging), ("validation", w.checks)] := by
  constructor
  · exact ⟨by simp, by simp, by simp, by simp⟩
  · exact ⟨by simp, by simp, by simp, by simp⟩

end Written

/-- The levels that may be set, and their filters. -/
def Logging.levelFilters : List (String × LevelFilter) :=
  [("error", .upTo .error), ("warn", .upTo .warn), ("info", .upTo .info),
    ("debug", .upTo .debug), ("trace", .upTo .trace)]

namespace Settings

/-- The filter of settings that are valid was read from the name of their level. -/
theorem mem_levelFilters_of_validate {s : Settings} (h : s.validate = .ok ()) :
    (s.logging.level, s.logging.filter) ∈ Logging.levelFilters ∧
      LevelFilter.all.find? (fun f => Text.sameLetters f.name.toList s.logging.level.toList) =
        some s.logging.filter := by
  have hfind : ∀ p ∈ Logging.levelFilters,
      LevelFilter.all.find? (fun f => Text.sameLetters f.name.toList p.1.toList) = some p.2 := by
    decide +kernel
  obtain ⟨hlevel, -⟩ := validate_eq_ok_iff.mp h
  obtain ⟨p, hp, hname⟩ := List.mem_map.mp (show _ ∈ Logging.levelFilters.map Prod.fst from hlevel)
  have hread := hfind p hp
  rw [hname] at hread
  have hfilter : s.logging.filter = p.2 := by rw [Logging.filter, hread, Option.getD_some]
  refine ⟨?_, by rw [hread, hfilter]⟩
  rw [← hname, hfilter]
  exact hp

theorem validate_of_parse {text : String} {s : Settings} (h : parse text = .ok s) :
    s.validate = .ok () := by
  unfold parse at h
  split at h
  · cases h
  · obtain ⟨⟨⟩, hvalid, rfl⟩ := map_eq_ok_iff.mp h
    exact hvalid

theorem validate_eq (s : Settings) :
    s.validate =
      if s.logging.level ∉ Logging.levelNames then .error (.unknownLevel s.logging.level)
      else if Text.Blank s.logging.target.toList then .error .blankTarget
      else .ok () := by
  simp only [validate, Text.trim_eq_nil_iff]

/-- **Settings are read as they are written**: a text that gives some of the settings, in
sections and in any order, is read as those settings with the defaults of the others, if
the level is one of the five names, letter by letter, and the name for reports has a
character that is no blank; otherwise the level is refused before the name is. Each
choice and order of settings has such texts. And whatever text is accepted, reports are
filtered by the level of the very name that is set. -/
theorem parse_written :
    (∀ (w : Written) (text : String), w.SpelledBy text →
        parse text =
          if w.settings.logging.level ∉ ["error", "warn", "info", "debug", "trace"] then
            .error (.unknownLevel w.settings.logging.level)
          else if Text.Blank w.settings.logging.target.toList then .error .blankTarget
          else .ok w.settings) ∧
      (∀ w : Written, w.Laid [("validation", w.checks), ("logging", w.logging)] ∧
        w.Laid [("logging", w.logging), ("validation", w.checks)] ∧
        ∀ sections, w.Laid sections →
          ∃ text : String, Toml.Spelled text.toList (sections.flatMap sectionLines)) ∧
      ∀ (text : String) (s : Settings), parse text = .ok s →
        (s.logging.level, s.logging.filter) ∈ Logging.levelFilters ∧
          LevelFilter.all.find? (fun f => Text.sameLetters f.name.toList s.logging.level.toList) =
            some s.logging.filter := by
  refine ⟨fun w text h => ?_, fun w => ?_, fun text s h => ?_⟩
  · rw [Written.parse_of_spelledBy h, validate_eq]
    change Except.map _ (if w.settings.logging.level ∉ Logging.levelNames then _ else _) =
      if w.settings.logging.level ∉ Logging.levelNames then _ else _
    split
    · rfl
    · split <;> rfl
  · exact ⟨w.laid_both.1, w.laid_both.2, fun _ => Written.exists_text⟩
  · exact mem_levelFilters_of_validate (validate_of_parse h)

end Settings

end ExtensionCatalog
