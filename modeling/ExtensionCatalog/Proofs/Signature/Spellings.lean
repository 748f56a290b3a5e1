import ExtensionCatalog.Proofs.Json.RoundTrip
import ExtensionCatalog.Proofs.Traversal
import ExtensionCatalog.Signature.Document
import Mathlib.Data.List.Perm.Subperm
import Mathlib.Data.List.Nodup

/-!
# The spellings of a document (spec §C.3)

A document is written in many ways: as an object whose members stand in any order,
or as an array of their values in the one order of `memberNames`. What it does not
give is null or left out; an array leaves out from its end. The text is any spelling
of such a value.

All of them hold the same document. The array is no case of its own: under their
names its values are members in one of the orders of an object.

* `Document.Spelled` — the values that a document may be written as.
* `Document.lookup_of_drawn` — what such members give under each name.
* `Document.ofValue?_of_spelled` — the document is read from each of its spellings.
* `Signature.parse_spelled` — all spellings of a document declare alike, and an
  object with a member repeated or unknown is no document.
-/

namespace ExtensionCatalog

open Json (Value)

namespace Document

/-! ### Spellings -/

/-- A value, or null where there is none. -/
def nullable {α : Type} (write : α → Value) : Option α → Value
  | some a => write a
  | none => .null

/-- The value spells options: an object of texts in which the last value of each
option is the one it is bound to, or null where there are none. -/
inductive SpellsOptions : Value → Option OptionMap → Prop where
  | none : SpellsOptions .null none
  | some {bindings : List (String × String)} {m : OptionMap} :
      (∀ key, m.get? key = bindings.reverse.lookup key) →
      SpellsOptions (.object (bindings.map fun b => (b.1, .string b.2))) (some m)

/-- The members of a document in the order of their names, given how its options are
spelled. -/
def members (d : Document) (options : Value) : List (String × Value) :=
  [("name", .string d.name), ("ret", nullable .string d.result),
    ("outs", nullable .ofStrings d.outputs), ("args", .ofStrings d.args),
    ("names", nullable .ofStrings d.names), ("options", options)]

/-- Members taken from others in any order, where only what is null is left out. -/
structure Drawn (kept all : List (String × Value)) : Prop where
  subperm : kept.Subperm all
  eq_null_of_notMem : ∀ m ∈ all, m ∉ kept → m.2 = .null

/-- The value spells the document. -/
inductive Spelled (d : Document) : Value → Prop where
  /-- The members in any order, those that are null written or not. -/
  | object {options : Value} {kept : List (String × Value)} :
      SpellsOptions options d.options → Drawn kept (d.members options) →
      Spelled d (.object kept)
  /-- The values in the order of their names, those that are null at the end written
  or not. -/
  | array {options : Value} {kept : List (String × Value)} :
      SpellsOptions options d.options → Drawn kept (d.members options) →
      kept <+: d.members options → Spelled d (.array (kept.map Prod.snd))

theorem keys_members (d : Document) (options : Value) :
    (d.members options).map Prod.fst = memberNames := rfl

theorem nodup_keys_members (d : Document) (options : Value) :
    ((d.members options).map Prod.fst).Nodup := by
  rw [keys_members]
  decide

/-! ### Members that stand for a document -/

section Members

variable {d : Document} {options : Value} {kept : List (String × Value)}

theorem wellNamed_of_drawn (h : Drawn kept (d.members options)) : wellNamed kept = true := by
  obtain ⟨l, hperm, hsub⟩ := h.subperm
  have hkeys : (l.map Prod.fst).Sublist ((d.members options).map Prod.fst) :=
    hsub.map Prod.fst
  rw [wellNamed, decide_eq_true_eq]
  refine ⟨?_, fun key hkey => ?_⟩
  · exact (hperm.map Prod.fst).nodup_iff.mp (hkeys.nodup (d.nodup_keys_members options))
  · exact hkeys.subset ((hperm.map Prod.fst).mem_iff.mpr hkey)

/-- Each name gives the document's value of that name, or nothing where that value is
null. -/
theorem lookup_of_drawn (h : Drawn kept (d.members options)) {key : String} {v : Value}
    (hmem : (key, v) ∈ d.members options) :
    kept.lookup key = some v ∨ kept.lookup key = none ∧ v = .null := by
  cases hkey : kept.lookup key with
  | none =>
    have hnot : (key, v) ∉ kept := fun hin => by
      simpa using List.lookup_eq_none_iff.mp hkey _ hin
    exact .inr ⟨rfl, h.eq_null_of_notMem _ hmem hnot⟩
  | some u =>
    obtain ⟨before, after, heq, -⟩ := List.lookup_eq_some_iff.mp hkey
    have hu : (key, u) ∈ d.members options := h.subperm.subset (by simp [heq])
    have huv : (key, u) = (key, v) :=
      List.inj_on_of_nodup_map (d.nodup_keys_members options) hu hmem rfl
    exact .inl (congrArg (fun m => some m.2) huv)

/-- A member that may not be left out gives what its value is read as. -/
theorem bind_lookup_of_drawn {α : Type} {read : Value → Option α} {key : String} {v : Value}
    {a : α} (h : Drawn kept (d.members options)) (hmem : (key, v) ∈ d.members options)
    (hread : read v = some a) (hnull : read .null = none) :
    kept.lookup key >>= read = some a := by
  rcases lookup_of_drawn h hmem with hkey | ⟨-, rfl⟩
  · rw [hkey]
    exact hread
  · rw [hnull] at hread
    cases hread

/-- A member that may be left out is read as if it stood there. -/
theorem optional?_lookup_of_drawn {α : Type} {read : Value → Option α} {key : String}
    {v : Value} (h : Drawn kept (d.members options)) (hmem : (key, v) ∈ d.members options) :
    optional? read (kept.lookup key) = optional? read (some v) := by
  rcases lookup_of_drawn h hmem with hkey | ⟨hkey, rfl⟩
  · rw [hkey]
  · rw [hkey]
    rfl

end Members

/-! ### The values under the names -/

theorem optional?_of_ne_null {α : Type} {read : Value → Option α} {v : Value}
    (h : v ≠ .null) : optional? read (some v) = (read v).map some := by
  cases v with
  | null => exact absurd rfl h
  | bool | number | string | array | object => rfl

theorem optional?_text (o : Option String) :
    optional? Value.asString? (some (nullable .string o)) = some o := by
  cases o <;> rfl

theorem optional?_texts (o : Option (List String)) :
    optional? Value.asStrings? (some (nullable .ofStrings o)) = some o := by
  cases o with
  | none => rfl
  | some l =>
    rw [nullable, optional?_of_ne_null (by simp [Value.ofStrings]), Value.asStrings?_ofStrings]
    rfl

theorem options?_object {bindings : List (String × String)} {m : OptionMap}
    (h : ∀ key, m.get? key = bindings.reverse.lookup key) :
    options? (.object (bindings.map fun b => (b.1, .string b.2))) = some m := by
  have hbindings : (bindings.map fun b => (b.1, Value.string b.2)).mapM
      (fun m => m.2.asString?.map (m.1, ·)) = some bindings := by
    refine (mapM_map_eq_pure (g := id) ?_ bindings).trans (congrArg some (List.map_id bindings))
    exact fun _ => rfl
  have hm : OptionMap.ofList bindings = m :=
    OptionMap.ext_get? fun key => (OptionMap.get?_ofList bindings key).trans (h key).symm
  rw [options?, Value.asObject?]
  dsimp only [Option.bind_eq_bind, Option.bind_some]
  rw [hbindings, ← hm]
  rfl

theorem optional?_options {v : Value} {options : Option OptionMap}
    (h : SpellsOptions v options) : optional? options? (some v) = some options := by
  cases h with
  | none => rfl
  | some h =>
    rw [optional?_of_ne_null (by simp), options?_object h]
    rfl

/-- The document is read from members that stand for it. -/
theorem ofMembers?_of_drawn {d : Document} {options : Value} {kept : List (String × Value)}
    (hoptions : SpellsOptions options d.options) (h : Drawn kept (d.members options)) :
    ofMembers? kept = some d := by
  have hname : kept.lookup "name" >>= Value.asString? = some d.name :=
    bind_lookup_of_drawn h (show ("name", .string d.name) ∈ _ by simp [members]) rfl rfl
  have hargs : kept.lookup "args" >>= Value.asStrings? = some d.args :=
    bind_lookup_of_drawn h (show ("args", .ofStrings d.args) ∈ _ by simp [members])
      (Value.asStrings?_ofStrings d.args) rfl
  have hresult : optional? Value.asString? (kept.lookup "ret") = some d.result :=
    (optional?_lookup_of_drawn h (by simp [members])).trans (optional?_text d.result)
  have houtputs : optional? Value.asStrings? (kept.lookup "outs") = some d.outputs :=
    (optional?_lookup_of_drawn h (by simp [members])).trans (optional?_texts d.outputs)
  have hnames : optional? Value.asStrings? (kept.lookup "names") = some d.names :=
    (optional?_lookup_of_drawn h (by simp [members])).trans (optional?_texts d.names)
  have hopt : optional? options? (kept.lookup "options") = some d.options :=
    (optional?_lookup_of_drawn h (by simp [members])).trans (optional?_options hoptions)
  rw [ofMembers?, wellNamed_of_drawn h, hname, hresult, houtputs, hargs, hnames, hopt]
  rfl

/-! ### Documents read from their spellings -/

/-- Under their names, the first values of a list of members are its first members. -/
theorem zip_of_prefix {kept all : List (String × Value)} (h : kept <+: all) :
    (all.map Prod.fst).zip (kept.map Prod.snd) = kept := by
  obtain ⟨rest, rfl⟩ := h
  induction kept with
  | nil => simp
  | cons m kept ih => simpa using ih

/-- The document is read from each of its spellings. -/
theorem ofValue?_of_spelled {d : Document} {v : Value} (h : d.Spelled v) :
    ofValue? v = some d := by
  cases h with
  | object hoptions hdrawn => exact ofMembers?_of_drawn hoptions hdrawn
  | @array options kept hoptions hdrawn hprefix =>
    have hlength : (kept.map Prod.snd).length ≤ memberNames.length := by
      rw [List.length_map, ← d.keys_members options, List.length_map]
      exact hprefix.length_le
    rw [ofValue?, if_pos hlength, ← d.keys_members options, zip_of_prefix hprefix]
    exact ofMembers?_of_drawn hoptions hdrawn

/-- Members of which one is repeated or unknown are no document. -/
theorem ofMembers?_of_not_wellNamed {members : List (String × Value)}
    (h : ¬ (members.map Prod.fst).Nodup ∨ ∃ m ∈ members, m.1 ∉ memberNames) :
    ofMembers? members = none := by
  have hnot : wellNamed members = false := by
    rw [wellNamed, decide_eq_false_iff_not]
    rintro ⟨hnodup, hknown⟩
    rcases h with h | ⟨m, hm, h⟩
    · exact h hnodup
    · exact h (hknown m.1 (List.mem_map_of_mem hm))
  rw [ofMembers?, hnot]
  rfl

end Document

/-- **All spellings of a document declare alike**: what an object declares does not
depend on the order of its members, on whether those that are absent are null or left
out, and on the text it is written with, and an array of the values declares the same,
with the absent ones at its end null or left off. An object that repeats a member, or
has a member besides those of a document, is refused. -/
theorem Signature.parse_spelled (d : Document) :
    (∀ v text, d.Spelled v → v.Spelled text → Signature.parse text = d.decode) ∧
      ∀ members text, (Value.object members).Spelled text →
        (¬ (members.map Prod.fst).Nodup ∨ ∃ m ∈ members, m.1 ∉ Document.memberNames) →
        Signature.parse text = .error .noDocument := by
  constructor
  · intro v text hv htext
    have hparse : Document.parse? text = some d := by
      rw [Document.parse?, Json.parse?_of_spelled htext]
      exact Document.ofValue?_of_spelled hv
    rw [Signature.parse, hparse]
  · intro members text htext hmembers
    have hparse : Document.parse? text = none := by
      rw [Document.parse?, Json.parse?_of_spelled htext]
      exact Document.ofMembers?_of_not_wellNamed hmembers
    rw [Signature.parse, hparse]

end ExtensionCatalog
