import ExtensionCatalog.Proofs.Signature.Check
import ExtensionCatalog.Registry.Session

/-!
# What a registration does (spec §C.5)

A registration makes sure of an entry before it decides, but what comes of it is
simpler: either it is refused and nothing has changed, or the overload has been
added at the end of those of its name, in a new entry at the end if the name is
new. A refusal as a duplicate never leaves an empty entry behind, since the
overload that it repeats stands in an entry that was there before.

* `register_eq` — registration as a refusal or an addition.
* `add_cases` — the two shapes of an addition.
* `Accepts` — when an overload is let in.
-/

namespace ExtensionCatalog.Registry

/-! ### Looking up -/

theorem find?_eq_some_iff {r : Registry} {name : String} {e : Entry} :
    r.find? name = some e ↔ e.key = Text.foldName name ∧ ∃ before after,
      r.entries = before ++ e :: after ∧ ∀ d ∈ before, d.key ≠ Text.foldName name := by
  simp [find?, List.find?_eq_some_iff_append]

theorem find?_eq_none_iff {r : Registry} {name : String} :
    r.find? name = none ↔ ∀ e ∈ r.entries, e.key ≠ Text.foldName name := by
  simp [find?]

theorem overloads_of_find?_eq_none {r : Registry} {name : String} (h : r.find? name = none) :
    r.overloads name = [] := by
  rw [overloads, h]

theorem overloads_of_find?_eq_some {r : Registry} {name : String} {e : Entry}
    (h : r.find? name = some e) : r.overloads name = e.overloads := by
  rw [overloads, h]

theorem find?_congr {r : Registry} {m n : String} (h : Text.foldName m = Text.foldName n) :
    r.find? m = r.find? n := by
  rw [find?, find?, h]

theorem overloads_congr {r : Registry} {m n : String} (h : Text.foldName m = Text.foldName n) :
    r.overloads m = r.overloads n := by
  rw [overloads, overloads, find?_congr h]

/-! ### Making sure of an entry -/

theorem ensure_of_forall_ne {name : String} {entries : List Entry}
    (h : ∀ e ∈ entries, e.key ≠ Text.foldName name) :
    ensure name entries = entries ++ [⟨Text.foldName name, name, []⟩] := by
  induction entries with
  | nil => rfl
  | cons e entries ih =>
    rw [ensure, if_neg (h e List.mem_cons_self),
      ih fun d hd => h d (List.mem_cons_of_mem _ hd)]
    rfl

theorem ensure_append {name : String} {before : List Entry} {e : Entry} (after : List Entry)
    (hbefore : ∀ d ∈ before, d.key ≠ Text.foldName name) (he : e.key = Text.foldName name) :
    ensure name (before ++ e :: after) = before ++ e :: after := by
  induction before with
  | nil => rw [List.nil_append, ensure, if_pos he]
  | cons d before ih =>
    rw [List.cons_append, ensure, if_neg (hbefore d List.mem_cons_self),
      ih fun d hd => hbefore d (List.mem_cons_of_mem _ hd)]

theorem push_append {name : String} (s : Signature) {before : List Entry} {e : Entry}
    (after : List Entry) (hbefore : ∀ d ∈ before, d.key ≠ Text.foldName name)
    (he : e.key = Text.foldName name) :
    push name s (before ++ e :: after) =
      before ++ { e with overloads := e.overloads ++ [s] } :: after := by
  induction before with
  | nil => rw [List.nil_append, push, if_pos he]; rfl
  | cons d before ih =>
    rw [List.cons_append, push, if_neg (hbefore d List.mem_cons_self),
      ih fun d hd => hbefore d (List.mem_cons_of_mem _ hd)]
    rfl

/-- An entry without overloads shows nothing to those who look for overloads. -/
theorem overloads_ensure (r : Registry) (name : String) :
    Registry.overloads { r with entries := ensure name r.entries } name = r.overloads name := by
  cases h : r.find? name with
  | none =>
    have hne := find?_eq_none_iff.mp h
    have hnew : Registry.find? { r with entries := ensure name r.entries } name =
        some ⟨Text.foldName name, name, []⟩ :=
      find?_eq_some_iff.mpr ⟨rfl, r.entries, [], ensure_of_forall_ne hne, hne⟩
    rw [overloads_of_find?_eq_some hnew, overloads_of_find?_eq_none h]
  | some e =>
    obtain ⟨he, before, after, hentries, hbefore⟩ := find?_eq_some_iff.mp h
    rw [hentries, ensure_append after hbefore he, ← hentries]

/-! ### Registration as a refusal or an addition -/

/-- The registry with an overload added to those of a name. -/
def add (r : Registry) (name : String) (s : Signature) : Registry :=
  { r with entries := push name s (ensure name r.entries) }

/-- Why an overload is not let in, if it is not. -/
def refusal? (r : Registry) (name : String) (s : Signature) : Option SignatureError :=
  match s.check name r.settings.checks.strictPointers with
  | .error e => some e
  | .ok () =>
    if (r.overloads name).any (·.sameTypes s) && !r.settings.checks.allowDuplicates then
      some (.duplicateOverload name)
    else none

/-- An overload is let in if it passes its checks and is not there already,
which does not matter where duplicates are allowed. -/
structure Accepts (r : Registry) (name : String) (s : Signature) : Prop where
  admissible : s.Admissible r.settings.checks.strictPointers
  fresh : r.settings.checks.allowDuplicates = false →
    s.types ∉ (r.overloads name).map Signature.types

theorem accepts_bare {r : Registry} {name : String} {s : Signature} :
    r.Accepts name s.bare ↔ r.Accepts name s := by
  constructor
  · rintro ⟨hadmissible, hfresh⟩
    exact ⟨Signature.admissible_bare.mp hadmissible, hfresh⟩
  · rintro ⟨hadmissible, hfresh⟩
    exact ⟨Signature.admissible_bare.mpr hadmissible, hfresh⟩

theorem refusal?_eq_none_iff {r : Registry} {name : String} {s : Signature} :
    r.refusal? name s = none ↔ r.Accepts name s := by
  unfold refusal?
  constructor
  · intro h
    split at h
    · cases h
    · rename_i hcheck
      refine ⟨Signature.check_eq_ok_iff.mp hcheck, fun hduplicates => ?_⟩
      simpa [hduplicates, Signature.any_sameTypes] using h
  · rintro ⟨hadmissible, hfresh⟩
    rw [Signature.check_eq_ok_iff.mpr hadmissible]
    cases hduplicates : r.settings.checks.allowDuplicates with
    | false => simpa [Signature.any_sameTypes] using hfresh hduplicates
    | true => simp

/-- **A registration is a refusal or an addition.** A refusal changes nothing. -/
theorem register_eq (r : Registry) (name : String) (s : Signature) :
    r.register name s = match r.refusal? name s with
      | some e => ⟨r, .error e, []⟩
      | none => ⟨r.add name s, .ok (),
          r.settings.logging.report .debug ("Registered extension function " ++ s.text name)⟩ := by
  unfold register refusal?
  cases s.check name r.settings.checks.strictPointers with
  | error e => rfl
  | ok _ =>
    simp only [overloads_ensure]
    split
    · rename_i hduplicate
      -- The overload that is repeated stands in an entry of the name.
      have hentry : ensure name r.entries = r.entries := by
        cases h : r.find? name with
        | none => simp [overloads_of_find?_eq_none h] at hduplicate
        | some e =>
          obtain ⟨he, before, after, hentries, hbefore⟩ := find?_eq_some_iff.mp h
          rw [hentries, ensure_append after hbefore he]
      rw [hentry]
    · rfl

theorem register_of_accepts {r : Registry} {name : String} {s : Signature}
    (h : r.Accepts name s) :
    (r.register name s).registry = r.add name s ∧ (r.register name s).result = .ok () := by
  rw [register_eq, refusal?_eq_none_iff.mpr h]
  exact ⟨rfl, rfl⟩

theorem register_of_not_accepts {r : Registry} {name : String} {s : Signature}
    (h : ¬ r.Accepts name s) :
    (r.register name s).registry = r ∧ ∃ e, (r.register name s).result = .error e := by
  rw [register_eq]
  cases hrefusal : r.refusal? name s with
  | none => exact absurd (refusal?_eq_none_iff.mp hrefusal) h
  | some e => exact ⟨rfl, e, rfl⟩

/-- A registration succeeds exactly with an overload that is let in. -/
theorem register_eq_ok_iff {r : Registry} {name : String} {s : Signature} :
    (r.register name s).result = .ok () ↔ r.Accepts name s := by
  constructor
  · intro h
    by_contra hrefused
    obtain ⟨-, e, he⟩ := register_of_not_accepts hrefused
    rw [he] at h
    cases h
  · intro h
    exact (register_of_accepts h).2

/-! ### Additions -/

/-- An overload of a name without an entry comes in a new one at the end; one of
a name with an entry comes at the end of that entry, which stays in its place. -/
theorem add_cases (r : Registry) (name : String) (s : Signature) :
    (r.find? name = none ∧
      (r.add name s).entries = r.entries ++ [⟨Text.foldName name, name, [s]⟩]) ∨
    ∃ before e after, r.find? name = some e ∧ (∀ d ∈ before, d.key ≠ Text.foldName name) ∧
      r.entries = before ++ e :: after ∧
      (r.add name s).entries =
        before ++ { e with overloads := e.overloads ++ [s] } :: after := by
  cases h : r.find? name with
  | none =>
    have hne := find?_eq_none_iff.mp h
    refine .inl ⟨rfl, ?_⟩
    rw [add, ensure_of_forall_ne hne, push_append s [] hne rfl]
    rfl
  | some e =>
    obtain ⟨he, before, after, hentries, hbefore⟩ := find?_eq_some_iff.mp h
    refine .inr ⟨before, e, after, rfl, hbefore, hentries, ?_⟩
    rw [add, hentries, ensure_append after hbefore he, push_append s after hbefore he]

/-- A property of entries survives an addition if the new entry has it and the
entry that is added to keeps it. -/
theorem forall_mem_add {P : Entry → Prop} {r : Registry} {name : String} {s : Signature}
    (hall : ∀ e ∈ r.entries, P e) (hnew : P ⟨Text.foldName name, name, [s]⟩)
    (hkeep : ∀ e, r.find? name = some e → P e → P { e with overloads := e.overloads ++ [s] }) :
    ∀ e ∈ (r.add name s).entries, P e := by
  rcases add_cases r name s with ⟨-, hadd⟩ | ⟨before, e, after, he, -, hentries, hadd⟩
  · intro d hd
    rw [hadd] at hd
    rcases List.mem_append.mp hd with hd | hd
    · exact hall d hd
    · rw [List.mem_singleton.mp hd]
      exact hnew
  · rw [hentries] at hall
    intro d hd
    rw [hadd] at hd
    rcases List.mem_append.mp hd with hd | hd
    · exact hall d (List.mem_append_left _ hd)
    · rcases List.mem_cons.mp hd with rfl | hd
      · exact hkeep e he (hall e (List.mem_append_right _ List.mem_cons_self))
      · exact hall d (List.mem_append_right _ (List.mem_cons_of_mem _ hd))

/-- The entry of a name gets the overload, or is made for it. -/
theorem find?_add_of_eq {r : Registry} {name m : String} {s : Signature}
    (h : Text.foldName name = Text.foldName m) :
    (r.add name s).find? m = some (match r.find? m with
      | none => ⟨Text.foldName name, name, [s]⟩
      | some e => { e with overloads := e.overloads ++ [s] }) := by
  rw [← find?_congr h, ← find?_congr h]
  rcases add_cases r name s with ⟨hnone, hadd⟩ | ⟨before, e, after, hentry, hbefore, -, hadd⟩
  · rw [hnone]
    exact find?_eq_some_iff.mpr ⟨rfl, r.entries, [], hadd, find?_eq_none_iff.mp hnone⟩
  · rw [hentry]
    exact find?_eq_some_iff.mpr ⟨(find?_eq_some_iff.mp hentry).1, before, after, hadd, hbefore⟩

/-- The entries of other names stay as they are. -/
theorem find?_add_of_ne {r : Registry} {name m : String} {s : Signature}
    (h : Text.foldName name ≠ Text.foldName m) : (r.add name s).find? m = r.find? m := by
  rcases add_cases r name s with ⟨-, hadd⟩ | ⟨before, e, after, hentry, -, hentries, hadd⟩
  · rw [find?, find?, hadd, List.find?_append]
    simp [h]
  · have he : e.key ≠ Text.foldName m := by
      rw [(find?_eq_some_iff.mp hentry).1]
      exact h
    rw [find?, find?, hadd, hentries, List.find?_append, List.find?_append]
    simp [he]

/-- An overload comes behind those of its name, in any letter case. -/
theorem overloads_add_of_eq {r : Registry} {name m : String} {s : Signature}
    (h : Text.foldName name = Text.foldName m) :
    (r.add name s).overloads m = r.overloads m ++ [s] := by
  rw [overloads, overloads, find?_add_of_eq h]
  cases r.find? m <;> rfl

/-- The overloads of other names stay as they are. -/
theorem overloads_add_of_ne {r : Registry} {name m : String} {s : Signature}
    (h : Text.foldName name ≠ Text.foldName m) : (r.add name s).overloads m = r.overloads m := by
  rw [overloads, overloads, find?_add_of_ne h]

theorem size_add (r : Registry) (name : String) (s : Signature) :
    (r.add name s).size = r.size + 1 := by
  rcases add_cases r name s with ⟨-, hadd⟩ | ⟨before, e, after, -, -, hentries, hadd⟩
  · rw [size, size, hadd]
    simp
  · rw [size, size, hadd, hentries]
    simp only [List.flatMap_append, List.flatMap_cons, List.length_append, List.length_singleton]
    omega

/-! ### Runs -/

section Runs

variable {P : Registry → Prop}
  (hadd : ∀ (r : Registry) (name : String) (s : Signature), r.Accepts name s → P r →
    P (r.add name s))

include hadd

theorem register_induction {r : Registry} (h : P r) (name : String) (s : Signature) :
    P (r.register name s).registry := by
  by_cases haccepts : r.Accepts name s
  · rw [(register_of_accepts haccepts).1]
    exact hadd r name s haccepts h
  · rwa [(register_of_not_accepts haccepts).1]

theorem registerAll_induction {r : Registry} (h : P r) (documents : List Document) :
    P (r.registerAll documents).registry := by
  induction documents generalizing r with
  | nil => exact h
  | cons d rest ih =>
    rw [registerAll]
    cases d.decode with
    | error e => exact h
    | ok declared =>
      obtain ⟨name, s⟩ := declared
      have hfirst := register_induction hadd h name s
      dsimp only
      cases (r.register name s).result with
      | error e => exact hfirst
      | ok _ => exact ih hfirst

theorem load_induction {r : Registry} (h : P r) (text : String) :
    P (r.load text).registry := by
  rw [load]
  cases Document.parseList? text with
  | none => exact h
  | some documents =>
    have hall := registerAll_induction hadd h documents
    dsimp only
    cases (r.registerAll documents).result with
    | error e => exact hall
    | ok n => exact hall

theorem handle_induction {r : Registry} (h : P r) (q : Request) : P (r.handle q).registry := by
  cases q with
  | register name s => exact register_induction hadd h name s
  | load text => exact load_induction hadd h text
  | overloads | resolve | contains | write => exact h

/-- **What additions keep, every run keeps**, whatever was refused on the way. -/
theorem after_induction {r : Registry} (h : P r) (requests : List Request) :
    P (r.after requests) := by
  induction requests generalizing r with
  | nil => exact h
  | cons q rest ih => exact ih (handle_induction hadd h q)

end Runs

theorem after_append (r : Registry) (a b : List Request) :
    r.after (a ++ b) = (r.after a).after b :=
  List.foldl_append

/-- The settings of a registry stay as they are. -/
theorem settings_after (r : Registry) (requests : List Request) :
    (r.after requests).settings = r.settings :=
  after_induction (P := fun r' => r'.settings = r.settings)
    (fun _ _ _ _ h => h) rfl requests

theorem settings_register (r : Registry) (name : String) (s : Signature) :
    (r.register name s).registry.settings = r.settings :=
  settings_after r [.register name s]

theorem settings_handle (r : Registry) (q : Request) :
    (r.handle q).registry.settings = r.settings :=
  settings_after r [q]

end ExtensionCatalog.Registry
