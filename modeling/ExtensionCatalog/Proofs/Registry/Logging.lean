import ExtensionCatalog.Proofs.Registry.Load
import Mathlib.Data.List.Forall2

/-!
# Reports do not reach back (spec §B.2)

What a registry reports depends on its settings for the log, which may hold any
text for a level. What it answers, and what it becomes, does not: a registry
with other settings for the log goes through the same states, apart from these
settings. This holds at each turn of a load, and so for a load that stops half
way.

* `Outcome.Matches` — two attempts that differ in their reports only.
* `handle_withLogging` — one request.
* `logging_changes_no_answer` — a whole run.
-/

namespace ExtensionCatalog

/-- The registry with other settings for its log. -/
def Registry.withLogging (r : Registry) (logging : Logging) : Registry :=
  { r with settings := { r.settings with logging } }

/-- An attempt comes to the same as another one, and leaves the same registry
but for the settings for its log. -/
structure Outcome.Matches {α : Type} (logging : Logging) (o' o : Outcome α) : Prop where
  registry : o'.registry = o.registry.withLogging logging
  result : o'.result = o.result

namespace Registry

variable (r : Registry) (logging : Logging)

/-! ### Attempts -/

theorem refusal?_withLogging (name : String) (s : Signature) :
    (r.withLogging logging).refusal? name s = r.refusal? name s := rfl

theorem add_withLogging (name : String) (s : Signature) :
    (r.withLogging logging).add name s = (r.add name s).withLogging logging := rfl

theorem register_withLogging (name : String) (s : Signature) :
    ((r.withLogging logging).register name s).Matches logging (r.register name s) := by
  rw [register_eq, register_eq, refusal?_withLogging]
  cases r.refusal? name s with
  | some e => exact ⟨rfl, rfl⟩
  | none => exact ⟨add_withLogging r logging name s, rfl⟩

/-- Either registry stops at the same document. -/
theorem registerAll_withLogging (documents : List Document) :
    ((r.withLogging logging).registerAll documents).Matches logging
      (r.registerAll documents) := by
  induction documents generalizing r with
  | nil => exact ⟨rfl, rfl⟩
  | cons d rest ih =>
    cases hdecode : d.decode with
    | error e =>
      rw [registerAll, registerAll, hdecode]
      exact ⟨rfl, rfl⟩
    | ok declared =>
      obtain ⟨name, s⟩ := declared
      rw [registerAll_cons hdecode, registerAll_cons hdecode, refusal?_withLogging]
      cases r.refusal? name s with
      | some e => exact ⟨rfl, rfl⟩
      | none =>
        have hrest := ih (r.add name s)
        rw [← add_withLogging] at hrest
        exact ⟨hrest.registry, congrArg (Except.map (· + 1)) hrest.result⟩

theorem load_withLogging (text : String) :
    ((r.withLogging logging).load text).Matches logging (r.load text) := by
  cases hparse : Document.parseList? text with
  | none =>
    rw [load, load, hparse]
    exact ⟨rfl, rfl⟩
  | some documents =>
    obtain ⟨hregistry, hresult⟩ := load_of_parseList? (r := r) hparse
    obtain ⟨hregistry', hresult'⟩ := load_of_parseList? (r := r.withLogging logging) hparse
    have hall := registerAll_withLogging r logging documents
    constructor
    · rw [hregistry, hregistry', hall.registry]
    · rw [hresult, hresult', hall.result]

/-! ### Requests -/

theorem handle_withLogging (q : Request) :
    ((r.withLogging logging).handle q).registry = (r.handle q).registry.withLogging logging ∧
      ((r.withLogging logging).handle q).answer = (r.handle q).answer := by
  cases q with
  | register name s =>
    have h := register_withLogging r logging name s
    exact ⟨h.registry, congrArg Answer.register h.result⟩
  | load text =>
    have h := load_withLogging r logging text
    exact ⟨h.registry, congrArg Answer.load h.result⟩
  | overloads | resolve | contains | write => exact ⟨rfl, rfl⟩

theorem run_withLogging (requests : List Request) :
    List.Forall₂ (fun a b : Reply =>
        b.registry = a.registry.withLogging logging ∧ b.answer = a.answer)
      (r.run requests) ((r.withLogging logging).run requests) := by
  induction requests generalizing r with
  | nil => exact .nil
  | cons q rest ih =>
    have hfirst := handle_withLogging r logging q
    refine .cons hfirst ?_
    rw [hfirst.1]
    exact ih (r.handle q).registry

/-- **The log decides over no answer.** Two new registries with the same checks
answer every request of a run alike, whatever their settings for the log are, and
after each request they show the same names, the same number of overloads and the
same text. -/
theorem logging_changes_no_answer (checks : Checks) (logging logging' : Logging)
    (requests : List Request) :
    List.Forall₂ (fun a b : Reply => a.answer = b.answer ∧
        a.registry.names = b.registry.names ∧ a.registry.size = b.registry.size ∧
        a.registry.isEmpty = b.registry.isEmpty ∧ a.registry.text = b.registry.text)
      ((new ⟨checks, logging⟩).run requests) ((new ⟨checks, logging'⟩).run requests) := by
  have hrun := run_withLogging (new ⟨checks, logging⟩) logging' requests
  refine hrun.imp ?_
  rintro a b ⟨hregistry, hanswer⟩
  rw [hregistry]
  exact ⟨hanswer.symm, rfl, rfl, rfl, rfl⟩

end Registry

end ExtensionCatalog
