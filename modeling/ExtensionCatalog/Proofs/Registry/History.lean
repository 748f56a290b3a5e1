import ExtensionCatalog.Proofs.Registry.Load
import ExtensionCatalog.Proofs.Registry.Queries

/-!
# The history of a registry (spec §C.5)

Requests make attempts to register overloads: a registration makes one, and
loading a text makes one for each of its documents in turn, until a document
declares nothing or an attempt fails. What can be asked of a registry is settled
by these attempts, however they came about: the overloads of a name are those
whose attempts succeeded under this name in any letter case, in their order, and
a call means the first of them that takes its operands. Attempts are only added
to a history, so a call keeps the overload that it once had.

* `attempts`, `history` — the attempts of one request, and those of a run.
* `after_eq_addAll` — the registry after a run, by its history.
* `overloads_after` — the overloads after a run, by its history.
* `resolve_first_registered` — the overload of a call, now and later.
-/

namespace ExtensionCatalog

/-- An attempt to register an overload under a name, and what came of it. -/
structure Attempt where
  name : String
  signature : Signature
  result : Except SignatureError Unit

namespace Registry

/-! ### Histories -/

/-- The attempts to register what documents declare, up to the first failure. -/
def attemptsAll (r : Registry) : List Document → List Attempt
  | [] => []
  | d :: rest =>
    match d.decode with
    | .error _ => []
    | .ok (name, s) =>
      let first := r.register name s
      ⟨name, s, first.result⟩ ::
        match first.result with
        | .error _ => []
        | .ok () => first.registry.attemptsAll rest

/-- The attempts of a request; queries make none. -/
def attempts (r : Registry) : Request → List Attempt
  | .register name s => [⟨name, s, (r.register name s).result⟩]
  | .load text =>
    match Document.parseList? text with
    | none => []
    | some documents => r.attemptsAll documents
  | .overloads _ | .resolve _ _ | .contains _ | .write => []

/-- The attempts of requests that are answered one after the other. -/
def history (r : Registry) : List Request → List Attempt
  | [] => []
  | q :: rest => r.attempts q ++ (r.handle q).registry.history rest

/-- What was registered under a name, in any letter case. -/
def registered (name : String) (attempts : List Attempt) : List Signature :=
  (attempts.filter fun a => a.result.isOk && Text.foldName a.name = Text.foldName name).map
    Attempt.signature

/-- The attempts that succeeded. -/
def succeeded (attempts : List Attempt) : List Attempt :=
  attempts.filter fun a => a.result.isOk

theorem registered_eq (name : String) (attempts : List Attempt) :
    registered name attempts =
      ((succeeded attempts).filter fun a => Text.foldName a.name = Text.foldName name).map
        Attempt.signature := by
  rw [registered, succeeded, List.filter_filter]
  simp only [Bool.and_comm]

theorem succeeded_append (before after : List Attempt) :
    succeeded (before ++ after) = succeeded before ++ succeeded after :=
  List.filter_append _ _

/-- A document that declares a signature makes an attempt, and the other documents
follow unless it is refused. -/
theorem attemptsAll_cons {r : Registry} {d : Document} {rest : List Document} {name : String}
    {s : Signature} (h : d.decode = .ok (name, s)) :
    r.attemptsAll (d :: rest) = match r.refusal? name s with
      | some e => [⟨name, s, .error e⟩]
      | none => ⟨name, s, .ok ()⟩ :: (r.add name s).attemptsAll rest := by
  rw [attemptsAll, h]
  simp only [register_eq]
  cases r.refusal? name s <;> rfl

/-! ### Registries by the history -/

/-- The registry with the overloads of some attempts added, one after the other. -/
def addAll (r : Registry) (attempts : List Attempt) : Registry :=
  attempts.foldl (fun r a => r.add a.name a.signature) r

theorem addAll_append (r : Registry) (before after : List Attempt) :
    r.addAll (before ++ after) = (r.addAll before).addAll after :=
  List.foldl_append

theorem registry_register (r : Registry) (name : String) (s : Signature) :
    (r.register name s).registry =
      r.addAll (succeeded [⟨name, s, (r.register name s).result⟩]) := by
  rw [register_eq]
  cases r.refusal? name s <;> rfl

theorem registry_registerAll (r : Registry) (documents : List Document) :
    (r.registerAll documents).registry = r.addAll (succeeded (r.attemptsAll documents)) := by
  induction documents generalizing r with
  | nil => rfl
  | cons d rest ih =>
    cases hdecode : d.decode with
    | error e =>
      rw [registerAll, attemptsAll, hdecode]
      rfl
    | ok declared =>
      obtain ⟨name, s⟩ := declared
      rw [registerAll_cons hdecode, attemptsAll_cons hdecode]
      cases r.refusal? name s with
      | some e => rfl
      | none => exact ih (r.add name s)

theorem registry_handle (r : Registry) (q : Request) :
    (r.handle q).registry = r.addAll (succeeded (r.attempts q)) := by
  cases q with
  | register name s => exact registry_register r name s
  | load text =>
    rw [handle, attempts]
    cases hparse : Document.parseList? text with
    | none =>
      rw [load, hparse]
      rfl
    | some documents =>
      dsimp only
      rw [(load_of_parseList? hparse).1]
      exact registry_registerAll r documents
  | overloads | resolve | contains | write => rfl

/-- **The registry after a run** is made by its history: the attempts that succeeded
add their overloads, and nothing else leaves a trace. -/
theorem after_eq_addAll (r : Registry) (requests : List Request) :
    r.after requests = r.addAll (succeeded (r.history requests)) := by
  induction requests generalizing r with
  | nil => rfl
  | cons q rest ih =>
    rw [history, succeeded_append, addAll_append, ← registry_handle]
    exact ih (r.handle q).registry

theorem overloads_addAll (r : Registry) (attempts : List Attempt) (m : String) :
    (r.addAll attempts).overloads m = r.overloads m ++
      (attempts.filter fun a => Text.foldName a.name = Text.foldName m).map
        Attempt.signature := by
  induction attempts generalizing r with
  | nil => exact (List.append_nil _).symm
  | cons a attempts ih =>
    have hrest := ih (r.add a.name a.signature)
    by_cases h : Text.foldName a.name = Text.foldName m
    · rw [overloads_add_of_eq h] at hrest
      simpa [addAll, h] using hrest
    · rw [overloads_add_of_ne h] at hrest
      simpa [addAll, h] using hrest

theorem size_addAll (r : Registry) (attempts : List Attempt) :
    (r.addAll attempts).size = r.size + attempts.length := by
  induction attempts generalizing r with
  | nil => rfl
  | cons a attempts ih =>
    have hrest := ih (r.add a.name a.signature)
    rw [size_add] at hrest
    rw [List.length_cons]
    exact hrest.trans (by omega)

/-- **The overloads after a run** are those from before it and then those that
were registered in it, in the order of their attempts. -/
theorem overloads_after (r : Registry) (requests : List Request) (m : String) :
    (r.after requests).overloads m = r.overloads m ++ registered m (r.history requests) := by
  rw [after_eq_addAll, overloads_addAll, ← registered_eq]

theorem size_after (r : Registry) (requests : List Request) :
    (r.after requests).size = r.size + (succeeded (r.history requests)).length := by
  rw [after_eq_addAll, size_addAll]

/-- **A call means the overload that was registered first** among those of its
name, in any letter case, that take its operands. Whatever is asked afterwards
is registered behind the overloads that are there, so a call that has found its
overload finds it again. -/
theorem resolve_first_registered (settings : Settings) (requests : List Request)
    (name : String) (operands : List SqlFamily) :
    let r := (new settings).after requests
    let before := registered name ((new settings).history requests)
    r.overloads name = before ∧
      r.resolve name operands = .ok (before.find? fun s => s.operandFamilies = .ok operands) ∧
      ∀ later, r.overloads name <+: (r.after later).overloads name ∧
        ∀ s, r.resolve name operands = .ok (some s) →
          (r.after later).resolve name operands = .ok (some s) := by
  intro r before
  have hbefore : r.overloads name = before := overloads_after (new settings) requests name
  have h : r.Consistent := consistent_after settings requests
  refine ⟨hbefore, by rw [h.resolve_eq, hbefore], ?_⟩
  intro later
  have hlater : (r.after later).Consistent := by
    rw [← after_append]
    exact consistent_after settings (requests ++ later)
  have happend := overloads_after r later name
  refine ⟨⟨_, happend.symm⟩, ?_⟩
  intro s hs
  rw [h.resolve_eq, Except.ok.injEq] at hs
  rw [hlater.resolve_eq, happend, List.find?_append, hs, Option.some_or]

end Registry

end ExtensionCatalog
