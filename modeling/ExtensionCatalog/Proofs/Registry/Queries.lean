import ExtensionCatalog.Proofs.Registry.Invariant
import ExtensionCatalog.Proofs.Signature.Faults

/-!
# Queries are answered (spec §C.4)

What is stored in a registry has passed its checks, so no question about it
faults: neither the search for the overload of a call, which asks one overload
after the other for its operands, nor the questions about a single overload.
Only the question for the result of a table function and that for the output
columns of a row function have no answer, and they are not asked.

* `firstMatch_eq` — a search without faults finds the first overload of the
  operands.
* `queries_answered` — no query faults, whatever the settings are and whatever
  was asked of the registry before.
-/

namespace ExtensionCatalog.Registry

/-- A search among overloads that have operands finds the first one of the
operands of the call. -/
theorem firstMatch_eq (operands : List SqlFamily) {overloads : List Signature}
    (h : ∀ s ∈ overloads, ∃ families, s.operandFamilies = .ok families) :
    firstMatch operands overloads =
      .ok (overloads.find? fun s => s.operandFamilies = .ok operands) := by
  induction overloads with
  | nil => rfl
  | cons s overloads ih =>
    obtain ⟨families, hfamilies⟩ := h s List.mem_cons_self
    have hrest := ih fun t ht => h t (List.mem_cons_of_mem _ ht)
    rw [firstMatch, hfamilies, List.find?_cons]
    by_cases hmatch : families = operands
    · simp [hfamilies, hmatch, bind, Except.bind, pure, Except.pure]
    · simpa [hfamilies, hmatch, bind, Except.bind] using hrest

theorem Consistent.resolve_eq {r : Registry} (h : r.Consistent) (name : String)
    (operands : List SqlFamily) :
    r.resolve name operands =
      .ok ((r.overloads name).find? fun s => s.operandFamilies = .ok operands) :=
  firstMatch_eq operands fun s hs => (h.admissible_overloads name s hs).operandFamilies

/-- **No query faults**: a search always ends with an overload or without one,
and of every overload that is stored the operands are known, for a table
function one SQL type of single values for each output column, and for a row
function the SQL type of the result or that there is none. -/
theorem queries_answered (settings : Settings) (requests : List Request) :
    let r := (new settings).after requests
    (∀ name operands, ∃ found, r.resolve name operands = .ok found) ∧
      ∀ e ∈ r.entries, ∀ s ∈ e.overloads,
        (∃ families, s.operandFamilies = .ok families) ∧
          (s.isTable = true → ∃ types, s.sqlOutputs = .ok types ∧
            types.length = s.returns.columns.length ∧ ∀ t ∈ types, t.isScalar = true) ∧
          (s.isRow = true → ∃ result, s.sqlResult = .ok result) := by
  intro r
  have h : r.Consistent := consistent_after settings requests
  refine ⟨fun name operands => ⟨_, h.resolve_eq name operands⟩, ?_⟩
  intro e he s hs
  have hadmissible : s.Admissible r.settings.checks.strictPointers :=
    (h.valid e he).admissible s hs
  exact ⟨hadmissible.operandFamilies, hadmissible.sqlOutputs,
    Signature.exists_sqlResult_of_isRow⟩

end ExtensionCatalog.Registry
