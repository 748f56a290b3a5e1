import ExtensionCatalog.Signature.Check
import ExtensionCatalog.Proofs.Signature.RoundTrip
import ExtensionCatalog.Proofs.Traversal

/-!
# Signatures that pass their checks (spec §C.4)

The verdict of the checks on a signature does not depend on the name for which
they are made, nor on names and options of the signature. A signature that
passes them has operands: every argument that a caller writes has a family.

* `check_eq_ok_iff` — passing the checks, as a condition on the signature alone.
* `Admissible.operandFamilies` — no fault when a call is matched with it.
-/

namespace ExtensionCatalog.Signature

/-- The signature passes its checks, whatever the name. -/
structure Admissible (s : Signature) (strict : Bool) : Prop where
  noVoid : s.voidPosition? = none
  outputsValued : s.valuelessOutput? = none
  pointersCounted : strict = true → s.loosePointer? = none

theorem check_eq_ok_iff {s : Signature} {function : String} {strict : Bool} :
    s.check function strict = .ok () ↔ s.Admissible strict := by
  unfold check
  constructor
  · intro h
    split at h
    · cases h
    · rename_i hvoid
      split at h
      · cases h
      · rename_i hvalued
        refine ⟨hvoid, hvalued, fun hstrict => ?_⟩
        subst hstrict
        simp only [if_true] at h
        split at h
        · cases h
        · assumption
  · rintro ⟨hvoid, hvalued, hcounted⟩
    rw [hvoid, hvalued]
    cases strict with
    | false => rfl
    | true =>
      rw [if_pos rfl, hcounted rfl]

instance (s : Signature) (strict : Bool) : Decidable (s.Admissible strict) :=
  decidable_of_iff
    (s.voidPosition? = none ∧ s.valuelessOutput? = none ∧
      (strict = true → s.loosePointer? = none))
    ⟨fun h => ⟨h.1, h.2.1, h.2.2⟩,
      fun h => ⟨h.noVoid, h.outputsValued, h.pointersCounted⟩⟩

theorem admissible_bare {s : Signature} {strict : Bool} :
    s.bare.Admissible strict ↔ s.Admissible strict :=
  ⟨fun h => ⟨h.noVoid, h.outputsValued, h.pointersCounted⟩,
    fun h => ⟨h.noVoid, h.outputsValued, h.pointersCounted⟩⟩

/-! ### Types -/

/-- What tells overloads apart. -/
def types (s : Signature) : List NativeType × Returns := (s.args, s.returns)

@[simp] theorem types_bare (s : Signature) : s.bare.types = s.types := rfl

theorem any_sameTypes (overloads : List Signature) (s : Signature) :
    overloads.any (·.sameTypes s) = decide (s.types ∈ overloads.map types) := by
  rw [Bool.eq_iff_iff, List.any_eq_true, decide_eq_true_iff, List.mem_map]
  simp only [sameTypes_iff, types, Prod.mk.injEq]

/-! ### Operands -/

theorem mem_of_mem_writtenArgs {t : NativeType} {args : List NativeType}
    (h : t ∈ writtenArgs args) : t ∈ args := by
  fun_induction writtenArgs args with
  | case1 => exact h
  | case2 => exact h
  | case3 t' u rest ihpointer ihother =>
    rcases List.mem_cons.mp h with rfl | h
    · exact List.mem_cons_self
    · split at h
      · exact List.mem_cons_of_mem _ (List.mem_cons_of_mem _ (ihpointer h))
      · exact List.mem_cons_of_mem _ (ihother h)

theorem family_of_ne_void {t : NativeType} (h : t ≠ .void) : ∃ f, t.family = .ok f := by
  cases hsql : t.sqlType? with
  | none => exact absurd (NativeType.sqlType?_eq_none_iff.mp hsql) h
  | some sql =>
    refine ⟨sql.family, ?_⟩
    rw [NativeType.family, NativeType.sqlType_eq_ok_iff.mpr hsql]
    rfl

theorem Admissible.ne_void {s : Signature} {strict : Bool} (h : s.Admissible strict) :
    ∀ t ∈ s.args, t ≠ .void := by
  intro t ht
  have hall := List.findIdx?_eq_none_iff.mp h.noVoid
  simpa using hall t (List.mem_append_left _ ht)

/-- A signature that passes its checks has operands. -/
theorem Admissible.operandFamilies {s : Signature} {strict : Bool} (h : s.Admissible strict) :
    ∃ families, s.operandFamilies = .ok families := by
  unfold Signature.operandFamilies
  cases s.returns with
  | row type =>
    exact exists_mapM_eq_ok_iff.mpr fun t ht =>
      family_of_ne_void (h.ne_void t (mem_of_mem_writtenArgs ht))
  | table columns =>
    exact exists_mapM_eq_ok_iff.mpr fun t ht => family_of_ne_void (h.ne_void t ht)

end ExtensionCatalog.Signature
