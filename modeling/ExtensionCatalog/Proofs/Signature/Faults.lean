import ExtensionCatalog.Proofs.Signature.Check

/-!
# When a question about a signature faults

The operands of a call fault at the void and at nothing else, and only if a
caller writes it: the argument after a pointer of a row function is never looked
at. The output columns fault at a type without a value type; any other column
has the type of a single value in SQL, never that of a composite one.

A signature that passes its checks, strict ones or not, meets neither.

* `exists_operandFamilies_iff`, `exists_sqlOutputs_iff` — when the questions are
  answered.
* `admissible_false_iff` — the checks, as a condition on the types.
* `Admissible.sqlOutputs` — the answer for the output columns.
-/

namespace ExtensionCatalog

namespace NativeType

theorem exists_family_iff {t : NativeType} : (∃ f, t.family = .ok f) ↔ t ≠ .void := by
  constructor
  · rintro ⟨f, hf⟩ rfl
    cases hf
  · exact Signature.family_of_ne_void

/-- The type in SQL of an output column: that of its single values. -/
def columnType (t : NativeType) : Except Fault SqlType := do
  (← t.valueType).sqlType

theorem columnType_eq_ok_iff {t : NativeType} {sql : SqlType} :
    t.columnType = .ok sql ↔ ∃ v, t.valueType? = some v ∧ v.sqlType? = some sql := by
  rw [columnType, bind_eq_ok_iff]
  simp only [valueType_eq_ok_iff, sqlType_eq_ok_iff]

/-- A value type is the type of single values. -/
theorem exists_sqlType?_of_valueType? {t v : NativeType} (h : t.valueType? = some v) :
    ∃ sql, v.sqlType? = some sql ∧ sql.isScalar = true := by
  cases t with
  | scalar s | pointer s | array s | column s | columnList s =>
    cases h
    cases s <;> exact ⟨_, rfl, rfl⟩
  | textDict | columnTextDict | columnListTextDict | timestamp | columnTimestamp =>
    cases h
    exact ⟨_, rfl, rfl⟩
  | void | geoPoint | geoLineString | geoPolygon | geoMultiPolygon | cursor | textNone => cases h

theorem isScalar_of_columnType {t : NativeType} {sql : SqlType} (h : t.columnType = .ok sql) :
    sql.isScalar = true := by
  obtain ⟨v, hv, hsql⟩ := columnType_eq_ok_iff.mp h
  obtain ⟨sql', hsql', hscalar⟩ := exists_sqlType?_of_valueType? hv
  rw [hsql] at hsql'
  cases hsql'
  exact hscalar

theorem exists_columnType_iff {t : NativeType} :
    (∃ sql, t.columnType = .ok sql) ↔ t.valueType?.isSome = true := by
  simp only [columnType_eq_ok_iff]
  constructor
  · rintro ⟨sql, v, hv, -⟩
    rw [hv]
    rfl
  · intro h
    obtain ⟨v, hv⟩ := Option.isSome_iff_exists.mp h
    obtain ⟨sql, hsql, -⟩ := exists_sqlType?_of_valueType? hv
    exact ⟨sql, v, hv, hsql⟩

end NativeType

namespace Signature

/-! ### The operands of a call -/

/-- The types of the operands that a caller writes. -/
def operandTypes (s : Signature) : List NativeType :=
  match s.returns with
  | .row _ => writtenArgs s.args
  | .table _ => s.args

theorem operandTypes_of_isRow {s : Signature} (h : s.isRow = true) :
    s.operandTypes = writtenArgs s.args := by
  unfold isRow at h
  unfold operandTypes
  cases hreturns : s.returns with
  | row type => rfl
  | table columns => simp [hreturns] at h

theorem operandTypes_of_isTable {s : Signature} (h : s.isTable = true) :
    s.operandTypes = s.args := by
  unfold isTable isRow at h
  unfold operandTypes
  cases hreturns : s.returns with
  | row type => simp [hreturns] at h
  | table columns => rfl

theorem operandFamilies_eq (s : Signature) :
    s.operandFamilies = s.operandTypes.mapM NativeType.family := by
  unfold operandFamilies operandTypes
  cases s.returns <;> rfl

theorem exists_operandFamilies_iff {s : Signature} :
    (∃ families, s.operandFamilies = .ok families) ↔ .void ∉ s.operandTypes := by
  rw [operandFamilies_eq, exists_mapM_eq_ok_iff]
  simp only [NativeType.exists_family_iff]
  exact ⟨fun h hvoid => h _ hvoid rfl, fun h t ht hvoid => h (hvoid ▸ ht)⟩

/-! ### Results -/

theorem exists_sqlResult_of_isRow {s : Signature} (h : s.isRow = true) :
    ∃ result, s.sqlResult = .ok result := by
  unfold isRow at h
  unfold sqlResult result
  split at h
  · exact ⟨_, rfl⟩
  · cases h

theorem sqlOutputs_of_isTable {s : Signature} (h : s.isTable = true) :
    s.sqlOutputs = s.returns.columns.mapM NativeType.columnType := by
  unfold isTable isRow at h
  unfold sqlOutputs outputs
  cases hreturns : s.returns with
  | row type => simp [hreturns] at h
  | table columns => rfl

theorem exists_sqlOutputs_iff {s : Signature} (h : s.isTable = true) :
    (∃ types, s.sqlOutputs = .ok types) ↔
      ∀ t ∈ s.returns.columns, t.valueType?.isSome = true := by
  rw [sqlOutputs_of_isTable h, exists_mapM_eq_ok_iff]
  simp only [NativeType.exists_columnType_iff]

/-! ### Signatures that pass their checks -/

theorem valuelessOutput?_eq_none_iff {s : Signature} :
    s.valuelessOutput? = none ↔ ∀ t ∈ s.returns.columns, t.valueType?.isSome = true := by
  have hzip : (∀ output ∈ s.returns.columns.zipIdx, output.1.valueType?.isSome = true) ↔
      ∀ t ∈ s.returns.columns, t.valueType?.isSome = true := by
    conv_rhs => rw [← List.zipIdx_map_fst 0 s.returns.columns]
    rw [List.forall_mem_map]
  rw [← hzip, valuelessOutput?, List.find?_eq_none]
  simp only [Bool.not_eq_true, Option.isNone_eq_false_iff]

/-- The checks, apart from the strict one, as a condition on the types. The void
is no output column, since it has no value type. -/
theorem admissible_false_iff {s : Signature} :
    s.Admissible false ↔
      .void ∉ s.args ∧ ∀ t ∈ s.returns.columns, t.valueType?.isSome = true := by
  constructor
  · intro h
    exact ⟨fun hvoid => h.ne_void _ hvoid rfl, valuelessOutput?_eq_none_iff.mp h.outputsValued⟩
  · rintro ⟨hargs, hcolumns⟩
    refine ⟨?_, valuelessOutput?_eq_none_iff.mpr hcolumns, fun hstrict => by cases hstrict⟩
    rw [voidPosition?, List.findIdx?_eq_none_iff]
    intro t ht
    rw [decide_eq_false_iff_not]
    rintro rfl
    rcases List.mem_append.mp ht with ht | ht
    · exact hargs ht
    · cases hcolumns _ ht

theorem Admissible.lenient {s : Signature} {strict : Bool} (h : s.Admissible strict) :
    s.Admissible false :=
  ⟨h.noVoid, h.outputsValued, fun hstrict => by cases hstrict⟩

/-- The output columns of a table function that passes its checks: one type of
single values for each. -/
theorem Admissible.sqlOutputs {s : Signature} {strict : Bool} (h : s.Admissible strict)
    (htable : s.isTable = true) :
    ∃ types, s.sqlOutputs = .ok types ∧ types.length = s.returns.columns.length ∧
      ∀ t ∈ types, t.isScalar = true := by
  obtain ⟨types, htypes⟩ :=
    (exists_sqlOutputs_iff htable).mpr (admissible_false_iff.mp h.lenient).2
  refine ⟨types, htypes, ?_⟩
  rw [sqlOutputs_of_isTable htable] at htypes
  refine ⟨(mapM_eq_ok_iff.mp htypes).length_eq.symm, ?_⟩
  rw [forall_mem_iff_of_mapM_eq_ok htypes]
  exact fun _ _ _ hcolumn => NativeType.isScalar_of_columnType hcolumn

end Signature

end ExtensionCatalog
