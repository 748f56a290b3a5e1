import ExtensionCatalog.Proofs.Signature.Faults
import Mathlib.Order.Nat

/-!
# The verdict on a signature (spec §C.4)

The checks look through the types of a signature three times, each time from the
front, and the third time they pass over the length behind a pointer without
looking at it. What they report is all the same a fact about positions: the least
one at which the void stands, or else the least output column without a value
type, or else the least pointer of a row function that no length follows. No
pointer is passed over, because a length is none.

* `Verdict` — the verdict by least positions.
* `loosePointerFrom_eq_some_iff` — the walk over the arguments ends at the least
  loose pointer.
* `check_eq_iff_verdict` — the checks give this verdict and no other.
-/

namespace ExtensionCatalog

/-! ### Least positions -/

section Positions

variable {P : Nat → Prop} {i : Nat}

/-- Counted from `n`, a property that holds at the front is least there. -/
theorem exists_isLeast_iff_of_zero {n k : Nat} (h : P 0) :
    (∃ i, k = n + i ∧ IsLeast {i | P i} i) ↔ k = n := by
  constructor
  · rintro ⟨i, rfl, hi⟩
    have hle : i ≤ 0 := hi.2 h
    omega
  · rintro rfl
    exact ⟨0, rfl, h, fun j _ => Nat.zero_le j⟩

/-- Counted from `n`, a property that does not hold at the front is least where it
is least behind the front, counted from `n + 1`. -/
theorem exists_isLeast_iff_of_not_zero {n k : Nat} (h : ¬ P 0) :
    (∃ i, k = n + i ∧ IsLeast {i | P i} i) ↔
      ∃ i, k = n + 1 + i ∧ IsLeast {i | P (i + 1)} i := by
  constructor
  · rintro ⟨i, rfl, hi, hleast⟩
    cases i with
    | zero => exact absurd hi h
    | succ j =>
      exact ⟨j, by omega, hi, fun m hm => Nat.le_of_succ_le_succ (hleast hm)⟩
  · rintro ⟨j, rfl, hj, hleast⟩
    refine ⟨j + 1, by omega, hj, fun m hm => ?_⟩
    cases m with
    | zero => exact absurd hm h
    | succ m => exact Nat.succ_le_succ (hleast hm)

/-- A search for the least position fails exactly where there is none. -/
theorem eq_none_iff_of_isLeast {found : Option Nat}
    (h : ∀ i, found = some i ↔ IsLeast {i | P i} i) : found = none ↔ ∀ i, ¬ P i := by
  classical
  constructor
  · intro hnone i hi
    have hleast : IsLeast {i | P i} _ := Nat.isLeast_find ⟨i, hi⟩
    rw [← h, hnone] at hleast
    cases hleast
  · intro hall
    cases hfound : found with
    | none => rfl
    | some i => exact absurd ((h i).mp hfound).1 (hall i)

theorem findIdx?_eq_some_iff_isLeast {α : Type} {p : α → Bool} {l : List α} :
    l.findIdx? p = some i ↔ IsLeast {i | ∃ a, l[i]? = some a ∧ p a = true} i := by
  rw [List.findIdx?_eq_some_iff_getElem]
  constructor
  · rintro ⟨hi, hp, hbefore⟩
    refine ⟨⟨l[i], List.getElem?_eq_getElem hi, hp⟩, ?_⟩
    rintro j ⟨a, ha, hpa⟩
    obtain ⟨hj, rfl⟩ := List.getElem?_eq_some_iff.mp ha
    by_contra hlt
    exact hbefore j (by omega) hpa
  · rintro ⟨⟨a, ha, hpa⟩, hleast⟩
    obtain ⟨hi, rfl⟩ := List.getElem?_eq_some_iff.mp ha
    refine ⟨hi, hpa, fun j hj hpj => ?_⟩
    have hle : i ≤ j := hleast ⟨l[j], List.getElem?_eq_getElem _, hpj⟩
    omega

end Positions

/-! ### Faulty positions -/

/-- The integer scalars. -/
def NativeType.integers : List NativeType :=
  [scalar .int8, scalar .int16, scalar .int32, scalar .int64]

theorem NativeType.isLength_iff {t : NativeType} : t.isLength = true ↔ t ∈ integers := by
  cases t with
  | scalar s => cases s <;> decide
  | _ => simp [isLength, integers]

theorem NativeType.isPointer_of_isLength {t : NativeType} (h : t.isLength = true) :
    t.isPointer = false := by
  cases t with
  | scalar s => rfl
  | _ => cases h

namespace Signature

/-- The void stands at a position of the arguments and the output columns after
them. -/
def VoidAt (s : Signature) (i : Nat) : Prop :=
  (s.args ++ s.returns.columns)[i]? = some .void

/-- The output column at a position has no value type. -/
def ValuelessAt (s : Signature) (i : Nat) : Prop :=
  ∃ t, s.returns.columns[i]? = some t ∧ t.valueType? = none

/-- A pointer stands at a position of some arguments, and no integer scalar right
after it. -/
def LooseAt (args : List NativeType) (i : Nat) : Prop :=
  (∃ t, args[i]? = some t ∧ t.isPointer = true) ∧
    ∀ u, args[i + 1]? = some u → u ∉ NativeType.integers

/-- The verdict of the checks, by the least positions at which they fail. -/
inductive Verdict (s : Signature) (function : String) (strict : Bool) :
    Except SignatureError Unit → Prop where
  | void {i : Nat} : IsLeast {i | s.VoidAt i} i →
      Verdict s function strict (.error (.voidOperand function i))
  | valueless {i : Nat} {t : NativeType} : (∀ i, ¬ s.VoidAt i) →
      IsLeast {i | s.ValuelessAt i} i → s.returns.columns[i]? = some t →
      Verdict s function strict (.error (.outputWithoutValueType function i t))
  | loose {i : Nat} : (∀ i, ¬ s.VoidAt i) → (∀ i, ¬ s.ValuelessAt i) →
      strict = true → s.isRow = true → IsLeast {i | LooseAt s.args i} i →
      Verdict s function strict (.error (.pointerWithoutLength function i))
  | passed : (∀ i, ¬ s.VoidAt i) → (∀ i, ¬ s.ValuelessAt i) →
      (strict = true → s.isRow = true → ∀ i, ¬ LooseAt s.args i) →
      Verdict s function strict (.ok ())

/-! ### The void and the output columns -/

theorem voidPosition?_eq_some_iff {s : Signature} {i : Nat} :
    s.voidPosition? = some i ↔ IsLeast {i | s.VoidAt i} i := by
  rw [voidPosition?, findIdx?_eq_some_iff_isLeast]
  simp only [VoidAt, decide_eq_true_eq, exists_eq_right]

theorem voidPosition?_eq_none_iff {s : Signature} :
    s.voidPosition? = none ↔ ∀ i, ¬ s.VoidAt i :=
  eq_none_iff_of_isLeast fun _ => voidPosition?_eq_some_iff

theorem map_valuelessOutput?_eq_some_iff {s : Signature} {i : Nat} :
    s.valuelessOutput?.map Prod.snd = some i ↔ IsLeast {i | s.ValuelessAt i} i := by
  have hindex : s.valuelessOutput?.map Prod.snd =
      s.returns.columns.findIdx? fun t => t.valueType?.isNone := by
    rw [List.findIdx?_eq_fst_find?_zipIdx]
    rfl
  rw [hindex, findIdx?_eq_some_iff_isLeast]
  simp only [ValuelessAt, Option.isNone_iff_eq_none]

theorem valuelessOutput?_eq_some_iff {s : Signature} {i : Nat} {t : NativeType} :
    s.valuelessOutput? = some (t, i) ↔
      IsLeast {i | s.ValuelessAt i} i ∧ s.returns.columns[i]? = some t := by
  rw [← map_valuelessOutput?_eq_some_iff]
  constructor
  · intro h
    exact ⟨by rw [h]; rfl, List.mem_zipIdx_iff_getElem?.mp (List.mem_of_find?_eq_some h)⟩
  · rintro ⟨h, ht⟩
    obtain ⟨⟨u, j⟩, hfound, rfl⟩ := Option.map_eq_some_iff.mp h
    have hu := List.mem_zipIdx_iff_getElem?.mp (List.mem_of_find?_eq_some hfound)
    obtain rfl : u = t := Option.some.inj (hu.symm.trans ht)
    exact hfound

theorem valuelessOutput?_eq_none_iff_forall_not {s : Signature} :
    s.valuelessOutput? = none ↔ ∀ i, ¬ s.ValuelessAt i := by
  rw [← eq_none_iff_of_isLeast fun _ => map_valuelessOutput?_eq_some_iff, Option.map_eq_none_iff]

/-! ### Loose pointers -/

theorem not_isLeast_looseAt_nil (n k : Nat) :
    ¬ ∃ i, k = n + i ∧ IsLeast {i | LooseAt [] i} i := by
  rintro ⟨i, -, ⟨⟨t, ht, -⟩, -⟩, -⟩
  cases ht

theorem looseAt_zero_iff {t : NativeType} {rest : List NativeType} :
    LooseAt (t :: rest) 0 ↔
      t.isPointer = true ∧ ∀ u, rest[0]? = some u → u.isLength = false := by
  simp [LooseAt, ← NativeType.isLength_iff]

/-- The walk from position `n` ends at the least loose pointer. -/
theorem loosePointerFrom_eq_some_iff {n k : Nat} {args : List NativeType} :
    loosePointerFrom n args = some k ↔ ∃ i, k = n + i ∧ IsLeast {i | LooseAt args i} i := by
  fun_induction loosePointerFrom n args with
  | case1 n => simp only [not_isLeast_looseAt_nil, reduceCtorEq]
  | case2 n t hpointer =>
    have hzero : LooseAt [t] 0 := by simp [looseAt_zero_iff, hpointer]
    rw [exists_isLeast_iff_of_zero hzero, Option.some.injEq, eq_comm]
  | case3 n t hpointer =>
    have hzero : ¬ LooseAt [t] 0 := by simp [looseAt_zero_iff, hpointer]
    rw [exists_isLeast_iff_of_not_zero hzero]
    simp only [reduceCtorEq, false_iff]
    exact not_isLeast_looseAt_nil (n + 1) k
  | case4 n t u rest hpointer hlength ih =>
    -- The length behind the pointer is no pointer itself.
    have hzero : ¬ LooseAt (t :: u :: rest) 0 := by simp [looseAt_zero_iff, hlength]
    have hone : ¬ LooseAt (u :: rest) 0 := by
      simp [looseAt_zero_iff, NativeType.isPointer_of_isLength hlength]
    rw [ih, exists_isLeast_iff_of_not_zero hzero]
    exact (exists_isLeast_iff_of_not_zero hone).symm
  | case5 n t u rest hpointer hlength =>
    have hzero : LooseAt (t :: u :: rest) 0 := by simp [looseAt_zero_iff, hpointer, hlength]
    rw [exists_isLeast_iff_of_zero hzero, Option.some.injEq, eq_comm]
  | case6 n t u rest hpointer ih =>
    have hzero : ¬ LooseAt (t :: u :: rest) 0 := by simp [looseAt_zero_iff, hpointer]
    rw [ih]
    exact (exists_isLeast_iff_of_not_zero hzero).symm

theorem loosePointerFrom_zero_eq_some_iff {i : Nat} {args : List NativeType} :
    loosePointerFrom 0 args = some i ↔ IsLeast {i | LooseAt args i} i := by
  simp [loosePointerFrom_eq_some_iff]

theorem loosePointerFrom_zero_eq_none_iff {args : List NativeType} :
    loosePointerFrom 0 args = none ↔ ∀ i, ¬ LooseAt args i :=
  eq_none_iff_of_isLeast fun _ => loosePointerFrom_zero_eq_some_iff

theorem loosePointer?_eq_some_iff {s : Signature} {i : Nat} :
    s.loosePointer? = some i ↔ s.isRow = true ∧ IsLeast {i | LooseAt s.args i} i := by
  unfold loosePointer? isRow
  cases s.returns with
  | row type => simp [loosePointerFrom_zero_eq_some_iff]
  | table columns => simp

theorem loosePointer?_eq_none_iff {s : Signature} :
    s.loosePointer? = none ↔ (s.isRow = true → ∀ i, ¬ LooseAt s.args i) := by
  unfold loosePointer? isRow
  cases s.returns with
  | row type => simp [loosePointerFrom_zero_eq_none_iff]
  | table columns => simp

/-! ### The verdict -/

theorem verdict_check (s : Signature) (function : String) (strict : Bool) :
    s.Verdict function strict (s.check function strict) := by
  unfold check
  cases hvoid : s.voidPosition? with
  | some i => exact .void (voidPosition?_eq_some_iff.mp hvoid)
  | none =>
    have hnoVoid := voidPosition?_eq_none_iff.mp hvoid
    cases houtput : s.valuelessOutput? with
    | some output =>
      obtain ⟨hleast, ht⟩ := valuelessOutput?_eq_some_iff.mp houtput
      exact .valueless hnoVoid hleast ht
    | none =>
      have hvalued := valuelessOutput?_eq_none_iff_forall_not.mp houtput
      cases strict with
      | false => exact .passed hnoVoid hvalued (fun h => by cases h)
      | true =>
        rw [if_pos rfl]
        cases hpointer : s.loosePointer? with
        | some i =>
          obtain ⟨hrow, hleast⟩ := loosePointer?_eq_some_iff.mp hpointer
          exact .loose hnoVoid hvalued rfl hrow hleast
        | none =>
          exact .passed hnoVoid hvalued fun _ => loosePointer?_eq_none_iff.mp hpointer

/-- There is one verdict only. -/
theorem Verdict.eq_check {s : Signature} {function : String} {strict : Bool}
    {v : Except SignatureError Unit} (h : s.Verdict function strict v) :
    s.check function strict = v := by
  unfold check
  cases h with
  | void hleast => rw [voidPosition?_eq_some_iff.mpr hleast]
  | valueless hnoVoid hleast ht =>
    rw [voidPosition?_eq_none_iff.mpr hnoVoid, valuelessOutput?_eq_some_iff.mpr ⟨hleast, ht⟩]
  | loose hnoVoid hvalued hstrict hrow hleast =>
    rw [voidPosition?_eq_none_iff.mpr hnoVoid,
      valuelessOutput?_eq_none_iff_forall_not.mpr hvalued, hstrict, if_pos rfl,
      loosePointer?_eq_some_iff.mpr ⟨hrow, hleast⟩]
  | passed hnoVoid hvalued hcounted =>
    rw [voidPosition?_eq_none_iff.mpr hnoVoid,
      valuelessOutput?_eq_none_iff_forall_not.mpr hvalued]
    cases strict with
    | false => rfl
    | true =>
      rw [if_pos rfl, loosePointer?_eq_none_iff.mpr (hcounted rfl)]

/-! ### No pointer is passed over -/

theorem exists_integer_of_not_looseAt {args : List NativeType} {i : Nat} {t : NativeType}
    (h : ¬ LooseAt args i) (ht : args[i]? = some t) (hpointer : t.isPointer = true) :
    ∃ u ∈ NativeType.integers, args[i + 1]? = some u := by
  by_contra hnone
  refine h ⟨⟨t, ht, hpointer⟩, fun u hu hinteger => ?_⟩
  exact hnone ⟨u, hinteger, hu⟩

theorem Admissible.not_looseAt {s : Signature} (h : s.Admissible true) (hrow : s.isRow = true)
    (i : Nat) : ¬ LooseAt s.args i :=
  loosePointer?_eq_none_iff.mp (h.pointersCounted rfl) hrow i

/-- **The verdict of the checks is that by least positions.** The least void among
the arguments and the output columns after them comes first, then the least output
column without a value type, which is reported with its position among the output
columns and its name, then, for row functions under strict checking, the least
pointer without an integer scalar right behind it. So every pointer of a row
function that passes has its length, those included that stand where the walk over
the arguments has jumped to. -/
theorem check_eq_iff_verdict (s : Signature) (function : String) (strict : Bool) :
    (∀ v, s.check function strict = v ↔ s.Verdict function strict v) ∧
      (∀ i t, (SignatureError.outputWithoutValueType function i t).message =
        "Output " ++ toString i ++ " of '" ++ function ++ "' has no SQL column type (" ++
          t.codeName ++ ")") ∧
      (s.isRow = true → s.check function true = .ok () → ∀ i t, s.args[i]? = some t →
        t.isPointer = true → ∃ u ∈ NativeType.integers, s.args[i + 1]? = some u) := by
  refine ⟨fun v => ⟨?_, Verdict.eq_check⟩, fun _ _ => rfl, ?_⟩
  · rintro rfl
    exact verdict_check s function strict
  · intro hrow hcheck i t ht hpointer
    have hadmissible : s.Admissible true := check_eq_ok_iff.mp hcheck
    exact exists_integer_of_not_looseAt (hadmissible.not_looseAt hrow i) ht hpointer

/-- The length behind the first pointer is jumped over, the pointer behind it is
not. -/
example : (row [.pointer .int32, .scalar .int64, .pointer .bool, .scalar .double] .void).check
    "f" true = .error (.pointerWithoutLength "f" 2) := rfl

end Signature

end ExtensionCatalog
