import ExtensionCatalog.Proofs.Signature.Verdict

/-!
# Operands by position (spec §4.3)

The operands of a row function come from a walk over its arguments that takes each
pointer together with whatever stands behind it. After a strict check, what stands
there is always a length and never another pointer, so the walk can be replaced by
a rule for each argument on its own: a caller writes it unless a pointer stands
right before it.

* `mem_behindPointers_iff` — the arguments that are left out, by position.
* `writtenArgs_eq` — the walk keeps the others.
* `operands_by_position` — the operands of a row function that passed the strict
  check, and those of a table function.
-/

namespace ExtensionCatalog.Signature

/-- Each argument with whether a pointer stands right before it; `lead` says it of
the first one. -/
def withLead (lead : Bool) (args : List NativeType) : List (NativeType × Bool) :=
  args.zip (lead :: args.map NativeType.isPointer)

/-- The arguments right behind a pointer. -/
def behindPointers (args : List NativeType) : List NativeType :=
  ((withLead false args).filter fun a => a.2).map Prod.fst

/-- The arguments that do not stand right behind a pointer. -/
def notBehindPointers (args : List NativeType) : List NativeType :=
  ((withLead false args).filter fun a => !a.2).map Prod.fst

theorem mem_behindPointers_iff {args : List NativeType} {u : NativeType} :
    u ∈ behindPointers args ↔
      ∃ i t, args[i]? = some t ∧ t.isPointer = true ∧ args[i + 1]? = some u := by
  have hlead : u ∈ behindPointers args ↔ (u, true) ∈ withLead false args := by
    simp [behindPointers]
  rw [hlead, withLead, List.mem_iff_getElem?]
  simp only [List.getElem?_zip_eq_some]
  constructor
  · rintro ⟨i, hu, hpointer⟩
    cases i with
    | zero => cases hpointer
    | succ i =>
      rw [List.getElem?_cons_succ, List.getElem?_map, Option.map_eq_some_iff] at hpointer
      obtain ⟨t, ht, hpointer⟩ := hpointer
      exact ⟨i, t, ht, hpointer, hu⟩
  · rintro ⟨i, t, ht, hpointer, hu⟩
    refine ⟨i + 1, hu, ?_⟩
    rw [List.getElem?_cons_succ, List.getElem?_map, ht]
    exact congrArg some hpointer

/-! ### The walk over the arguments -/

theorem isLength_of_not_looseAt {t u : NativeType} {rest : List NativeType}
    (h : ¬ LooseAt (t :: u :: rest) 0) (hpointer : t.isPointer = true) : u.isLength = true := by
  simpa [looseAt_zero_iff, hpointer] using h

/-- Where no pointer is loose, the walk keeps what does not stand behind one. -/
theorem writtenArgs_eq {args : List NativeType} (h : ∀ i, ¬ LooseAt args i) :
    writtenArgs args = notBehindPointers args := by
  fun_induction writtenArgs args with
  | case1 => rfl
  | case2 t => rfl
  | case3 t u rest ihpointer ihother =>
    cases hpointer : t.isPointer with
    | true =>
      have hlength : u.isLength = true := isLength_of_not_looseAt (h 0) hpointer
      rw [if_pos rfl, ihpointer fun i => h (i + 2)]
      simp [notBehindPointers, withLead, hpointer, NativeType.isPointer_of_isLength hlength]
    | false =>
      rw [if_neg (by simp), ihother fun i => h (i + 1)]
      simp [notBehindPointers, withLead, hpointer]

/-- Where no pointer is loose, the walk leaves out one argument for each. -/
theorem length_writtenArgs {args : List NativeType} (h : ∀ i, ¬ LooseAt args i) :
    (writtenArgs args).length + args.countP NativeType.isPointer = args.length := by
  fun_induction writtenArgs args with
  | case1 => rfl
  | case2 t =>
    have hpointer : t.isPointer = false := by simpa [looseAt_zero_iff] using h 0
    simp [hpointer]
  | case3 t u rest ihpointer ihother =>
    cases hpointer : t.isPointer with
    | true =>
      have hlength : u.isLength = true := isLength_of_not_looseAt (h 0) hpointer
      have hrest := ihpointer fun i => h (i + 2)
      rw [if_pos rfl, List.countP_cons_of_pos hpointer,
        List.countP_cons_of_neg (by simp [NativeType.isPointer_of_isLength hlength])]
      simp only [List.length_cons]
      omega
    | false =>
      have hrest := ihother fun i => h (i + 1)
      rw [if_neg (by simp), List.countP_cons_of_neg (by simp [hpointer])]
      simp only [List.length_cons] at hrest ⊢
      omega

theorem mem_integers_of_mem_behindPointers {args : List NativeType} (h : ∀ i, ¬ LooseAt args i)
    {u : NativeType} (hu : u ∈ behindPointers args) : u ∈ NativeType.integers := by
  obtain ⟨i, t, ht, hpointer, hsome⟩ := mem_behindPointers_iff.mp hu
  obtain ⟨v, hv, hsome'⟩ := exists_integer_of_not_looseAt (h i) ht hpointer
  rw [hsome] at hsome'
  cases hsome'
  exact hv

theorem isPointer_getLast? {args : List NativeType} (h : ∀ i, ¬ LooseAt args i) :
    ∀ t ∈ args.getLast?, t.isPointer = false := by
  intro t ht
  rw [Option.mem_def, List.getLast?_eq_getElem?] at ht
  by_contra hpointer
  obtain ⟨u, -, hu⟩ := exists_integer_of_not_looseAt (h _) ht (by simpa using hpointer)
  have hin := (List.getElem?_eq_some_iff.mp hu).1
  omega

/-! ### Operands -/

theorem exists_operandFamilies_forall₂ {s : Signature} (h : .void ∉ s.operandTypes) :
    ∃ families, s.operandFamilies = .ok families ∧
      List.Forall₂ (fun t f => t.family = .ok f) s.operandTypes families := by
  obtain ⟨families, hfamilies⟩ := exists_operandFamilies_iff.mpr h
  refine ⟨families, hfamilies, ?_⟩
  rw [operandFamilies_eq] at hfamilies
  exact mapM_eq_ok_iff.mp hfamilies

/-- **The operands of a call, by position.** A row function that passed the strict
check has for its operands the families of exactly those arguments that do not
stand right behind a pointer, in their order. What is left out is an integer scalar
each time, and so no pointer; no pointer stands last; and there are as many operands
as arguments, less one for each pointer. The operands of a table function are the
families of all its arguments, of which none may be void. -/
theorem operands_by_position (s : Signature) :
    (s.isRow = true → ∀ function, s.check function true = .ok () →
      ∃ families, s.operandFamilies = .ok families ∧
        List.Forall₂ (fun t f => t.family = .ok f) (notBehindPointers s.args) families ∧
        (∀ u ∈ behindPointers s.args, u ∈ NativeType.integers ∧ u.isPointer = false) ∧
        (∀ t ∈ s.args.getLast?, t.isPointer = false) ∧
        families.length + s.args.countP NativeType.isPointer = s.args.length) ∧
      (s.isTable = true → .void ∉ s.args →
        ∃ families, s.operandFamilies = .ok families ∧
          List.Forall₂ (fun t f => t.family = .ok f) s.args families) := by
  constructor
  · intro hrow function hcheck
    have hadmissible : s.Admissible true := check_eq_ok_iff.mp hcheck
    have hcounted : ∀ i, ¬ LooseAt s.args i := hadmissible.not_looseAt hrow
    have htypes : s.operandTypes = writtenArgs s.args := operandTypes_of_isRow hrow
    have hvoid : .void ∉ s.operandTypes := by
      rw [htypes]
      exact fun hmem => hadmissible.ne_void _ (mem_of_mem_writtenArgs hmem) rfl
    obtain ⟨families, hfamilies, hall⟩ := exists_operandFamilies_forall₂ hvoid
    rw [htypes] at hall
    refine ⟨families, hfamilies, ?_, ?_, isPointer_getLast? hcounted, ?_⟩
    · rwa [← writtenArgs_eq hcounted]
    · intro u hu
      have hinteger := mem_integers_of_mem_behindPointers hcounted hu
      exact ⟨hinteger, NativeType.isPointer_of_isLength (NativeType.isLength_iff.mpr hinteger)⟩
    · rw [← hall.length_eq]
      exact length_writtenArgs hcounted
  · intro htable hvoid
    have htypes : s.operandTypes = s.args := operandTypes_of_isTable htable
    rw [← htypes] at hvoid ⊢
    exact exists_operandFamilies_forall₂ hvoid

end ExtensionCatalog.Signature
