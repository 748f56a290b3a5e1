import ExtensionCatalog.Proofs.Signature.Faults

/-!
# Arguments in groups (spec §4.3)

Whatever the arguments of a row function are, checked or not, they fall into
groups in exactly one way: a pointer with the argument behind it, which may be
another pointer or the void; a pointer behind which nothing stands; or any other
argument by itself. A group is one operand, that of its first argument.

* `exists_grouping`, `Grouping.unique` — the groups of a list of arguments.
* `Grouping.append` — the groups of two lists, one after the other.
* `writtenArgs_append_of_alone` — the one boundary at which an operand is lost.
* `operands_by_group` — the operands of a row function.
-/

namespace ExtensionCatalog.Signature

/-- Arguments of a row function that are one operand together. -/
inductive ArgGroup where
  /-- A pointer and the argument behind it. -/
  | counted (pointer behind : NativeType)
  /-- A pointer behind which nothing stands. -/
  | alone (pointer : NativeType)
  /-- An argument that is no pointer. -/
  | single (t : NativeType)
deriving DecidableEq

namespace ArgGroup

/-- The first argument of a group. -/
def first : ArgGroup → NativeType
  | counted pointer _ => pointer
  | alone pointer => pointer
  | single t => t

def IsAlone : ArgGroup → Prop
  | alone _ => True
  | counted .. | single _ => False

end ArgGroup

/-- The arguments fall into the groups, from left to right. -/
inductive Grouping : List NativeType → List ArgGroup → Prop where
  | nil : Grouping [] []
  | alone {pointer : NativeType} :
      pointer.isPointer = true → Grouping [pointer] [.alone pointer]
  | counted {pointer behind : NativeType} {rest : List NativeType} {groups : List ArgGroup} :
      pointer.isPointer = true → Grouping rest groups →
        Grouping (pointer :: behind :: rest) (.counted pointer behind :: groups)
  | single {t : NativeType} {rest : List NativeType} {groups : List ArgGroup} :
      t.isPointer = false → Grouping rest groups →
        Grouping (t :: rest) (.single t :: groups)

theorem exists_grouping (args : List NativeType) : ∃ groups, Grouping args groups := by
  fun_induction writtenArgs args with
  | case1 => exact ⟨[], .nil⟩
  | case2 t =>
    cases hpointer : t.isPointer with
    | true => exact ⟨_, .alone hpointer⟩
    | false => exact ⟨_, .single hpointer .nil⟩
  | case3 t u rest ihpointer ihother =>
    cases hpointer : t.isPointer with
    | true =>
      obtain ⟨groups, hgroups⟩ := ihpointer
      exact ⟨_, .counted hpointer hgroups⟩
    | false =>
      obtain ⟨groups, hgroups⟩ := ihother
      exact ⟨_, .single hpointer hgroups⟩

namespace Grouping

variable {args : List NativeType} {groups : List ArgGroup}

/-- What stands first is a pointer or is not, and a pointer takes what stands behind
it, so the arguments leave no choice. -/
theorem unique (h : Grouping args groups) {groups' : List ArgGroup}
    (h' : Grouping args groups') : groups = groups' := by
  induction h generalizing groups' with
  | nil =>
    cases h'
    rfl
  | alone hpointer =>
    cases h' with
    | alone _ => rfl
    | single hother _ => simp [hpointer] at hother
  | counted hpointer _ ih =>
    cases h' with
    | counted _ hrest => rw [ih hrest]
    | single hother _ => simp [hpointer] at hother
  | single hother _ ih =>
    cases h' with
    | alone hpointer => simp [hpointer] at hother
    | counted hpointer _ => simp [hpointer] at hother
    | single _ hrest => rw [ih hrest]

/-- The walk over the arguments keeps the first one of each group. -/
theorem writtenArgs_eq (h : Grouping args groups) :
    writtenArgs args = groups.map ArgGroup.first := by
  induction h with
  | nil => rfl
  | alone _ => rfl
  | counted hpointer _ ih => rw [writtenArgs, if_pos hpointer, ih, List.map_cons, ArgGroup.first]
  | @single t rest groups hother hrest ih =>
    cases rest with
    | nil =>
      cases hrest
      rfl
    | cons u rest =>
      rw [writtenArgs, if_neg (by simp [hother]), ih, List.map_cons, ArgGroup.first]

/-! ### Two lists of arguments, one after the other -/

theorem append (h : Grouping args groups) (hlast : ∀ g ∈ groups.getLast?, ¬ g.IsAlone)
    {args' : List NativeType} {groups' : List ArgGroup} (h' : Grouping args' groups') :
    Grouping (args ++ args') (groups ++ groups') := by
  induction h with
  | nil => exact h'
  | alone _ => exact absurd trivial (hlast _ rfl)
  | counted hpointer hrest ih =>
    refine .counted hpointer (ih fun g hg => hlast g ?_)
    rw [List.getLast?_cons, Option.mem_def.mp hg]
    rfl
  | single hother hrest ih =>
    refine .single hother (ih fun g hg => hlast g ?_)
    rw [List.getLast?_cons, Option.mem_def.mp hg]
    rfl

/-- A pointer that is alone takes the first argument of the list that follows. -/
theorem append_alone {pointer : NativeType} (h : Grouping args (groups ++ [.alone pointer]))
    (behind : NativeType) {args' : List NativeType} {groups' : List ArgGroup}
    (h' : Grouping args' groups') :
    Grouping (args ++ behind :: args') (groups ++ .counted pointer behind :: groups') := by
  generalize hall : groups ++ [ArgGroup.alone pointer] = all at h
  induction h generalizing groups with
  | nil => simp at hall
  | alone hpointer =>
    obtain ⟨rfl, rfl⟩ : groups = [] ∧ pointer = _ := by
      simpa [List.append_eq_singleton_iff] using hall
    exact .counted hpointer h'
  | counted hpointer _ ih =>
    cases groups with
    | nil => cases hall
    | cons g groups =>
      obtain ⟨rfl, hrest⟩ := List.cons_eq_cons.mp hall
      exact .counted hpointer (ih hrest)
  | single hother _ ih =>
    cases groups with
    | nil => cases hall
    | cons g groups =>
      obtain ⟨rfl, hrest⟩ := List.cons_eq_cons.mp hall
      exact .single hother (ih hrest)

end Grouping

/-- Behind a pointer that is alone, the first of further arguments is no operand,
whatever it is. -/
theorem writtenArgs_append_of_alone {args : List NativeType} {groups : List ArgGroup}
    {pointer : NativeType} (h : Grouping args (groups ++ [.alone pointer]))
    (behind : NativeType) (args' : List NativeType) :
    writtenArgs (args ++ behind :: args') = writtenArgs args ++ writtenArgs args' := by
  obtain ⟨groups', h'⟩ := exists_grouping args'
  rw [(h.append_alone behind h').writtenArgs_eq, h.writtenArgs_eq, h'.writtenArgs_eq]
  simp [ArgGroup.first]

/-! ### Operands -/

theorem eq_of_family_eq_error {t : NativeType} {fault : Fault} (h : t.family = .error fault) :
    t = .void ∧ fault = .noSqlType .void := by
  by_cases ht : t = .void
  · rw [ht] at h
    cases h
    exact ⟨ht, rfl⟩
  · obtain ⟨family, hfamily⟩ := NativeType.exists_family_iff.mpr ht
    rw [hfamily] at h
    cases h

/-- The void is the only operand that a call faults at, and the fault is always the
same. -/
theorem operandFamilies_eq_error_iff {s : Signature} {fault : Fault} :
    s.operandFamilies = .error fault ↔ fault = .noSqlType .void ∧ .void ∈ s.operandTypes := by
  have hfault : ∀ {fault}, s.operandFamilies = .error fault →
      fault = .noSqlType .void ∧ .void ∈ s.operandTypes := by
    intro fault h
    rw [operandFamilies_eq] at h
    obtain ⟨t, ht, hfamily⟩ := exists_of_mapM_eq_error h
    obtain ⟨rfl, hfault⟩ := eq_of_family_eq_error hfamily
    exact ⟨hfault, ht⟩
  constructor
  · exact hfault
  · rintro ⟨rfl, hvoid⟩
    cases h : s.operandFamilies with
    | error fault' => rw [(hfault h).1]
    | ok families => exact absurd hvoid (exists_operandFamilies_iff.mp ⟨families, h⟩)

theorem operandTypes_of_grouping {s : Signature} (hrow : s.isRow = true)
    {groups : List ArgGroup} (h : Grouping s.args groups) :
    s.operandTypes = groups.map ArgGroup.first := by
  rw [operandTypes_of_isRow hrow, h.writtenArgs_eq]

/-- **The operands of a row function.** Its arguments fall into groups in exactly one
way. A call faults at the first argument of a group being void, and otherwise has
the family of each group's first argument for an operand, in their order. So where
the last group is not a pointer alone, further arguments add their own operands and
change none that were there. -/
theorem operands_by_group (s : Signature) (hrow : s.isRow = true) :
    (∃! groups, Grouping s.args groups) ∧ ∀ groups, Grouping s.args groups →
      (∀ fault, s.operandFamilies = .error fault ↔
        fault = .noSqlType .void ∧ ∃ g ∈ groups, g.first = .void) ∧
      (∀ families, s.operandFamilies = .ok families ↔
        List.Forall₂ (fun g f => g.first.family = .ok f) groups families) ∧
      ∀ t u : Signature, t.isRow = true → u.isRow = true → u.args = s.args ++ t.args →
        (∀ g ∈ groups.getLast?, ¬ g.IsAlone) →
          ∀ families families', s.operandFamilies = .ok families →
            t.operandFamilies = .ok families' →
              u.operandFamilies = .ok (families ++ families') := by
  obtain ⟨found, hfound⟩ := exists_grouping s.args
  refine ⟨⟨found, hfound, fun _ h => h.unique hfound⟩, ?_⟩
  intro groups hgroups
  have htypes := operandTypes_of_grouping hrow hgroups
  refine ⟨?_, ?_, ?_⟩
  · intro fault
    rw [operandFamilies_eq_error_iff, htypes, List.mem_map]
  · intro families
    rw [operandFamilies_eq, htypes, mapM_eq_ok_iff, List.forall₂_map_left_iff]
  · intro t u htrow hurow hargs hlast families families' hs ht
    obtain ⟨groups', hgroups'⟩ := exists_grouping t.args
    have happend : Grouping u.args (groups ++ groups') := hargs ▸ hgroups.append hlast hgroups'
    rw [operandFamilies_eq, htypes] at hs
    rw [operandFamilies_eq, operandTypes_of_grouping htrow hgroups'] at ht
    rw [operandFamilies_eq, operandTypes_of_grouping hurow happend, List.map_append,
      List.mapM_append, hs, ht]
    rfl

theorem operands_by_group_pointers :
    (row [.pointer .int8, .pointer .int16, .void] .void).isRow = true ∧
      (row [.pointer .int8, .pointer .int16, .void] .void).operandFamilies =
        .error (.noSqlType .void) := by
  refine ⟨rfl, ?_⟩
  have hgroups : Grouping [.pointer .int8, .pointer .int16, .void]
      [.counted (.pointer .int8) (.pointer .int16), .single .void] :=
    .counted rfl (.single rfl .nil)
  obtain ⟨hfault, -⟩ := (operands_by_group (row _ .void) rfl).2 _ hgroups
  exact (hfault _).mpr ⟨rfl, .single .void, by simp, rfl⟩

end ExtensionCatalog.Signature
