import ExtensionCatalog.Proofs.Signature.Faults

/-!
# What a document declares (spec §C.3, §C.4)

A document declares a signature if its name is not blank, its types are spelled
as types, it gives a result or output columns but not both, and it names each
argument and each output column or none. The checks that come before a
registration are not among these: a document that calls an argument void, or an
output column a cursor, is read all the same, and the questions about such a
signature may fault. Those who read a signature from a text without registering
it have to check it themselves.

* `Document.decode_eq_ok_iff` — what is declared, and when.
* `Signature.parse_check_iff` — which of the signatures that are read pass their
  checks, and which of them answer the questions about them.
-/

namespace ExtensionCatalog

/-! ### From documents to signatures -/

namespace Document

/-- The signature with the names that the document gives, if it gives some. -/
def putNames (d : Document) (s : Signature) : Except SignatureError Signature :=
  match d.names with
  | some names => s.withNames names
  | none => .ok s

/-- The signature with the options that the document gives, if it gives some. -/
def putOptions (d : Document) (s : Signature) : Signature :=
  match d.options with
  | some options => s.withOptions options
  | none => s

/-- The checks on a document, one after the other. -/
theorem decode_eq (d : Document) :
    d.decode =
      if Text.Blank d.name.toList then .error .blankName
      else do
        let args ← d.args.mapM NativeType.read
        let returns ← d.returns
        let named ← d.putNames { args, returns }
        return (d.name, d.putOptions named) := by
  unfold decode putNames putOptions
  simp only [Text.trim_eq_nil_iff]
  split
  · rfl
  · cases d.names <;> rfl

theorem putNames_eq_ok_iff {d : Document} {s t : Signature} (hs : s.names = none) :
    d.putNames s = .ok t ↔
      t.args = s.args ∧ t.returns = s.returns ∧ t.names = d.names ∧ t.options = s.options := by
  unfold putNames
  cases d.names with
  | none =>
    obtain ⟨args, returns, names, options, hnames⟩ := s
    obtain ⟨args', returns', names', options', hnames'⟩ := t
    cases hs
    simp [eq_comm]
  | some names =>
    rw [Signature.withNames_eq_ok_iff]
    constructor
    · rintro ⟨-, h⟩
      exact h
    · rintro h
      have hlength := t.length_names names h.2.2.1
      rw [h.1, h.2.1] at hlength
      exact ⟨hlength, h⟩

theorem putOptions_eq_iff {d : Document} {s t : Signature} (hs : s.options = none) :
    d.putOptions s = t ↔
      t.args = s.args ∧ t.returns = s.returns ∧ t.names = s.names ∧ t.options = d.options := by
  obtain ⟨args, returns, names, options, hnames⟩ := s
  obtain ⟨args', returns', names', options', hnames'⟩ := t
  cases hs
  unfold putOptions
  cases d.options <;> simp [Signature.withOptions, eq_comm]

theorem decode_eq_ok_iff {d : Document} {name : String} {s : Signature} :
    d.decode = .ok (name, s) ↔
      ¬ Text.Blank d.name.toList ∧ name = d.name ∧ d.args.mapM NativeType.read = .ok s.args ∧
        d.returns = .ok s.returns ∧ s.names = d.names ∧ s.options = d.options := by
  rw [decode_eq]
  by_cases hblank : Text.Blank d.name.toList
  · rw [if_pos hblank]
    constructor
    · intro h
      cases h
    · rintro ⟨h, -⟩
      exact absurd hblank h
  · rw [if_neg hblank]
    simp only [bind_eq_ok_iff]
    constructor
    · rintro ⟨args, hargs, returns, hreturns, named, hnamed, h⟩
      obtain ⟨rfl, hs⟩ := Prod.ext_iff.mp (Except.ok.inj h)
      obtain ⟨rfl, rfl, hnames, hoptions⟩ := (putNames_eq_ok_iff rfl).mp hnamed
      obtain ⟨hsargs, hsreturns, hsnames, hsoptions⟩ := (putOptions_eq_iff hoptions).mp hs
      rw [hsargs, hsreturns, hsnames]
      exact ⟨hblank, rfl, hargs, hreturns, hnames, hsoptions⟩
    · rintro ⟨-, rfl, hargs, hreturns, hnames, hoptions⟩
      let named : Signature := { s with options := none }
      have hnamed : d.putNames { args := s.args, returns := s.returns } = .ok named :=
        (putNames_eq_ok_iff rfl).mpr ⟨rfl, rfl, hnames, rfl⟩
      have hs : d.putOptions named = s :=
        (putOptions_eq_iff rfl).mpr ⟨rfl, rfl, rfl, hoptions⟩
      refine ⟨s.args, hargs, s.returns, hreturns, named, hnamed, ?_⟩
      rw [hs]
      rfl

theorem returns_columns {d : Document} {r : Returns} (h : d.returns = .ok r) :
    (d.outputs.getD []).mapM NativeType.read = .ok r.columns := by
  unfold returns at h
  split at h
  · rename_i houtputs
    obtain ⟨type, -, rfl⟩ := map_eq_ok_iff.mp h
    rw [houtputs]
    rfl
  · rename_i houtputs
    obtain ⟨columns, hcolumns, rfl⟩ := map_eq_ok_iff.mp h
    rw [houtputs]
    exact hcolumns
  · cases h
  · cases h

theorem mapM_read_ne_noDocument (spellings : List String) :
    spellings.mapM NativeType.read ≠ .error .noDocument := by
  intro h
  obtain ⟨spelled, -, h⟩ := exists_of_mapM_eq_error h
  unfold NativeType.read at h
  split at h <;> cases h

theorem returns_ne_noDocument (d : Document) : d.returns ≠ .error .noDocument := by
  intro h
  unfold returns at h
  split at h
  · have hread := map_eq_error_iff.mp h
    unfold NativeType.read at hread
    split at hread <;> cases hread
  · exact mapM_read_ne_noDocument _ (map_eq_error_iff.mp h)
  · cases h
  · cases h

theorem putNames_ne_noDocument (d : Document) (s : Signature) :
    d.putNames s ≠ .error .noDocument := by
  intro h
  unfold putNames at h
  split at h
  · unfold Signature.withNames at h
    split at h <;> cases h
  · cases h

/-- A document that was read is refused for what it says, not for its form. -/
theorem decode_ne_noDocument (d : Document) : d.decode ≠ .error .noDocument := by
  intro h
  rw [decode_eq] at h
  split at h
  · cases h
  rcases bind_eq_error_iff.mp h with hargs | ⟨args, -, h⟩
  · exact mapM_read_ne_noDocument _ hargs
  rcases bind_eq_error_iff.mp h with hreturns | ⟨returns, -, h⟩
  · exact d.returns_ne_noDocument hreturns
  rcases bind_eq_error_iff.mp h with hnames | ⟨named, -, h⟩
  · exact d.putNames_ne_noDocument _ hnames
  · cases h

end Document

/-! ### What is left unchecked -/

namespace Signature

theorem forall_mem_iff_of_mapM_read {P : NativeType → Prop} {spellings : List String}
    {types : List NativeType} (h : spellings.mapM NativeType.read = .ok types) :
    (∀ t ∈ types, P t) ↔
      ∀ spelled ∈ spellings, ∀ t, NativeType.ofCodeName? spelled = some t → P t := by
  rw [forall_mem_iff_of_mapM_eq_ok h]
  simp only [NativeType.read_eq_ok_iff]

theorem not_mem_iff_of_mapM_read {t : NativeType} {spellings : List String}
    {types : List NativeType} (h : spellings.mapM NativeType.read = .ok types) :
    t ∉ types ↔ ∀ spelled ∈ spellings, NativeType.ofCodeName? spelled ≠ some t := by
  rw [← List.forall_mem_ne', forall_mem_iff_of_mapM_read h]
  constructor
  · intro hne spelled hspelled ht
    exact hne spelled hspelled t ht rfl
  · rintro hne spelled hspelled u hu rfl
    exact hne spelled hspelled hu

/-- **What is read is not checked.** A signature that a text declares passes its
checks, apart from the strict one, exactly if the document calls no argument
void and every output column a type with a value type. If it does, its operands
and its output columns are known; if not, either question may fault, the one
exactly if a caller would write a void operand, the other exactly if some column
has no value type. -/
theorem parse_check_iff {text name : String} {s : Signature}
    (h : Signature.parse text = .ok (name, s)) :
    ∃ d, Document.parse? text = some d ∧
      (s.check name false = .ok () ↔
        (∀ spelled ∈ d.args, NativeType.ofCodeName? spelled ≠ some .void) ∧
          ∀ spelled ∈ d.outputs.getD [], ∀ t, NativeType.ofCodeName? spelled = some t →
            t.valueType?.isSome = true) ∧
      (s.check name false = .ok () →
        (∃ families, s.operandFamilies = .ok families) ∧
          (s.isTable = true → ∃ types, s.sqlOutputs = .ok types)) ∧
      ((∃ families, s.operandFamilies = .ok families) ↔ .void ∉ s.operandTypes) ∧
      (s.isTable = true → ((∃ types, s.sqlOutputs = .ok types) ↔
        ∀ t ∈ s.returns.columns, t.valueType?.isSome = true)) := by
  unfold parse at h
  split at h
  · rename_i d hd
    obtain ⟨-, -, hargs, hreturns, -, -⟩ := Document.decode_eq_ok_iff.mp h
    refine ⟨d, hd, ?_, ?_, exists_operandFamilies_iff, exists_sqlOutputs_iff⟩
    · rw [check_eq_ok_iff, admissible_false_iff, not_mem_iff_of_mapM_read hargs,
        forall_mem_iff_of_mapM_read (Document.returns_columns hreturns)]
    · intro hcheck
      have hadmissible : s.Admissible false := check_eq_ok_iff.mp hcheck
      refine ⟨hadmissible.operandFamilies, fun htable => ?_⟩
      obtain ⟨types, htypes, -⟩ := hadmissible.sqlOutputs htable
      exact ⟨types, htypes⟩
  · cases h

/-- A document whose output columns have value types. -/
theorem parse_check_iff_arrays :
    Signature.parse
        "\x7b\"name\":\"f\",\"outs\":[\"Array<i8>\",\" i64 \"],\"args\":[\"cursor\"]\x7d" =
        .ok ("f", .table [.cursor] [.array .int8, .scalar .int64]) ∧
      ((∃ types, (table [.cursor] [.array .int8, .scalar .int64]).sqlOutputs = .ok types) ↔
        ∀ t ∈ [NativeType.array .int8, .scalar .int64], t.valueType?.isSome = true) := by
  have h : Signature.parse
      "\x7b\"name\":\"f\",\"outs\":[\"Array<i8>\",\" i64 \"],\"args\":[\"cursor\"]\x7d" =
      .ok ("f", .table [.cursor] [.array .int8, .scalar .int64]) := by decide +kernel
  obtain ⟨d, -, -, -, -, houtputs⟩ := parse_check_iff h
  exact ⟨h, houtputs rfl⟩

/-- A document that is read although no registration would let its signature in:
it calls an argument void and an output column a cursor, and the questions for
its operands and for its output columns both fault. -/
theorem parse_void_cursor :
    Signature.parse "\x7b\"name\":\"f\",\"outs\":[\"cursor\"],\"args\":[\"void\"]\x7d" =
        .ok ("f", .table [.void] [.cursor]) ∧
      (table [.void] [.cursor]).check "f" false = .error (.voidOperand "f" 0) ∧
      (table [.void] [.cursor]).operandFamilies = .error (.noSqlType .void) ∧
      (table [.void] [.cursor]).sqlOutputs = .error (.noValueType .cursor) :=
  ⟨by decide +kernel, rfl, rfl, rfl⟩

end Signature

end ExtensionCatalog
