import ExtensionCatalog.Proofs.Signature.Decode

/-!
# What a document is refused for (spec §C.3)

A document is looked through in a fixed order: its name, the spellings of its
arguments, whether it gives a result or output columns, their spellings, and the
number of its names. More than one thing may be wrong with it, and of several
spellings more than one may be no type. What is reported is the first cause in
this order, as if all had been written down, and a document without a cause
declares what it says.

* `NativeType.Spelled` — a spelling of a type.
* `Document.faults` — all that is wrong with a document, in order.
* `Document.decode_first_fault` — the document is refused for the first fault, and
  declares a signature if it has none.
-/

namespace ExtensionCatalog

/-! ### Spellings of types -/

/-- The text is the code name of the type, blanks around it aside. -/
def NativeType.Spelled (text : String) (t : NativeType) : Prop :=
  t.codeName = String.ofList (Text.trim text.toList)

/-- The text spells a type. -/
def SpellsType (text : String) : Prop := ∃ t, NativeType.Spelled text t

theorem NativeType.read_eq_ok_iff_spelled {text : String} {t : NativeType} :
    NativeType.read text = .ok t ↔ t.Spelled text :=
  read_eq_ok_iff_trim.trans eq_comm

theorem spellsType_iff {text : String} :
    SpellsType text ↔ (NativeType.ofCodeName? text).isSome = true := by
  rw [Option.isSome_iff_exists]
  exact exists_congr fun t => NativeType.ofCodeName?_eq_some_iff.symm

instance (text : String) : Decidable (SpellsType text) := decidable_of_iff _ spellsType_iff.symm

/-- What is wrong with a spelling of a type: it spells none. -/
def spellingFaults (text : String) : List SignatureError :=
  if SpellsType text then []
  else [.unknownTypeName (String.ofList (Text.trim text.toList))]

theorem spellingFaults_eq_nil_iff {text : String} : spellingFaults text = [] ↔ SpellsType text := by
  unfold spellingFaults
  split <;> simp_all

theorem read_failsFirst (text : String) :
    FailsFirst (NativeType.read text) (spellingFaults text) := by
  by_cases h : SpellsType text
  · obtain ⟨t, ht⟩ := h
    rw [spellingFaults_eq_nil_iff.mpr ⟨t, ht⟩, NativeType.read_eq_ok_iff_spelled.mpr ht]
    exact .ok t
  · have hread : NativeType.read text =
        .error (.unknownTypeName (String.ofList (Text.trim text.toList))) :=
      NativeType.read_eq_error_iff.mpr ⟨fun t ht => h ⟨t, ht.symm⟩, rfl⟩
    rw [hread, spellingFaults, if_neg h]
    exact .error _ _

namespace Document

/-! ### Faults -/

/-- A function gives a result or output columns, and not both. -/
def returnsFaults (d : Document) : List SignatureError :=
  match d.result, d.outputs with
  | some _, some _ => [.resultAndOutputs d.name]
  | none, none => [.noResultNoOutputs d.name]
  | _, _ => []

/-- The spellings of the result and of the output columns. -/
def returnsSpellings (d : Document) : List String :=
  d.result.toList ++ d.outputs.getD []

/-- How many names there are, if there are some: one for each argument and one for
each output column. -/
def wantedNames (d : Document) : Nat :=
  d.args.length + (d.outputs.getD []).length

/-- Names that are given are as many as are wanted. -/
def nameFaults (d : Document) : List SignatureError :=
  match d.names with
  | some names =>
    if names.length = d.wantedNames then [] else [.nameCountMismatch d.wantedNames names.length]
  | none => []

/-- All that is wrong with a document, in the order of the checks. -/
def faults (d : Document) : List SignatureError :=
  (if Text.Blank d.name.toList then [.blankName] else []) ++
    (d.args.flatMap spellingFaults ++
      ((d.returnsFaults ++ d.returnsSpellings.flatMap spellingFaults) ++ d.nameFaults))

/-! ### The first fault -/

theorem returns_failsFirst (d : Document) :
    FailsFirst d.returns (d.returnsFaults ++ d.returnsSpellings.flatMap spellingFaults) := by
  unfold returns returnsFaults returnsSpellings
  cases d.result with
  | none =>
    cases d.outputs with
    | none => exact .error _ _
    | some outputs => exact (FailsFirst.mapM read_failsFirst outputs).map Returns.table
  | some result =>
    cases d.outputs with
    | none => simpa using (read_failsFirst result).map Returns.row
    | some outputs => exact .error _ _

theorem withNames_failsFirst (s : Signature) (names : List String) :
    FailsFirst (s.withNames names)
      (if names.length = s.args.length + s.returns.columns.length then []
      else [.nameCountMismatch (s.args.length + s.returns.columns.length) names.length]) := by
  unfold Signature.withNames
  split
  · exact .ok _
  · exact .error _ _

/-- Names are counted against the types that the spellings before them gave. -/
theorem putNames_failsFirst {d : Document} {args : List NativeType} {returns : Returns}
    (hargs : d.args.mapM NativeType.read = .ok args) (hreturns : d.returns = .ok returns) :
    FailsFirst (d.putNames { args, returns }) d.nameFaults := by
  have hwanted : args.length + returns.columns.length = d.wantedNames := by
    rw [wantedNames, (mapM_eq_ok_iff.mp hargs).length_eq,
      (mapM_eq_ok_iff.mp (returns_columns hreturns)).length_eq]
  unfold putNames nameFaults
  cases d.names with
  | none => exact .ok _
  | some names =>
    dsimp only
    rw [← hwanted]
    exact withNames_failsFirst _ names

theorem decode_failsFirst (d : Document) : FailsFirst d.decode d.faults := by
  rw [decode_eq, faults]
  split
  · exact .error _ _
  · refine (FailsFirst.mapM read_failsFirst d.args).bind fun args hargs => ?_
    refine d.returns_failsFirst.bind fun returns hreturns => ?_
    rw [← List.append_nil d.nameFaults]
    exact (putNames_failsFirst hargs hreturns).bind fun named _ => .ok _

/-! ### Documents without faults -/

theorem returnsFaults_eq_nil_iff {d : Document} :
    d.returnsFaults ++ d.returnsSpellings.flatMap spellingFaults = [] ↔
      (∃ result, d.result = some result ∧ d.outputs = none ∧ SpellsType result) ∨
        ∃ outputs, d.result = none ∧ d.outputs = some outputs ∧
          ∀ spelling ∈ outputs, SpellsType spelling := by
  rw [List.append_eq_nil_iff, List.flatMap_eq_nil_iff]
  unfold returnsFaults returnsSpellings
  cases d.result <;> cases d.outputs <;> simp [spellingFaults_eq_nil_iff]

theorem nameFaults_eq_nil_iff {d : Document} :
    d.nameFaults = [] ↔
      ∀ names, d.names = some names → names.length = d.args.length + (d.outputs.getD []).length := by
  unfold nameFaults wantedNames
  cases d.names <;> simp

theorem faults_eq_nil_iff {d : Document} :
    d.faults = [] ↔ ¬ Text.Blank d.name.toList ∧ (∀ spelling ∈ d.args, SpellsType spelling) ∧
      ((∃ result, d.result = some result ∧ d.outputs = none ∧ SpellsType result) ∨
        ∃ outputs, d.result = none ∧ d.outputs = some outputs ∧
          ∀ spelling ∈ outputs, SpellsType spelling) ∧
      ∀ names, d.names = some names →
        names.length = d.args.length + (d.outputs.getD []).length := by
  rw [faults, List.append_eq_nil_iff, List.append_eq_nil_iff, List.append_eq_nil_iff,
    returnsFaults_eq_nil_iff, nameFaults_eq_nil_iff, List.flatMap_eq_nil_iff]
  simp only [spellingFaults_eq_nil_iff, ite_eq_right_iff, List.cons_ne_nil, imp_false]

theorem returns_eq_ok {d : Document} {r : Returns} (h : d.returns = .ok r) :
    (∃ result type, d.result = some result ∧ r = .row type ∧ type.Spelled result) ∨
      ∃ outputs columns, d.outputs = some outputs ∧ r = .table columns ∧
        List.Forall₂ NativeType.Spelled outputs columns := by
  unfold returns at h
  split at h
  · rename_i result hresult _
    obtain ⟨type, htype, rfl⟩ := map_eq_ok_iff.mp h
    exact .inl ⟨result, type, hresult, rfl, NativeType.read_eq_ok_iff_spelled.mp htype⟩
  · rename_i outputs _ houtputs
    obtain ⟨columns, hcolumns, rfl⟩ := map_eq_ok_iff.mp h
    refine .inr ⟨outputs, columns, houtputs, rfl, ?_⟩
    exact (mapM_eq_ok_iff.mp hcolumns).imp fun _ _ => NativeType.read_eq_ok_iff_spelled.mp
  · cases h
  · cases h

/-- **A document is refused for the first of its faults**, in the order in which
they are listed, and for nothing else. It has none exactly if its name is not blank,
every argument spells a type, it gives either a result or output columns, whose
spellings are types, and its names, if it has some, are one for each argument and
one for each output column. It then declares, for the name as it is spelled, the
types of its spellings in their order, and the names and the options as they are. -/
theorem decode_first_fault (d : Document) :
    (∀ e, d.decode = .error e ↔ d.faults.head? = some e) ∧
      ((∃ declared, d.decode = .ok declared) ↔
        ¬ Text.Blank d.name.toList ∧ (∀ spelling ∈ d.args, SpellsType spelling) ∧
        ((∃ result, d.result = some result ∧ d.outputs = none ∧ SpellsType result) ∨
          ∃ outputs, d.result = none ∧ d.outputs = some outputs ∧
            ∀ spelling ∈ outputs, SpellsType spelling) ∧
        ∀ names, d.names = some names →
          names.length = d.args.length + (d.outputs.getD []).length) ∧
      ∀ name s, d.decode = .ok (name, s) →
        name = d.name ∧ List.Forall₂ NativeType.Spelled d.args s.args ∧
        ((∃ result type, d.result = some result ∧ s.returns = .row type ∧ type.Spelled result) ∨
          ∃ outputs columns, d.outputs = some outputs ∧ s.returns = .table columns ∧
            List.Forall₂ NativeType.Spelled outputs columns) ∧
        s.names = d.names ∧ s.options = d.options := by
  refine ⟨d.decode_failsFirst, ?_, ?_⟩
  · rw [d.decode_failsFirst.exists_ok_iff, faults_eq_nil_iff]
  · intro name s hs
    obtain ⟨-, hname, hargs, hreturns, hnames, hoptions⟩ := decode_eq_ok_iff.mp hs
    refine ⟨hname, ?_, returns_eq_ok hreturns, hnames, hoptions⟩
    exact (mapM_eq_ok_iff.mp hargs).imp fun _ _ => NativeType.read_eq_ok_iff_spelled.mp

end Document

end ExtensionCatalog
