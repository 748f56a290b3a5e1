import ExtensionCatalog.Proofs.Registry.History
import ExtensionCatalog.Proofs.Signature.Decode

/-!
# The names of arguments and output columns (spec §3, §C.2)

A signature keeps its names in one list, those of the arguments before those of the
output columns, and cuts it in two where the arguments end. The cut is made without
looking at the list. It stays within it because names come into a signature only by
`withNames`, which wants one name for each argument and each column, and because
nothing that comes later changes the arguments, the columns, or the names alone.

* `Signature.amendAll_eq_ok_iff` — what a signature becomes by names and options given
  to it one after the other.
* `Signature.NameParts`, `Signature.namesDivide` — the two parts of the list of names.
* `names_divide` — the names of every signature that was built, read from a text, or
  registered.
-/

namespace ExtensionCatalog

/-- The parts of a list before a position and from it on; beyond its end a list has no
such parts. -/
def cutAt? {α : Type} (n : Nat) (l : List α) : Option (List α × List α) :=
  if n ≤ l.length then some (l.take n, l.drop n) else none

theorem cutAt?_of_le {α : Type} {n : Nat} {l : List α} (h : n ≤ l.length) :
    cutAt? n l = some (l.take n, l.drop n) :=
  if_pos h

namespace Signature

/-! ### Giving names and options -/

/-- Something given to a signature, in place of what it had of the kind. -/
inductive Amendment where
  | names (names : List String)
  | options (options : OptionMap)

/-- The signature with something given to it. -/
def amend (s : Signature) : Amendment → Except SignatureError Signature
  | .names names => s.withNames names
  | .options options => .ok (s.withOptions options)

/-- The signature with several things given to it one after the other. -/
def amendAll (s : Signature) (amendments : List Amendment) : Except SignatureError Signature :=
  amendments.foldlM amend s

/-- The names after some amendments: those given last. -/
def namesAfter (names : Option (List String)) : List Amendment → Option (List String)
  | [] => names
  | .names given :: rest => namesAfter (some given) rest
  | .options _ :: rest => namesAfter names rest

/-- The options after some amendments: those given last. -/
def optionsAfter (options : Option OptionMap) : List Amendment → Option OptionMap
  | [] => options
  | .names _ :: rest => optionsAfter options rest
  | .options given :: rest => optionsAfter (some given) rest

/-- The number of names that a signature takes. -/
def nameCount (s : Signature) : Nat :=
  s.args.length + s.returns.columns.length

/-- Names are refused exactly if they are too few or too many. -/
theorem withNames_eq_error_iff {s : Signature} {names : List String} {e : SignatureError} :
    s.withNames names = .error e ↔
      names.length ≠ s.nameCount ∧ e = .nameCountMismatch s.nameCount names.length := by
  unfold withNames
  split
  · rename_i h
    simp [nameCount, h]
  · rename_i h
    simp [nameCount, h, eq_comm]

/-- What one amendment leaves as it is, and what it sets. -/
theorem amend_eq_ok {s t : Signature} {a : Amendment} (h : s.amend a = .ok t) :
    (∀ names, a = .names names → names.length = s.nameCount) ∧
      t.args = s.args ∧ t.returns = s.returns ∧
        ∀ rest, namesAfter s.names (a :: rest) = namesAfter t.names rest ∧
          optionsAfter s.options (a :: rest) = optionsAfter t.options rest := by
  cases a with
  | names given =>
    obtain ⟨hlength, hargs, hreturns, hnames, hoptions⟩ := withNames_eq_ok_iff.mp h
    refine ⟨?_, hargs, hreturns, fun rest => ?_⟩
    · rintro names ⟨⟩
      exact hlength
    · rw [hnames, hoptions]
      exact ⟨rfl, rfl⟩
  | options given =>
    cases h
    refine ⟨?_, rfl, rfl, fun rest => ⟨rfl, rfl⟩⟩
    rintro names ⟨⟩

theorem exists_amend {s : Signature} {a : Amendment}
    (h : ∀ names, a = .names names → names.length = s.nameCount) :
    ∃ t, s.amend a = .ok t := by
  cases a with
  | names given => exact ⟨_, dif_pos (h given rfl)⟩
  | options given => exact ⟨_, rfl⟩

/-- **Amendments in any order** succeed exactly if all names that are given are as many
as the signature takes. They leave the types as they are, and of names and of options
the last ones count. -/
theorem amendAll_eq_ok_iff {s t : Signature} {amendments : List Amendment} :
    s.amendAll amendments = .ok t ↔
      (∀ names, .names names ∈ amendments → names.length = s.nameCount) ∧
        t.args = s.args ∧ t.returns = s.returns ∧
          t.names = namesAfter s.names amendments ∧
            t.options = optionsAfter s.options amendments := by
  induction amendments generalizing s with
  | nil =>
    obtain ⟨args, returns, names, options, hnames⟩ := s
    obtain ⟨args', returns', names', options', hnames'⟩ := t
    simp [amendAll, namesAfter, optionsAfter, pure, Except.pure, eq_comm]
  | cons a rest ih =>
    rw [amendAll, List.foldlM_cons, bind_eq_ok_iff]
    constructor
    · rintro ⟨u, hu, ht⟩
      obtain ⟨hcount, hargs, hreturns, hafter⟩ := amend_eq_ok hu
      obtain ⟨hcounts, htargs, htreturns, htnames, htoptions⟩ := ih.mp ht
      rw [nameCount, hargs, hreturns] at hcounts
      rw [(hafter rest).1, (hafter rest).2]
      refine ⟨?_, htargs.trans hargs, htreturns.trans hreturns, htnames, htoptions⟩
      intro names hmem
      rcases List.mem_cons.mp hmem with ha | hmem
      · exact hcount names ha.symm
      · exact hcounts names hmem
    · rintro ⟨hcounts, htargs, htreturns, htnames, htoptions⟩
      obtain ⟨u, hu⟩ : ∃ u, s.amend a = .ok u :=
        exists_amend fun names ha => hcounts names (ha ▸ List.mem_cons_self)
      obtain ⟨-, hargs, hreturns, hafter⟩ := amend_eq_ok hu
      rw [(hafter rest).1] at htnames
      rw [(hafter rest).2] at htoptions
      refine ⟨u, hu, ih.mpr ⟨?_, htargs.trans hargs.symm, htreturns.trans hreturns.symm,
        htnames, htoptions⟩⟩
      intro names hmem
      rw [nameCount, hargs, hreturns]
      exact hcounts names (List.mem_cons_of_mem a hmem)

/-! ### The two parts of the names -/

/-- The name is cut before its first opening bracket, if it has one. -/
structure IsPlainName (name plain : String) : Prop where
  isPrefix : plain.toList <+: name.toList
  no_bracket : '[' ∉ plain.toList
  longest : ∀ start, start <+: name.toList → '[' ∉ start → start <+: plain.toList

theorem isPlainName_plainName (name : String) : IsPlainName name (plainName name) where
  isPrefix := by
    rw [plainName, String.toList_ofList]
    exact List.takeWhile_prefix _
  no_bracket := by
    rw [plainName, String.toList_ofList]
    intro h
    simpa using List.mem_takeWhile_imp h
  longest := by
    rintro start ⟨rest, hname⟩ hstart
    have hkept : ∀ c ∈ start, decide (c ≠ '[') = true :=
      fun c hc => decide_eq_true fun h => hstart (h ▸ hc)
    rw [plainName, String.toList_ofList, ← hname, List.takeWhile_append_of_pos hkept]
    exact List.prefix_append _ _

/-- The names of a signature, those of its arguments with and without the sizes of
arrays, and those of its output columns. -/
structure NameParts (s : Signature) (names forArgs plain forColumns : List String) : Prop where
  length_names : names.length = s.nameCount
  cut : cutAt? s.args.length names = some (forArgs, forColumns)
  argNames : s.argNames = some forArgs
  outNames : s.outNames = some forColumns
  append : forArgs ++ forColumns = names
  length_args : forArgs.length = s.args.length
  length_columns : forColumns.length = s.returns.columns.length
  plainArgNames : s.plainArgNames = some plain
  length_plain : plain.length = s.args.length
  plain : List.Forall₂ IsPlainName forArgs plain

/-- The names of the signature, if it has some, fall into those parts. -/
def NamesDivide (s : Signature) : Prop :=
  ∀ names, s.names = some names → ∃ forArgs plain forColumns,
    s.NameParts names forArgs plain forColumns

theorem namesDivide (s : Signature) : s.NamesDivide := by
  intro names hnames
  have hlength : names.length = s.nameCount := s.length_names names hnames
  have hargs : s.argNames = some (names.take s.args.length) := by
    rw [argNames, hnames]
    rfl
  have hcolumns : s.outNames = some (names.drop s.args.length) := by
    rw [outNames, hnames]
    rfl
  refine ⟨_, (names.take s.args.length).map plainName, _, {
    length_names := hlength
    cut := cutAt?_of_le (hlength ▸ Nat.le_add_right _ _)
    argNames := hargs
    outNames := hcolumns
    append := List.take_append_drop _ _
    length_args := length_argNames hargs
    length_columns := length_outNames hcolumns
    plainArgNames := by rw [plainArgNames, hargs]; rfl
    length_plain := by rw [List.length_map, length_argNames hargs]
    plain := ?_ }⟩
  rw [List.forall₂_map_right_iff, List.forall₂_same]
  exact fun name _ => isPlainName_plainName name

end Signature

/-- What a registry holds was registered, names and options included. -/
theorem Registry.exists_attempt_of_mem_overloads {settings : Settings} {requests : List Request}
    {name : String} {s : Signature}
    (h : s ∈ ((new settings).after requests).overloads name) :
    ∃ a ∈ (new settings).history requests, a.result = .ok () ∧ a.signature = s := by
  rw [overloads_after] at h
  have hregistered := (List.mem_append.mp h).resolve_left List.not_mem_nil
  obtain ⟨a, ha, rfl⟩ := List.mem_map.mp hregistered
  obtain ⟨hmem, hkept⟩ := List.mem_filter.mp ha
  have hok : a.result.isOk = true := (Bool.and_eq_true_iff.mp hkept).1
  refine ⟨a, hmem, ?_, rfl⟩
  cases hresult : a.result with
  | ok _ => rfl
  | error e =>
    rw [hresult] at hok
    cases hok

/-- **Names divide.** A signature without names and options that is given names and
options in any order takes each list of as many names as it has arguments and output
columns, and no other; it then has the names given last, and they fall into one for each
argument and one for each output column. A document that is read gives its names to its
signature, and they divide as well. So they do in every signature that a registry holds,
which is one that was registered, as it was registered. -/
theorem names_divide :
    (∀ args returns amendments s,
      (Signature.amendAll { args, returns } amendments = .ok s ↔
        (∀ names, .names names ∈ amendments →
          names.length = args.length + returns.columns.length) ∧
        s.args = args ∧ s.returns = returns ∧
          s.names = Signature.namesAfter none amendments ∧
            s.options = Signature.optionsAfter none amendments) ∧
      (Signature.amendAll { args, returns } amendments = .ok s → s.NamesDivide)) ∧
      (∀ text name s, Signature.parse text = .ok (name, s) →
        (∃ d, Document.parse? text = some d ∧ s.names = d.names) ∧ s.NamesDivide) ∧
      (∀ settings requests name s,
        s ∈ ((Registry.new settings).after requests).overloads name →
          (∃ a ∈ (Registry.new settings).history requests,
            a.result = .ok () ∧ a.signature = s) ∧ s.NamesDivide) ∧
      ∀ (s : Signature) names e, s.withNames names = .error e ↔
        names.length ≠ s.args.length + s.returns.columns.length ∧
          e = .nameCountMismatch (s.args.length + s.returns.columns.length) names.length := by
  refine ⟨fun args returns amendments s =>
      ⟨Signature.amendAll_eq_ok_iff, fun _ => s.namesDivide⟩, ?_,
    fun settings requests name s hs =>
      ⟨Registry.exists_attempt_of_mem_overloads hs, s.namesDivide⟩,
    fun s names e => Signature.withNames_eq_error_iff⟩
  intro text name s h
  refine ⟨?_, s.namesDivide⟩
  rw [Signature.parse] at h
  split at h
  next d hd =>
    obtain ⟨-, -, -, -, hnames, -⟩ := Document.decode_eq_ok_iff.mp h
    exact ⟨d, hd, hnames⟩
  next => cases h

end ExtensionCatalog
