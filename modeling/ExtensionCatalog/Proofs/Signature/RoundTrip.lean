import ExtensionCatalog.Proofs.NativeType.Names
import ExtensionCatalog.Proofs.Signature.Spellings
import Mathlib.Data.Option.Basic

/-!
# Signatures read back from their documents (spec §4.4, §C.3)

The document written for a signature holds the function's name, its types under
their code names, and neither names nor options. Read back, it declares the same
types for the same name, character for character. The one thing that writing
does not ask and reading does is that the name is not blank.

* `Document.spelled_json` — what is written for a signature spells its document.
* `Document.parse?_text` — the text written for a signature holds one document.
* `Document.decode_document` — what that document declares.
* `parse_text` — the round trip.
-/

namespace ExtensionCatalog

theorem NativeType.mapM_read_codeName (types : List NativeType) :
    (types.map NativeType.codeName).mapM NativeType.read = .ok types :=
  (mapM_map_eq_pure (g := id) read_codeName types).trans (congrArg Except.ok (List.map_id types))

namespace Signature

/-- The signature without names and options. -/
def bare (s : Signature) : Signature :=
  { args := s.args, returns := s.returns }

/-- The document in which a signature is written. -/
def document (s : Signature) (name : String) : Document where
  name := name
  result := match s.returns with
    | .row type => some type.codeName
    | .table _ => none
  outputs := match s.returns with
    | .row _ => none
    | .table columns => some (columns.map NativeType.codeName)
  args := s.args.map NativeType.codeName
  names := none
  options := none

/-- Names and options are not written. -/
@[simp] theorem json_bare (s : Signature) (name : String) : s.bare.json name = s.json name :=
  rfl

theorem wellSpelled_json (s : Signature) (name : String) : (s.json name).WellSpelled := by
  apply Json.wellSpelled_object
  intro m hm
  simp only [List.mem_cons, List.not_mem_nil, or_false] at hm
  rcases hm with rfl | rfl | rfl
  · exact Json.wellSpelled_string name
  · cases s.returns with
    | row type => exact Json.wellSpelled_string _
    | table columns => exact Json.wellSpelled_ofStrings _
  · exact Json.wellSpelled_ofStrings _

end Signature

namespace Document

open Json (Value)

/-- What is written for a signature spells its document: the members that are null
are left out. -/
theorem spelled_json (s : Signature) (name : String) :
    (s.document name).Spelled (s.json name) := by
  obtain ⟨args, returns, names, options, hnames⟩ := s
  cases returns with
  | row type =>
    refine .object .none ⟨List.Sublist.subperm ?_, ?_⟩
    · exact .cons_cons _ (.cons_cons _ (.cons _ (.cons_cons _ (List.nil_sublist _))))
    · simp [members, Signature.document, Signature.returnsMember, Signature.codeNames, nullable]
  | table columns =>
    refine .object .none ⟨List.Sublist.subperm ?_, ?_⟩
    · exact .cons_cons _ (.cons _ (.cons_cons _ (.cons_cons _ (List.nil_sublist _))))
    · simp [members, Signature.document, Signature.returnsMember, Signature.codeNames, nullable]

/-- What is written for a signature is one document, with a member for the
result or one for the output columns. -/
theorem ofValue?_json (s : Signature) (name : String) :
    ofValue? (s.json name) = some (s.document name) :=
  ofValue?_of_spelled (spelled_json s name)

/-- The text written for a signature holds the signature's document. -/
theorem parse?_text (s : Signature) (name : String) :
    parse? (s.text name) = some (s.document name) := by
  rw [parse?, Signature.text, Json.parse?_text (s.wellSpelled_json name)]
  exact ofValue?_json s name

theorem returns_document (s : Signature) (name : String) :
    (s.document name).returns = .ok s.returns := by
  obtain ⟨args, returns, names, options, hnames⟩ := s
  cases returns with
  | row type =>
    show (NativeType.read type.codeName).map Returns.row = _
    rw [NativeType.read_codeName]
    rfl
  | table columns =>
    show ((columns.map NativeType.codeName).mapM NativeType.read).map Returns.table = _
    rw [NativeType.mapM_read_codeName]
    rfl

/-- The document of a signature declares the signature, without names and
options, unless its name is blank. -/
theorem decode_document (s : Signature) (name : String) :
    (s.document name).decode =
      if Text.Blank name.toList then .error .blankName else .ok (name, s.bare) := by
  have hargs : (s.document name).args.mapM NativeType.read = .ok s.args :=
    NativeType.mapM_read_codeName s.args
  have hname : Text.trim (s.document name).name.toList = [] ↔ Text.Blank name.toList :=
    Text.trim_eq_nil_iff
  unfold decode
  simp only [hargs, returns_document, hname]
  by_cases hblank : Text.Blank name.toList
  · simp only [if_pos hblank]
    rfl
  · simp only [if_neg hblank]
    rfl

end Document

/-- **Signatures are read back from their written form**: the name as it was
given, the arguments and the result or output columns, and neither names nor
options. Only what was written under a blank name is refused, as a document
whose name is blank. -/
theorem Signature.parse_text (s : Signature) (name : String) :
    Signature.parse (s.text name) =
        (if Text.Blank name.toList then .error .blankName
        else .ok (name, { args := s.args, returns := s.returns, names := none, options := none })) ∧
      SignatureError.blankName.message = "Malformed signature: signature name cannot be empty" := by
  refine ⟨?_, rfl⟩
  rw [Signature.parse, Document.parse?_text]
  exact Document.decode_document s name

end ExtensionCatalog
