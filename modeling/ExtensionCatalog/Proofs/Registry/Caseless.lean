import ExtensionCatalog.Proofs.Registry.Effect
import ExtensionCatalog.Proofs.Text.Lowercase

/-!
# Names in other letter cases (spec §C.5)

A name is looked up under its lower-case form. Two spellings that differ in the case
of ASCII letters have one such form, and so do a name and its lower-case form itself,
whatever letters are in it. Such spellings are the same name to every question, and a
registration under one of them comes out as it does under the other: it is refused for
the same cause, told of the name as it was spelled, or it adds the overload for the
same names.

* `Signature.check_renamed` — the checks do not look at the name, they only tell it.
* `result_register_renamed`, `overloads_register_renamed` — registrations under two
  spellings of a name.
* `names_caseless` — spellings of one name, question by question.
-/

namespace ExtensionCatalog

/-- The same refusal, told of a function of another name. -/
def SignatureError.renamed (function : String) : SignatureError → SignatureError
  | .pointerWithoutLength _ index => .pointerWithoutLength function index
  | .voidOperand _ index => .voidOperand function index
  | .outputWithoutValueType _ index type => .outputWithoutValueType function index type
  | .duplicateOverload _ => .duplicateOverload function
  | e => e

theorem Signature.check_renamed (s : Signature) (function other : String) (strict : Bool) :
    s.check other strict =
      (s.check function strict).mapError (SignatureError.renamed other) := by
  unfold Signature.check
  cases s.voidPosition? with
  | some i => rfl
  | none =>
    cases s.valuelessOutput? with
    | some output => rfl
    | none =>
      cases if strict then s.loosePointer? else none with
      | some i => rfl
      | none => rfl

namespace Registry

/-- Two spellings of one name: they differ at most in the case of ASCII letters, or
the second is the lower-case form of the first. -/
def SameName (a b : String) : Prop :=
  Text.sameLetters a.toList b.toList = true ∨ b = Text.foldName a

theorem SameName.foldName_eq {a b : String} (h : SameName a b) :
    Text.foldName a = Text.foldName b := by
  rcases h with h | rfl
  · rw [Text.foldName, Text.foldName, Text.lower_congr h]
  · exact (Text.foldName_foldName a).symm

variable {r : Registry} {a b : String}

theorem contains_congr (h : Text.foldName a = Text.foldName b) :
    r.contains a = r.contains b := by
  rw [contains, contains, find?_congr h]

theorem resolve_congr (h : Text.foldName a = Text.foldName b) (operands : List SqlFamily) :
    r.resolve a operands = r.resolve b operands := by
  rw [resolve, resolve, overloads_congr h]

/-- A refusal under another spelling is the same refusal. -/
theorem refusal?_renamed (h : Text.foldName a = Text.foldName b) (s : Signature) :
    r.refusal? b s = (r.refusal? a s).map (SignatureError.renamed b) := by
  rw [refusal?, refusal?, s.check_renamed a b, overloads_congr h]
  cases s.check a r.settings.checks.strictPointers with
  | error e => rfl
  | ok _ =>
    dsimp only [Except.mapError]
    split
    · rfl
    · rfl

theorem result_register_renamed (h : Text.foldName a = Text.foldName b) (s : Signature) :
    (r.register b s).result =
      (r.register a s).result.mapError (SignatureError.renamed b) := by
  rw [register_eq, register_eq, refusal?_renamed h]
  cases r.refusal? a s with
  | some e => rfl
  | none => rfl

/-- An overload is found under the same names, whichever spelling it was registered
under. -/
theorem overloads_register_renamed (h : Text.foldName a = Text.foldName b) (s : Signature)
    (name : String) :
    (r.register b s).registry.overloads name = (r.register a s).registry.overloads name := by
  rw [register_eq, register_eq, refusal?_renamed h]
  cases r.refusal? a s with
  | some e => rfl
  | none =>
    dsimp only [Option.map_none]
    by_cases hname : Text.foldName a = Text.foldName name
    · rw [overloads_add_of_eq hname, overloads_add_of_eq (h.symm.trans hname)]
    · rw [overloads_add_of_ne hname, overloads_add_of_ne (h ▸ hname)]

/-- **Names have no letter case.** In every registry, two spellings of one name get the
same answers, and registrations under them come out alike: both succeed or both are
refused for the same cause, told of the name that was given, and the overloads of every
name are the same after one as after the other. -/
theorem names_caseless (settings : Settings) (requests : List Request) {a b : String}
    (h : SameName a b) :
    let r := (new settings).after requests
    r.contains a = r.contains b ∧ r.overloads a = r.overloads b ∧
      (∀ operands, r.resolve a operands = r.resolve b operands) ∧
      ∀ s, (r.register b s).result =
          (r.register a s).result.mapError (SignatureError.renamed b) ∧
        ∀ name, (r.register b s).registry.overloads name =
          (r.register a s).registry.overloads name := by
  intro r
  have hfold := h.foldName_eq
  exact ⟨contains_congr hfold, overloads_congr hfold, resolve_congr hfold,
    fun s => ⟨result_register_renamed hfold s, overloads_register_renamed hfold s⟩⟩

/-- A capital that is lower-cased to two letters, and a sigma at the end of the word. -/
theorem names_caseless_sigma :
    let s : Signature := .row [] (.scalar .int8)
    let r := (new {}).after [.register "İΟΣ" s]
    SameName "İΟΣ" "i\u0307ος" ∧ r.overloads "i\u0307ος" = [s] ∧
      (r.register "i\u0307ος" s).result = .error (.duplicateOverload "i\u0307ος") := by
  intro s r
  have hsame : SameName "İΟΣ" "i\u0307ος" := .inr (by decide +kernel)
  have hfound : r.overloads "İΟΣ" = [s] := by decide +kernel
  have hrefused : (r.register "İΟΣ" s).result = .error (.duplicateOverload "İΟΣ") := by
    decide +kernel
  obtain ⟨-, hoverloads, -, hregister⟩ := names_caseless {} [.register "İΟΣ" s] hsame
  refine ⟨hsame, hoverloads.symm.trans hfound, ?_⟩
  rw [(hregister s).1, hrefused]
  rfl

end Registry

end ExtensionCatalog
