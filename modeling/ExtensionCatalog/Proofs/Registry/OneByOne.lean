import ExtensionCatalog.Proofs.Json.Sequence
import ExtensionCatalog.Proofs.Registry.Load
import ExtensionCatalog.Proofs.Signature.Decode

/-!
# Loading is registering one by one (spec §C.5)

A text that holds documents in an array can be taken apart: loading it comes to
the same as reading each document as a text of its own and registering what it
declares, up to the first failure. A text that does not hold documents
throughout has no such parts, and loading it does nothing, whatever documents
stand before the place where it goes wrong.

* `registerTexts` — texts of one document each, one after the other.
* `load_eq_noDocument_iff` — which texts are refused as a whole.
* `load_one_by_one` — loading by these two.
-/

namespace ExtensionCatalog

/-! ### Texts of documents -/

namespace Document

theorem parse?_eq_none_iff {text : String} :
    parse? text = none ↔ Signature.parse text = .error .noDocument := by
  unfold Signature.parse
  cases parse? text with
  | none => simp
  | some d => simp [d.decode_ne_noDocument]

/-- Texts of one document each, in brackets and with commas between them, hold
these documents. -/
theorem parseList?_brackets {texts : List String} {documents : List Document}
    (h : List.Forall₂ (fun text d => parse? text = some d) texts documents) :
    parseList? ("[" ++ ",".intercalate texts ++ "]") = some documents := by
  obtain ⟨values, hvalues, hdocuments⟩ : ∃ values,
      List.Forall₂ (fun text v => Json.parse? text = some v) texts values ∧
        List.Forall₂ (fun v d => ofValue? v = some d) values documents := by
    induction h with
    | nil => exact ⟨[], .nil, .nil⟩
    | cons hd _ ih =>
      obtain ⟨v, hv, hd⟩ := Option.bind_eq_some_iff.mp hd
      obtain ⟨values, hvalues, hdocuments⟩ := ih
      exact ⟨v :: values, .cons hv hvalues, .cons hd hdocuments⟩
  rw [parseList?, Json.parse?_brackets hvalues]
  exact mapM_eq_some_iff.mpr hdocuments

/-- A text holds no documents if it holds no array, or something else in it. -/
theorem parseList?_eq_none_iff {text : String} :
    parseList? text = none ↔
      ∀ items, Json.parse? text = some (.array items) → ∃ v ∈ items, ofValue? v = none := by
  unfold parseList?
  cases Json.parse? text with
  | none => simp
  | some v =>
    cases v with
    | array items => simpa [Json.Value.asArray?] using mapM_eq_none_iff
    | null | bool | number | string | object => simp [Json.Value.asArray?]

end Document

theorem Signature.check_ne_noDocument (s : Signature) (function : String) (strict : Bool) :
    s.check function strict ≠ .error .noDocument := by
  unfold check
  split
  · simp
  split
  · simp
  split <;> simp

namespace Registry

/-! ### One document after the other -/

/-- Registers what texts of one document each declare, up to the first that
declares nothing or is refused. -/
def registerTexts (r : Registry) : List String → Outcome Unit
  | [] => ⟨r, .ok (), []⟩
  | text :: rest =>
    match Signature.parse text with
    | .error e => ⟨r, .error e, []⟩
    | .ok (name, s) =>
      let first := r.register name s
      match first.result with
      | .error _ => first
      | .ok () =>
        let others := first.registry.registerTexts rest
        ⟨others.registry, others.result, first.log ++ others.log⟩

theorem registerTexts_of_parse_eq_error {r : Registry} {text : String} {rest : List String}
    {e : SignatureError} (h : Signature.parse text = .error e) :
    r.registerTexts (text :: rest) = ⟨r, .error e, []⟩ := by
  rw [registerTexts, h]

/-- A text that declares a signature is refused, or its signature is added and
the other texts follow. -/
theorem registerTexts_cons {r : Registry} {text : String} {rest : List String} {name : String}
    {s : Signature} (h : Signature.parse text = .ok (name, s)) :
    r.registerTexts (text :: rest) = match r.refusal? name s with
      | some e => ⟨r, .error e, []⟩
      | none =>
        let others := (r.add name s).registerTexts rest
        ⟨others.registry, others.result,
          r.settings.logging.report .debug ("Registered extension function " ++ s.text name) ++
            others.log⟩ := by
  rw [registerTexts, h]
  simp only [register_eq]
  cases r.refusal? name s <;> rfl

/-- The documents are registered like the texts that hold them, and counted. -/
theorem registerAll_eq_registerTexts (r : Registry) {texts : List String}
    {documents : List Document}
    (h : List.Forall₂ (fun text d => Document.parse? text = some d) texts documents) :
    r.registerAll documents =
      ⟨(r.registerTexts texts).registry,
        (r.registerTexts texts).result.map fun _ => texts.length,
        (r.registerTexts texts).log⟩ := by
  induction h generalizing r with
  | nil => rfl
  | @cons text d texts documents hd _ ih =>
    have hparse : Signature.parse text = d.decode := by
      rw [Signature.parse, hd]
    cases hdecode : d.decode with
    | error e =>
      rw [registerTexts_of_parse_eq_error (hparse.trans hdecode), registerAll, hdecode]
      rfl
    | ok declared =>
      obtain ⟨name, s⟩ := declared
      rw [registerAll_cons hdecode, registerTexts_cons (hparse.trans hdecode)]
      cases r.refusal? name s with
      | some e => rfl
      | none =>
        dsimp only
        rw [ih]
        cases ((r.add name s).registerTexts texts).result <;> rfl

/-- A failure leaves the registry as the texts before it made it. -/
theorem exists_of_registerTexts_eq_error {r : Registry} {texts : List String}
    {e : SignatureError} (h : (r.registerTexts texts).result = .error e) :
    ∃ before text rest, texts = before ++ text :: rest ∧
      (r.registerTexts before).result = .ok () ∧
        (r.registerTexts texts).registry = (r.registerTexts before).registry := by
  induction texts generalizing r with
  | nil => cases h
  | cons text texts ih =>
    cases hparse : Signature.parse text with
    | error _ =>
      rw [registerTexts_of_parse_eq_error hparse]
      exact ⟨[], text, texts, rfl, rfl, rfl⟩
    | ok declared =>
      obtain ⟨name, s⟩ := declared
      rw [registerTexts_cons hparse] at h ⊢
      cases hrefusal : r.refusal? name s with
      | some _ => exact ⟨[], text, texts, rfl, rfl, rfl⟩
      | none =>
        rw [hrefusal] at h
        obtain ⟨before, failing, rest, rfl, hresult, hregistry⟩ := ih h
        refine ⟨text :: before, failing, rest, rfl, ?_⟩
        rw [registerTexts_cons hparse, hrefusal]
        exact ⟨hresult, hregistry⟩

/-! ### Texts that are refused as a whole -/

theorem refusal?_ne_noDocument (r : Registry) (name : String) (s : Signature) :
    r.refusal? name s ≠ some .noDocument := by
  unfold refusal?
  cases hcheck : s.check name r.settings.checks.strictPointers with
  | error e =>
    rintro ⟨⟩
    exact s.check_ne_noDocument name _ hcheck
  | ok _ =>
    dsimp only
    split <;> simp

theorem registerAll_ne_noDocument (r : Registry) (documents : List Document) :
    (r.registerAll documents).result ≠ .error .noDocument := by
  induction documents generalizing r with
  | nil => simp [registerAll]
  | cons d rest ih =>
    intro h
    cases hdecode : d.decode with
    | error e =>
      rw [registerAll, hdecode] at h
      cases h
      exact d.decode_ne_noDocument hdecode
    | ok declared =>
      obtain ⟨name, s⟩ := declared
      rw [registerAll_cons hdecode] at h
      cases hrefusal : r.refusal? name s with
      | some e =>
        rw [hrefusal] at h
        cases h
        exact r.refusal?_ne_noDocument name s hrefusal
      | none =>
        rw [hrefusal] at h
        exact ih _ (map_eq_error_iff.mp h)

/-- A load reports that there are no documents exactly of a text that holds none,
or something else among them. -/
theorem load_eq_noDocument_iff {r : Registry} {text : String} :
    (r.load text).result = .error .noDocument ↔ Document.parseList? text = none := by
  cases hparse : Document.parseList? text with
  | none => simp [load, hparse]
  | some documents =>
    rw [(load_of_parseList? hparse).2]
    simp [registerAll_ne_noDocument]

/-- **Loading is registering one by one.** Texts of one document each, in
brackets and with commas between them, are loaded with the same effect as if
each was read and registered in turn, up to the first failure, and the same
result, but for the count; what was registered before a failure stays. A text
that holds no array, or something other than a document in it, is refused, and
nothing is registered. -/
theorem load_one_by_one (r : Registry) :
    (∀ texts : List String, (∀ text ∈ texts, Signature.parse text ≠ .error .noDocument) →
      let all := r.load ("[" ++ ",".intercalate texts ++ "]")
      all.registry = (r.registerTexts texts).registry ∧
        all.result = (r.registerTexts texts).result.map (fun _ => texts.length) ∧
        ∀ e, all.result = .error e → ∃ before text rest, texts = before ++ text :: rest ∧
          (r.registerTexts before).result = .ok () ∧
            all.registry = (r.registerTexts before).registry) ∧
      ∀ text : String,
        ((r.load text).result = .error .noDocument ↔
          ∀ items, Json.parse? text = some (.array items) →
            ∃ v ∈ items, Document.ofValue? v = none) ∧
        ((r.load text).result = .error .noDocument → (r.load text).registry = r) := by
  refine ⟨fun texts htexts => ?_, fun text => ⟨?_, fun h => ?_⟩⟩
  · intro all
    -- A text that is not refused for its form holds a document.
    obtain ⟨documents, hdocuments⟩ : ∃ documents,
        List.Forall₂ (fun text d => Document.parse? text = some d) texts documents := by
      cases hread : texts.mapM Document.parse? with
      | none =>
        obtain ⟨text, htext, hnone⟩ := mapM_eq_none_iff.mp hread
        exact absurd (Document.parse?_eq_none_iff.mp hnone) (htexts text htext)
      | some documents => exact ⟨documents, mapM_eq_some_iff.mp hread⟩
    obtain ⟨hregistry, hresult⟩ :=
      load_of_parseList? (r := r) (Document.parseList?_brackets hdocuments)
    rw [r.registerAll_eq_registerTexts hdocuments] at hregistry hresult
    refine ⟨hregistry, hresult, fun e he => ?_⟩
    rw [hregistry]
    exact exists_of_registerTexts_eq_error (map_eq_error_iff.mp (hresult.symm.trans he))
  · rw [load_eq_noDocument_iff, Document.parseList?_eq_none_iff]
  · rw [load, load_eq_noDocument_iff.mp h]

/-- A document that is refused leaves the one before it registered; a number in
the place of a document leaves nothing. -/
theorem load_one_by_one_refusals :
    let r := new {}
    let f := "\x7b\"name\":\"f\",\"ret\":\"i8\",\"args\":[]\x7d"
    let g := " [\"g\",null,[\"i64\"],[\"void\"]]"
    (r.load ("[" ++ ",".intercalate [f, g] ++ "]")).result = .error (.voidOperand "g" 0) ∧
      (r.load ("[" ++ ",".intercalate [f, g] ++ "]")).registry = r.add "f" (.row [] (.scalar .int8)) ∧
      (r.load ("[" ++ ",".intercalate [f, "3"] ++ "]")).registry = r := by
  intro r f g
  have hdocuments : ∀ text ∈ [f, g], Signature.parse text ≠ .error .noDocument := by
    decide +kernel
  obtain ⟨hregistry, hresult, -⟩ := (load_one_by_one r).1 [f, g] hdocuments
  obtain ⟨-, hunchanged⟩ := (load_one_by_one r).2 ("[" ++ ",".intercalate [f, "3"] ++ "]")
  have hnumber : (r.load ("[" ++ ",".intercalate [f, "3"] ++ "]")).result =
      .error .noDocument := by
    decide +kernel
  have hfirst : (r.registerTexts [f, g]).registry = r.add "f" (.row [] (.scalar .int8)) := by
    decide +kernel
  have hsecond : (r.registerTexts [f, g]).result = .error (.voidOperand "g" 0) := by
    decide +kernel
  refine ⟨?_, hregistry.trans hfirst, hunchanged hnumber⟩
  rw [hresult, hsecond]
  rfl

end Registry

end ExtensionCatalog
