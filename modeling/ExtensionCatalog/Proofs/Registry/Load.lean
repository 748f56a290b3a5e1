import ExtensionCatalog.Proofs.Registry.Invariant

/-!
# Loads that succeed

A load succeeds when every document declares a signature and every signature is
let in at its turn. `Loads` says this document by document, and with it what the
registry becomes; `Loads.load` and `loads_of_load` tie it to the load that runs.
-/

namespace ExtensionCatalog.Registry

/-- The documents are all let in, one after the other, and take the registry to
another one. -/
inductive Loads : Registry → List Document → Registry → Prop where
  | nil {r : Registry} : Loads r [] r
  | cons {r r' : Registry} {d : Document} {rest : List Document} {name : String}
      {s : Signature} : d.decode = .ok (name, s) → r.Accepts name s →
      Loads (r.add name s) rest r' → Loads r (d :: rest) r'

theorem Loads.append {r r' r'' : Registry} {first second : List Document}
    (hfirst : Loads r first r') (hsecond : Loads r' second r'') :
    Loads r (first ++ second) r'' := by
  induction hfirst with
  | nil => exact hsecond
  | cons hdecode haccepts _ ih => exact .cons hdecode haccepts (ih hsecond)

theorem Loads.decode {r r' : Registry} {documents : List Document}
    (h : Loads r documents r') : ∀ d ∈ documents, ∃ declared, d.decode = .ok declared := by
  induction h with
  | nil => intro d hd; exact absurd hd List.not_mem_nil
  | cons hdecode _ _ ih =>
    intro d hd
    rcases List.mem_cons.mp hd with rfl | hd
    · exact ⟨_, hdecode⟩
    · exact ih d hd

/-- The document of a signature is let in with the signature if its name is no
blank. -/
theorem Loads.document {r r' : Registry} {s : Signature} {name : String}
    {rest : List Document} (hname : ¬ Text.Blank name.toList) (haccepts : r.Accepts name s)
    (hrest : Loads (r.add name s.bare) rest r') : Loads r (s.document name :: rest) r' := by
  have hdecode : (s.document name).decode = .ok (name, s.bare) := by
    rw [Document.decode_document, if_neg hname]
  exact .cons hdecode (accepts_bare.mpr haccepts) hrest

/-- A document that declares a signature is refused, or its signature is added
and the other documents follow. -/
theorem registerAll_cons {r : Registry} {d : Document} {rest : List Document} {name : String}
    {s : Signature} (h : d.decode = .ok (name, s)) :
    r.registerAll (d :: rest) = match r.refusal? name s with
      | some e => ⟨r, .error e, []⟩
      | none =>
        let others := (r.add name s).registerAll rest
        ⟨others.registry, others.result.map (· + 1),
          r.settings.logging.report .debug ("Registered extension function " ++ s.text name) ++
            others.log⟩ := by
  rw [registerAll, h]
  simp only [register_eq]
  cases r.refusal? name s <;> rfl

theorem Loads.registerAll {r r' : Registry} {documents : List Document}
    (h : Loads r documents r') :
    (r.registerAll documents).registry = r' ∧
      (r.registerAll documents).result = .ok documents.length := by
  induction h with
  | nil => exact ⟨rfl, rfl⟩
  | cons hdecode haccepts _ ih =>
    rw [registerAll_cons hdecode, refusal?_eq_none_iff.mpr haccepts]
    refine ⟨ih.1, ?_⟩
    simp only [ih.2]
    rfl

theorem loads_of_registerAll {r : Registry} {documents : List Document} {n : Nat}
    (h : (r.registerAll documents).result = .ok n) :
    Loads r documents (r.registerAll documents).registry := by
  induction documents generalizing r n with
  | nil => exact .nil
  | cons d rest ih =>
    cases hdecode : d.decode with
    | error e =>
      rw [Registry.registerAll, hdecode] at h
      cases h
    | ok declared =>
      obtain ⟨name, s⟩ := declared
      rw [registerAll_cons hdecode] at h ⊢
      cases hrefusal : r.refusal? name s with
      | some e =>
        rw [hrefusal] at h
        cases h
      | none =>
        rw [hrefusal] at h
        cases hrest : ((r.add name s).registerAll rest).result with
        | error e =>
          simp only [hrest] at h
          cases h
        | ok m => exact .cons hdecode (refusal?_eq_none_iff.mp hrefusal) (ih hrest)

/-- Loading a text is registering the documents in it, up to the log. -/
theorem load_of_parseList? {r : Registry} {text : String} {documents : List Document}
    (hparse : Document.parseList? text = some documents) :
    (r.load text).registry = (r.registerAll documents).registry ∧
      (r.load text).result = (r.registerAll documents).result := by
  rw [load, hparse]
  dsimp only
  cases (r.registerAll documents).result <;> exact ⟨rfl, rfl⟩

theorem Loads.load {r r' : Registry} {text : String} {documents : List Document}
    (hparse : Document.parseList? text = some documents) (h : Loads r documents r') :
    (r.load text).registry = r' ∧ (r.load text).result = .ok documents.length := by
  obtain ⟨hregistry, hresult⟩ := load_of_parseList? (r := r) hparse
  rw [hregistry, hresult]
  exact h.registerAll

theorem loads_of_load {r : Registry} {text : String} {documents : List Document} {n : Nat}
    (hparse : Document.parseList? text = some documents) (h : (r.load text).result = .ok n) :
    Loads r documents (r.load text).registry := by
  obtain ⟨hregistry, hresult⟩ := load_of_parseList? (r := r) hparse
  rw [hresult] at h
  rw [hregistry]
  exact loads_of_registerAll h

end ExtensionCatalog.Registry
