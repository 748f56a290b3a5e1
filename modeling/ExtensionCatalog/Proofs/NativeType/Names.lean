import ExtensionCatalog.Proofs.Text.Lowercase
import ExtensionCatalog.Signature.Error
import Mathlib.Data.List.Nodup

/-!
# The names of native types (spec §4.2, §C.1)

Types are written and read by two tables, which are inverse to each other; around a
name that is read, blanks do not matter. What is not the name of a type is refused under
the text that was taken for a name: no name has a blank in it, and no two names differ in
letter case alone, so a text with a blank inside or a name in other letters is refused as
well.

* `read_eq_ok_iff_trim`, `read_eq_error_iff` — the texts that name a type, and all
  others.
* `codeName_injective_of_foldName` — no two names differ in letter case alone.
* `read_names` — reading, with what follows for blanks and letter case.
-/

namespace ExtensionCatalog.NativeType

open Text (Blank Solid)

/-! ### The names -/

/-- Names consist of the visible characters of ASCII. -/
theorem visible_of_mem_codeName {t : NativeType} {c : Char} (h : c ∈ t.codeName.toList) :
    33 ≤ c.toNat ∧ c.toNat ≤ 126 := by
  have key : (all.all fun t => t.codeName.toList.all fun c =>
      33 ≤ c.toNat && c.toNat ≤ 126) = true := by decide +kernel
  simpa using List.all_eq_true.mp (List.all_eq_true.mp key t (mem_all t)) c h

theorem solid_codeName (t : NativeType) : Solid t.codeName.toList := by
  intro c hc
  have hvisible := visible_of_mem_codeName hc
  simp only [Text.isBlank, Bool.or_eq_false_iff, Bool.and_eq_false_iff, decide_eq_false_iff_not]
  omega

theorem trim_codeName (t : NativeType) : Text.trim t.codeName.toList = t.codeName.toList := by
  apply Text.trim_eq_self t.solid_codeName.startTrimmed
  intro c hc
  exact t.solid_codeName c (List.mem_of_getLast? hc)

/-- No two names differ in letter case alone. -/
theorem codeName_injective_of_foldName {t u : NativeType}
    (h : Text.foldName t.codeName = Text.foldName u.codeName) : t = u := by
  have key : (all.map fun t => t.codeName.toList.map Char.toLower).Nodup := by decide +kernel
  have hlower : ∀ t : NativeType,
      Text.lower t.codeName.toList = t.codeName.toList.map Char.toLower := by
    intro t
    apply Text.lower_of_ascii
    intro c hc
    have hvisible := visible_of_mem_codeName hc
    omega
  apply List.inj_on_of_nodup_map key (mem_all t) (mem_all u)
  rw [← hlower, ← hlower, ← Text.toList_foldName, h, Text.toList_foldName]

/-! ### Reading -/

/-- A type is read from exactly the texts that are its name once trimmed. -/
theorem read_eq_ok_iff_trim {text : String} {t : NativeType} :
    NativeType.read text = .ok t ↔ String.ofList (Text.trim text.toList) = t.codeName := by
  rw [read_eq_ok_iff, ofCodeName?_eq_some_iff, eq_comm]

/-- All other texts are refused under what is left of them once trimmed. -/
theorem read_eq_error_iff {text : String} {e : SignatureError} :
    NativeType.read text = .error e ↔
      (∀ t : NativeType, String.ofList (Text.trim text.toList) ≠ t.codeName) ∧
        e = .unknownTypeName (String.ofList (Text.trim text.toList)) := by
  constructor
  · intro h
    constructor
    · intro t ht
      rw [read_eq_ok_iff_trim.mpr ht] at h
      cases h
    · rw [NativeType.read] at h
      split at h
      next => cases h
      next =>
        cases h
        rfl
  · rintro ⟨hnone, rfl⟩
    rw [NativeType.read]
    split
    next t ht => exact absurd (ofCodeName?_eq_some_iff.mp ht).symm (hnone t)
    next => rfl

theorem read_codeName (t : NativeType) : NativeType.read t.codeName = .ok t := by
  rw [read_eq_ok_iff_trim, trim_codeName, String.ofList_toList]

/-- Blanks around a text do not matter. -/
theorem read_append_append {before after : String} (hbefore : Blank before.toList)
    (hafter : Blank after.toList) (text : String) :
    NativeType.read (before ++ text ++ after) = NativeType.read text := by
  have htrim : Text.trim (before ++ text ++ after).toList = Text.trim text.toList := by
    rw [String.toList_append, String.toList_append, Text.trim_append_blank _ hafter,
      Text.trim_append_of_blank hbefore]
  rw [NativeType.read, NativeType.read, ofCodeName?, ofCodeName?, htrim]

/-- **Reading a type is inverse to writing it.** A type is read from its name, and from
exactly those texts that are its name once trimmed; a text that is no type's name then is
refused under what is left of it. So blanks around a text do not matter, but a blank inside
a text is refused, and so is a name in other letters, upper or lower. -/
theorem read_names :
    (∀ t : NativeType, NativeType.read t.codeName = .ok t) ∧
      (∀ text t, NativeType.read text = .ok t ↔
        String.ofList (Text.trim text.toList) = t.codeName) ∧
      (∀ text e, NativeType.read text = .error e ↔
        (∀ t : NativeType, String.ofList (Text.trim text.toList) ≠ t.codeName) ∧
          e = .unknownTypeName (String.ofList (Text.trim text.toList))) ∧
      (∀ text before after : String, Blank before.toList → Blank after.toList →
        NativeType.read (before ++ text ++ after) = NativeType.read text) ∧
      (∀ text : String, ¬ Solid (Text.trim text.toList) → ∃ e, NativeType.read text = .error e) ∧
      ∀ (text : String) (t : NativeType),
        Text.foldName (String.ofList (Text.trim text.toList)) = Text.foldName t.codeName →
          String.ofList (Text.trim text.toList) ≠ t.codeName →
            ∃ e, NativeType.read text = .error e := by
  refine ⟨read_codeName, fun text t => read_eq_ok_iff_trim, fun text e => read_eq_error_iff,
    fun text _ _ hbefore hafter => read_append_append hbefore hafter text, ?_, ?_⟩
  · intro text hsolid
    refine ⟨_, read_eq_error_iff.mpr ⟨fun t ht => hsolid ?_, rfl⟩⟩
    rw [← String.toList_ofList (l := Text.trim text.toList), ht]
    exact t.solid_codeName
  · intro text t hfold hne
    refine ⟨_, read_eq_error_iff.mpr ⟨fun u hu => hne ?_, rfl⟩⟩
    rw [hu] at hfold
    rw [hu, codeName_injective_of_foldName hfold]

-- An ideographic space is a blank.
example : NativeType.read "\u3000Column<bool>\t" = .ok (.column .bool) ∧
    NativeType.read " column<bool>" = .error (.unknownTypeName "column<bool>") := by
  decide +kernel

end ExtensionCatalog.NativeType
