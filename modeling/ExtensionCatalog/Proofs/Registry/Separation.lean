import ExtensionCatalog.Proofs.Registry.History
import ExtensionCatalog.Proofs.Registry.Views

/-!
# Names do not interfere (spec §C.5)

Registrations under different names have nothing to do with each other. What
comes of one is settled by the overloads of its name, and it leaves the entries
of all other names alone. So a run of registrations falls apart into the calls
under each name: what they leave behind for the name, and what comes of each of
them, does not depend on the calls between them.

* `overloads_after_registrations` — the overloads of a name are those that the
  calls under it let in, one after the other.
* `spelling?_after_registrations` — a name is shown as in the first call under
  it whose signature passes its checks.
* `attemptsUnder_history` — the results of the calls under a name.
* `registrations_interleave` — calls under different names may be made in any
  order.
-/

namespace ExtensionCatalog

/-! ### Calls -/

/-- Requests that register overloads, each under a name. -/
def registrations (calls : List (String × Signature)) : List Request :=
  calls.map fun call => .register call.1 call.2

/-- The calls under a name, in any letter case. -/
def callsUnder (name : String) (calls : List (String × Signature)) :
    List (String × Signature) :=
  calls.filter fun call => Text.foldName call.1 = Text.foldName name

/-- The attempts under a name, in any letter case. -/
def attemptsUnder (name : String) (attempts : List Attempt) : List Attempt :=
  attempts.filter fun a => Text.foldName a.name = Text.foldName name

theorem callsUnder_cons_of_eq {name : String} {call : String × Signature}
    (calls : List (String × Signature)) (h : Text.foldName call.1 = Text.foldName name) :
    callsUnder name (call :: calls) = call :: callsUnder name calls :=
  List.filter_cons_of_pos (by simpa using h)

theorem callsUnder_cons_of_ne {name : String} {call : String × Signature}
    (calls : List (String × Signature)) (h : Text.foldName call.1 ≠ Text.foldName name) :
    callsUnder name (call :: calls) = callsUnder name calls :=
  List.filter_cons_of_neg (by simpa using h)

/-- The overloads of a name after an attempt to register one more. -/
def admitted (checks : Checks) (overloads : List Signature) (s : Signature) : List Signature :=
  if s.Admissible checks.strictPointers ∧
      (checks.allowDuplicates = false → s.types ∉ overloads.map Signature.types) then
    overloads ++ [s]
  else overloads

namespace Registry

theorem after_registrations_cons (r : Registry) (call : String × Signature)
    (calls : List (String × Signature)) :
    r.after (registrations (call :: calls)) =
      (r.register call.1 call.2).registry.after (registrations calls) := rfl

theorem history_registrations_cons (r : Registry) (call : String × Signature)
    (calls : List (String × Signature)) :
    r.history (registrations (call :: calls)) =
      ⟨call.1, call.2, (r.register call.1 call.2).result⟩ ::
        (r.register call.1 call.2).registry.history (registrations calls) := rfl

/-! ### One call -/

/-- What comes of a registration is settled by the overloads of its name. -/
theorem result_register_congr {r r' : Registry} {name : String} (s : Signature)
    (hsettings : r.settings = r'.settings) (hoverloads : r.overloads name = r'.overloads name) :
    (r.register name s).result = (r'.register name s).result := by
  have hrefusal : r.refusal? name s = r'.refusal? name s := by
    rw [refusal?, refusal?, hsettings, hoverloads]
  rw [register_eq, register_eq, hrefusal]
  cases r'.refusal? name s <;> rfl

theorem overloads_register_of_eq {r : Registry} {name m : String} (s : Signature)
    (h : Text.foldName name = Text.foldName m) :
    (r.register name s).registry.overloads m = admitted r.settings.checks (r.overloads m) s := by
  have hoverloads : r.overloads name = r.overloads m := overloads_congr h
  rw [admitted]
  split
  · rename_i hcondition
    have haccepts : r.Accepts name s := ⟨hcondition.1, by rw [hoverloads]; exact hcondition.2⟩
    rw [(register_of_accepts haccepts).1, overloads_add_of_eq h]
  · rename_i hcondition
    have hrefused : ¬ r.Accepts name s := by
      intro haccepts
      refine hcondition ⟨haccepts.admissible, ?_⟩
      rw [← hoverloads]
      exact haccepts.fresh
    rw [(register_of_not_accepts hrefused).1]

/-- A name that has overloads is shown in some way. -/
theorem spelling?_isSome_of_overloads_ne_nil {r : Registry} {name : String}
    (h : r.overloads name ≠ []) : (r.spelling? name).isSome = true := by
  rw [spelling?, Option.isSome_map]
  cases hentry : r.find? name with
  | none => exact absurd (overloads_of_find?_eq_none hentry) h
  | some e => rfl

/-- A call whose signature passes its checks shows the name as it spells it,
unless the name is shown already. -/
theorem spelling?_register_of_eq {r : Registry} {name m : String} (s : Signature)
    (h : Text.foldName name = Text.foldName m) :
    (r.register name s).registry.spelling? m = (r.spelling? m).or
      (if s.Admissible r.settings.checks.strictPointers then some name else none) := by
  by_cases haccepts : r.Accepts name s
  · rw [(register_of_accepts haccepts).1, if_pos haccepts.admissible, spelling?_add_of_eq h]
  · rw [(register_of_not_accepts haccepts).1]
    split
    · rename_i hadmissible
      -- What passes its checks and is refused repeats an overload of the name.
      have hshown : (r.spelling? m).isSome = true := by
        apply spelling?_isSome_of_overloads_ne_nil
        intro hnil
        refine haccepts ⟨hadmissible, fun _ => ?_⟩
        simp [overloads_congr h, hnil]
      exact (Option.or_of_isSome hshown).symm
    · exact Option.or_none.symm

theorem find?_register_of_ne {r : Registry} {name m : String} (s : Signature)
    (h : Text.foldName name ≠ Text.foldName m) :
    (r.register name s).registry.find? m = r.find? m := by
  by_cases haccepts : r.Accepts name s
  · rw [(register_of_accepts haccepts).1, find?_add_of_ne h]
  · rw [(register_of_not_accepts haccepts).1]

theorem overloads_register_of_ne {r : Registry} {name m : String} (s : Signature)
    (h : Text.foldName name ≠ Text.foldName m) :
    (r.register name s).registry.overloads m = r.overloads m := by
  rw [overloads, overloads, find?_register_of_ne s h]

theorem spelling?_register_of_ne {r : Registry} {name m : String} (s : Signature)
    (h : Text.foldName name ≠ Text.foldName m) :
    (r.register name s).registry.spelling? m = r.spelling? m := by
  rw [spelling?, spelling?, find?_register_of_ne s h]

/-! ### Runs of calls -/

/-- The overloads of a name are those that the calls under it let in, one after
the other. -/
theorem overloads_after_registrations (r : Registry) (calls : List (String × Signature))
    (name : String) :
    (r.after (registrations calls)).overloads name =
      ((callsUnder name calls).map Prod.snd).foldl (admitted r.settings.checks)
        (r.overloads name) := by
  induction calls generalizing r with
  | nil => rfl
  | cons call calls ih =>
    rw [after_registrations_cons, ih, settings_register]
    by_cases h : Text.foldName call.1 = Text.foldName name
    · rw [overloads_register_of_eq call.2 h, callsUnder_cons_of_eq calls h]
      rfl
    · rw [overloads_register_of_ne call.2 h, callsUnder_cons_of_ne calls h]

/-- A name is shown as in the first call under it whose signature passes its
checks, unless it was shown before. -/
theorem spelling?_after_registrations (r : Registry) (calls : List (String × Signature))
    (name : String) :
    (r.after (registrations calls)).spelling? name = (r.spelling? name).or
      (((callsUnder name calls).find? fun call =>
        call.2.Admissible r.settings.checks.strictPointers).map Prod.fst) := by
  induction calls generalizing r with
  | nil => exact Option.or_none.symm
  | cons call calls ih =>
    rw [after_registrations_cons, ih, settings_register]
    by_cases h : Text.foldName call.1 = Text.foldName name
    · rw [spelling?_register_of_eq call.2 h, callsUnder_cons_of_eq calls h, Option.or_assoc]
      by_cases hadmissible : call.2.Admissible r.settings.checks.strictPointers
      · simp [hadmissible]
      · simp [hadmissible]
    · rw [spelling?_register_of_ne call.2 h, callsUnder_cons_of_ne calls h]

/-- The calls under a name have the same results as if no others were made. -/
theorem attemptsUnder_history {r r' : Registry} {name : String}
    (hsettings : r.settings = r'.settings) (hoverloads : r.overloads name = r'.overloads name)
    (calls : List (String × Signature)) :
    attemptsUnder name (r.history (registrations calls)) =
      r'.history (registrations (callsUnder name calls)) := by
  induction calls generalizing r r' with
  | nil => rfl
  | cons call calls ih =>
    rw [history_registrations_cons]
    have hsettings' : (r.register call.1 call.2).registry.settings = r'.settings := by
      rw [settings_register, hsettings]
    by_cases h : Text.foldName call.1 = Text.foldName name
    · have hresult : (r.register call.1 call.2).result = (r'.register call.1 call.2).result := by
        apply result_register_congr call.2 hsettings
        rw [overloads_congr h, overloads_congr h, hoverloads]
      have hrest := ih (hsettings'.trans (settings_register r' call.1 call.2).symm) (by
        rw [overloads_register_of_eq call.2 h, overloads_register_of_eq call.2 h, hsettings,
          hoverloads])
      rw [callsUnder_cons_of_eq calls h, history_registrations_cons, ← hrest, ← hresult]
      exact List.filter_cons_of_pos (by simpa using h)
    · have hrest := ih hsettings' (by rw [overloads_register_of_ne call.2 h, hoverloads])
      rw [callsUnder_cons_of_ne calls h, ← hrest]
      exact List.filter_cons_of_neg (by simpa using h)

/-- **Calls under different names may be made in any order.** Two runs of
registrations that make the calls under each name in the same order make the
same calls, with the same results, and nothing that can be asked of the new
registries tells them apart. -/
theorem registrations_interleave (settings : Settings) {calls calls' : List (String × Signature)}
    (h : ∀ name, callsUnder name calls = callsUnder name calls') :
    let r := (new settings).after (registrations calls)
    let r' := (new settings).after (registrations calls')
    (∀ name, attemptsUnder name ((new settings).history (registrations calls)) =
        attemptsUnder name ((new settings).history (registrations calls'))) ∧
      r.text = r'.text ∧ r.names = r'.names ∧ r.size = r'.size ∧
      ∀ name, r.contains name = r'.contains name ∧ r.overloads name = r'.overloads name ∧
        ∀ operands, r.resolve name operands = r'.resolve name operands := by
  intro r r'
  have hr : r.Consistent := consistent_after settings (registrations calls)
  have hr' : r'.Consistent := consistent_after settings (registrations calls')
  have hoverloads : ∀ name, r.overloads name = r'.overloads name := by
    intro name
    rw [overloads_after_registrations, overloads_after_registrations, h]
  have hspelling : ∀ name, r.spelling? name = r'.spelling? name := by
    intro name
    rw [spelling?_after_registrations, spelling?_after_registrations, h]
  have hentries : r.sortedEntries = r'.sortedEntries := by
    apply hr.sortedEntries_congr hr'
    intro name
    rw [find?_eq, find?_eq, hspelling, hoverloads]
  refine ⟨?_, ?_, ?_, ?_, ?_⟩
  · intro name
    rw [attemptsUnder_history rfl rfl calls, attemptsUnder_history rfl rfl calls', h]
  · rw [text, text, json, json, hentries]
  · rw [names, names, hentries]
  · rw [size_eq, size_eq, hentries]
  · intro name
    refine ⟨?_, hoverloads name, fun operands => ?_⟩
    · rw [contains_eq, contains_eq, hspelling]
    · rw [resolve, resolve, hoverloads]

/-- Two functions whose second registration is refused, with their calls in turn
and one of them ahead. -/
theorem registrations_interleave_refusals :
    let s : Signature := .row [] (.scalar .int8)
    let calls := [("f", s), ("G", s), ("F", s), ("g", s)]
    let calls' := [("G", s), ("g", s), ("f", s), ("F", s)]
    let r := (new {}).after (registrations calls)
    let r' := (new {}).after (registrations calls')
    (∀ name, callsUnder name calls = callsUnder name calls') ∧
      (attemptsUnder "g" ((new {}).history (registrations calls))).map Attempt.result =
        [.ok (), .error (.duplicateOverload "g")] ∧
      (attemptsUnder "g" ((new {}).history (registrations calls'))).map Attempt.result =
        [.ok (), .error (.duplicateOverload "g")] ∧
      r.text = r'.text ∧ r.names = r'.names ∧ r'.size = 2 := by
  intro s calls calls' r r'
  have hcalls : ∀ name, callsUnder name calls = callsUnder name calls' := by
    intro name
    have hf : Text.foldName "F" = Text.foldName "f" := by decide +kernel
    have hg : Text.foldName "g" = Text.foldName "G" := by decide +kernel
    have hfg : Text.foldName "f" ≠ Text.foldName "G" := by decide +kernel
    by_cases hname : Text.foldName "f" = Text.foldName name
    · have hother : Text.foldName "G" ≠ Text.foldName name := hname ▸ hfg.symm
      simp [callsUnder, calls, calls', hf, hg, hname, hother]
    · simp [callsUnder, calls, calls', List.filter_cons, hf, hg, hname]
  obtain ⟨hattempts, htext, hnames, hsize, -⟩ := registrations_interleave {} hcalls
  have hresults : (attemptsUnder "g" ((new {}).history (registrations calls))).map Attempt.result =
      [.ok (), .error (.duplicateOverload "g")] := by
    decide +kernel
  have htwo : r.size = 2 := by decide +kernel
  exact ⟨hcalls, hresults, hattempts "g" ▸ hresults, htext, hnames, hsize.symm.trans htwo⟩

end Registry

end ExtensionCatalog
