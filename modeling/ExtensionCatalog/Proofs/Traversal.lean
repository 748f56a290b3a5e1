import Mathlib.Data.List.Forall2

/-!
# Readings of lists that can fail

A list is read item by item, and the first failure ends the reading. So the
reading succeeds exactly if every item's does, and its failure is some item's.

* `mapM_eq_ok_iff` — what a reading that succeeds gives, item by item.
* `exists_mapM_eq_ok_iff` — when a reading succeeds.
* `forall_mem_iff_of_mapM_eq_ok` — what holds of all that was read.
* `exists_of_mapM_eq_error` — where a failure comes from.
* `mapM_map_eq_pure` — what was written item by item is read item by item.
* `FailsFirst` — a reading made of several reports the first of all their causes to
  fail.
* `mapM_eq_some_iff`, `mapM_eq_none_iff` — what readings that fail without a cause
  give, and when they fail.
-/

namespace ExtensionCatalog

variable {ε α β : Type} {f : α → Except ε β}

theorem bind_eq_ok_iff {x : Except ε α} {b : β} :
    x >>= f = .ok b ↔ ∃ a, x = .ok a ∧ f a = .ok b := by
  cases x with
  | error e =>
    constructor
    · intro h
      cases h
    · rintro ⟨a, ha, -⟩
      cases ha
  | ok a =>
    constructor
    · intro h
      exact ⟨a, rfl, h⟩
    · rintro ⟨a', ha, h⟩
      cases ha
      exact h

theorem bind_eq_error_iff {x : Except ε α} {e : ε} :
    x >>= f = .error e ↔ x = .error e ∨ ∃ a, x = .ok a ∧ f a = .error e := by
  cases x with
  | error e' =>
    constructor
    · intro h
      cases h
      exact .inl rfl
    · rintro (h | ⟨a, ha, -⟩)
      · cases h
        rfl
      · cases ha
  | ok a =>
    constructor
    · intro h
      exact .inr ⟨a, rfl, h⟩
    · rintro (h | ⟨a', ha, h⟩)
      · cases h
      · cases ha
        exact h

theorem map_eq_ok_iff {g : α → β} {x : Except ε α} {b : β} :
    x.map g = .ok b ↔ ∃ a, x = .ok a ∧ g a = b := by
  cases x <;> simp [Except.map]

theorem map_eq_error_iff {g : α → β} {x : Except ε α} {e : ε} :
    x.map g = .error e ↔ x = .error e := by
  cases x <;> simp [Except.map]

theorem mapM_eq_ok_iff {items : List α} {results : List β} :
    items.mapM f = .ok results ↔ List.Forall₂ (fun a b => f a = .ok b) items results := by
  induction items generalizing results with
  | nil =>
    rw [List.mapM_nil, List.forall₂_nil_left_iff]
    exact ⟨fun h => by cases h; rfl, fun h => by rw [h]; rfl⟩
  | cons a items ih =>
    rw [List.mapM_cons, List.forall₂_cons_left_iff, bind_eq_ok_iff]
    constructor
    · rintro ⟨b, hb, h⟩
      obtain ⟨rest, hrest, h⟩ := bind_eq_ok_iff.mp h
      cases h
      exact ⟨b, rest, hb, ih.mp hrest, rfl⟩
    · rintro ⟨b, rest, hb, hrest, rfl⟩
      exact ⟨b, hb, bind_eq_ok_iff.mpr ⟨rest, ih.mpr hrest, rfl⟩⟩

theorem mapM_append_singleton_eq_ok_iff {items : List α} {a : α} {results : List β} :
    (items ++ [a]).mapM f = .ok results ↔
      ∃ init last, items.mapM f = .ok init ∧ f a = .ok last ∧ results = init ++ [last] := by
  rw [List.mapM_append, bind_eq_ok_iff]
  constructor
  · rintro ⟨init, hinit, h⟩
    obtain ⟨lasts, hlasts, h⟩ := bind_eq_ok_iff.mp h
    cases h
    cases mapM_eq_ok_iff.mp hlasts with
    | cons hlast hnil =>
      cases hnil
      exact ⟨init, _, hinit, hlast, rfl⟩
  · rintro ⟨init, last, hinit, hlast, rfl⟩
    have hlasts : [a].mapM f = .ok [last] := mapM_eq_ok_iff.mpr (.cons hlast .nil)
    exact ⟨init, hinit, bind_eq_ok_iff.mpr ⟨[last], hlasts, rfl⟩⟩

theorem exists_mapM_eq_ok_iff {items : List α} :
    (∃ results, items.mapM f = .ok results) ↔ ∀ a ∈ items, ∃ b, f a = .ok b := by
  induction items with
  | nil => exact ⟨fun _ a ha => absurd ha List.not_mem_nil, fun _ => ⟨[], rfl⟩⟩
  | cons a items ih =>
    simp only [mapM_eq_ok_iff, List.forall₂_cons_left_iff, List.forall_mem_cons] at ih ⊢
    rw [← ih]
    constructor
    · rintro ⟨_, b, rest, hb, hrest, -⟩
      exact ⟨⟨b, hb⟩, rest, hrest⟩
    · rintro ⟨⟨b, hb⟩, rest, hrest⟩
      exact ⟨b :: rest, b, rest, hb, hrest, rfl⟩

theorem forall_mem_iff_of_mapM_eq_ok {P : β → Prop} {items : List α} {results : List β}
    (h : items.mapM f = .ok results) :
    (∀ b ∈ results, P b) ↔ ∀ a ∈ items, ∀ b, f a = .ok b → P b := by
  induction mapM_eq_ok_iff.mp h with
  | nil => exact ⟨fun _ a ha => absurd ha List.not_mem_nil, fun _ b hb => absurd hb List.not_mem_nil⟩
  | cons ha hrest ih =>
    rw [List.forall_mem_cons, List.forall_mem_cons, ih (mapM_eq_ok_iff.mpr hrest)]
    refine and_congr_left fun _ => ⟨?_, fun hall => hall _ ha⟩
    intro hP b hb
    rw [ha] at hb
    cases hb
    exact hP

theorem exists_of_mapM_eq_error {items : List α} {e : ε} (h : items.mapM f = .error e) :
    ∃ a ∈ items, f a = .error e := by
  induction items with
  | nil => cases h
  | cons a items ih =>
    rw [List.mapM_cons, bind_eq_error_iff] at h
    rcases h with ha | ⟨b, -, h⟩
    · exact ⟨a, List.mem_cons_self, ha⟩
    · rcases bind_eq_error_iff.mp h with hitems | ⟨rest, -, h⟩
      · obtain ⟨a', ha', he⟩ := ih hitems
        exact ⟨a', List.mem_cons_of_mem _ ha', he⟩
      · cases h

/-! ### First causes -/

/-- The reading fails with the first of some causes, and succeeds if there is none. -/
def FailsFirst (x : Except ε α) (causes : List ε) : Prop :=
  ∀ e, x = .error e ↔ causes.head? = some e

namespace FailsFirst

variable {x : Except ε α} {causes others : List ε}

theorem ok (a : α) : FailsFirst (.ok a : Except ε α) [] := by
  intro e
  simp

theorem error (e : ε) (others : List ε) : FailsFirst (.error e : Except ε α) (e :: others) := by
  intro e'
  simp

theorem exists_ok_iff (h : FailsFirst x causes) : (∃ a, x = .ok a) ↔ causes = [] := by
  cases x with
  | error e =>
    obtain ⟨rest, rfl⟩ := List.head?_eq_some_iff.mp ((h e).mp rfl)
    simp
  | ok a =>
    have hnone : causes = [] := by
      cases causes with
      | nil => rfl
      | cons e rest => cases (h e).mpr rfl
    simp [hnone]

/-- Of two readings in turn the causes of the first come first. -/
theorem bind (h : FailsFirst x causes) (hf : ∀ a, x = .ok a → FailsFirst (f a) others) :
    FailsFirst (x >>= f) (causes ++ others) := by
  cases x with
  | error e =>
    obtain ⟨rest, rfl⟩ := List.head?_eq_some_iff.mp ((h e).mp rfl)
    exact error e _
  | ok a =>
    rw [h.exists_ok_iff.mp ⟨a, rfl⟩, List.nil_append]
    exact hf a rfl

theorem map (h : FailsFirst x causes) (g : α → β) : FailsFirst (x.map g) causes :=
  fun e => map_eq_error_iff.trans (h e)

theorem mapM {of : α → List ε} (h : ∀ a, FailsFirst (f a) (of a)) (items : List α) :
    FailsFirst (items.mapM f) (items.flatMap of) := by
  induction items with
  | nil => exact ok []
  | cons a items ih =>
    rw [List.mapM_cons, List.flatMap_cons]
    refine (h a).bind fun b _ => ?_
    rw [← List.append_nil (items.flatMap of)]
    exact ih.bind fun rest _ => ok (b :: rest)

end FailsFirst

/-! ### What was written -/

/-- Items are read from what was written for them, if each one is. -/
theorem mapM_map_eq_pure {α β γ : Type} {m : Type → Type} [Monad m] [LawfulMonad m]
    {write : α → β} {read : β → m γ} {g : α → γ} (h : ∀ a, read (write a) = pure (g a))
    (items : List α) : (items.map write).mapM read = pure (items.map g) := by
  rw [List.mapM_map]
  simp only [Function.comp_def, h]
  exact List.mapM_pure

/-! ### Failures without a cause -/

theorem mapM_eq_some_iff {g : α → Option β} {items : List α} {results : List β} :
    items.mapM g = some results ↔ List.Forall₂ (fun a b => g a = some b) items results := by
  induction items generalizing results with
  | nil => simp [eq_comm]
  | cons a items ih =>
    rw [List.mapM_cons, List.forall₂_cons_left_iff]
    constructor
    · intro h
      obtain ⟨b, hb, h⟩ := Option.bind_eq_some_iff.mp h
      obtain ⟨rest, hrest, h⟩ := Option.bind_eq_some_iff.mp h
      cases h
      exact ⟨b, rest, hb, ih.mp hrest, rfl⟩
    · rintro ⟨b, rest, hb, hrest, rfl⟩
      rw [hb, ih.mpr hrest]
      rfl

theorem mapM_eq_none_iff {g : α → Option β} {items : List α} :
    items.mapM g = none ↔ ∃ a ∈ items, g a = none := by
  induction items with
  | nil => simp
  | cons a items ih =>
    rw [List.mapM_cons, List.exists_mem_cons_iff, ← ih]
    cases g a with
    | none => simp
    | some b => cases items.mapM g <;> simp

end ExtensionCatalog
