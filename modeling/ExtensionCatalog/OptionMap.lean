/-!
# Option maps (spec §3, §4.5)

The named settings that a function signature or a statement carries: a finite
map from texts to texts. The entries are kept in ascending order of their
names, so that equal maps are equal values and every listing is in order.

* `get?_insert` — what a name is bound to after a binding is added.
* `get?_ofList` — of several values of a name the last one counts.
* `ext_get?` — two maps that bind every name alike are the same map.
-/

namespace ExtensionCatalog

/-- A finite map from names to values, listed by ascending name. -/
structure OptionMap where
  /-- The bindings, by ascending name. -/
  entries : List (String × String)
  /-- Each name is bound once, and later names are greater. -/
  ordered : entries.Pairwise (fun a b => a.1 < b.1)
deriving DecidableEq

namespace OptionMap

/-- The map that binds nothing. -/
def empty : OptionMap := ⟨[], .nil⟩

instance : EmptyCollection OptionMap := ⟨empty⟩

/-- The value bound to a name. -/
def get? (m : OptionMap) (key : String) : Option String :=
  m.entries.lookup key

/-! ### Adding a binding -/

/-- The bindings with one more, put in its place; it takes the place of a
binding of the same name. -/
def place (key value : String) : List (String × String) → List (String × String)
  | [] => [(key, value)]
  | e :: rest =>
    if key < e.1 then (key, value) :: e :: rest
    else if key = e.1 then (key, value) :: rest
    else e :: place key value rest

theorem mem_place {key value : String} {e : String × String} :
    ∀ {l : List (String × String)}, e ∈ place key value l → e = (key, value) ∨ e ∈ l
  | [], h => by simpa [place] using h
  | d :: rest, h => by
      rw [place] at h
      split at h
      · simpa using h
      · split at h
        · rcases List.mem_cons.mp h with h | h
          · exact .inl h
          · exact .inr (List.mem_cons_of_mem _ h)
        · rcases List.mem_cons.mp h with h | h
          · exact .inr (h ▸ List.mem_cons_self)
          · exact (mem_place h).imp_right (List.mem_cons_of_mem _)

theorem place_ordered (key value : String) :
    ∀ {l : List (String × String)}, l.Pairwise (fun a b => a.1 < b.1) →
      (place key value l).Pairwise (fun a b => a.1 < b.1)
  | [], _ => by simp [place]
  | e :: rest, h => by
      obtain ⟨hhead, htail⟩ := List.pairwise_cons.mp h
      rw [place]
      split
      · rename_i hlt
        refine List.pairwise_cons.mpr ⟨fun d hd => ?_, h⟩
        rcases List.mem_cons.mp hd with rfl | hd
        · exact hlt
        · exact String.lt_trans hlt (hhead d hd)
      · split
        · rename_i heq
          exact List.pairwise_cons.mpr ⟨fun d hd => by rw [heq]; exact hhead d hd, htail⟩
        · rename_i hge hne
          refine List.pairwise_cons.mpr ⟨fun d hd => ?_, place_ordered key value htail⟩
          rcases mem_place hd with rfl | hd
          · exact Std.lt_of_le_of_ne (String.not_lt.mp hge) (Ne.symm hne)
          · exact hhead d hd

theorem lookup_cons_eq_ite (k : String) (e : String × String) (l : List (String × String)) :
    (e :: l).lookup k = if k = e.1 then some e.2 else l.lookup k := by
  obtain ⟨a, b⟩ := e
  by_cases h : k = a
  · simp [h]
  · simp [List.lookup_cons, h, beq_false_of_ne h]

theorem lookup_place (key value k : String) :
    ∀ l : List (String × String),
      (place key value l).lookup k = if k = key then some value else l.lookup k
  | [] => lookup_cons_eq_ite k (key, value) []
  | e :: rest => by
      have ih := lookup_place key value k rest
      rw [place]
      split
      · exact lookup_cons_eq_ite k (key, value) (e :: rest)
      · split
        · rename_i heq
          rw [lookup_cons_eq_ite, lookup_cons_eq_ite, ← heq]
          split <;> rfl
        · rename_i hne
          rw [lookup_cons_eq_ite, lookup_cons_eq_ite, ih]
          by_cases hk : k = e.1
          · have hke : k ≠ key := fun h => hne (h.symm.trans hk)
            rw [if_pos hk, if_neg hke, if_pos hk]
          · rw [if_neg hk, if_neg hk]

/-- The map with a binding added; an earlier value of the name is forgotten. -/
def insert (m : OptionMap) (key value : String) : OptionMap :=
  ⟨place key value m.entries, place_ordered key value m.ordered⟩

/-- The name added is bound to the value added, and all others are as before. -/
theorem get?_insert (m : OptionMap) (key value k : String) :
    (m.insert key value).get? k = if k = key then some value else m.get? k :=
  lookup_place key value k m.entries

/-- The map of a list of bindings; of several values of a name the last one
counts. -/
def ofList (l : List (String × String)) : OptionMap :=
  l.foldl (fun m e => m.insert e.1 e.2) empty

/-- A binding added by hand counts before what was there. -/
theorem get?_foldl_insert (l : List (String × String)) (m : OptionMap) (k : String) :
    (l.foldl (fun m e => m.insert e.1 e.2) m).get? k = (l.reverse.lookup k).or (m.get? k) := by
  induction l generalizing m with
  | nil => rfl
  | cons e l ih =>
    rw [List.foldl_cons, ih, get?_insert, List.reverse_cons, List.lookup_append,
      Option.or_assoc, lookup_cons_eq_ite]
    split <;> rfl

/-- A name is bound to its last value in the list. -/
theorem get?_ofList (l : List (String × String)) (k : String) :
    (ofList l).get? k = l.reverse.lookup k := by
  rw [ofList, get?_foldl_insert]
  exact Option.or_none

/-- What binds something is not empty. -/
theorem entries_ofList_ne_nil {l : List (String × String)} (h : l ≠ []) :
    (ofList l).entries ≠ [] := by
  intro hnil
  cases hrev : l.reverse with
  | nil => exact h (List.reverse_eq_nil_iff.mp hrev)
  | cons last rest =>
    have hlast := get?_ofList l last.1
    rw [get?, hnil, hrev, lookup_cons_eq_ite, if_pos rfl] at hlast
    cases hlast

/-! ### Maps are determined by what they bind -/

theorem lookup_eq_none_of_lt {k : String} :
    ∀ {l : List (String × String)}, (∀ e ∈ l, k < e.1) → l.lookup k = none
  | [], _ => rfl
  | e :: rest, h => by
      have hne : k ≠ e.1 := fun heq => String.lt_irrefl _ (heq ▸ h e List.mem_cons_self)
      rw [lookup_cons_eq_ite, if_neg hne]
      exact lookup_eq_none_of_lt fun d hd => h d (List.mem_cons_of_mem _ hd)

/-- The first name of one list is not below the first name of another that
binds every name alike: it would be bound on one side only. -/
theorem not_lt_of_lookup_eq {d e : String × String} {l m : List (String × String)}
    (hm : ∀ x ∈ m, e.1 < x.1) (h : (d :: l).lookup d.1 = (e :: m).lookup d.1) :
    ¬ d.1 < e.1 := fun hlt => by
  have hnone : (e :: m).lookup d.1 = none :=
    lookup_eq_none_of_lt fun x hx => by
      rcases List.mem_cons.mp hx with rfl | hx
      · exact hlt
      · exact String.lt_trans hlt (hm x hx)
  rw [hnone, lookup_cons_eq_ite, if_pos rfl] at h
  exact Option.some_ne_none _ h

theorem entries_ext :
    ∀ {l m : List (String × String)}, l.Pairwise (fun a b => a.1 < b.1) →
      m.Pairwise (fun a b => a.1 < b.1) → (∀ k, l.lookup k = m.lookup k) → l = m
  | [], [], _, _, _ => rfl
  | [], e :: m, _, _, h => by simpa [lookup_cons_eq_ite] using h e.1
  | e :: l, [], _, _, h => by simpa [lookup_cons_eq_ite] using h e.1
  | d :: l, e :: m, hl, hm, h => by
      obtain ⟨hd, hl⟩ := List.pairwise_cons.mp hl
      obtain ⟨he, hm⟩ := List.pairwise_cons.mp hm
      have hkey : d.1 = e.1 :=
        String.le_antisymm
          (String.not_lt.mp (not_lt_of_lookup_eq hd (h e.1).symm))
          (String.not_lt.mp (not_lt_of_lookup_eq he (h d.1)))
      have hvalue : d.2 = e.2 := by
        have hk := h d.1
        rw [lookup_cons_eq_ite, lookup_cons_eq_ite, if_pos rfl, if_pos hkey] at hk
        exact Option.some.inj hk
      have htail : l = m := entries_ext hl hm fun k => by
        have hk := h k
        rw [lookup_cons_eq_ite, lookup_cons_eq_ite] at hk
        by_cases hkd : k = d.1
        · rw [hkd, lookup_eq_none_of_lt hd, hkey, lookup_eq_none_of_lt he]
        · rwa [if_neg hkd, if_neg (fun hke => hkd (hke.trans hkey.symm))] at hk
      rw [Prod.ext hkey hvalue, htail]

/-- Two maps that bind every name alike are the same map. -/
theorem ext_get? {m n : OptionMap} (h : ∀ k, m.get? k = n.get? k) : m = n := by
  obtain ⟨l, hl⟩ := m
  obtain ⟨l', hl'⟩ := n
  obtain rfl : l = l' := entries_ext hl hl' h
  rfl

end OptionMap

end ExtensionCatalog
