import ExtensionCatalog.Toml.Table
import Mathlib.Data.List.Nodup

/-!
# Documents in sections

A document whose lines come in sections, each a header and pairs, has one table per
section with the pairs of that section, in the order in which they stand. No header
and, within a section, no key may stand twice.

* `Table.ofLines?_sections` — the tables of such a document.
* `Table.lookup_perm` — the order of the pairs is of no importance.
-/

namespace ExtensionCatalog.Toml

/-- The lines of a section: its header, and its pairs. -/
def sectionLines (s : String × Table) : List Line :=
  .header [] s.1 :: s.2.map fun entry => .pair [] entry.1 entry.2

namespace Table

section Alter

variable {key : String} {f : Option Value → Option Value} {t : Table}

/-- Entries of other keys are passed over. -/
theorem alter_append (h : key ∉ t.map Prod.fst) (u : Table) :
    alter key f (t ++ u) = (alter key f u).map (t ++ ·) := by
  induction t with
  | nil => simp
  | cons entry t ih =>
    obtain ⟨hne, hrest⟩ := not_or.mp (List.mem_cons.not.mp h)
    rw [List.cons_append, alter, if_neg (Ne.symm hne), ih hrest, Option.map_map]
    rfl

/-- A new entry comes last. -/
theorem alter_of_notMem (h : key ∉ t.map Prod.fst) :
    alter key f t = (f none).map fun v => t ++ [(key, v)] := by
  have happend := alter_append (f := f) h []
  rwa [List.append_nil, alter, Option.map_map] at happend

/-- The last entry changes in its place. -/
theorem alter_concat (h : key ∉ t.map Prod.fst) (v : Value) :
    alter key f (t ++ [(key, v)]) = (f (some v)).map fun w => t ++ [(key, w)] := by
  rw [alter_append h, alter, if_pos rfl, Option.map_map]
  rfl

end Alter

/-- The pairs of the section that was opened last are bound in its table. -/
theorem addLines_pairs {before : Table} {name : String} (hname : name ∉ before.map Prod.fst)
    (bound entries : Table) (hkeys : ((bound ++ entries).map Prod.fst).Nodup) (rest : List Line) :
    addLines [name] (before ++ [(name, .table .header bound)])
        (entries.map (fun entry => Line.pair [] entry.1 entry.2) ++ rest) =
      addLines [name] (before ++ [(name, .table .header (bound ++ entries))]) rest := by
  induction entries generalizing bound with
  | nil => simp
  | cons entry entries ih =>
    obtain ⟨key, v⟩ := entry
    have hfresh : key ∉ bound.map Prod.fst := by
      rw [List.map_append, List.map_cons] at hkeys
      exact fun hmem => List.disjoint_of_nodup_append hkeys hmem List.mem_cons_self
    have hbound : insertAt [] key v bound = some (bound ++ [(key, v)]) := by
      rw [insertAt, bindNew, alter_of_notMem hfresh]
      rfl
    have hwithin : within (insertAt [] key v) [name] (before ++ [(name, .table .header bound)]) =
        some (before ++ [(name, .table .header (bound ++ [(key, v)]))]) := by
      rw [within, alter_concat hname]
      simp only [within, hbound, Option.map_some]
    have hsplit : bound ++ (key, v) :: entries = bound ++ [(key, v)] ++ entries :=
      List.append_cons bound (key, v) entries
    rw [List.map_cons, List.cons_append, addLines, hwithin, hsplit]
    exact ih (bound ++ [(key, v)]) (hsplit ▸ hkeys)

/-- A section opens a table of its own. -/
theorem addLines_section {t : Table} {s : String × Table} (hname : s.1 ∉ t.map Prod.fst)
    (hkeys : (s.2.map Prod.fst).Nodup) (current : List String) (rest : List Line) :
    addLines current t (sectionLines s ++ rest) =
      addLines [s.1] (t ++ [(s.1, .table .header s.2)]) rest := by
  have hopen : within (openTable s.1) [] t = some (t ++ [(s.1, .table .header [])]) := by
    rw [within, openTable, alter_of_notMem hname]
    rfl
  rw [sectionLines, List.cons_append, addLines, hopen]
  exact addLines_pairs hname [] s.2 hkeys rest

/-- The table of a section under its name. -/
def ofSection (s : String × Table) : String × Value := (s.1, .table .header s.2)

theorem addLines_sections (t : Table) {sections : List (String × Table)}
    (hnames : (t.map Prod.fst ++ sections.map Prod.fst).Nodup)
    (hkeys : ∀ s ∈ sections, (s.2.map Prod.fst).Nodup) (current : List String) :
    addLines current t (sections.flatMap sectionLines) = some (t ++ sections.map ofSection) := by
  induction sections generalizing t current with
  | nil => simp [addLines]
  | cons s sections ih =>
    have hfresh : s.1 ∉ t.map Prod.fst :=
      fun hmem => List.disjoint_of_nodup_append hnames hmem List.mem_cons_self
    have hrest : ((t ++ [ofSection s]).map Prod.fst ++ sections.map Prod.fst).Nodup := by
      simpa [ofSection] using hnames
    rw [List.flatMap_cons, addLines_section hfresh (hkeys s List.mem_cons_self)]
    have hsections := ih _ hrest (fun u hu => hkeys u (List.mem_cons_of_mem _ hu)) [s.1]
    simpa [ofSection] using hsections

/-- A document in sections has one table per section, with its pairs. -/
theorem ofLines?_sections {sections : List (String × Table)}
    (hnames : (sections.map Prod.fst).Nodup) (hkeys : ∀ s ∈ sections, (s.2.map Prod.fst).Nodup) :
    ofLines? (sections.flatMap sectionLines) = some (sections.map ofSection) :=
  addLines_sections [] hnames hkeys []

/-! ### Look-ups -/

theorem lookup_map_ofSection (sections : List (String × Table)) (name : String) :
    (sections.map ofSection).lookup name = (sections.lookup name).map (.table .header) := by
  induction sections with
  | nil => rfl
  | cons s sections ih =>
    rw [List.map_cons, ofSection, List.lookup_cons, List.lookup_cons, ih]
    split <;> rfl

/-- The order of entries with different keys makes no difference to what is looked
up. -/
theorem lookup_perm {t u : Table} (h : t.Perm u) (hkeys : (t.map Prod.fst).Nodup)
    (key : String) : t.lookup key = u.lookup key := by
  induction h with
  | nil => rfl
  | cons entry _ ih =>
    rw [List.map_cons] at hkeys
    rw [List.lookup_cons, List.lookup_cons, ih hkeys.of_cons]
  | swap a b t =>
    obtain ⟨j, v⟩ := a
    obtain ⟨k, w⟩ := b
    have hne : k ≠ j := by
      simp only [List.map_cons, List.nodup_cons, List.mem_cons, not_or] at hkeys
      exact hkeys.1.1
    by_cases hk : key = k
    · subst hk
      simp [List.lookup_cons, beq_false_of_ne hne]
    · simp [List.lookup_cons, beq_false_of_ne hk]
  | trans h _ ih₁ ih₂ =>
    rw [ih₁ hkeys, ih₂ ((h.map Prod.fst).nodup_iff.mp hkeys)]

end Table

end ExtensionCatalog.Toml
