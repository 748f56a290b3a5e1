import ExtensionCatalog.Json.Token

/-!
# The written form of arrays and objects

An array is written as its items in their order, an object as its members in
theirs, each member as its name and its value with a colon between them. Commas
stand between what a container holds and brackets around it, and nothing else is
written.

* `text_array`, `text_object` — the written form of a container by those of what
  it holds.
-/

namespace ExtensionCatalog.Json

/-- The written form of a member of an object. -/
def memberText (m : String × Value) : String :=
  String.ofList (quote m.1) ++ ":" ++ m.2.text

theorem toList_text (v : Value) : v.text.toList = v.tokens.flatMap Token.chars :=
  String.toList_ofList

theorem toList_memberText (m : String × Value) :
    (memberText m).toList = quote m.1 ++ ':' :: m.2.tokens.flatMap Token.chars := by
  simp [memberText, toList_text]

/-! ### Commas between -/

/-- Items of an array, of which there is one at least, as they are written. -/
theorem chars_items (v : Value) (rest : List Value) :
    (v.tokens ++ moreItems rest).flatMap Token.chars =
      [','].intercalate ((v :: rest).map fun u => u.text.toList) := by
  induction rest generalizing v with
  | nil => simp [moreItems, toList_text]
  | cons u rest ih =>
    have hrest := ih u
    rw [List.map_cons] at hrest
    rw [List.map_cons, List.map_cons, List.intercalate_cons_cons, ← hrest]
    simp [moreItems, toList_text]

/-- Members of an object, of which there is one at least, as they are written. -/
theorem chars_members (key : String) (v : Value) (rest : List (String × Value)) :
    (.string key :: .colon :: v.tokens ++ moreMembers rest).flatMap Token.chars =
      [','].intercalate (((key, v) :: rest).map fun m => (memberText m).toList) := by
  induction rest generalizing key v with
  | nil => simp [moreMembers, toList_memberText]
  | cons m rest ih =>
    obtain ⟨next, u⟩ := m
    have hrest := ih next u
    rw [List.map_cons] at hrest
    rw [List.map_cons, List.map_cons, List.intercalate_cons_cons, ← hrest]
    simp [moreMembers, toList_memberText]

/-! ### Brackets around -/

/-- An array is written as its items. -/
theorem text_array (items : List Value) :
    (Value.array items).text = "[" ++ ",".intercalate (items.map Value.text) ++ "]" := by
  apply String.toList_inj.mp
  cases items with
  | nil => rfl
  | cons v rest =>
    rw [toList_text, Value.tokens, List.cons_append, List.cons_append, List.flatMap_cons,
      List.flatMap_append, chars_items v rest]
    simp [Function.comp_def]

/-- An object is written as its members. -/
theorem text_object (members : List (String × Value)) :
    (Value.object members).text = "\x7b" ++ ",".intercalate (members.map memberText) ++ "\x7d" := by
  apply String.toList_inj.mp
  cases members with
  | nil => rfl
  | cons m rest =>
    obtain ⟨key, v⟩ := m
    rw [toList_text, Value.tokens, List.cons_append, List.cons_append, List.flatMap_cons,
      List.flatMap_append, chars_members key v rest]
    simp [Function.comp_def]

end ExtensionCatalog.Json
