import ExtensionCatalog.Json.Reader
import ExtensionCatalog.Proofs.Json.Lexing

/-!
# Values read back from their spellings

A value is read from each of its spellings, members in their order and strings
character for character, and so from what is written for it. The reader meets the
tokens of a value inside any containers that are open, and leaves these as they are.

* `run_tokens` — the tokens of a value complete it, whatever is open around it.
* `parse?_of_spelled` — a value is read back from each of its spellings.
* `parse?_text` — the round trip. It asks of the numbers in the value that they
  are spelled as numbers (`Value.WellSpelled`); a value without numbers is always
  read back.
-/

namespace ExtensionCatalog.Json

/-! ### Values without ill-spelled numbers -/

theorem mem_moreItems {t : Token} {items : List Value} (h : t ∈ moreItems items) :
    t = .comma ∨ ∃ v ∈ items, t ∈ v.tokens := by
  induction items with
  | nil => simp [moreItems] at h
  | cons v rest ih =>
    simp only [moreItems, List.cons_append, List.mem_cons, List.mem_append] at h
    rcases h with h | h | h
    · exact .inl h
    · exact .inr ⟨v, List.mem_cons_self, h⟩
    · rcases ih h with h | ⟨u, hu, h⟩
      · exact .inl h
      · exact .inr ⟨u, List.mem_cons_of_mem _ hu, h⟩

theorem mem_moreMembers {t : Token} {members : List (String × Value)}
    (h : t ∈ moreMembers members) :
    t = .comma ∨ t = .colon ∨ (∃ m ∈ members, t = .string m.1) ∨
      ∃ m ∈ members, t ∈ m.2.tokens := by
  induction members with
  | nil => simp [moreMembers] at h
  | cons m rest ih =>
    obtain ⟨key, v⟩ := m
    simp only [moreMembers, List.cons_append, List.mem_cons, List.mem_append] at h
    rcases h with h | h | h | h | h
    · exact .inl h
    · exact .inr (.inr (.inl ⟨_, List.mem_cons_self, h⟩))
    · exact .inr (.inl h)
    · exact .inr (.inr (.inr ⟨_, List.mem_cons_self, h⟩))
    · rcases ih h with h | h | ⟨m, hm, h⟩ | ⟨m, hm, h⟩
      · exact .inl h
      · exact .inr (.inl h)
      · exact .inr (.inr (.inl ⟨m, List.mem_cons_of_mem _ hm, h⟩))
      · exact .inr (.inr (.inr ⟨m, List.mem_cons_of_mem _ hm, h⟩))

theorem wellSpelled_string (s : String) : (Value.string s).WellSpelled := by
  intro t ht
  simp only [Value.tokens, List.mem_singleton] at ht
  subst ht
  trivial

theorem wellSpelled_array {items : List Value} (h : ∀ v ∈ items, v.WellSpelled) :
    (Value.array items).WellSpelled := by
  intro t ht
  cases items with
  | nil =>
    simp only [Value.tokens, List.mem_cons, List.not_mem_nil, or_false] at ht
    rcases ht with rfl | rfl <;> trivial
  | cons v rest =>
    simp only [Value.tokens, List.cons_append, List.mem_cons, List.mem_append,
      List.not_mem_nil, or_false] at ht
    rcases ht with rfl | (ht | ht) | rfl
    · trivial
    · exact h v List.mem_cons_self t ht
    · rcases mem_moreItems ht with rfl | ⟨u, hu, ht⟩
      · trivial
      · exact h u (List.mem_cons_of_mem _ hu) t ht
    · trivial

theorem wellSpelled_object {members : List (String × Value)}
    (h : ∀ m ∈ members, m.2.WellSpelled) : (Value.object members).WellSpelled := by
  intro t ht
  cases members with
  | nil =>
    simp only [Value.tokens, List.mem_cons, List.not_mem_nil, or_false] at ht
    rcases ht with rfl | rfl <;> trivial
  | cons m rest =>
    obtain ⟨key, v⟩ := m
    simp only [Value.tokens, List.cons_append, List.mem_cons, List.mem_append,
      List.not_mem_nil, or_false] at ht
    rcases ht with rfl | rfl | rfl | (ht | ht) | rfl
    · trivial
    · trivial
    · trivial
    · exact h _ List.mem_cons_self t ht
    · rcases mem_moreMembers ht with rfl | rfl | ⟨_, _, rfl⟩ | ⟨m, hm, ht⟩
      · trivial
      · trivial
      · trivial
      · exact h m (List.mem_cons_of_mem _ hm) t ht
    · trivial

theorem wellSpelled_ofStrings (l : List String) : (Value.ofStrings l).WellSpelled := by
  apply wellSpelled_array
  intro v hv
  obtain ⟨s, -, rfl⟩ := List.mem_map.mp hv
  exact wellSpelled_string s

/-! ### The tokens of a value complete it -/

/-- No value starts with the end of an array. -/
theorem head_tokens (v : Value) : ∃ t ts, v.tokens = t :: ts ∧ t ≠ .closeArray := by
  cases v with
  | null | bool | number | string => exact ⟨_, _, rfl, by simp⟩
  | array items => cases items <;> exact ⟨_, _, rfl, by simp⟩
  | object members =>
    cases members with
    | nil => exact ⟨_, _, rfl, by simp⟩
    | cons m rest => exact ⟨_, _, rfl, by simp⟩

/-- The first item of an array is read like any other. -/
theorem run_firstItem (v : Value) (outer : List Frame) (ts : List Token) :
    Expect.run (.firstItem outer) (v.tokens ++ ts) =
      Expect.run (.value (.items [] :: outer)) (v.tokens ++ ts) := by
  obtain ⟨t, rest, hv, ht⟩ := head_tokens v
  simp [hv, Expect.run, Expect.step, ht]

mutual
/-- The tokens of a value complete it, whatever is open around it. -/
theorem run_tokens : ∀ (v : Value) (outer : List Frame),
    Expect.run (.value outer) v.tokens = some (.after v outer)
  | .null, _ => rfl
  | .bool _, _ => rfl
  | .number _, _ => rfl
  | .string _, _ => rfl
  | .array [], _ => rfl
  | .array (v :: rest), outer => by
      have hopen : Expect.run (.value outer) [.openArray] = some (.firstItem outer) := rfl
      rw [Value.tokens, show (Token.openArray :: v.tokens ++ moreItems rest ++ [.closeArray]) =
          [.openArray] ++ (v.tokens ++ (moreItems rest ++ [.closeArray])) by simp,
        Expect.run_append, hopen, Option.bind_some, run_firstItem, Expect.run_append,
        run_tokens v, Option.bind_some, run_moreItems rest]
      rfl
  | .object [], _ => rfl
  | .object ((key, v) :: rest), outer => by
      have hopen : Expect.run (.value outer) [.openObject, .string key, .colon] =
          some (.value (.members [] key :: outer)) := rfl
      rw [Value.tokens, show (Token.openObject :: .string key :: .colon :: v.tokens ++
            moreMembers rest ++ [.closeObject]) =
          [.openObject, .string key, .colon] ++ (v.tokens ++
            (moreMembers rest ++ [.closeObject])) by simp,
        Expect.run_append, hopen, Option.bind_some, Expect.run_append, run_tokens v,
        Option.bind_some, run_moreMembers rest]
      rfl

/-- Further items complete the array that is open. -/
theorem run_moreItems : ∀ (items : List Value) (u : Value) (before : List Value)
    (outer : List Frame),
    Expect.run (.after u (.items before :: outer)) (moreItems items ++ [.closeArray]) =
      some (.after (.array (before.reverse ++ u :: items)) outer)
  | [], u, before, outer => by simp [moreItems, Expect.run, Expect.step]
  | v :: rest, u, before, outer => by
      have hcomma : Expect.run (.after u (.items before :: outer)) [.comma] =
          some (.value (.items (u :: before) :: outer)) := rfl
      rw [moreItems, show (Token.comma :: v.tokens ++ moreItems rest ++ [.closeArray]) =
          [.comma] ++ (v.tokens ++ (moreItems rest ++ [.closeArray])) by simp,
        Expect.run_append, hcomma, Option.bind_some, Expect.run_append, run_tokens v,
        Option.bind_some, run_moreItems rest]
      simp

/-- Further members complete the object that is open. -/
theorem run_moreMembers : ∀ (members : List (String × Value)) (u : Value)
    (before : List (String × Value)) (last : String) (outer : List Frame),
    Expect.run (.after u (.members before last :: outer))
        (moreMembers members ++ [.closeObject]) =
      some (.after (.object (before.reverse ++ (last, u) :: members)) outer)
  | [], u, before, last, outer => by simp [moreMembers, Expect.run, Expect.step]
  | (key, v) :: rest, u, before, last, outer => by
      have hname : Expect.run (.after u (.members before last :: outer))
          [.comma, .string key, .colon] =
            some (.value (.members ((last, u) :: before) key :: outer)) := rfl
      rw [moreMembers, show (Token.comma :: .string key :: .colon :: v.tokens ++
            moreMembers rest ++ [.closeObject]) =
          [.comma, .string key, .colon] ++ (v.tokens ++
            (moreMembers rest ++ [.closeObject])) by simp,
        Expect.run_append, hname, Option.bind_some, Expect.run_append, run_tokens v,
        Option.bind_some, run_moreMembers rest]
      simp
end

/-! ### The round trip -/

theorem ofTokens?_tokens (v : Value) : ofTokens? v.tokens = some v := by
  simp [ofTokens?, run_tokens]

/-- A value is read back from each of its spellings. -/
theorem parse?_of_spelled {v : Value} {text : String} (h : v.Spelled text) :
    parse? text = some v := by
  rw [parse?, lex_of_spelled h]
  exact ofTokens?_tokens v

/-- A value is read back from its written form. -/
theorem parse?_text {v : Value} (h : v.WellSpelled) : parse? v.text = some v :=
  parse?_of_spelled (Value.spelled_text h)

end ExtensionCatalog.Json
