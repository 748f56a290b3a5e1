/-!
# Ranges of code points

A property of characters is kept as a list of ranges, both ends included.

* `inRanges_iff` — membership says that some range holds the code point.
-/

namespace ExtensionCatalog.Text

/-- Some range of the list holds the code point. -/
def inRanges (ranges : List (Nat × Nat)) (n : Nat) : Bool :=
  ranges.any fun r => r.1 ≤ n && n ≤ r.2

theorem inRanges_iff {ranges : List (Nat × Nat)} {n : Nat} :
    inRanges ranges n = true ↔ ∃ r ∈ ranges, r.1 ≤ n ∧ n ≤ r.2 := by
  simp [inRanges]

end ExtensionCatalog.Text
