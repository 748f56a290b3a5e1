/-!
# White space

The set of characters that count as white space wherever a name, a type or a
statement is trimmed, and the cuts made with it. The set is Unicode's
`White_Space` property: tabs and line ends, the spaces of every width, the
no-break space and the line and paragraph separators, but neither the
zero-width space nor the byte order mark.

* `firstWord_append_afterFirstWord` — cutting a text at its first blank loses
  nothing of it.
-/

namespace ExtensionCatalog.Text

/-- The `White_Space` property of Unicode. -/
def isBlank (c : Char) : Bool :=
  let n := c.toNat
  (0x9 ≤ n && n ≤ 0xD) || n = 0x20 || n = 0x85 || n = 0xA0 || n = 0x1680 ||
    (0x2000 ≤ n && n ≤ 0x200A) || n = 0x2028 || n = 0x2029 || n = 0x202F ||
    n = 0x205F || n = 0x3000

/-! ### Cutting at an end -/

/-- What is left when the longest run of `p` at the end of a list is dropped. -/
def dropEndWhile {α : Type} (p : α → Bool) (l : List α) : List α :=
  (l.reverse.dropWhile p).reverse

/-- The text without the blanks it starts with. -/
def trimStart (s : List Char) : List Char :=
  s.dropWhile isBlank

/-- The text without the blanks it ends with. -/
def trimEnd (s : List Char) : List Char :=
  dropEndWhile isBlank s

/-- The text without the blanks at either end. -/
def trim (s : List Char) : List Char :=
  trimEnd (trimStart s)

/-! ### Words -/

/-- The text up to its first blank. -/
def firstWord (s : List Char) : List Char :=
  s.takeWhile (!isBlank ·)

/-- The text from its first blank on. -/
def afterFirstWord (s : List Char) : List Char :=
  s.dropWhile (!isBlank ·)

theorem firstWord_append_afterFirstWord (s : List Char) :
    firstWord s ++ afterFirstWord s = s :=
  List.takeWhile_append_dropWhile

/-- The maximal runs of characters that are not blank, in order. -/
def words (s : List Char) : List (List Char) :=
  (s.splitOnP isBlank).filter (!·.isEmpty)

end ExtensionCatalog.Text
