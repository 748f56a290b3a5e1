/-!
# Blanks, line ends and comments in TOML

Within a line only spaces and tabs are blank. A line ends with a line feed,
with or without a carriage return before it, or with the text. No text, quoted
or in a comment, holds a control character other than the tab.
-/

namespace ExtensionCatalog.Toml

/-- Spaces and tabs. -/
def isSpace (c : Char) : Bool :=
  c = ' ' || c = '\t'

/-- The text without the spaces and tabs it starts with. -/
def skipSpace (s : List Char) : List Char :=
  s.dropWhile isSpace

/-- The characters that may stand in comments and quoted texts. -/
def isPlain (c : Char) : Bool :=
  c = '\t' || (0x20 ≤ c.toNat && c.toNat ≠ 0x7F)

/-- The text after a line end. -/
def dropLineEnd : List Char → Option (List Char)
  | '\n' :: rest => some rest
  | '\r' :: '\n' :: rest => some rest
  | _ => none

/-- The text after the rest of a line on which nothing but a comment may
follow. -/
def endLine (s : List Char) : Option (List Char) :=
  let s := skipSpace s
  let s := if s.head? = some '#' then s.dropWhile isPlain else s
  if s = [] then some [] else dropLineEnd s

/-- The text without leading blanks, line ends and comments; `comment` says
whether it starts in one. -/
def skipBlank (comment : Bool) : List Char → List Char
  | [] => []
  | c :: rest =>
    if comment && isPlain c then skipBlank true rest
    else if isSpace c || c = '\n' || (c = '\r' && rest.head? = some '\n') then
      skipBlank false rest
    else if c = '#' then skipBlank true rest
    else c :: rest

end ExtensionCatalog.Toml
