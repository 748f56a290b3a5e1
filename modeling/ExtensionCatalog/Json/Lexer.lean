import ExtensionCatalog.Json.Token

/-!
# Reading JSON tokens

Text is read character by character. Blanks between tokens are spaces, tabs and
line ends; a string may hold every character but the controls below U+0020, and
its escapes must be complete, a surrogate always one of a pair.

* `LexState.feed_append` — reading two texts one after the other is reading the second
  where the first one left off.
* `lex` — the tokens of a text, if reading it ends between two of them or in a
  word.
-/

namespace ExtensionCatalog.Json

/-- The blanks that may stand between tokens. -/
def isSpace (c : Char) : Bool :=
  c = ' ' || c = '\n' || c = '\t' || c = '\r'

/-- The token of a punctuation character. -/
def punctuation? : Char → Option Token
  | '[' => some .openArray
  | ']' => some .closeArray
  | '{' => some .openObject
  | '}' => some .closeObject
  | ',' => some .comma
  | ':' => some .colon
  | _ => none

/-! ### Words -/

/-- The rest of a text after its leading digits; none if there is no digit. -/
def dropDigits (s : List Char) : Option (List Char) :=
  match s with
  | c :: rest => if c.isDigit then some (rest.dropWhile Char.isDigit) else none
  | [] => none

/-- The rest after a whole number, which does not start with a zero unless it
is zero. -/
def dropWhole (s : List Char) : Option (List Char) :=
  match s with
  | '0' :: rest => some rest
  | _ => dropDigits s

/-- The rest after a fraction, if one stands there. -/
def dropFraction (s : List Char) : Option (List Char) :=
  match s with
  | '.' :: rest => dropDigits rest
  | _ => some s

/-- The rest after an exponent, if one stands there. -/
def dropExponent (s : List Char) : Option (List Char) :=
  match s with
  | c :: rest =>
    if c = 'e' ∨ c = 'E' then
      match rest with
      | d :: digits => if d = '+' ∨ d = '-' then dropDigits digits else dropDigits rest
      | [] => none
    else some s
  | [] => some s

/-- The spellings of numbers. -/
def isNumber (s : List Char) : Bool :=
  let unsigned := match s with
    | '-' :: rest => rest
    | _ => s
  (dropWhole unsigned >>= dropFraction >>= dropExponent) = some []

/-- The token of a run of characters that are neither blanks nor punctuation nor
quotes. -/
def word? (w : List Char) : Option Token :=
  if w = "null".toList then some .null
  else if w = "true".toList then some (.bool true)
  else if w = "false".toList then some (.bool false)
  else if isNumber w then some (.number (String.ofList w))
  else none

/-! ### Strings -/

/-- The character that a backslash and the character after it stand for; not so
for `u`, which begins a code. -/
def unescape? : Char → Option Char
  | '"' => some '"'
  | '\\' => some '\\'
  | '/' => some '/'
  | 'b' => some '\x08'
  | 'f' => some '\x0c'
  | 'n' => some '\n'
  | 'r' => some '\r'
  | 't' => some '\t'
  | _ => none

def isHighSurrogate (n : Nat) : Bool :=
  0xD800 ≤ n && n ≤ 0xDBFF

def isLowSurrogate (n : Nat) : Bool :=
  0xDC00 ≤ n && n ≤ 0xDFFF

/-- The character of a pair of surrogates. -/
def ofSurrogates (high low : Nat) : Char :=
  Char.ofNat (0x10000 + (high - 0xD800) * 0x400 + (low - 0xDC00))

/-! ### The lexer -/

/-- Where in a text the lexer stands. Characters read are kept latest first. -/
inductive Mode where
  /-- Between tokens. -/
  | between
  /-- In a word. -/
  | word (read : List Char)
  /-- In a string. -/
  | text (read : List Char)
  /-- In a string, after a backslash. -/
  | escape (read : List Char)
  /-- In a code of which `more` digits follow the next one; `high` is the
  surrogate that the code completes. -/
  | code (read : List Char) (high : Option Nat) (more value : Nat)
  /-- In a string, after the code of a high surrogate. -/
  | pair (read : List Char) (high : Nat)
  /-- The same, after a further backslash. -/
  | pairEscape (read : List Char) (high : Nat)
deriving DecidableEq, Repr

/-- A lexer on its way through a text. -/
structure LexState where
  mode : Mode
  /-- The tokens that are complete, latest first. -/
  done : List Token
deriving DecidableEq, Repr

/-- The mode after a code of four digits. -/
def afterCode (read : List Char) (high : Option Nat) (n : Nat) : Option Mode :=
  match high with
  | none =>
    if isHighSurrogate n then some (.pair read n)
    else if isLowSurrogate n then none
    else some (.text (Char.ofNat n :: read))
  | some h => if isLowSurrogate n then some (.text (ofSurrogates h n :: read)) else none

/-- Reads the first character after a token. -/
def LexState.start (done : List Token) (c : Char) : LexState :=
  if isSpace c then ⟨.between, done⟩
  else if c = '"' then ⟨.text [], done⟩
  else match punctuation? c with
    | some t => ⟨.between, t :: done⟩
    | none => ⟨.word [c], done⟩

/-- A character that ends the word before it. -/
def endsWord (c : Char) : Bool :=
  isSpace c || c = '"' || (punctuation? c).isSome

/-- Reads one character inside a string. -/
def stepText (done : List Token) (read : List Char) (c : Char) : Option LexState :=
  if c = '"' then some ⟨.between, .string (String.ofList read.reverse) :: done⟩
  else if c = '\\' then some ⟨.escape read, done⟩
  else if c.toNat < 0x20 then none
  else some ⟨.text (c :: read), done⟩

/-- Reads one digit of a code. -/
def stepCode (read : List Char) (high : Option Nat) (more value : Nat) (c : Char) :
    Option Mode := do
  let d ← Text.hexValue? c
  match more with
  | more + 1 => some (.code read high more (16 * value + d))
  | 0 => afterCode read high (16 * value + d)

/-- Reads one character. -/
def LexState.step : LexState → Char → Option LexState
  | ⟨.between, done⟩, c => some (start done c)
  | ⟨.word read, done⟩, c =>
    if endsWord c then (word? read.reverse).map fun t => start (t :: done) c
    else some ⟨.word (c :: read), done⟩
  | ⟨.text read, done⟩, c => stepText done read c
  | ⟨.escape read, done⟩, c =>
    if c = 'u' then some ⟨.code read none 3 0, done⟩
    else (unescape? c).map fun d => ⟨.text (d :: read), done⟩
  | ⟨.code read high more value, done⟩, c =>
    (stepCode read high more value c).map (⟨·, done⟩)
  | ⟨.pair read high, done⟩, c =>
    if c = '\\' then some ⟨.pairEscape read high, done⟩ else none
  | ⟨.pairEscape read high, done⟩, c =>
    if c = 'u' then some ⟨.code read (some high) 3 0, done⟩ else none

/-- Reads a text from a state on. -/
def LexState.feed (st : LexState) (s : List Char) : Option LexState :=
  s.foldlM LexState.step st

/-- Reading two texts one after the other. -/
theorem LexState.feed_append (st : LexState) (s t : List Char) :
    st.feed (s ++ t) = (st.feed s).bind (·.feed t) :=
  List.foldlM_append

/-- The tokens of a text that ends here, latest first. -/
def LexState.finish? : LexState → Option (List Token)
  | ⟨.between, done⟩ => some done
  | ⟨.word read, done⟩ => (word? read.reverse).map (· :: done)
  | _ => none

/-- The tokens of a text. -/
def lex (s : List Char) : Option (List Token) :=
  ((LexState.feed ⟨.between, []⟩ s).bind LexState.finish?).map List.reverse

end ExtensionCatalog.Json
