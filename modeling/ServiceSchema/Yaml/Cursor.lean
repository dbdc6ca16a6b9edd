/-
  ServiceSchema.Yaml.Cursor — a place in a YAML text.

  A cursor has the text that is left and counts bytes, lines and columns. A line
  ends at a line feed, a carriage return, both together, or one of the three line
  separators of Unicode; in a scalar all but the last two become a line feed.
-/

namespace ServiceSchema.Yaml

def isBreak (c : Char) : Bool :=
  c == '\n' || c == '\r' || c == '\x85' || c == '\u2028' || c == '\u2029'

def isSpace (c : Char) : Bool := c == ' ' || c == '\t'

/-- The character after a word: a space, the end of a line, or the end of the text. -/
def endsWord : Option Char → Bool
  | some c => isSpace c || isBreak c
  | none => true

/-- Characters of anchors, directives and tag handles. -/
def isWordChar (c : Char) : Bool := c.isAlphanum || c == '_' || c == '-'

/-- Characters that may stand in a YAML text at all. -/
def isAllowed (c : Char) : Bool :=
  let n := c.toNat
  n == 0x9 || n == 0xA || n == 0xD || (0x20 ≤ n && n ≤ 0x7E) || n == 0x85 ||
    (0xA0 ≤ n && n ≤ 0xFFFD) || 0x10000 ≤ n

/-- A place in a text. -/
structure Cursor where
  rest : List Char
  /-- How many bytes of UTF-8 stand before it. -/
  offset : Nat
  line : Nat
  column : Nat
  deriving DecidableEq, Repr

namespace Cursor

def ofText (cs : List Char) : Cursor := ⟨cs, 0, 0, 0⟩

/-- The character that is `n` characters ahead. -/
def peek? (c : Cursor) (n : Nat) : Option Char := c.rest[n]?

def next? (c : Cursor) : Option Char := c.rest.head?

/-- The next character is `x`. -/
def at? (c : Cursor) (x : Char) : Bool := c.rest.head? == some x

/-- The bytes that characters take. -/
def byteSize (cs : List Char) : Nat := cs.foldl (fun n c => n + c.utf8Size) 0

/-- Pass `n` characters of the line. -/
def advance (c : Cursor) (n : Nat) : Cursor :=
  ⟨c.rest.drop n, c.offset + byteSize (c.rest.take n), c.line, c.column + n⟩

/-- Pass the characters that satisfy `p`. -/
def skipWhile (c : Cursor) (p : Char → Bool) : Cursor := c.advance (c.rest.takeWhile p).length

/-- Pass the end of a line, if there is one. -/
def newline (c : Cursor) : Cursor :=
  match c.rest with
  | '\r' :: '\n' :: rest => ⟨rest, c.offset + 2, c.line + 1, 0⟩
  | x :: rest => if isBreak x then ⟨rest, c.offset + x.utf8Size, c.line + 1, 0⟩ else c
  | [] => c

/-- The end of the line as it is kept in a scalar. -/
def breakText (c : Cursor) : List Char :=
  match c.rest with
  | x :: _ => if !isBreak x then [] else if x == '\u2028' || x == '\u2029' then [x] else ['\n']
  | [] => []

/-- The cursor is at the end of a line or of the text. -/
def atLineEnd (c : Cursor) : Bool :=
  match c.rest with
  | x :: _ => isBreak x
  | [] => true

/-- Three `mark`s at the start of a line, and the word ends there. -/
def atMark (c : Cursor) (mark : Char) : Bool :=
  c.column == 0 && c.rest.take 3 == [mark, mark, mark] && endsWord c.rest[3]?

/-- A document starts or ends here. -/
def atDocumentMark (c : Cursor) : Bool := c.atMark '-' || c.atMark '.'

/-- Pass spaces and a comment up to the end of the line; anything else does not fit. -/
def restOfLine? (c : Cursor) : Option Cursor :=
  let c := c.skipWhile isSpace
  let c := if c.at? '#' then c.skipWhile (!isBreak ·) else c
  if c.atLineEnd then some c.newline else none

end Cursor

end ServiceSchema.Yaml
