/-
  ServiceSchema.Go.Bracket — the three kinds of brackets in Go text.
-/

namespace ServiceSchema.Go

inductive Bracket where
  | brace
  | paren
  | square
  deriving DecidableEq, Repr

namespace Bracket

def opener : Bracket → Char
  | brace => '{'
  | paren => '('
  | square => '['

def closer : Bracket → Char
  | brace => '}'
  | paren => ')'
  | square => ']'

def ofOpener? : Char → Option Bracket
  | '{' => some brace
  | '(' => some paren
  | '[' => some square
  | _ => none

def ofCloser? : Char → Option Bracket
  | '}' => some brace
  | ')' => some paren
  | ']' => some square
  | _ => none

/-- A closing bracket of any kind. -/
def isCloser (c : Char) : Bool := (ofCloser? c).isSome

end Bracket

end ServiceSchema.Go
