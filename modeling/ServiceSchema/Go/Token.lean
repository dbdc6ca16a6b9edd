/-
  ServiceSchema.Go.Token — the tokens of Go, and how a text is cut into them.

  This is the chapter on lexical elements of the Go specification: what a token looks
  like (`Token.Spells`), that the next token is always the longest one (`Lexeme`), what
  stands between tokens, and where the end of a line is a semicolon (`Reads`).

  As the compilers do, a NUL character and a byte order mark are not allowed, save for one
  mark at the start of a file.
-/
import ServiceSchema.Go.Ebnf
import ServiceSchema.Text.Letter

namespace ServiceSchema.Go

inductive Keyword where
  | break_ | case | chan | const | continue_ | default | defer | else_ | fallthrough | for_ | func
  | go | goto | if_ | import_ | interface | map | package | range | return_ | select | struct
  | switch | type | var
  deriving DecidableEq, Repr

/-- Operators and punctuation. -/
inductive Operator where
  | plus | minus | star | slash | percent | amp | bar | caret | shl | shr | ampCaret
  | plusEq | minusEq | starEq | slashEq | percentEq | ampEq | barEq | caretEq | shlEq | shrEq | ampCaretEq
  | andAnd | orOr | arrow | inc | dec | eq | lt | gt | assign | bang | tilde
  | ne | le | ge | define | ellipsis
  | lparen | lbrack | lbrace | rparen | rbrack | rbrace | comma | semicolon | dot | colon
  deriving DecidableEq, Repr

inductive Token where
  | ident
  | int
  | float
  | imaginary
  | rune
  | string
  | keyword (k : Keyword)
  | operator (m : Operator)
  deriving DecidableEq, Repr

namespace Keyword

def text : Keyword → String
  | break_ => "break" | case => "case" | chan => "chan" | const => "const" | continue_ => "continue"
  | default => "default" | defer => "defer" | else_ => "else" | fallthrough => "fallthrough"
  | for_ => "for" | func => "func" | go => "go" | goto => "goto" | if_ => "if" | import_ => "import"
  | interface => "interface" | map => "map" | package => "package" | range => "range"
  | return_ => "return" | select => "select" | struct => "struct" | switch => "switch"
  | type => "type" | var => "var"

end Keyword

namespace Operator

def text : Operator → String
  | plus => "+" | minus => "-" | star => "*" | slash => "/" | percent => "%" | amp => "&"
  | bar => "|" | caret => "^" | shl => "<<" | shr => ">>" | ampCaret => "&^"
  | plusEq => "+=" | minusEq => "-=" | starEq => "*=" | slashEq => "/=" | percentEq => "%="
  | ampEq => "&=" | barEq => "|=" | caretEq => "^=" | shlEq => "<<=" | shrEq => ">>="
  | ampCaretEq => "&^="
  | andAnd => "&&" | orOr => "||" | arrow => "<-" | inc => "++" | dec => "--" | eq => "=="
  | lt => "<" | gt => ">" | assign => "=" | bang => "!" | tilde => "~"
  | ne => "!=" | le => "<=" | ge => ">=" | define => ":=" | ellipsis => "..."
  | lparen => "(" | lbrack => "[" | lbrace => "\x7b" | rparen => ")" | rbrack => "]"
  | rbrace => "\x7d" | comma => "," | semicolon => ";" | dot => "." | colon => ":"

end Operator

/-! ## Literals -/

/-- A pattern of characters. -/
abbrev Pattern := Ebnf (Char → Bool) Empty

def Pattern.Fits (p : Pattern) (cs : List Char) : Prop :=
  Ebnf.Matches (fun f c => f c = true) Empty.elim p cs

namespace Pattern

open Ebnf

def char (c : Char) : Pattern := term (· == c)

def either (c d : Char) : Pattern := char c ||| char d

def range (first last : Char) : Pattern := term fun c => first ≤ c && c ≤ last

def decimalDigit : Pattern := range '0' '9'

def binaryDigit : Pattern := either '0' '1'

def octalDigit : Pattern := range '0' '7'

def hexDigit : Pattern := decimalDigit ||| range 'A' 'F' ||| range 'a' 'f'

/-- Digits, with single underscores between them. -/
def digits (digit : Pattern) : Pattern := digit ++ many (opt (char '_') ++ digit)

def decimalLit : Pattern :=
  char '0' ||| range '1' '9' ++ opt (opt (char '_') ++ digits decimalDigit)

def binaryLit : Pattern := char '0' ++ either 'b' 'B' ++ opt (char '_') ++ digits binaryDigit

def octalLit : Pattern := char '0' ++ opt (either 'o' 'O') ++ opt (char '_') ++ digits octalDigit

def hexLit : Pattern := char '0' ++ either 'x' 'X' ++ opt (char '_') ++ digits hexDigit

def intLit : Pattern := decimalLit ||| binaryLit ||| octalLit ||| hexLit

/-- An exponent behind one of two letters. -/
def exponent (c d : Char) : Pattern :=
  either c d ++ opt (either '+' '-') ++ digits decimalDigit

def decimalFloatLit : Pattern :=
  digits decimalDigit ++ char '.' ++ opt (digits decimalDigit) ++ opt (exponent 'e' 'E') |||
    digits decimalDigit ++ exponent 'e' 'E' |||
    char '.' ++ digits decimalDigit ++ opt (exponent 'e' 'E')

def hexMantissa : Pattern :=
  opt (char '_') ++ digits hexDigit ++ char '.' ++ opt (digits hexDigit) |||
    opt (char '_') ++ digits hexDigit |||
    char '.' ++ digits hexDigit

def hexFloatLit : Pattern := char '0' ++ either 'x' 'X' ++ hexMantissa ++ exponent 'p' 'P'

def floatLit : Pattern := decimalFloatLit ||| hexFloatLit

def imaginaryLit : Pattern := (digits decimalDigit ||| intLit ||| floatLit) ++ char 'i'

/-- A character that a text may have. -/
def isSource (c : Char) : Bool := c != '\x00' && c != '\ufeff'

/-- Four digits of a code point below 0x10000 that is no half of a surrogate pair. -/
def basicCodePoint : Pattern :=
  (decimalDigit ||| range 'A' 'C' ||| range 'E' 'F' ||| range 'a' 'c' ||| range 'e' 'f') ++ hexDigit ++
      hexDigit ++ hexDigit |||
    either 'D' 'd' ++ range '0' '7' ++ hexDigit ++ hexDigit

/-- Eight digits of a code point. -/
def codePoint : Pattern :=
  char '0' ++ char '0' ++ (char '0' ++ char '0' ++ basicCodePoint |||
    (char '0' ++ (range '1' '9' ||| range 'A' 'F' ||| range 'a' 'f') ||| char '1' ++ char '0') ++
      hexDigit ++ hexDigit ++ hexDigit ++ hexDigit)

/-- A character by its name, or by its number. -/
def escape (quote : Char) : Pattern :=
  char '\\' ++ (oneOf (· == 'a') ["bfnrtv\\".toList.contains] ||| char quote |||
    range '0' '3' ++ octalDigit ++ octalDigit |||
    char 'x' ++ hexDigit ++ hexDigit |||
    char 'u' ++ basicCodePoint |||
    char 'U' ++ codePoint)

/-- A character between quotes. -/
def quotable (quote : Char) : Pattern :=
  term (fun c => isSource c && c != '\n' && c != quote && c != '\\') ||| escape quote

def runeLit : Pattern := char '\'' ++ quotable '\'' ++ char '\''

def interpretedStringLit : Pattern := char '"' ++ many (quotable '"') ++ char '"'

def rawStringLit : Pattern := char '`' ++ many (term fun c => isSource c && c != '`') ++ char '`'

def stringLit : Pattern := rawStringLit ||| interpretedStringLit

end Pattern

/-! ## Tokens -/

/-- What a token looks like. -/
def Token.Spells : Token → List Char → Prop
  | ident, cs => Text.isIdentifier cs = true ∧ ∀ k : Keyword, cs ≠ k.text.toList
  | int, cs => Pattern.intLit.Fits cs
  | float, cs => Pattern.floatLit.Fits cs
  | imaginary, cs => Pattern.imaginaryLit.Fits cs
  | rune, cs => Pattern.runeLit.Fits cs
  | string, cs => Pattern.stringLit.Fits cs
  | keyword k, cs => cs = k.text.toList
  | operator m, cs => cs = m.text.toList

/-- A text begins with a token, and with no longer one. -/
structure Lexeme (t : Token) (text rest : List Char) : Prop where
  spells : t.Spells text
  longest : ∀ t' text', Token.Spells t' text' → text' <+: text ++ rest → text'.length ≤ text.length

/-- Whether a line may end a statement behind this token. -/
def Token.endsLine : Token → Bool
  | ident | int | float | imaginary | rune | string => true
  | keyword k =>
    match k with
    | .break_ | .continue_ | .fallthrough | .return_ => true
    | _ => false
  | operator m =>
    match m with
    | .inc | .dec | .rparen | .rbrack | .rbrace => true
    | _ => false

def semicolon : Token := .operator .semicolon

/-- What the end of a line is, behind a token that may end a statement or one that may not. -/
def lineEnd (ends : Bool) : List Token := if ends then [semicolon] else []

/-- A text begins with a comment. -/
def startsComment : List Char → Bool
  | '/' :: '/' :: _ => true
  | '/' :: '*' :: _ => true
  | _ => false

/-- A text is read as a list of tokens; `ends` tells whether a line may end where it begins. -/
inductive Reads : Bool → List Char → List Token → Prop
  | finished (ends : Bool) : Reads ends [] (lineEnd ends)
  | blank {ends : Bool} {c : Char} {rest : List Char} {ts : List Token} : c = ' ' ∨ c = '\t' ∨ c = '\r' →
      Reads ends rest ts → Reads ends (c :: rest) ts
  | newline {ends : Bool} {rest : List Char} {ts : List Token} : Reads false rest ts →
      Reads ends ('\n' :: rest) (lineEnd ends ++ ts)
  /-- A comment to the end of the line. -/
  | lineComment {ends : Bool} {body rest : List Char} {ts : List Token} :
      (∀ c ∈ body, c ≠ '\n' ∧ Pattern.isSource c = true) → (∀ c ∈ rest.head?, c = '\n') →
      Reads ends rest ts → Reads ends ('/' :: '/' :: (body ++ rest)) ts
  /-- A comment up to the first `*/`; it acts like a space, or like a newline if it has one. -/
  | generalComment {ends : Bool} {body rest : List Char} {ts : List Token} :
      (∀ c ∈ body, Pattern.isSource c = true) → ¬ ['*', '/'] <:+: body ++ ['*'] →
      Reads (ends && !body.contains '\n') rest ts →
      Reads ends ('/' :: '*' :: (body ++ '*' :: '/' :: rest))
        ((if body.contains '\n' then lineEnd ends else []) ++ ts)
  | token {ends : Bool} {t : Token} {text rest : List Char} {ts : List Token} :
      startsComment (text ++ rest) = false → Lexeme t text rest → Reads t.endsLine rest ts →
      Reads ends (text ++ rest) (t :: ts)

end ServiceSchema.Go
