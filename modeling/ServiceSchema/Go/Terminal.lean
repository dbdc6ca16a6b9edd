/-
  ServiceSchema.Go.Terminal — the terminals of Go and their spellings.

  `lexemes` gives every terminal that a text may begin with and how many characters it
  takes. Of the terminals that may come next the longest is meant, so `<-` after an
  operand is one terminal where a value can be sent, and two where it cannot.

  A keyword is never a name. The predeclared constants and the allocators `new` and
  `make` are names too, but not where an expression may stand as well: there they are
  what they are declared to be. A NUL character ends a statement wherever that may end,
  and stands nowhere else, not even in a comment or in quotes.
-/
import ServiceSchema.Text.Identifier

namespace ServiceSchema.Go

inductive Terminal where
  -- the end of a line that ends a statement, and of one that does not; a NUL character
  | newline | softBreak | endMark
  -- names, predeclared constants, `new` and `make`, and literals
  | ident | constant | allocator | string | int | float | imaginary | rune
  -- keywords
  | kwBreak | kwCase | kwChan | kwConst | kwContinue | kwDefault | kwDefer | kwElse
  | kwFallthrough | kwFor | kwFunc | kwGo | kwGoto | kwIf | kwImport | kwInterface | kwMap
  | kwPackage | kwRange | kwReturn | kwSelect | kwStruct | kwSwitch | kwType | kwVar
  -- brackets, separators and operators
  | lparen | rparen | lbrace | rbrace | lbrack | rbrack | comma | dot | semi | colon | ellipsis
  | assign | define | star | slash | percent | shl | shr | amp | ampCaret | plus | minus | bar
  | caret | eq | ne | lt | le | gt | ge | andAnd | orOr | bang | tilde | arrow | inc | dec
  | starEq | slashEq | percentEq | shlEq | shrEq | ampEq | ampCaretEq | plusEq | minusEq | barEq
  | caretEq
  deriving DecidableEq, Repr

namespace Terminal

/-- The keywords with their spellings. -/
def keywords : List (List Char × Terminal) := [
  ("break".toList, .kwBreak), ("case".toList, .kwCase), ("chan".toList, .kwChan),
  ("const".toList, .kwConst), ("continue".toList, .kwContinue), ("default".toList, .kwDefault),
  ("defer".toList, .kwDefer), ("else".toList, .kwElse), ("fallthrough".toList, .kwFallthrough),
  ("for".toList, .kwFor), ("func".toList, .kwFunc), ("go".toList, .kwGo),
  ("goto".toList, .kwGoto), ("if".toList, .kwIf), ("import".toList, .kwImport),
  ("interface".toList, .kwInterface), ("map".toList, .kwMap), ("package".toList, .kwPackage),
  ("range".toList, .kwRange), ("return".toList, .kwReturn), ("select".toList, .kwSelect),
  ("struct".toList, .kwStruct), ("switch".toList, .kwSwitch), ("type".toList, .kwType),
  ("var".toList, .kwVar)]

/-- Brackets, separators and operators with their spellings. -/
def marks : List (List Char × Terminal) := [
  (['('], .lparen), ([')'], .rparen), (['{'], .lbrace), (['}'], .rbrace), (['['], .lbrack),
  ([']'], .rbrack), ([','], .comma), (['.'], .dot), ([';'], .semi), ([':'], .colon),
  (['.', '.', '.'], .ellipsis), (['='], .assign), ([':', '='], .define), (['*'], .star),
  (['/'], .slash), (['%'], .percent), (['<', '<'], .shl), (['>', '>'], .shr), (['&'], .amp),
  (['&', '^'], .ampCaret), (['+'], .plus), (['-'], .minus), (['|'], .bar), (['^'], .caret),
  (['=', '='], .eq), (['!', '='], .ne), (['<'], .lt), (['<', '='], .le), (['>'], .gt),
  (['>', '='], .ge), (['&', '&'], .andAnd), (['|', '|'], .orOr), (['!'], .bang), (['~'], .tilde),
  (['<', '-'], .arrow), (['+', '+'], .inc), (['-', '-'], .dec), (['*', '='], .starEq),
  (['/', '='], .slashEq), (['%', '='], .percentEq), (['<', '<', '='], .shlEq),
  (['>', '>', '='], .shrEq), (['&', '='], .ampEq), (['&', '^', '='], .ampCaretEq),
  (['+', '='], .plusEq), (['-', '='], .minusEq), (['|', '='], .barEq), (['^', '='], .caretEq)]

/-- A line can end after these: names, literals, closing brackets, and the words and
    operators that finish a statement. -/
def endsLine : Terminal → Bool
  | ident | constant | allocator | string | int | float | imaginary | rune
  | kwBreak | kwContinue | kwFallthrough | kwReturn
  | inc | dec | rparen | rbrack | rbrace => true
  | _ => false

/-! ## Words -/

/-- The names that are declared everywhere and have a terminal of their own. -/
def predeclared : List (List Char × Terminal) := [
  ("nil".toList, .constant), ("true".toList, .constant), ("false".toList, .constant),
  ("iota".toList, .constant), ("new".toList, .allocator), ("make".toList, .allocator)]

/-- What a word of the text is. -/
def ofWord (word : List Char) : Terminal :=
  ((keywords ++ predeclared).lookup word).getD .ident

/-! ## Numbers -/

def isBinary (c : Char) : Bool := c == '0' || c == '1'

def isOctal (c : Char) : Bool := '0' ≤ c && c ≤ '7'

def isHex (c : Char) : Bool := c.isDigit || ('a' ≤ c && c ≤ 'f') || ('A' ≤ c && c ≤ 'F')

/-- The length of a run of digits, each with at most one underscore before it. -/
def moreDigits (isDigit : Char → Bool) : List Char → Nat
  | [] => 0
  | c :: rest =>
    if isDigit c then 1 + moreDigits isDigit rest
    else if c = '_' then
      match rest with
      | d :: after => if isDigit d then 2 + moreDigits isDigit after else 0
      | [] => 0
    else 0

/-- The length of a run of digits that starts with a digit. -/
def digits (isDigit : Char → Bool) : List Char → Nat
  | c :: rest => if isDigit c then 1 + moreDigits isDigit rest else 0
  | [] => 0

/-- The length of an integer, 0 if there is none. -/
def intLength : List Char → Nat
  | '0' :: c :: rest =>
    let n :=
      if c = 'b' || c = 'B' then moreDigits isBinary rest
      else if c = 'o' || c = 'O' then moreDigits isOctal rest
      else if c = 'x' || c = 'X' then moreDigits isHex rest
      else 0
    if n = 0 then 1 + moreDigits isOctal (c :: rest) else 2 + n
  | c :: rest => if c.isDigit then 1 + (if c = '0' then 0 else moreDigits Char.isDigit rest) else 0
  | [] => 0

/-- The length of an exponent after `mark` (in either case), 0 if there is none. -/
def exponentLength (mark : Char) : List Char → Nat
  | c :: rest =>
    if c.toLower = mark then
      match rest with
      | s :: after =>
        if s = '+' || s = '-' then
          let n := digits Char.isDigit after
          if n = 0 then 0 else 2 + n
        else
          let n := digits Char.isDigit rest
          if n = 0 then 0 else 1 + n
      | [] => 0
    else 0
  | [] => 0

/-- The length of a decimal floating-point number, 0 if there is none. -/
def decimalFloatLength (cs : List Char) : Nat :=
  let whole := digits Char.isDigit cs
  match cs.drop whole with
  | '.' :: rest =>
    let part := digits Char.isDigit rest
    if whole + part = 0 then 0
    else whole + 1 + part + exponentLength 'e' (rest.drop part)
  | rest =>
    let exponent := exponentLength 'e' rest
    if whole = 0 || exponent = 0 then 0 else whole + exponent

/-- The length of a hexadecimal floating-point number, 0 if there is none. -/
def hexFloatLength : List Char → Nat
  | '0' :: x :: cs =>
    if x = 'x' || x = 'X' then
      let whole := moreDigits isHex cs
      let part :=
        match cs.drop whole with
        | '.' :: rest => 1 + digits isHex rest
        | _ => 0
      let exponent := exponentLength 'p' (cs.drop (whole + part))
      if exponent = 0 || (whole = 0 && part < 2) then 0 else 2 + whole + part + exponent
    else 0
  | _ => 0

def floatLength (cs : List Char) : Nat := max (decimalFloatLength cs) (hexFloatLength cs)

/-- The length of a number with the suffix `i`, 0 if there is none. -/
def imaginaryLength (cs : List Char) : Nat :=
  ([digits Char.isDigit cs, intLength cs, floatLength cs].map fun n =>
    if n ≠ 0 && cs[n]? == some 'i' then n + 1 else 0).foldl max 0

/-! ## Between terminals -/

def isNul (c : Char) : Bool := c == '\x00'

/-- White space between terminals; a line feed is not, as it may be a terminal. -/
def isGap (c : Char) : Bool := c == ' ' || c == '\t' || c == '\r' || c == '\x0b' || c == '\x0c'

/-- The length of a comment after its opening, with the closing. -/
def blockCommentRest? : List Char → Option Nat
  | '*' :: '/' :: _ => some 2
  | c :: rest => if isNul c then none else (blockCommentRest? rest).map (· + 1)
  | [] => none

/-- The length of a comment at the start of a text, 0 if there is none. A line comment
    ends before the line feed. -/
def commentLength : List Char → Nat
  | '/' :: '/' :: rest => 2 + (rest.takeWhile fun c => c ≠ '\n' && !isNul c).length
  | '/' :: '*' :: rest => ((blockCommentRest? rest).map (· + 2)).getD 0
  | _ => 0

/-- The length of a comment with white space and line feeds before it, 0 if there is
    none. -/
def spacedCommentLength (cs : List Char) : Nat :=
  let space := (cs.takeWhile fun c => isGap c || c == '\n').length
  let comment := commentLength (cs.drop space)
  if comment = 0 then 0 else space + comment

/-! ## Quoted text -/

/-- At least `n` hexadecimal digits follow. -/
def hexFollow (n : Nat) (cs : List Char) : Bool :=
  let ds := cs.take n
  ds.length == n && ds.all isHex

/-- The length of a string after its opening quote, with the closing one; the first
    `skip` characters belong to what was read before. A line may end in it if a comment
    follows. -/
def stringRest? : Nat → List Char → Option Nat
  | _, [] => none
  | skip + 1, _ :: rest => (stringRest? skip rest).map (· + 1)
  | 0, c :: rest =>
    if c = '"' then some 1
    else if isNul c then none
    else if c = '\n' then
      let comment := spacedCommentLength rest
      if comment = 0 then none else (stringRest? comment rest).map (· + 1)
    else if c = '\\' then
      match rest with
      | [] => none
      | e :: after =>
        if isNul e || (e = 'x' && !hexFollow 2 after) || (e = 'u' && !hexFollow 4 after) ||
            (e = 'U' && !hexFollow 8 after) then none
        else (stringRest? 1 rest).map (· + 1)
    else (stringRest? 0 rest).map (· + 1)

/-- The length of a raw string after its opening quote, with the closing one. -/
def rawRest? : List Char → Option Nat
  | [] => none
  | c :: rest =>
    if c = '`' then some 1 else if isNul c then none else (rawRest? rest).map (· + 1)

/-- The length of a string of either kind, 0 if there is none. -/
def stringLength : List Char → Nat
  | c :: rest =>
    if c = '"' then ((stringRest? 0 rest).map (· + 1)).getD 0
    else if c = '`' then ((rawRest? rest).map (· + 1)).getD 0
    else 0
  | [] => 0

/-- The length of what stands between the quotes of a rune, 0 if it is no character. -/
def runeBodyLength : List Char → Nat
  | '\\' :: e :: rest =>
    if e = 'x' then (if hexFollow 2 rest then 4 else 0)
    else if e = 'u' then (if hexFollow 4 rest then 6 else 0)
    else if e = 'U' then (if hexFollow 8 rest then 10 else 0)
    else if isOctal e then (if ((rest.take 2).filter isOctal).length = 2 then 4 else 0)
    else if "abfnrtv\\'\"".toList.contains e then 2
    else 0
  | c :: _ => if c = '\'' || c = '\\' || isNul c then 0 else 1
  | [] => 0

/-- The length of a rune, 0 if there is none. -/
def runeLength : List Char → Nat
  | c :: rest =>
    let n := runeBodyLength rest
    if c = '\'' && n ≠ 0 && rest[n]? == some '\'' then n + 2 else 0
  | [] => 0

/-! ## All terminals at the start of a text -/

/-- Number, string and rune literals. -/
def literals (cs : List Char) : List (Terminal × Nat) :=
  [(.string, stringLength cs), (.int, intLength cs), (.float, floatLength cs),
   (.imaginary, imaginaryLength cs), (.rune, runeLength cs)].filter fun l => l.2 ≠ 0

/-- Every terminal that a text may begin with, and its length. What the end of a line is
    depends on where it stands, so it is not among them. -/
def lexemes (cs : List Char) : List (Terminal × Nat) :=
  match Text.identPrefix cs with
  | c :: word => [(ofWord (c :: word), word.length + 1)]
  | [] =>
    if cs.head?.any isNul then [(.endMark, 1)]
    else
      (marks.filter fun m => m.1.isPrefixOf cs).map (fun m => (m.2, m.1.length)) ++ literals cs

end Terminal

end ServiceSchema.Go
