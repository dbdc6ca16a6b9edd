/-
  ServiceSchema.Yaml.Token — the tokens of a YAML text.

  Indentation becomes tokens too: a block collection starts with one and ends with
  `blockEnd`. Where a key has no mark of its own, it is known as a key only when the
  colon after it is found. So the scanner notes every place where a key may have begun,
  keeps a list of tokens that only grows, and marks the places that turned out to be
  keys; `splice` puts the marks in. A key without a mark fits on one line and has at
  most 1024 bytes.
-/
import ServiceSchema.Yaml.Scalar

namespace ServiceSchema.Yaml

inductive Token where
  | version (major minor : Nat)
  | tagShort (handle whole : String)
  | documentStart
  | documentEnd
  | sequenceStart
  | mappingStart
  | blockEnd
  | flowSequenceStart
  | flowSequenceEnd
  | flowMappingStart
  | flowMappingEnd
  | blockEntry
  | flowEntry
  | key
  | value
  | alias (name : String)
  | anchor (name : String)
  | tag (handle suffix : String)
  | scalar (text : String) (plain : Bool)
  deriving DecidableEq, Repr

/-- A place where a key may have begun. -/
structure Candidate where
  /-- How many tokens were there before it. -/
  place : Nat
  /-- In block context a scalar at the indentation has to be a key. -/
  required : Bool
  start : Cursor
  deriving Repr

/-- A place that turned out to be a key, and whether a block mapping starts there. -/
structure Mark where
  place : Nat
  opens : Bool
  deriving Repr

structure Scanner where
  cursor : Cursor
  /-- Tokens so far, the newest first. -/
  tokens : List Token
  marks : List Mark
  /-- Columns of the open block collections, innermost first. -/
  indents : List Nat
  /-- The possible key of each open flow collection, innermost first, and last that of
      the block context. -/
  candidates : List (Option Candidate)
  /-- Whether a key may begin here. -/
  keyAllowed : Bool
  deriving Repr

namespace Scanner

def ofText (cs : List Char) : Scanner := ⟨.ofText cs, [], [], [], [none], true⟩

/-- Inside a flow collection. -/
def inFlow (s : Scanner) : Bool := s.candidates.length > 1

def emit (s : Scanner) (t : Token) : Scanner := { s with tokens := t :: s.tokens }

/-- Emit a token that takes `n` characters. -/
def emitMark (s : Scanner) (t : Token) (n : Nat) : Scanner :=
  { s.emit t with cursor := s.cursor.advance n }

/-! ## Blanks -/

/-- Pass spaces, comments and line ends. A tab is white space only where no key may
    begin, and a new line in block context may begin a key. -/
def skipBlanks : Nat → Scanner → Scanner
  | 0, s => s
  | fuel + 1, s =>
    let c := s.cursor
    let c := if c.column == 0 && c.at? '\ufeff' then c.advance 1 else c
    let tabs := s.inFlow || !s.keyAllowed
    let c := c.skipWhile fun x => x == ' ' || (tabs && x == '\t')
    let c := if c.at? '#' then c.skipWhile (!isBreak ·) else c
    if c.rest.isEmpty || !c.atLineEnd then { s with cursor := c }
    else skipBlanks fuel { s with cursor := c.newline, keyAllowed := s.keyAllowed || !s.inFlow }

/-! ## Keys without a mark -/

/-- A candidate ends with its line, and after 1024 bytes. -/
def isStale (c : Cursor) (k : Candidate) : Bool :=
  k.start.line < c.line || k.start.offset + 1024 < c.offset

/-- Forget the candidates that are out of reach; a required one may not be. -/
def dropStale? (s : Scanner) : Option Scanner := do
  let candidates ← s.candidates.mapM fun k =>
    match k with
    | some k => if isStale s.cursor k then (if k.required then none else some none) else some (some k)
    | none => some none
  return { s with candidates }

/-- Forget the innermost candidate; it may not be a required one. -/
def dropCandidate? (s : Scanner) : Option Scanner :=
  match s.candidates with
  | some k :: rest => if k.required then none else some { s with candidates := none :: rest }
  | _ => some s

/-- A key may begin here, if one may begin at all. -/
def noteCandidate? (s : Scanner) : Option Scanner :=
  if s.keyAllowed then do
    let required := !s.inFlow && s.indents.head? == some s.cursor.column
    let s ← s.dropCandidate?
    return { s with candidates := some ⟨s.tokens.length, required, s.cursor⟩ :: s.candidates.drop 1 }
  else some s

/-! ## Indentation -/

/-- The column is to the right of the innermost block collection. -/
def isDeeper (s : Scanner) (column : Nat) : Bool :=
  match s.indents with
  | top :: _ => top < column
  | [] => true

/-- Open a block collection at a column, if it is deeper than the one around it. -/
def openBlock (s : Scanner) (column : Nat) (t : Token) : Scanner :=
  if s.inFlow || !s.isDeeper column then s else { s.emit t with indents := column :: s.indents }

/-- Close the block collections to the right of a column. -/
def closeBlocks (s : Scanner) (column : Nat) : Scanner :=
  if s.inFlow then s
  else
    let closed := s.indents.takeWhile (column < ·)
    { s with
      tokens := List.replicate closed.length .blockEnd ++ s.tokens
      indents := s.indents.drop closed.length }

/-- Close all block collections. -/
def closeAll (s : Scanner) : Scanner :=
  if s.inFlow then s
  else
    { s with tokens := List.replicate s.indents.length .blockEnd ++ s.tokens, indents := [] }

/-! ## Tags and directives -/

def isTagChar (c : Char) : Bool := isWordChar c || ";/?:@&=+$.!~*'()%".toList.contains c

/-- Characters of a tag in angle brackets. -/
def isUriChar (c : Char) : Bool := isTagChar c || c == ',' || c == '[' || c == ']'

/-- How many bytes a UTF-8 sequence has that starts with this byte. -/
def utf8Width? (b : Nat) : Option Nat :=
  if b < 0x80 then some 1
  else if 0xC0 ≤ b && b < 0xE0 then some 2
  else if 0xE0 ≤ b && b < 0xF0 then some 3
  else if 0xF0 ≤ b && b < 0xF8 then some 4
  else none

/-- The bytes of `n` percent escapes. -/
def escapedBytes? : Nat → List Char → Option (List Nat × List Char)
  | 0, cs => some ([], cs)
  | n + 1, '%' :: cs => do
    let b ← hexNumber? 2 cs
    let (more, rest) ← escapedBytes? n (cs.drop 2)
    return (b :: more, rest)
  | _, _ => none

/-- One character in percent escapes. -/
def escapedChar? (cs : List Char) : Option (Char × List Char) := do
  let first ← match cs with
    | '%' :: digits => hexNumber? 2 digits
    | _ => none
  let width ← utf8Width? first
  let (bytes, rest) ← escapedBytes? width cs
  if (bytes.drop 1).all fun b => 0x80 ≤ b && b < 0xC0 then
    let lead := if width = 1 then first else first % Nat.pow 2 (7 - width)
    return (Char.ofNat ((bytes.drop 1).foldl (fun v b => v * 64 + b % 64) lead), rest)
  else none

/-- The characters of a tag with its percent escapes resolved: the text and how many
    characters it takes. -/
def tagText? (ok : Char → Bool) : Nat → List Char → Option (List Char × Nat)
  | 0, _ => some ([], 0)
  | _, [] => some ([], 0)
  | fuel + 1, c :: rest =>
    if !ok c then some ([], 0)
    else if c == '%' then do
      let (x, after) ← escapedChar? (c :: rest)
      let (text, n) ← tagText? ok fuel after
      return (x :: text, n + (rest.length + 1 - after.length))
    else do
      let (text, n) ← tagText? ok fuel rest
      return (c :: text, n + 1)

/-- A tag handle: `!`, word characters, and possibly a second `!`. -/
def tagHandle? (cs : List Char) : Option (List Char) :=
  match cs with
  | '!' :: rest =>
    let word := rest.takeWhile isWordChar
    if rest[word.length]? == some '!' then some ('!' :: word ++ ['!']) else some ('!' :: word)
  | _ => none

/-- A handle with both its marks. -/
def isFullHandle (handle : List Char) : Bool := handle.length > 1 && handle.getLast? == some '!'

/-- A tag: its handle, its suffix, and its length. -/
def tagParts? (cs : List Char) : Option (String × String × Nat) :=
  match cs with
  | '!' :: '<' :: rest => do
    let (text, n) ← tagText? isUriChar rest.length rest
    if text.isEmpty || rest[n]? != some '>' then none
    else return ("", String.ofList text, n + 3)
  | _ => do
    let handle ← tagHandle? cs
    let rest := cs.drop handle.length
    let (text, n) ← tagText? isTagChar rest.length rest
    if isFullHandle handle then
      if text.isEmpty then none
      else return (String.ofList handle, String.ofList text, handle.length + n)
    else
      let suffix := handle.drop 1 ++ text
      if suffix.isEmpty then return ("", "!", 1)
      else return ("!", String.ofList suffix, handle.length + n)

/-- A number of a version: one to nine digits. -/
def versionNumber? (c : Cursor) : Option (Nat × Cursor) :=
  let ds := c.rest.takeWhile Char.isDigit
  if ds.isEmpty || 9 < ds.length then none
  else some (ds.foldl (fun v d => v * 10 + (d.toNat - '0'.toNat)) 0, c.advance ds.length)

/-- A directive after its percent sign. -/
def directive? (c : Cursor) : Option (Token × Cursor) := do
  let name := c.rest.takeWhile isWordChar
  let c := c.advance name.length
  if !endsWord c.next? then none
  let c := c.skipWhile isSpace
  if name = "YAML".toList then
    let (major, c) ← versionNumber? c
    if !c.at? '.' then none
    let (minor, c) ← versionNumber? (c.advance 1)
    return (.version major minor, ← c.restOfLine?)
  else if name = "TAG".toList then
    let handle ← tagHandle? c.rest
    if handle ≠ ['!'] && !isFullHandle handle then none
    let c := c.advance handle.length
    if !c.next?.any isSpace then none
    let c := c.skipWhile isSpace
    let (whole, n) ← tagText? isUriChar c.rest.length c.rest
    let c := c.advance n
    if whole.isEmpty || !endsWord c.next? then none
    return (.tagShort (String.ofList handle) (String.ofList whole), ← c.restOfLine?)
  else none

/-! ## Single tokens -/

/-- What may follow an anchor. -/
def endsAnchor (c : Option Char) : Bool :=
  endsWord c || c.any (['?', ':', ',', ']', '}', '%', '@', '`'].contains ·)

/-- An anchor or an alias. -/
def anchor? (s : Scanner) (token : String → Token) : Option Scanner := do
  let s ← s.noteCandidate?
  let c := s.cursor.advance 1
  let name := c.rest.takeWhile isWordChar
  let c := c.advance name.length
  if name.isEmpty || !endsAnchor c.next? then none
  else return { s.emit (token (String.ofList name)) with cursor := c, keyAllowed := false }

def tag? (s : Scanner) : Option Scanner := do
  let s ← s.noteCandidate?
  let (handle, suffix, n) ← tagParts? s.cursor.rest
  let c := s.cursor.advance n
  if endsWord c.next? || (s.inFlow && c.at? ',') then
    return { s.emit (.tag handle suffix) with cursor := c, keyAllowed := false }
  else none

def documentMark? (s : Scanner) (t : Token) : Option Scanner := do
  let s ← s.closeAll.dropCandidate?
  return { s.emitMark t 3 with keyAllowed := false }

def directiveToken? (s : Scanner) : Option Scanner := do
  let s ← s.closeAll.dropCandidate?
  let (t, c) ← directive? (s.cursor.advance 1)
  return { s.emit t with cursor := c, keyAllowed := false }

def openFlow? (s : Scanner) (t : Token) : Option Scanner := do
  let s ← s.noteCandidate?
  return { s.emitMark t 1 with candidates := none :: s.candidates, keyAllowed := true }

def closeFlow? (s : Scanner) (t : Token) : Option Scanner := do
  let s ← s.dropCandidate?
  let candidates := if s.inFlow then s.candidates.drop 1 else s.candidates
  return { s.emitMark t 1 with candidates, keyAllowed := false }

def flowEntry? (s : Scanner) : Option Scanner := do
  let s ← s.dropCandidate?
  return { s.emitMark .flowEntry 1 with keyAllowed := true }

def blockEntry? (s : Scanner) : Option Scanner := do
  if !s.inFlow && !s.keyAllowed then none
  let s ← (s.openBlock s.cursor.column .sequenceStart).dropCandidate?
  return { s.emitMark .blockEntry 1 with keyAllowed := true }

/-- A key with its mark. -/
def key? (s : Scanner) : Option Scanner := do
  if !s.inFlow && !s.keyAllowed then none
  let s ← (s.openBlock s.cursor.column .mappingStart).dropCandidate?
  return { s.emitMark .key 1 with keyAllowed := !s.inFlow }

/-- The colon before a value: what began at the candidate was a key. -/
def value? (s : Scanner) : Option Scanner :=
  match s.candidates with
  | some k :: rest =>
    let opens := !s.inFlow && s.isDeeper k.start.column
    let s := { s with
      marks := ⟨k.place, opens⟩ :: s.marks
      indents := if opens then k.start.column :: s.indents else s.indents
      candidates := none :: rest }
    some { s.emitMark .value 1 with keyAllowed := false }
  | _ => do
    if !s.inFlow && !s.keyAllowed then none
    let s := s.openBlock s.cursor.column .mappingStart
    return { s.emitMark .value 1 with keyAllowed := !s.inFlow }

def blockScalar? (s : Scanner) (folded : Bool) : Option Scanner := do
  let s ← s.dropCandidate?
  let (text, c) ← block? folded s.indents (s.cursor.advance 1)
  return { s.emit (.scalar (String.ofList text) false) with cursor := c, keyAllowed := true }

def quotedScalar? (s : Scanner) (quote : Char) : Option Scanner := do
  let s ← s.noteCandidate?
  let c := s.cursor.advance 1
  let (text, c) ← quoted? quote (c.rest.length + 1) [] c
  return { s.emit (.scalar (String.ofList text) false) with cursor := c, keyAllowed := false }

def plainScalar? (s : Scanner) : Option Scanner := do
  let s ← s.noteCandidate?
  let indent := match s.indents with
    | column :: _ => column + 1
    | [] => 0
  let (text, broken, c) ← plain? s.inFlow indent (s.cursor.rest.length + 1) [] Gap.empty s.cursor
  return { s.emit (.scalar (String.ofList text) true) with cursor := c, keyAllowed := broken }

/-- A character that starts no plain scalar, whatever follows it. -/
def isIndicator (c : Char) : Bool := "-?:,[]\x7b\x7d#&*!|>'\"%@`".toList.contains c

/-- A plain scalar may begin here. -/
def atPlain (s : Scanner) (x : Char) : Bool :=
  !isIndicator x ||
    (x == '-' && !(s.cursor.peek? 1).any isSpace) ||
    (!s.inFlow && (x == '?' || x == ':') && !endsWord (s.cursor.peek? 1))

/-- The token that begins with the next character `x`. -/
def token? (s : Scanner) (x : Char) : Option Scanner :=
  let wordEnds := endsWord (s.cursor.peek? 1)
  if s.cursor.column == 0 && x == '%' then s.directiveToken?
  else if s.cursor.atMark '-' then s.documentMark? .documentStart
  else if s.cursor.atMark '.' then s.documentMark? .documentEnd
  else if x == '[' then s.openFlow? .flowSequenceStart
  else if x == '{' then s.openFlow? .flowMappingStart
  else if x == ']' then s.closeFlow? .flowSequenceEnd
  else if x == '}' then s.closeFlow? .flowMappingEnd
  else if x == ',' then s.flowEntry?
  else if x == '-' && wordEnds then s.blockEntry?
  else if x == '?' && (s.inFlow || wordEnds) then s.key?
  else if x == ':' && (s.inFlow || wordEnds) then s.value?
  else if x == '*' then s.anchor? .alias
  else if x == '&' then s.anchor? .anchor
  else if x == '!' then s.tag?
  else if x == '|' && !s.inFlow then s.blockScalar? false
  else if x == '>' && !s.inFlow then s.blockScalar? true
  else if x == '\'' || x == '"' then s.quotedScalar? x
  else if !isSpace x && s.atPlain x then s.plainScalar?
  else none

/-- Read tokens to the end of the text. -/
def run? : Nat → Scanner → Option Scanner
  | 0, _ => none
  | fuel + 1, s => do
    let s ← (s.skipBlanks (s.cursor.rest.length + 1)).dropStale?
    let s := s.closeBlocks s.cursor.column
    match s.cursor.next? with
    | none => s.closeAll.dropCandidate?
    | some x => run? fuel (← s.token? x)

end Scanner

/-- Put a key token, and the start of its mapping if there is one, at each marked
    place. `place` is the number of the first token. -/
def splice (marks : List Mark) (place : Nat) : List Token → List Token
  | [] => []
  | t :: rest =>
    let here :=
      match marks.find? (·.place == place) with
      | some m => if m.opens then [.mappingStart, .key] else [.key]
      | none => []
    here ++ t :: splice marks (place + 1) rest

/-- The tokens of a text. -/
def tokens? (cs : List Char) : Option (List Token) := do
  if !cs.all isAllowed then none
  let s ← (Scanner.ofText cs).run? (cs.length + 2)
  return splice s.marks 0 s.tokens.reverse

end ServiceSchema.Yaml
