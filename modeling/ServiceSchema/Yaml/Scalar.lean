/-
  ServiceSchema.Yaml.Scalar — the texts of scalars.

  A plain scalar has no quotes, a quoted one has single or double quotes, and a block
  scalar stands on lines of its own. Line ends inside the first two are folded: one
  becomes a space, and of several the first is dropped. No result means that the text
  is no scalar.
-/
import ServiceSchema.Yaml.Cursor

namespace ServiceSchema.Yaml

/-! ## Gaps inside a scalar -/

/-- Spaces and line ends inside a scalar. -/
structure Gap where
  /-- Whether a line has ended in the gap. -/
  broken : Bool
  /-- Whether its first line end was escaped. -/
  escaped : Bool
  spaces : List Char
  breaks : List Char
  deriving DecidableEq, Repr

namespace Gap

def empty : Gap := ⟨false, false, [], []⟩

/-- What a gap is in the scalar. -/
def text (g : Gap) : List Char :=
  if !g.broken then g.spaces
  else if g.escaped then g.breaks
  else
    match g.breaks with
    | ['\n'] => [' ']
    | '\n' :: more => more
    | all => all

/-- Read spaces and line ends. After a line end a tab to the left of `indent` does not
    fit. -/
def read (indent : Nat) : Nat → Gap → Cursor → Option (Gap × Cursor)
  | 0, g, c => some (g, c)
  | fuel + 1, g, c =>
    match c.next? with
    | none => some (g, c)
    | some x =>
      if isSpace x then
        if !g.broken then read indent fuel { g with spaces := g.spaces ++ [x] } (c.advance 1)
        else if x == '\t' && c.column < indent then none
        else read indent fuel g (c.advance 1)
      else if isBreak x then
        read indent fuel { g with broken := true, breaks := g.breaks ++ c.breakText } c.newline
      else some (g, c)

end Gap

/-! ## Plain scalars -/

/-- Characters that end a plain scalar in a flow collection. -/
def isFlowMark (c : Char) : Bool := c == ',' || c == '[' || c == ']' || c == '{' || c == '}'

/-- The number of characters up to a space, a line end, or a character that ends the
    scalar. In a flow collection a colon right before a flow mark does not fit. -/
def plainRun? (flow : Bool) : List Char → Option Nat
  | [] => some 0
  | c :: rest =>
    if isSpace c || isBreak c then some 0
    else if c == ':' then
      if flow && rest.head?.any (fun d => isFlowMark d || d == '?') then none
      else if endsWord rest.head? then some 0
      else (plainRun? flow rest).map (· + 1)
    else if flow && isFlowMark c then some 0
    else (plainRun? flow rest).map (· + 1)

/-- A plain scalar: its text, whether a line has ended after it, and the place after.
    In block context lines to the left of `indent` do not belong to it. -/
def plain? (flow : Bool) (indent : Nat) : Nat → List Char → Gap → Cursor → Option (List Char × Bool × Cursor)
  | 0, text, gap, c => some (text, gap.broken, c)
  | fuel + 1, text, gap, c =>
    if c.atDocumentMark || c.at? '#' then some (text, gap.broken, c)
    else do
      let n ← plainRun? flow c.rest
      if n = 0 then some (text, gap.broken, c)
      else
        let text := text ++ gap.text ++ c.rest.take n
        let (gap, c) ← Gap.read indent c.rest.length Gap.empty (c.advance n)
        if gap == Gap.empty || (!flow && c.column < indent) then some (text, gap.broken, c)
        else plain? flow indent fuel text gap c

/-! ## Quoted scalars -/

/-- What an escaped character stands for. -/
def escapes : List (Char × Char) :=
  [('0', '\x00'), ('a', '\x07'), ('b', '\x08'), ('t', '\t'), ('\t', '\t'), ('n', '\n'),
   ('v', '\x0b'), ('f', '\x0c'), ('r', '\r'), ('e', '\x1b'), (' ', ' '), ('"', '"'), ('/', '/'),
   ('\\', '\\'), ('N', '\x85'), ('_', '\xa0'), ('L', '\u2028'), ('P', '\u2029')]

/-- How many hexadecimal digits follow an escaped letter. -/
def escapeDigits : List (Char × Nat) := [('x', 2), ('u', 4), ('U', 8)]

def hexValue? (c : Char) : Option Nat :=
  if c.isDigit then some (c.toNat - '0'.toNat)
  else if 'a' ≤ c && c ≤ 'f' then some (c.toNat - 'a'.toNat + 10)
  else if 'A' ≤ c && c ≤ 'F' then some (c.toNat - 'A'.toNat + 10)
  else none

/-- The number that `n` hexadecimal digits spell. -/
def hexNumber? (n : Nat) (cs : List Char) : Option Nat := do
  let ds ← (cs.take n).mapM hexValue?
  if ds.length = n then some (ds.foldl (fun v d => v * 16 + d) 0) else none

/-- The character with a code, if it is one. -/
def charOfCode? (n : Nat) : Option Char :=
  if (0xD800 ≤ n && n ≤ 0xDFFF) || 0x10FFFF < n then none else some (Char.ofNat n)

/-- A run of characters inside quotes. -/
structure QuotedRun where
  text : List Char
  /-- How many characters it takes. -/
  length : Nat
  /-- Whether it stops at a backslash before a line end. -/
  escapedBreak : Bool
  deriving DecidableEq, Repr

def QuotedRun.cons (c : Char) (n : Nat) (r : QuotedRun) : QuotedRun :=
  { r with text := c :: r.text, length := r.length + n }

/-- The characters up to a space, a line end, or the closing quote; the first `skip`
    characters were read as part of an escape. -/
def quotedRun? (quote : Char) : Nat → List Char → Option QuotedRun
  | _, [] => some ⟨[], 0, false⟩
  | skip + 1, _ :: rest => quotedRun? quote skip rest
  | 0, c :: rest =>
    if isSpace c || isBreak c then some ⟨[], 0, false⟩
    else if c == quote then
      match rest with
      | d :: after =>
        if quote == '\'' && d == '\'' then (quotedRun? quote 0 after).map (.cons '\'' 2)
        else some ⟨[], 0, false⟩
      | [] => some ⟨[], 0, false⟩
    else if quote == '"' && c == '\\' then
      match rest with
      | [] => none
      | e :: after =>
        if isBreak e then some ⟨[], 0, true⟩
        else
          match escapes.lookup e, escapeDigits.lookup e with
          | some x, _ => (quotedRun? quote 0 after).map (.cons x 2)
          | none, some n => do
            let x ← charOfCode? (← hexNumber? n after)
            (quotedRun? quote n after).map (.cons x (2 + n))
          | none, none => none
    else (quotedRun? quote 0 rest).map (.cons c 1)

/-- A quoted scalar after its opening quote: its text and the place after its closing
    quote. -/
def quoted? (quote : Char) : Nat → List Char → Cursor → Option (List Char × Cursor)
  | 0, _, _ => none
  | fuel + 1, text, c =>
    if c.atDocumentMark || c.rest.isEmpty then none
    else do
      let run ← quotedRun? quote 0 c.rest
      let text := text ++ run.text
      let c := c.advance run.length
      let (gap, c) :=
        if run.escapedBreak then (⟨true, true, [], []⟩, (c.advance 1).newline) else (Gap.empty, c)
      if c.at? quote then some (text, c.advance 1)
      else
        let (gap, c) ← Gap.read 0 c.rest.length gap c
        quoted? quote fuel (text ++ gap.text) c

/-! ## Block scalars -/

/-- What happens to the line ends after the last line of a block scalar. -/
inductive Chomp where
  | clip
  | strip
  | keep
  deriving DecidableEq, Repr

def Chomp.ofChar? : Char → Option Chomp
  | '+' => some .keep
  | '-' => some .strip
  | _ => none

/-- The header of a block scalar: how it ends, and its indentation if it is given. No
    indentation is 0, and a written 0 does not fit. -/
def blockHeader? (c : Cursor) : Option (Chomp × Nat × Cursor) :=
  let digit (c : Cursor) : Option (Nat × Cursor) :=
    match c.next? with
    | some d =>
      if d == '0' then none
      else if d.isDigit then some (d.toNat - '0'.toNat, c.advance 1)
      else some (0, c)
    | none => some (0, c)
  match c.next?.bind Chomp.ofChar? with
  | some chomp => do
    let (n, c) ← digit (c.advance 1)
    return (chomp, n, c)
  | none => do
    let (n, c) ← digit c
    if n = 0 then return (.clip, 0, c)
    match c.next?.bind Chomp.ofChar? with
    | some chomp => return (chomp, n, c.advance 1)
    | none => return (.clip, n, c)

/-- Blank lines in front of a line of a block scalar, and that line's indentation: the
    deepest column reached, the line ends, and the place after. With `indent = 0` the
    indentation is not known yet. -/
def blockBreaks? (indent : Nat) : Nat → Nat → List Char → Cursor → Option (Nat × List Char × Cursor)
  | 0, deepest, breaks, c => some (deepest, breaks, c)
  | fuel + 1, deepest, breaks, c =>
    let spaces := (c.rest.takeWhile (· == ' ')).length
    let c := c.advance (if indent = 0 then spaces else min spaces (indent - c.column))
    let deepest := max deepest c.column
    if (indent = 0 || c.column < indent) && c.at? '\t' then none
    else if c.rest.isEmpty || !c.atLineEnd then some (deepest, breaks, c)
    else blockBreaks? indent fuel deepest (breaks ++ c.breakText) c.newline

/-- The lines of a block scalar. `text` was read, then the line end `last`, then the
    blank lines `breaks`; `blank` tells whether the last line started with a space. -/
def blockLines? (folded : Bool) (chomp : Chomp) (indent : Nat) :
    Nat → List Char → List Char → List Char → Bool → Cursor → Option (List Char × Cursor)
  | 0, _, _, _, _, _ => none
  | fuel + 1, text, last, breaks, blank, c =>
    if c.column ≠ indent || c.rest.isEmpty then
      let text := if chomp = .strip then text else text ++ last
      some (if chomp = .keep then text ++ breaks else text, c)
    else do
      let startsBlank := c.next?.any isSpace
      let joint :=
        if folded && last == ['\n'] && !blank && !startsBlank then
          (if breaks.isEmpty then [' '] else [])
        else last
      let line := c.rest.takeWhile (!isBreak ·)
      let c := c.advance line.length
      let last := c.breakText
      let (_, after, c) ← blockBreaks? indent c.rest.length 0 [] c.newline
      blockLines? folded chomp indent fuel (text ++ joint ++ breaks ++ line) last after startsBlank c

/-- A block scalar after its first character, inside blocks at the columns `indents`
    (innermost first): its text and the place after. -/
def block? (folded : Bool) (indents : List Nat) (c : Cursor) : Option (List Char × Cursor) := do
  let (chomp, given, c) ← blockHeader? c
  let c ← c.restOfLine?
  let fixed := if given = 0 then 0 else (indents.head?.getD 0) + given
  let (deepest, breaks, c) ← blockBreaks? fixed c.rest.length 0 [] c
  let least := match indents with
    | column :: _ => column + 1
    | [] => 1
  let indent := if fixed = 0 then max deepest least else fixed
  blockLines? folded chomp indent (c.rest.length + 1) [] [] breaks false c

end ServiceSchema.Yaml
