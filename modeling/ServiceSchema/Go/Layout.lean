/-
  ServiceSchema.Go.Layout — where the lines of a Go text stand.

  The text is read line by line, each line without its outer blanks, and scanned for
  brackets outside literals and comments. A line that leaves brackets open indents the
  lines after it by one level, however many it leaves open: the level belongs to the
  innermost of them. A line stands at the level of the brackets that are open at its
  first character that is neither blank nor a closing bracket.

  Lines inside a raw string are kept as they are. The fields of a `struct {` block
  carry the number of the block, so that they can be lined up in columns.
-/
import ServiceSchema.Fault
import ServiceSchema.Go.Bracket
import ServiceSchema.Text.Blank
import ServiceSchema.Text.Lines

namespace ServiceSchema.Go

inductive Literal where
  | code
  | interpreted
  | rune
  | raw
  | comment
  deriving DecidableEq, Repr

structure Open where
  kind : Bracket
  /-- The line it was opened on, from 1. -/
  line : Nat
  /-- Whether it accounts for a level of indentation. -/
  indents : Bool
  fields : Option Nat
  deriving DecidableEq, Repr

def level (stack : List Open) : Nat := stack.countP Open.indents

/-- The scanner inside a line. -/
structure Scan where
  literal : Literal
  /-- Open brackets, the innermost first. -/
  stack : List Open
  /-- How many of the open brackets this line has opened; they are the innermost ones. -/
  fresh : Nat
  indent : Option Nat
  deriving DecidableEq, Repr

namespace Scan

/-- The first character that is neither blank nor a closing bracket fixes the level. -/
def note (s : Scan) (c : Char) : Scan :=
  if s.indent.isNone && !Bracket.isCloser c && !Text.isBlank c then
    { s with indent := some (level s.stack) }
  else s

def push (s : Scan) (kind : Bracket) (line : Nat) : Scan :=
  { s with stack := ⟨kind, line, false, none⟩ :: s.stack, fresh := s.fresh + 1 }

def pop (s : Scan) (kind : Bracket) (line : Nat) : Except LayoutFault Scan :=
  match s.stack with
  | [] => .error (.unexpected kind.closer line)
  | top :: rest =>
    if top.kind = kind then .ok { s with stack := rest, fresh := s.fresh - 1 }
    else .error (.mismatched top.kind.opener top.line kind.closer line)

def run (line : Nat) : Scan → List Char → Except LayoutFault Scan
  | s, [] => .ok s
  | s, c :: rest =>
    match s.literal with
    | .interpreted =>
      -- the character behind a backslash is not looked at
      if c = '\\' then
        match rest with
        | [] => .ok s
        | _ :: after => run line s after
      else run line (if c = '"' then { s with literal := .code } else s) rest
    | .rune =>
      if c = '\\' then
        match rest with
        | [] => .ok s
        | _ :: after => run line s after
      else run line (if c = '\'' then { s with literal := .code } else s) rest
    | .raw => run line (if c = '`' then { s with literal := .code } else s) rest
    | .comment =>
      match rest with
      | [] => .ok s
      | d :: after =>
        if c = '*' ∧ d = '/' then run line { s with literal := .code } after
        else run line s (d :: after)
    | .code =>
      let s := s.note c
      if c = '"' then run line { s with literal := .interpreted } rest
      else if c = '\'' then run line { s with literal := .rune } rest
      else if c = '`' then run line { s with literal := .raw } rest
      else if c = '/' then
        match rest with
        | [] => .ok s
        | d :: after =>
          if d = '/' then .ok s
          else if d = '*' then run line { s with literal := .comment } after
          else run line s (d :: after)
      else
        match Bracket.ofOpener? c, Bracket.ofCloser? c with
        | some kind, _ => run line (s.push kind line) rest
        | none, some kind => do run line (← s.pop kind line) rest
        | none, none => run line s rest

end Scan

/-! ## Lines -/

structure Line where
  indent : Nat
  text : List Char
  block : Option Nat
  /-- Whether the line leaves a bracket open that it opened itself. -/
  opens : Bool
  deriving DecidableEq, Repr

def startsWithCloser : List Char → Bool
  | c :: _ => Bracket.isCloser c
  | [] => false

def Line.isBlank (l : Line) : Bool := l.text.isEmpty

structure Between where
  literal : Literal
  stack : List Open
  nextBlock : Nat
  deriving DecidableEq, Repr

/-- A line's text as it is kept: inside a raw string only carriage returns at its end
    are dropped, elsewhere all outer blanks. -/
def keptText (literal : Literal) (raw : List Char) : List Char :=
  if literal = .raw then (raw.reverse.dropWhile (· = '\r')).reverse else Text.trim raw

/-- The field block that a line starts in: that of the innermost open bracket, if the
    line is not empty and does not begin by closing it. -/
def startBlock (b : Between) (text : List Char) : Option Nat :=
  match b.literal, b.stack with
  | .code, top :: _ => if text.isEmpty || startsWithCloser text then none else top.fields
  | _, _ => none

def opensFields (text : List Char) : Bool := "struct \x7b".toList.isSuffixOf text

/-- The end of a line: the innermost bracket among those it leaves open gets the level,
    and the field block if it opens one. -/
def settle (s : Scan) (text : List Char) (nextBlock : Nat) : List Open × Nat :=
  match s.fresh, s.stack with
  | _ + 1, top :: rest =>
    if top.kind = .brace && opensFields text then
      ({ top with indents := true, fields := some nextBlock } :: rest, nextBlock + 1)
    else ({ top with indents := true } :: rest, nextBlock)
  | _, stack => (stack, nextBlock)

def layoutLine (b : Between) (number : Nat) (raw : List Char) :
    Except LayoutFault (Line × Between) := do
  let text := keptText b.literal raw
  let s ← Scan.run number ⟨b.literal, b.stack, 0, none⟩ text
  if s.literal = .interpreted || s.literal = .rune then
    throw (.unterminatedLiteral number)
  let indent := s.indent.getD (level s.stack)
  let (stack, nextBlock) := settle s text b.nextBlock
  return (⟨if b.literal = .raw then 0 else indent, text, startBlock b text, s.fresh != 0⟩,
    ⟨s.literal, stack, nextBlock⟩)

def layoutLines : Between → Nat → List (List Char) → Except LayoutFault (List Line × Between)
  | b, _, [] => .ok ([], b)
  | b, number, raw :: rest => do
    let (line, b') ← layoutLine b number raw
    let (lines, final) ← layoutLines b' (number + 1) rest
    return (line :: lines, final)

def layout (source : List Char) : Except LayoutFault (List Line) := do
  let (lines, final) ← layoutLines ⟨.code, [], 0⟩ 1 (Text.lines source)
  match final.stack, final.literal with
  | top :: _, _ => throw (.unclosed top.kind.opener top.line)
  | [], .code => return lines
  | [], .raw => throw .unterminatedRaw
  | [], _ => throw .unterminatedComment

end ServiceSchema.Go
