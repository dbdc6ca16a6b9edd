/-
  ServiceSchema.Go.Program — reading a text as a Go file.

  At every place the longest terminal that may come next is read. The end of a line is
  a terminal where a terminator may come and a gap elsewhere; phrases in brackets pass
  it over even then. Comments and white space may stand between any two terminals, and
  a byte order mark at the start of the text.

  If no terminal fits, the fault lies on the line of the first character that does not
  fit. Two things move it back to the line of the last terminal: the text is over, or
  a line has ended after a terminal that can end one, so that the statement was cut off
  there.

  `checkGrammar` is the check that the program runs with. Which texts are Go files is not
  said here but in `Go.Syntax`, and generated files are not proved to be any by it.
-/
import ServiceSchema.Go.Grammar
import ServiceSchema.Parsing.Chart
import ServiceSchema.Text.Blank
import ServiceSchema.Text.Lines

namespace ServiceSchema.Go

open Parsing

/-- The reader of a text. -/
structure Reader where
  chart : Chart Terminal Phrase
  /-- The current line, from 1. -/
  line : Nat
  /-- The line that the last terminal ended on. -/
  lastLine : Nat
  /-- Whether the last terminal can end a line. -/
  canEnd : Bool
  /-- Whether a line has ended after the last terminal. -/
  broken : Bool

namespace Reader

def initial : Reader := ⟨Chart.initial grammar, 1, 1, false, false⟩

/-- The terminals that a text begins with, of those that may come next the longest, and
    their length. -/
def lexeme? (r : Reader) (cs : List Char) : Option (List Terminal × Nat) :=
  let fitting := (Terminal.lexemes cs).filter fun l => r.chart.expects l.1
  let longest := (fitting.map (·.2)).foldl max 0
  if longest = 0 then none
  else some ((fitting.filter fun l => l.2 = longest).map (·.1), longest)

/-- Take a terminal. -/
def take (r : Reader) (ts : List Terminal) : Reader :=
  { r with chart := r.chart.scan grammar ts, canEnd := ts.any Terminal.endsLine, broken := false }

/-- Take the end of a line that may end a statement. -/
def takeLine (r : Reader) : Reader :=
  { r with
    chart := r.chart.scanSome grammar [.newline, .softBreak] fun p => p.context.inside
    canEnd := false
    broken := false }

/-- Pass a character of a terminal. -/
def passTerminal (r : Reader) (c : Char) : Reader :=
  { r with lastLine := r.line, line := if c = '\n' then r.line + 1 else r.line }

/-- Pass a character of a comment. -/
def passComment (r : Reader) (c : Char) : Reader :=
  { r with line := if c = '\n' then r.line + 1 else r.line }

/-- Pass the end of a line that is no terminal. -/
def passLine (r : Reader) : Reader := { r with line := r.line + 1, broken := true }

/-- The line of the fault at a character that does not fit. -/
def faultLine (r : Reader) : Nat := if r.broken && r.canEnd then r.lastLine else r.line

/-- The end of the text: a file may be empty. -/
def finish (r : Reader) : Except Nat Unit :=
  if r.chart.size = 1 || r.chart.accepts grammar then .ok () else .error r.lastLine

/-- What the next characters belong to. -/
inductive Part where
  | terminal
  | comment
  deriving DecidableEq, Repr

/-- Read a text of which the first `skip` characters belong to the part before. The
    fault is the number of a line. -/
def run (r : Reader) (part : Part) : Nat → List Char → Except Nat Unit
  | _, [] => r.finish
  | skip + 1, c :: rest =>
    match part with
    | .terminal => run (r.passTerminal c) part skip rest
    | .comment => run (r.passComment c) part skip rest
  | 0, c :: rest =>
    let comment := Terminal.commentLength (c :: rest)
    if Terminal.isGap c then run r part 0 rest
    else if c = '\n' then
      run (if r.chart.expects .newline then r.takeLine.passTerminal c else r.passLine) part 0 rest
    else if comment ≠ 0 then run (r.passComment c) .comment (comment - 1) rest
    else
      match r.lexeme? (c :: rest) with
      | some (ts, length) => run ((r.take ts).passTerminal c) .terminal (length - 1) rest
      | none => .error r.faultLine

end Reader

/-- A text without the byte order mark at its start. -/
def dropMark : List Char → List Char
  | [] => []
  | c :: rest => if c = '\ufeff' then rest else c :: rest

/-- The number of the line that keeps a text from being a Go file. -/
def faultyLine? (source : List Char) : Option Nat :=
  match Reader.initial.run .terminal 0 (dropMark source) with
  | .ok () => none
  | .error line => some line

/-- Line `number` of a text without its outer blanks. -/
def lineText (source : List Char) (number : Nat) : String :=
  String.ofList (Text.trim ((Text.lines source)[number - 1]?.getD []))

/-- Check that a text is a Go file. -/
def checkGrammar (source : List Char) : Except String Unit :=
  match faultyLine? source with
  | none => .ok ()
  | some line => .error ("syntax error on line " ++ toString line ++ ": " ++ lineText source line)

end ServiceSchema.Go
