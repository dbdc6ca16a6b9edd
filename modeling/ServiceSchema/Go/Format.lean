/-
  ServiceSchema.Go.Format — the canonical form of a Go text.

  The text is laid out, loses its redundant blank lines, and has its struct fields
  lined up. Whether the result is a Go file is left to a check, which is a parser of the
  language and a parameter here.
-/
import ServiceSchema.Go.BlankLines
import ServiceSchema.Go.Columns
import ServiceSchema.Fault

namespace ServiceSchema.Go

/-- Cut lines into runs: neighbours of one field block stay together, and any other
    line is alone. -/
def runs : List Line → List (List Line)
  | [] => []
  | l :: rest =>
    match runs rest with
    | (m :: run) :: more =>
      if l.block.isSome && l.block == m.block then (l :: m :: run) :: more
      else [l] :: (m :: run) :: more
    | more => [l] :: more

/-- A line of output: an empty one is not indented. -/
def writeLine (indent : Nat) (text : List Char) : List Char :=
  (if text.isEmpty then [] else List.replicate indent '\t' ++ text) ++ ['\n']

/-- A run of output: the lines of a field block are lined up. -/
def writeRun (run : List Line) : List Char :=
  match run with
  | [] => []
  | first :: _ =>
    let texts := if first.block.isSome then alignRows (run.map Line.text) else run.map Line.text
    (run.zip texts).flatMap fun l => writeLine l.1.indent l.2

/-- Laid-out lines as a text. -/
def write (lines : List Line) : List Char := (runs (dropRedundantBlanks lines)).flatMap writeRun

/-- A check of a text against the grammar; it says what is wrong. -/
abbrev Check := List Char → Except String Unit

/-- The canonical form of a text, if it passes the check. -/
def formatChars (check : Check) (source : List Char) : Except FormatFault (List Char) :=
  match layout source with
  | .error fault => .error (.layout fault)
  | .ok lines =>
    let out := write lines
    match check out with
    | .error message => .error (.grammar message)
    | .ok () => .ok out

/-- The canonical form of a text, if it passes the check. -/
def format (check : Check) (source : String) : Except FormatFault String := do
  return String.ofList (← formatChars check source.toList)

end ServiceSchema.Go
