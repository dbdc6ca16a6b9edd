/-
  ServiceSchema.Go.BlankLines — which blank lines stay.

  A blank line is dropped at the start and at the end of the text, after another blank
  line, after a line that opens a block, and before a line that starts with a closing
  bracket.
-/
import ServiceSchema.Go.Layout

namespace ServiceSchema.Go

/-- Keep one more line; the lines kept so far are given newest first. -/
def keepLine (kept : List Line) (l : Line) : List Line :=
  if l.isBlank then
    match kept with
    | [] => []
    | k :: _ => if k.isBlank || k.opens then kept else l :: kept
  else if startsWithCloser l.text then l :: kept.dropWhile Line.isBlank
  else l :: kept

/-- The lines without redundant blank ones. -/
def dropRedundantBlanks (lines : List Line) : List Line :=
  ((lines.foldl keepLine []).dropWhile Line.isBlank).reverse

end ServiceSchema.Go
