/-
  ServiceSchema.Text.Lines — a text as a list of lines.

  A line ends at a line feed, and a carriage return directly before that line feed
  belongs to the line's end. A text that ends in a line feed has no empty last line.
-/

namespace ServiceSchema.Text

/-- The lines of a text, without their ends. -/
def lines : List Char → List (List Char)
  | [] => []
  | '\n' :: rest => [] :: lines rest
  | '\r' :: '\n' :: rest => [] :: lines rest
  | c :: rest =>
    match lines rest with
    | [] => [[c]]
    | l :: ls => (c :: l) :: ls

/-- The lines joined again, each ended by a line feed. -/
def unlines (ls : List (List Char)) : List Char := ls.flatMap (· ++ ['\n'])

end ServiceSchema.Text
