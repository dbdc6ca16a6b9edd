/-
  ServiceSchema.Go.Columns — struct fields lined up in columns.

  A field line is cut into cells at blanks; quoted text stays in one cell, and so does
  a comment up to the end of the line. Every cell but the last of its line is filled
  up to the widest such cell of its column, plus one space.
-/
import ServiceSchema.Text.Blank

namespace ServiceSchema.Go

/-- The quotes that keep a cell together. -/
inductive Quote where
  | double
  | back
  deriving DecidableEq, Repr

/-- A cell in the making is given with the cells after it; an empty one is no cell. -/
def consCell (cell : List Char) (cells : List (List Char)) : List (List Char) :=
  if cell.isEmpty then cells else cell :: cells

/-- The cells of a text, `cell` being the part of the current cell that was read and
    `quote` the quotes it is inside of. -/
def cellsFrom (cell : List Char) (quote : Option Quote) : List Char → List (List Char)
  | [] => consCell cell []
  | c :: rest =>
    match quote with
    | some .double =>
      if c = '\\' then
        match rest with
        | [] => consCell (cell ++ [c]) []
        | d :: after => cellsFrom (cell ++ [c, d]) (some .double) after
      else cellsFrom (cell ++ [c]) (if c = '"' then none else some .double) rest
    | some .back => cellsFrom (cell ++ [c]) (if c = '`' then none else some .back) rest
    | none =>
      if c = '/' ∧ rest.head? = some '/' then consCell cell [c :: rest]
      else if Text.isBlank c then consCell cell (cellsFrom [] none rest)
      else
        cellsFrom (cell ++ [c])
          (if c = '"' then some .double else if c = '`' then some .back else none) rest

/-- The cells of a field line. -/
def cells (text : List Char) : List (List Char) := cellsFrom [] none text

/-- The width of column `i`: that of its widest cell that is not the last of its row. -/
def columnWidth (rows : List (List (List Char))) (i : Nat) : Nat :=
  (rows.map fun row => (row.dropLast[i]?.map List.length).getD 0).foldl max 0

/-- The widths of all columns. -/
def columnWidths (rows : List (List (List Char))) : List Nat :=
  (List.range ((rows.map List.length).foldl max 0)).map (columnWidth rows)

/-- A row from column `i` on, each cell but the last filled up to its column. -/
def writeCells (widths : List Nat) (i : Nat) : List (List Char) → List Char
  | [] => []
  | [cell] => cell
  | cell :: next :: more =>
    cell ++ List.replicate (widths.getD i 0 + 1 - cell.length) ' ' ++
      writeCells widths (i + 1) (next :: more)

/-- Field lines, lined up. -/
def alignRows (texts : List (List Char)) : List (List Char) :=
  let rows := texts.map cells
  rows.map (writeCells (columnWidths rows) 0)

end ServiceSchema.Go
