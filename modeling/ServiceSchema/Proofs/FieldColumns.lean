/-
  ServiceSchema.Proofs.FieldColumns — where the cells of field lines stand.

  Each column of a field block starts at one place in all lines of the block (`StandsAt`). It
  starts one space behind the widest cell of the column before, the last cells of the lines
  not counted: such a cell may reach over the columns to its right, which its line does not
  have.

  - `columns_of_writeRun`: the columns of a written field block, with no more space than needed.
  - `cells_stable`: cells that are joined with spaces are cut again as they were, so writing the
    lines of a written field block changes nothing.
-/
import ServiceSchema.Proofs.Idempotence

namespace ServiceSchema.Go

open Text

/-! ## Where columns start -/

/-- How far column `i + k` starts behind column `i`. -/
def columnStart (widths : List Nat) : Nat → Nat → Nat
  | _, 0 => 0
  | i, k + 1 => widths.getD i 0 + 1 + columnStart widths (i + 1) k

theorem columnStart_succ (widths : List Nat) (i k : Nat) :
    columnStart widths i (k + 1) = columnStart widths i k + widths.getD (i + k) 0 + 1 := by
  induction k generalizing i with
  | zero => simp [columnStart]
  | succ k ih =>
    rw [columnStart, ih (i + 1), columnStart, Nat.add_right_comm i 1 k, Nat.add_assoc i k 1]
    omega

/-- The cells of a row stand in a text from the columns on that `start` gives. Behind a cell there
    are spaces up to the next one, at least one of them, and the text ends with the last cell. -/
structure StandsAt (start : Nat → Nat) (row : List (List Char)) (text : List Char) : Prop where
  cell : ∀ k cell, row[k]? = some cell → (text.drop (start k)).take cell.length = cell
  gap : ∀ k cell, row[k]? = some cell → k + 1 < row.length → start k + cell.length < start (k + 1) ∧
    ∀ i, start k + cell.length ≤ i → i < start (k + 1) → text[i]? = some ' '
  last : ∀ k cell, row[k]? = some cell → k + 1 = row.length → text.length = start k + cell.length
  empty : row = [] → text = []

/-- The cells of a row fit their columns, the last one apart. -/
def Fits (widths : List Nat) (i : Nat) (row : List (List Char)) : Prop :=
  ∀ (k : Nat) (cell : List Char), k + 1 < row.length → row[k]? = some cell →
    cell.length ≤ widths.getD (i + k) 0

theorem Fits.tail {widths : List Nat} {i : Nat} {cell : List Char} {row : List (List Char)}
    (h : Fits widths i (cell :: row)) : Fits widths (i + 1) row := by
  intro k cell' hk hcell
  have hfits := h (k + 1) cell' (by simpa using hk) hcell
  rwa [Nat.add_right_comm, Nat.add_assoc]

theorem fits_columnWidths {rows : List (List (List Char))} {row : List (List Char)} (h : row ∈ rows) :
    Fits (columnWidths rows) 0 row := by
  intro k cell hk hcell
  rw [Nat.zero_add]
  exact length_le_columnWidths h hk hcell

/-- A padded cell is as long as its column, and a space. -/
theorem length_padded {cell : List Char} {width : Nat} (h : cell.length ≤ width) :
    (cell ++ List.replicate (width + 1 - cell.length) ' ').length = width + 1 := by
  rw [List.length_append, List.length_replicate]
  omega

/-- One more cell in front: the others stand as far to the right as it is long with its padding. -/
theorem StandsAt.cons {widths : List Nat} {i : Nat} {cell next line : List Char} {more : List (List Char)}
    (hfits : cell.length ≤ widths.getD i 0) (h : StandsAt (columnStart widths (i + 1)) (next :: more) line) :
    StandsAt (columnStart widths i) (cell :: next :: more)
      (cell ++ List.replicate (widths.getD i 0 + 1 - cell.length) ' ' ++ line) := by
  have hlength := length_padded hfits
  have hdrop : ∀ k, (cell ++ List.replicate (widths.getD i 0 + 1 - cell.length) ' ' ++ line).drop
      (columnStart widths i (k + 1)) = line.drop (columnStart widths (i + 1) k) := by
    intro k
    rw [columnStart, ← List.drop_drop, List.drop_left' hlength]
  constructor
  · intro k cell' hcell
    cases k with
    | zero =>
      cases hcell
      rw [columnStart, List.drop_zero, List.append_assoc, List.take_left]
    | succ k =>
      rw [hdrop]
      exact h.cell k cell' hcell
  · intro k cell' hcell hk
    cases k with
    | zero =>
      cases hcell
      rw [columnStart, columnStart, columnStart]
      refine ⟨by omega, fun j hfrom hto => ?_⟩
      rw [List.getElem?_append_left (by omega), List.getElem?_append_right (by omega),
        List.getElem?_replicate, if_pos (by omega)]
    | succ k =>
      obtain ⟨hlt, hspaces⟩ := h.gap k cell' hcell (by simpa using hk)
      rw [columnStart, columnStart]
      refine ⟨by omega, fun j hfrom hto => ?_⟩
      rw [List.getElem?_append_right (by omega), hlength]
      exact hspaces _ (by omega) (by omega)
  · intro k cell' hcell hk
    cases k with
    | zero => simp at hk
    | succ k =>
      have hline := h.last k cell' hcell (by simpa using hk)
      rw [columnStart, List.length_append, hlength, hline, ← Nat.add_assoc]
  · intro hnil
    cases hnil

/-- A row whose cells fit their columns is written with each cell at its column. -/
theorem standsAt_writeCells {widths : List Nat} {i : Nat} {row : List (List Char)} (h : Fits widths i row) :
    StandsAt (columnStart widths i) row (writeCells widths i row) := by
  induction row generalizing i with
  | nil => exact ⟨by simp, by simp, by simp, fun _ => rfl⟩
  | cons cell more ih =>
    cases more with
    | nil =>
      have honly : ∀ k cell', [cell][k]? = some cell' → k = 0 ∧ cell = cell' := by
        intro k cell' hcell
        simpa [List.getElem?_cons, ite_eq_iff] using hcell
      refine ⟨fun k cell' hcell => ?_, by simp, fun k cell' hcell _ => ?_, fun hnil => by cases hnil⟩
      · obtain ⟨rfl, rfl⟩ := honly k cell' hcell
        rw [columnStart, List.drop_zero, writeCells, List.take_length]
      · obtain ⟨rfl, rfl⟩ := honly k cell' hcell
        rw [columnStart, writeCells, Nat.zero_add]
    | cons next more =>
      rw [writeCells]
      exact (ih h.tail).cons (h 0 cell (by simp) rfl)

/-! ## How wide columns are -/

theorem foldl_max_mem (xs : List Nat) (i : Nat) : xs.foldl max i = i ∨ xs.foldl max i ∈ xs := by
  induction xs generalizing i with
  | nil => exact Or.inl rfl
  | cons x xs ih =>
    rw [List.foldl_cons]
    rcases ih (max i x) with h | h
    · rcases Nat.le_total i x with hle | hle
      · exact Or.inr (by rw [h, Nat.max_eq_right hle]; exact List.mem_cons_self)
      · exact Or.inl (by rw [h, Nat.max_eq_left hle])
    · exact Or.inr (List.mem_cons_of_mem _ h)

/-- A column that has a cell which is not the last of its row is as wide as one of these cells. -/
theorem exists_widest {rows : List (List (List Char))} {row : List (List Char)} (hrow : row ∈ rows) {k : Nat}
    (hk : k + 1 < row.length) :
    ∃ row' ∈ rows, k + 1 < row'.length ∧
      ∃ cell, row'[k]? = some cell ∧ (columnWidths rows).getD k 0 = cell.length := by
  have hfits := length_le_columnWidths hrow hk (List.getElem?_eq_getElem (by omega))
  have hcolumns := length_le_length_columnWidths hrow
  rw [getD_columnWidths (by omega)] at hfits ⊢
  by_cases hzero : columnWidth rows k = 0
  · exact ⟨row, hrow, hk, row[k], List.getElem?_eq_getElem _, by omega⟩
  · obtain ⟨row', hrow', hwidest⟩ := List.mem_map.1 ((foldl_max_mem _ 0).resolve_left hzero)
    rw [← columnWidth] at hwidest
    cases hcell : row'.dropLast[k]? with
    | none =>
      rw [hcell] at hwidest
      exact absurd hwidest.symm hzero
    | some cell =>
      rw [hcell] at hwidest
      rw [List.getElem?_dropLast] at hcell
      split at hcell
      · exact ⟨row', hrow', by omega, cell, hcell, hwidest.symm⟩
      · cases hcell

/-! ## The columns of a field block -/

theorem writeRun_fieldLines {run : List Line} (h : ∀ l ∈ run, l.block.isSome = true) :
    writeRun run = unlines ((alignLines run).map Line.shown) := by
  rw [writeRun_lineUpRun]
  cases run with
  | nil => rfl
  | cons first run =>
    rw [lineUpRun, if_pos]
    exact h first List.mem_cons_self

/-- Field lines and the same lines as they are written. Each column starts at one place in all of
    them, one space behind the widest cell before it that has a neighbour, and no line ends in
    padding. -/
structure InColumns (start : Nat → Nat) (run written : List Line) : Prop where
  first : start 0 = 0
  stands : List.Forall₂ (fun l j => j.indent = l.indent ∧ StandsAt start (cells l.text) j.text) run written
  tight : ∀ l ∈ run, ∀ k, k + 1 < (cells l.text).length →
    ∃ l' ∈ run, k + 1 < (cells l'.text).length ∧
      ∃ cell, (cells l'.text)[k]? = some cell ∧ start (k + 1) = start k + cell.length + 1
  ends : List.Forall₂ (fun l j => (∀ c, l.text.getLast? = some c → isBlank c = false) →
    ∀ c, j.text.getLast? = some c → isBlank c = false) run written

theorem inColumns_alignLines (run : List Line) :
    InColumns (columnStart (columnWidths ((run.map Line.text).map cells)) 0) run (alignLines run) := by
  have hrow : ∀ l ∈ run, cells l.text ∈ (run.map Line.text).map cells := fun l hl =>
    List.mem_map_of_mem (List.mem_map_of_mem hl)
  refine ⟨rfl, ?_, fun l hl k hk => ?_, ?_⟩
  · rw [alignLines, List.forall₂_map_right_iff, List.forall₂_same]
    exact fun l hl => ⟨rfl, standsAt_writeCells (fits_columnWidths (hrow l hl))⟩
  · obtain ⟨row', hrow', hk', cell, hcell, hwidth⟩ := exists_widest (hrow l hl) hk
    rw [List.map_map] at hrow'
    obtain ⟨l', hl', rfl⟩ := List.mem_map.1 hrow'
    refine ⟨l', hl', hk', cell, hcell, ?_⟩
    rw [columnStart_succ, Nat.zero_add, hwidth]
  · rw [alignLines, List.forall₂_map_right_iff, List.forall₂_same]
    intro l hl hend c hc
    have hspread := spread_alignRows (List.mem_map_of_mem (f := Line.text) hl)
    rw [getLast?_of_spread hspread hend] at hc
    exact hend c hc

/-- Field lines are written in columns: the `k`-th cells of all lines that have one start at the
    same place, no nearer to the cells before them than one space and, for some line, no farther. -/
theorem columns_of_writeRun (run : List Line) (h : ∀ l ∈ run, l.block.isSome = true) :
    writeRun run = unlines ((alignLines run).map Line.shown) ∧
      ∃ start, InColumns start run (alignLines run) :=
  ⟨writeRun_fieldLines h, _, inColumns_alignLines run⟩

/-- Three field lines of two, of one and of three cells. -/
def threeFields : List Line :=
  ["ID Key  // a long remark".toList, "Embedded".toList, "Name\tstring `json:\"full name\"`".toList].map
    fun text => ⟨1, text, some 0, false⟩

theorem columns_of_writeRun_threeFields :
    (∀ l ∈ threeFields, l.block.isSome = true) ∧
      writeRun threeFields = ("\tID   Key    // a long remark\n\tEmbedded\n" ++
        "\tName string `json:\"full name\"`\n").toList ∧
      ∃ start, InColumns start threeFields (alignLines threeFields) := by
  have h : ∀ l ∈ threeFields, l.block.isSome = true := by decide
  obtain ⟨hwrite, hcolumns⟩ := columns_of_writeRun threeFields h
  exact ⟨h, by rw [hwrite]; decide +kernel, hcolumns⟩

/-! ## Cutting once more -/

/-- Cells joined into a line, the `k`-th one with `gap k + 1` spaces behind it unless it is the
    last. -/
def joinCells (gap : Nat → Nat) : List (List Char) → List Char
  | [] => []
  | [cell] => cell
  | cell :: next :: more =>
    cell ++ (List.replicate (gap 0 + 1) ' ' ++ joinCells (fun k => gap (k + 1)) (next :: more))

theorem spread_joinCells (gap : Nat → Nat) (row : List (List Char)) : Spread row (joinCells gap row) := by
  induction row generalizing gap with
  | nil => exact .nil
  | cons cell more ih =>
    cases more with
    | nil => exact .last cell
    | cons next more =>
      refine .next (by simp) (fun c hc => ?_) (ih fun k => gap (k + 1))
      rw [List.eq_of_mem_replicate hc]
      decide

theorem writeRun_alignLines {run : List Line} (h : ∀ l ∈ run, l.block.isSome = true) :
    writeRun (alignLines run) = writeRun run := by
  have halign : ∀ j ∈ alignLines run, j.block.isSome = true := by
    rw [alignLines, List.forall_mem_map]
    exact h
  have hagain : alignLines (alignLines run) = alignLines run := by
    apply alignLines_eq_self
    rw [text_alignLines, alignRows_alignRows]
  rw [writeRun_fieldLines halign, writeRun_fieldLines h, hagain]

theorem drop_indented (indent : Nat) (text : List Char) : (indented indent text).drop indent = text := by
  unfold indented
  split
  · rename_i hempty
    rw [List.isEmpty_iff.1 hempty, List.drop_nil]
  · exact List.drop_left' List.length_replicate

/-- The lines of a written text, without their indent, in place of those that were written. -/
def reread (run : List Line) (out : List Char) : List Line :=
  List.zipWith (fun l line => { l with text := line.drop l.indent }) run (lines out)

theorem reread_writeRun {run : List Line} (h : ∀ l ∈ run, l.block.isSome = true ∧ Writable l) :
    reread run (writeRun run) = alignLines run := by
  have hblock : ∀ l ∈ run, l.block.isSome = true := fun l hl => (h l hl).1
  have hlines : lines (writeRun run) = (alignLines run).map Line.shown := by
    rw [writeRun_fieldLines hblock]
    apply lines_unlines_of_ends
    rw [List.forall_mem_map]
    exact forall_mem_of_forall₂ (linedUp_alignLines hblock) (fun l j hj hl => hj.shown_ends hl)
      fun l hl => (h l hl).2
  rw [reread, hlines, alignLines, List.map_map, List.zipWith_map_right, List.zipWith_self]
  apply List.map_congr_left
  intro l _
  exact congrArg (fun text => { l with text := text }) (drop_indented l.indent _)

/-- Cutting into cells is stable: cells that are joined with spaces are cut again as they were. So
    the lines of a written field block are written again as they are. -/
theorem cells_stable :
    (∀ (gap : Nat → Nat) (text : List Char), cells (joinCells gap (cells text)) = cells text) ∧
      (∀ run : List Line, (∀ l ∈ run, l.block.isSome = true) →
        writeRun (alignLines run) = writeRun run) ∧
      ∀ run : List Line, (∀ l ∈ run, l.block.isSome = true ∧ Writable l) →
        writeRun (reread run (writeRun run)) = writeRun run := by
  refine ⟨fun gap text => cells_of_spread (spread_joinCells gap _), fun run h => writeRun_alignLines h,
    fun run h => ?_⟩
  rw [reread_writeRun h]
  exact writeRun_alignLines fun l hl => (h l hl).1

theorem cells_stable_threeFields :
    (∀ l ∈ threeFields, l.block.isSome = true ∧ Writable l) ∧
      writeRun (alignLines threeFields) = writeRun threeFields ∧
      writeRun (reread threeFields (writeRun threeFields)) = writeRun threeFields := by
  have hfield : ∀ l ∈ threeFields, l.block.isSome = true := by decide
  have hwritable : ∀ l ∈ threeFields, Writable l := by
    intro l hl
    have hends : ∀ l ∈ threeFields, '\n' ∉ l.text ∧ l.text.getLast? ≠ some '\r' ∧
        l.text.head?.all (!isBlank ·) = true ∧ l.text.getLast?.all (!isBlank ·) = true ∧ l.text ≠ [] := by
      decide
    obtain ⟨hnewline, hreturn, hhead, hlast, hne⟩ := hends l hl
    obtain ⟨c, cs, htext⟩ := List.exists_cons_of_ne_nil hne
    refine ⟨hnewline, hreturn, fun _ => ⟨⟨c, cs, htext, ?_⟩, fun c hc => ?_⟩⟩
    · simpa [htext] using hhead
    · simpa [hc] using hlast
  have h : ∀ l ∈ threeFields, l.block.isSome = true ∧ Writable l :=
    fun l hl => ⟨hfield l hl, hwritable l hl⟩
  obtain ⟨-, halign, hreread⟩ := cells_stable
  exact ⟨h, halign threeFields hfield, hreread threeFields h⟩

end ServiceSchema.Go
