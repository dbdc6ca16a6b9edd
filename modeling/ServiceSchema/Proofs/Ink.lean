/-
  ServiceSchema.Proofs.Ink — what of a line is not blank, and how far apart it stands.

  The ink of a line (`Text.ink`) are its characters that are not blank, each marked if it
  begins a word. Lines that differ in blanks only (`Text.Respaced`) have the same characters
  in their inks and begin their words at the same ones; only a `//` may begin a word in one
  of them that continues one in the other.

  - `ink_blanks`, `ink_append_blanks`: blanks around a line do not show in its ink.
  - `exists_trim`: trimming takes blanks away and nothing else.
  - `agree_of_spread`: neither do those between its cells, except before a `//`.
  - `agree_alignRows`: so lining up field lines changes blanks only.
-/
import Mathlib.Data.List.Forall2
import Mathlib.Data.List.TakeWhile
import ServiceSchema.Go.Columns
import ServiceSchema.Text.Lines

namespace ServiceSchema.Text

/-- The characters that are not blank, each with whether it begins a word; `fresh` tells
    whether a character in front does. -/
def inkFrom (fresh : Bool) : List Char → List (Char × Bool)
  | [] => []
  | c :: rest => if isBlank c then inkFrom true rest else (c, fresh) :: inkFrom false rest

/-- The characters of a line that are not blank, each with whether it begins a word: it is
    the first of them, or blanks stand between it and the one before. -/
def ink (line : List Char) : List (Char × Bool) := inkFrom true line

/-- Whether a line has a character that is not blank. -/
def hasInk (line : List Char) : Bool := line.any fun c => !isBlank c

/-- The lines differ in blanks only. What is apart in `a` is apart in `b`, and what stands
    together stays together, but blanks may come directly before a `//`. -/
structure Respaced (a b : List Char) : Prop where
  chars : (ink a).map Prod.fst = (ink b).map Prod.fst
  apart : ∀ (i : Nat) (c : Char), (ink a)[i]? = some (c, true) → (ink b)[i]? = some (c, true)
  together : ∀ (i : Nat) (c : Char), (ink a)[i]? = some (c, false) →
    (ink b)[i]? = some (c, false) ∨ c = '/' ∧ (ink a)[i + 1]? = some ('/', false)

example : ink " a  b//c".toList = [('a', true), ('b', true), ('/', false), ('/', false), ('c', false)] := by
  decide

/-! ## Inks that agree -/

/-- The second ink is the first one, but a `//` in it may begin a word. -/
inductive Agree : List (Char × Bool) → List (Char × Bool) → Prop
  | nil : Agree [] []
  | same (x : Char × Bool) {xs ys : List (Char × Bool)} (h : Agree xs ys) : Agree (x :: xs) (x :: ys)
  | comment {xs ys : List (Char × Bool)} (h : Agree (('/', false) :: xs) ys) :
      Agree (('/', false) :: ('/', false) :: xs) (('/', true) :: ys)

namespace Agree

theorem refl (xs : List (Char × Bool)) : Agree xs xs := by
  induction xs with
  | nil => exact .nil
  | cons x xs ih => exact .same x ih

theorem append {xs ys xs' ys' : List (Char × Bool)} (h : Agree xs ys) (h' : Agree xs' ys') :
    Agree (xs ++ xs') (ys ++ ys') := by
  induction h with
  | nil => exact h'
  | same x _ ih => exact .same x ih
  | comment _ ih => exact .comment ih

theorem eq_nil {xs : List (Char × Bool)} (h : Agree xs []) : xs = [] := by
  cases h
  rfl

theorem map_fst {xs ys : List (Char × Bool)} (h : Agree xs ys) : xs.map Prod.fst = ys.map Prod.fst := by
  induction h with
  | nil => rfl
  | same x _ ih => exact congrArg (x.1 :: ·) ih
  | comment _ ih => exact congrArg ('/' :: ·) ih

theorem apart {xs ys : List (Char × Bool)} (h : Agree xs ys) (i : Nat) (c : Char)
    (hi : xs[i]? = some (c, true)) : ys[i]? = some (c, true) := by
  induction h generalizing i with
  | nil => cases hi
  | same x _ ih =>
    cases i with
    | zero => exact hi
    | succ i => exact ih i hi
  | comment _ ih =>
    cases i with
    | zero => cases hi
    | succ i => exact ih i hi

theorem together {xs ys : List (Char × Bool)} (h : Agree xs ys) (i : Nat) (c : Char)
    (hi : xs[i]? = some (c, false)) :
    ys[i]? = some (c, false) ∨ c = '/' ∧ xs[i + 1]? = some ('/', false) := by
  induction h generalizing i with
  | nil => cases hi
  | same x _ ih =>
    cases i with
    | zero => exact Or.inl hi
    | succ i => exact ih i hi
  | comment _ ih =>
    cases i with
    | zero =>
      cases hi
      exact Or.inr ⟨rfl, rfl⟩
    | succ i => exact ih i hi

end Agree

theorem respaced_of_agree {a b : List Char} (h : Agree (ink a) (ink b)) : Respaced a b :=
  ⟨h.map_fst, h.apart, h.together⟩

/-! ## The ink of parts -/

theorem map_fst_inkFrom (fresh : Bool) (cs : List Char) :
    (inkFrom fresh cs).map Prod.fst = cs.filter fun c => !isBlank c := by
  induction cs generalizing fresh with
  | nil => rfl
  | cons c cs ih =>
    rw [inkFrom]
    by_cases hc : isBlank c = true
    · simp [hc, ih]
    · simp [hc, ih]

/-- A line has ink exactly if its ink is not empty. -/
theorem hasInk_eq (cs : List Char) : hasInk cs = !(ink cs).isEmpty := by
  have hchars := map_fst_inkFrom true cs
  rw [hasInk, ← List.isEmpty_map, ink, hchars]
  induction cs with
  | nil => rfl
  | cons c cs ih =>
    by_cases hc : isBlank c = true
    · simpa [hc] using ih (map_fst_inkFrom true cs)
    · simp [hc]

/-- Whether the next character begins a word after `cs`. -/
def freshAfter (fresh : Bool) (cs : List Char) : Bool := cs.foldl (fun _ c => isBlank c) fresh

theorem inkFrom_append (fresh : Bool) (a b : List Char) :
    inkFrom fresh (a ++ b) = inkFrom fresh a ++ inkFrom (freshAfter fresh a) b := by
  induction a generalizing fresh with
  | nil => rfl
  | cons c a ih =>
    simp only [List.cons_append, inkFrom, freshAfter, List.foldl_cons] at ih ⊢
    by_cases hc : isBlank c = true
    · simp [hc, ih]
    · simp [hc, ih]

theorem inkFrom_blank {c : Char} (h : isBlank c = true) (fresh : Bool) (cs : List Char) :
    inkFrom fresh (c :: cs) = ink cs := by
  rw [inkFrom, h]
  rfl

theorem ink_blanks {gap : List Char} (h : ∀ c ∈ gap, isBlank c = true) (cs : List Char) :
    ink (gap ++ cs) = ink cs := by
  induction gap with
  | nil => rfl
  | cons c gap ih =>
    rw [List.forall_mem_cons] at h
    rw [List.cons_append, ink, inkFrom_blank h.1, ih h.2]

/-- A gap ends the word before it. -/
theorem inkFrom_gap {gap : List Char} (hne : gap ≠ []) (h : ∀ c ∈ gap, isBlank c = true) (fresh : Bool)
    (cs : List Char) : inkFrom fresh (gap ++ cs) = ink cs := by
  cases gap with
  | nil => exact absurd rfl hne
  | cons c gap =>
    rw [List.forall_mem_cons] at h
    rw [List.cons_append, inkFrom_blank h.1, ink_blanks h.2]

theorem inkFrom_eq_nil {gap : List Char} (h : ∀ c ∈ gap, isBlank c = true) (fresh : Bool) :
    inkFrom fresh gap = [] := by
  have hnone : gap.filter (fun c => !isBlank c) = [] := by
    rw [List.filter_eq_nil_iff]
    intro c hc
    simp [h c hc]
  have hchars := map_fst_inkFrom fresh gap
  rw [hnone] at hchars
  exact List.map_eq_nil_iff.1 hchars

theorem ink_append_blanks {gap : List Char} (h : ∀ c ∈ gap, isBlank c = true) (cs : List Char) :
    ink (cs ++ gap) = ink cs := by
  rw [ink, inkFrom_append, inkFrom_eq_nil h, List.append_nil]
  rfl

theorem exists_dropWhile {p : Char → Bool} (cs : List Char) :
    ∃ gap, cs = gap ++ cs.dropWhile p ∧ ∀ c ∈ gap, p c = true :=
  ⟨cs.takeWhile p, List.takeWhile_append_dropWhile.symm, fun _ hc => List.mem_takeWhile_imp hc⟩

/-- What is dropped at the end of a line, where it is reached from behind. -/
theorem exists_dropWhile_reverse {p : Char → Bool} (cs : List Char) :
    ∃ gap, cs = (cs.reverse.dropWhile p).reverse ++ gap ∧ ∀ c ∈ gap, p c = true := by
  obtain ⟨gap, hgap, hp⟩ := exists_dropWhile (p := p) cs.reverse
  refine ⟨gap.reverse, ?_, fun c hc => hp c (List.mem_reverse.1 hc)⟩
  rw [← List.reverse_append, ← hgap, List.reverse_reverse]

/-- Blanks are all that trimming takes away. -/
theorem exists_trim (cs : List Char) : ∃ left right, cs = left ++ (trim cs ++ right) ∧
    (∀ c ∈ left, isBlank c = true) ∧ ∀ c ∈ right, isBlank c = true := by
  obtain ⟨left, hleft, hl⟩ := exists_dropWhile (p := isBlank) cs
  obtain ⟨right, hright, hr⟩ := exists_dropWhile_reverse (p := isBlank) (cs.dropWhile isBlank)
  refine ⟨left, right, ?_, hl, hr⟩
  rw [trim, trimRight, trimLeft, ← hright, ← hleft]

end ServiceSchema.Text

namespace ServiceSchema.Go

open Text

/-! ## Cells -/

/-- A row of cells with blanks between neighbours. -/
inductive Spread : List (List Char) → List Char → Prop
  | nil : Spread [] []
  | last (cell : List Char) : Spread [cell] cell
  | next {cell next gap rest : List Char} {more : List (List Char)} (hne : gap ≠ [])
      (hgap : ∀ c ∈ gap, isBlank c = true) (h : Spread (next :: more) rest) :
      Spread (cell :: next :: more) (cell ++ (gap ++ rest))

theorem Spread.eq_nil {out : List Char} (h : Spread [] out) : out = [] := by
  cases h
  rfl

theorem Spread.eq_cell {cell out : List Char} (h : Spread (consCell cell []) out) : out = cell := by
  unfold consCell at h
  by_cases hc : cell.isEmpty = true
  · rw [if_pos hc] at h
    rw [h.eq_nil, List.isEmpty_iff.1 hc]
  · rw [if_neg hc] at h
    cases h
    rfl

/-- A cell is followed by a gap and the other cells, unless it is empty or the last one. -/
theorem Spread.uncons {cell out : List Char} {cells : List (List Char)}
    (h : Spread (consCell cell cells) out) :
    (cell = [] ∧ Spread cells out) ∨ (cells = [] ∧ out = cell) ∨
      ∃ gap rest, gap ≠ [] ∧ (∀ c ∈ gap, isBlank c = true) ∧ Spread cells rest ∧
        out = cell ++ (gap ++ rest) := by
  unfold consCell at h
  by_cases hc : cell.isEmpty = true
  · rw [if_pos hc] at h
    exact Or.inl ⟨List.isEmpty_iff.1 hc, h⟩
  · rw [if_neg hc] at h
    cases h with
    | last => exact Or.inr (Or.inl ⟨rfl, rfl⟩)
    | next hne hgap h => exact Or.inr (Or.inr ⟨_, _, hne, hgap, h, rfl⟩)

/-- Only before a comment blanks may come where there were none. -/
theorem agree_comment (cell after : List Char) (h : after.head? = some '/') {gap : List Char}
    (hne : gap ≠ []) (hgap : ∀ c ∈ gap, isBlank c = true) :
    Agree (ink (cell ++ '/' :: after)) (ink (cell ++ (gap ++ '/' :: after))) := by
  have hslash : isBlank '/' = false := by decide
  obtain ⟨rest, rfl⟩ : ∃ rest, after = '/' :: rest := by
    cases after with
    | nil => cases h
    | cons c rest =>
      cases h
      exact ⟨rest, rfl⟩
  have hink : ∀ fresh, inkFrom fresh ('/' :: '/' :: rest) =
      ('/', fresh) :: ('/', false) :: inkFrom false rest := by
    intro fresh
    simp [inkFrom, hslash]
  rw [ink, ink, inkFrom_append, inkFrom_append, inkFrom_gap hne hgap]
  refine (Agree.refl _).append ?_
  rw [ink, hink, hink]
  cases freshAfter true cell with
  | true => exact .refl _
  | false => exact .comment (.refl _)

/-- Cutting a text into cells and putting blanks between them keeps its ink. The part of
    the current cell that was read is in front of the text. -/
theorem agree_of_spread {cell cs out : List Char} {quote : Option Quote}
    (h : Spread (cellsFrom cell quote cs) out) : Agree (ink (cell ++ cs)) (ink out) := by
  fun_induction cellsFrom cell quote cs generalizing out with
  | case1 cell quote =>
    rw [h.eq_cell, List.append_nil]
    exact .refl _
  | case2 cell =>
    rw [h.eq_cell]
    exact .refl _
  | case3 cell d after ih =>
    have hink := ih h
    rwa [List.append_assoc] at hink
  | case4 cell c rest _ ih =>
    have hink := ih h
    rwa [List.append_assoc] at hink
  | case5 cell c rest ih =>
    have hink := ih h
    rwa [List.append_assoc] at hink
  | case6 cell c rest hc =>
    obtain ⟨rfl, hrest⟩ := hc
    rcases h.uncons with ⟨rfl, hcells⟩ | ⟨hnil, -⟩ | ⟨gap, out', hne, hgap, hcells, rfl⟩
    · cases hcells
      exact .refl _
    · cases hnil
    · cases hcells
      exact agree_comment cell rest hrest hne hgap
  | case7 cell c rest _ hc ih =>
    have hsplit : ink (cell ++ c :: rest) = ink cell ++ ink rest := by
      rw [ink, inkFrom_append, inkFrom_blank hc]
      rfl
    rw [hsplit]
    rcases h.uncons with ⟨rfl, hcells⟩ | ⟨hnil, rfl⟩ | ⟨gap, out', hne, hgap, hcells, rfl⟩
    · exact ih hcells
    · have hrest : ink rest = [] := (ih (hnil ▸ Spread.nil)).eq_nil
      rw [hrest, List.append_nil]
      exact .refl _
    · have hout : ink (cell ++ (gap ++ out')) = ink cell ++ ink out' := by
        rw [ink, inkFrom_append, inkFrom_gap hne hgap]
        rfl
      rw [hout]
      exact (Agree.refl _).append (ih hcells)
  | case8 cell c rest _ _ ih =>
    have hink := ih h
    rwa [List.append_assoc] at hink

/-! ## Columns -/

theorem le_foldl_max {xs : List Nat} {x i : Nat} (h : x ≤ i ∨ x ∈ xs) : x ≤ xs.foldl max i := by
  induction xs generalizing i with
  | nil =>
    rcases h with h | h
    · exact h
    · cases h
  | cons y xs ih =>
    apply ih
    rcases h with h | h
    · exact Or.inl (by omega)
    · rcases List.mem_cons.1 h with rfl | h
      · exact Or.inl (by omega)
      · exact Or.inr h

/-- Every cell of a row has a column. -/
theorem length_le_length_columnWidths {rows : List (List (List Char))} {row : List (List Char)}
    (hrow : row ∈ rows) : row.length ≤ (columnWidths rows).length := by
  rw [columnWidths, List.length_map, List.length_range]
  exact le_foldl_max (Or.inr (List.mem_map_of_mem hrow))

theorem getD_columnWidths {rows : List (List (List Char))} {i : Nat} (hi : i < (columnWidths rows).length) :
    (columnWidths rows).getD i 0 = columnWidth rows i := by
  rw [columnWidths, List.length_map, List.length_range] at hi
  rw [columnWidths, List.getD_eq_getElem?_getD, List.getElem?_map, List.getElem?_range hi]
  rfl

/-- A column is as wide as each of its cells that is not the last of its row. -/
theorem length_le_columnWidths {rows : List (List (List Char))} {row : List (List Char)}
    (hrow : row ∈ rows) {i : Nat} {cell : List Char} (hi : i + 1 < row.length)
    (hcell : row[i]? = some cell) : cell.length ≤ (columnWidths rows).getD i 0 := by
  have hcolumns := length_le_length_columnWidths hrow
  have hlast : row.dropLast[i]? = some cell := by
    rw [List.getElem?_dropLast, if_pos (by omega), hcell]
  rw [getD_columnWidths (by omega), columnWidth]
  apply le_foldl_max
  refine Or.inr (List.mem_map.2 ⟨row, hrow, ?_⟩)
  rw [hlast]
  rfl

/-- A row whose cells fit their columns is written with blanks between its cells. -/
theorem spread_writeCells {widths : List Nat} {i : Nat} {row : List (List Char)}
    (h : ∀ (j : Nat) (cell : List Char), j + 1 < row.length → row[j]? = some cell →
      cell.length ≤ widths.getD (i + j) 0) :
    Spread row (writeCells widths i row) := by
  induction row generalizing i with
  | nil => exact .nil
  | cons cell more ih =>
    cases more with
    | nil => exact .last cell
    | cons next more =>
      have hfits : cell.length ≤ widths.getD i 0 := h 0 cell (by simp) rfl
      have hrest : Spread (next :: more) (writeCells widths (i + 1) (next :: more)) := by
        apply ih
        intro j cell' hj hcell
        have hj' := h (j + 1) cell' (by simpa using hj) hcell
        rwa [Nat.add_assoc, Nat.add_comm 1 j]
      rw [writeCells, List.append_assoc]
      refine .next ?_ ?_ hrest
      · rw [ne_eq, List.replicate_eq_nil_iff]
        omega
      · intro c hc
        rw [List.eq_of_mem_replicate hc]
        decide

theorem spread_alignRows {texts : List (List Char)} {text : List Char} (h : text ∈ texts) :
    Spread (cells text) (writeCells (columnWidths (texts.map cells)) 0 (cells text)) := by
  apply spread_writeCells
  intro j cell hj hcell
  rw [Nat.zero_add]
  exact length_le_columnWidths (List.mem_map_of_mem h) hj hcell

/-- Lining up changes blanks only. -/
theorem agree_alignRows (texts : List (List Char)) :
    List.Forall₂ (fun text shown => Agree (ink text) (ink shown)) texts (alignRows texts) := by
  unfold alignRows
  rw [List.map_map, List.forall₂_map_right_iff, List.forall₂_same]
  intro text htext
  exact agree_of_spread (spread_alignRows htext)

end ServiceSchema.Go
