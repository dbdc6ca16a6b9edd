/-
  ServiceSchema.Proofs.Recutting — field lines that are lined up a second time.

  A line that was lined up is its cells with spaces between them, and it is cut into the same
  cells again, so lining it up again changes nothing.

  - `cells_of_spread`: cells with blanks between them are cut into the same cells.
  - `alignRows_alignRows`: lining up twice is lining up once.
  - `head?_of_spread`, `getLast?_of_spread`: a line without blanks around it keeps its first
    and its last character.
  - `opensFields_squeezed`: it ends in `struct {` only if its cells, with one space between
    neighbours, do.
-/
import ServiceSchema.Go.Layout
import ServiceSchema.Proofs.Ink

namespace ServiceSchema.Go

open Text

/-! ## Cutting -/

theorem cellsFrom_blank {c : Char} (hc : isBlank c = true) (cell rest : List Char) :
    cellsFrom cell none (c :: rest) = consCell cell (cells rest) := by
  have hslash : c ≠ '/' := by
    rintro rfl
    cases hc
  rw [cellsFrom.eq_def]
  simp [hslash, hc, cells]

theorem cells_gap {gap : List Char} (hgap : ∀ c ∈ gap, isBlank c = true) (rest : List Char) :
    cells (gap ++ rest) = cells rest := by
  induction gap with
  | nil => rfl
  | cons c gap ih =>
    rw [List.forall_mem_cons] at hgap
    rw [List.cons_append, cells, cellsFrom_blank hgap.1, ih hgap.2]
    rfl

theorem cellsFrom_gap {gap : List Char} (hne : gap ≠ []) (hgap : ∀ c ∈ gap, isBlank c = true)
    (cell rest : List Char) : cellsFrom cell none (gap ++ rest) = consCell cell (cells rest) := by
  cases gap with
  | nil => exact absurd rfl hne
  | cons c gap =>
    rw [List.forall_mem_cons] at hgap
    rw [List.cons_append, cellsFrom_blank hgap.1, cells_gap hgap.2]

theorem cells_comment {rest : List Char} (h : rest.head? = some '/') :
    cells ('/' :: rest) = ['/' :: rest] := by
  rw [cells, cellsFrom.eq_def]
  simp [h, consCell]

/-- Cells with blanks between them are cut into the same cells. The part of the current cell
    that was read stays in front, and no `//` comes to stand directly behind it. -/
theorem exists_recut {cell cs out : List Char} {quote : Option Quote}
    (h : Spread (cellsFrom cell quote cs) out) :
    ∃ rest, out = cell ++ rest ∧ cellsFrom cell quote rest = cellsFrom cell quote cs ∧
      (cell ≠ [] → rest.head? = some '/' → cs.head? = some '/') := by
  fun_induction cellsFrom cell quote cs generalizing out with
  | case1 cell quote =>
    refine ⟨[], by rw [h.eq_cell, List.append_nil], ?_, fun _ h => h⟩
    rw [cellsFrom.eq_def]
  | case2 cell =>
    refine ⟨['\\'], h.eq_cell, ?_, fun _ h => h⟩
    rw [cellsFrom.eq_def]
    rfl
  | case3 cell d after ih =>
    obtain ⟨rest, rfl, hcut, -⟩ := ih h
    refine ⟨'\\' :: d :: rest, by simp, ?_, fun _ h => h⟩
    rw [cellsFrom.eq_def]
    exact hcut
  | case4 cell c after hc ih =>
    obtain ⟨rest, rfl, hcut, -⟩ := ih h
    refine ⟨c :: rest, by simp, ?_, fun _ h => h⟩
    rw [cellsFrom.eq_def]
    simpa only [hc, if_false] using hcut
  | case5 cell c after ih =>
    obtain ⟨rest, rfl, hcut, -⟩ := ih h
    refine ⟨c :: rest, by simp, ?_, fun _ h => h⟩
    rw [cellsFrom.eq_def]
    exact hcut
  | case6 cell c after hc =>
    obtain ⟨rfl, hafter⟩ := hc
    rcases h.uncons with ⟨rfl, hcells⟩ | ⟨hnil, -⟩ | ⟨gap, out', hne, hgap, hcells, rfl⟩
    · cases hcells
      exact ⟨_, rfl, cells_comment hafter, fun _ h => h⟩
    · cases hnil
    · cases hcells
      refine ⟨_, rfl, ?_, fun _ _ => rfl⟩
      rw [cellsFrom_gap hne hgap, cells_comment hafter]
  | case7 cell c after _ hc ih =>
    rcases h.uncons with ⟨rfl, hcells⟩ | ⟨hnil, rfl⟩ | ⟨gap, out', hne, hgap, hcells, rfl⟩
    · obtain ⟨_, rfl, hcut, -⟩ := ih hcells
      exact ⟨out, rfl, hcut, fun hne _ => absurd rfl hne⟩
    · refine ⟨[], (List.append_nil _).symm, ?_, fun _ h => by cases h⟩
      rw [hnil, cellsFrom.eq_def]
    · obtain ⟨_, rfl, hcut, -⟩ := ih hcells
      refine ⟨gap ++ out', rfl, ?_, fun _ hhead => ?_⟩
      · rw [cellsFrom_gap hne hgap]
        exact congrArg (consCell cell) hcut
      · -- a gap does not begin with a slash
        cases gap with
        | nil => exact absurd rfl hne
        | cons d gap =>
          cases hhead
          have hblank := hgap '/' List.mem_cons_self
          cases hblank
  | case8 cell c after hc hblank ih =>
    obtain ⟨rest, rfl, hcut, hhead⟩ := ih h
    refine ⟨c :: rest, by simp, ?_, fun _ h => h⟩
    have hc' : ¬ (c = '/' ∧ rest.head? = some '/') := by
      rintro ⟨rfl, hr⟩
      exact hc ⟨rfl, hhead (by simp) hr⟩
    rw [cellsFrom.eq_def]
    simpa only [hc', hblank, if_false, Bool.false_eq_true] using hcut

theorem cells_of_spread {text out : List Char} (h : Spread (cells text) out) :
    cells out = cells text := by
  obtain ⟨rest, rfl, hcut, -⟩ := exists_recut h
  exact hcut

/-! ## Lining up -/

/-- Lining up twice is lining up once. -/
theorem alignRows_alignRows (texts : List (List Char)) :
    alignRows (alignRows texts) = alignRows texts := by
  have hcells : (alignRows texts).map cells = texts.map cells := by
    unfold alignRows
    rw [List.map_map, List.map_map]
    apply List.map_congr_left
    intro text htext
    exact cells_of_spread (spread_alignRows htext)
  rw [alignRows, hcells]
  rfl

/-! ## The ends of a line -/

theorem head?_of_spread {c : Char} {cs out : List Char} (hc : isBlank c = false)
    (h : Spread (cells (c :: cs)) out) : out.head? = some c := by
  rw [cells, cellsFrom.eq_def] at h
  simp only [hc, Bool.false_eq_true, if_false, List.nil_append] at h
  by_cases hcomment : c = '/' ∧ cs.head? = some '/'
  · rw [if_pos hcomment] at h
    cases h
    rfl
  · rw [if_neg hcomment] at h
    obtain ⟨rest, rfl, -⟩ := exists_recut h
    rfl

theorem getLast?_of_spread {cell cs out : List Char} {quote : Option Quote}
    (h : Spread (cellsFrom cell quote cs) out) (hend : ∀ d, cs.getLast? = some d → isBlank d = false) :
    out.getLast? = (cell ++ cs).getLast? := by
  have htail : ∀ (c : Char) (rest : List Char),
      (∀ d, (c :: rest).getLast? = some d → isBlank d = false) →
      ∀ d, rest.getLast? = some d → isBlank d = false := by
    intro c rest hend d hd
    apply hend d
    rw [List.getLast?_cons, hd]
    rfl
  fun_induction cellsFrom cell quote cs generalizing out with
  | case1 cell quote => rw [h.eq_cell, List.append_nil]
  | case2 cell => rw [h.eq_cell]
  | case3 cell d after ih =>
    rw [ih h (htail _ _ (htail _ _ hend)), List.append_assoc]
    rfl
  | case4 cell c after _ ih =>
    rw [ih h (htail _ _ hend), List.append_assoc]
    rfl
  | case5 cell c after ih =>
    rw [ih h (htail _ _ hend), List.append_assoc]
    rfl
  | case6 cell c after _ =>
    rcases h.uncons with ⟨rfl, hcells⟩ | ⟨hnil, -⟩ | ⟨gap, out', -, -, hcells, rfl⟩
    · cases hcells
      rfl
    · cases hnil
    · cases hcells
      simp [List.getLast?_append, List.getLast?_cons]
  | case7 cell c after _ hc ih =>
    obtain ⟨d, hd⟩ : ∃ d, after.getLast? = some d := by
      cases hlast : after.getLast? with
      | some d => exact ⟨d, rfl⟩
      | none =>
        have hblank := hend c (by rw [List.getLast?_cons, hlast]; rfl)
        rw [hc] at hblank
        cases hblank
    have hin : ∀ out', Spread (cellsFrom [] none after) out' → out'.getLast? = some d := by
      intro out' hcells
      rw [ih hcells (htail _ _ hend), List.nil_append, hd]
    have hgoal : (cell ++ c :: after).getLast? = some d := by
      rw [List.getLast?_append, List.getLast?_cons, hd]
      rfl
    rw [hgoal]
    rcases h.uncons with ⟨-, hcells⟩ | ⟨hnil, -⟩ | ⟨gap, out', -, -, hcells, rfl⟩
    · exact hin out hcells
    · have hempty := hin [] (hnil ▸ .nil)
      cases hempty
    · rw [List.getLast?_append, List.getLast?_append, hin out' hcells]
      rfl
  | case8 cell c after _ _ ih =>
    rw [ih h (htail _ _ hend), List.append_assoc]
    rfl

/-- The line with one space between its cells. -/
def squeezed (text : List Char) : List Char := [' '].intercalate (cells text)

example : squeezed "A  struct\t\x7b".toList = "A struct \x7b".toList := by decide

/-- A text with one blank in it is split at a blank in one way. -/
theorem split_at_blank {a b a' b' : List Char} {x y : Char} (ha : a.any isBlank = false)
    (hb : b.any isBlank = false) (hy : isBlank y = true) (h : a ++ x :: b = a' ++ y :: b') :
    a = a' ∧ x = y ∧ b = b' := by
  have hno : ∀ l : List Char, l.any isBlank = false → y ∉ l :=
    fun l hl hmem => List.any_eq_false.1 hl y hmem hy
  rcases List.append_eq_append_iff.1 h with ⟨m, hm, hrest⟩ | ⟨m, hm, hrest⟩
  · cases m with
    | nil =>
      obtain ⟨hx, hb'⟩ := List.cons.inj hrest
      exact ⟨by rw [hm, List.append_nil], hx, hb'⟩
    | cons d m =>
      obtain ⟨-, hb'⟩ := List.cons.inj hrest
      exact absurd (hb' ▸ List.mem_append_right m List.mem_cons_self) (hno b hb)
  · cases m with
    | nil =>
      obtain ⟨hx, hb'⟩ := List.cons.inj hrest
      exact ⟨by rw [hm, List.append_nil], hx.symm, hb'.symm⟩
    | cons d m =>
      obtain ⟨rfl, -⟩ := List.cons.inj hrest
      exact absurd (hm ▸ List.mem_append_right a' List.mem_cons_self) (hno a ha)

/-- Where no blanks are between the cells there is one cell at most. -/
theorem intercalate_of_spread {row : List (List Char)} {out : List Char} (h : Spread row out)
    (hout : out.any isBlank = false) : [' '].intercalate row = out := by
  cases h with
  | nil => rfl
  | last => simp
  | @next cell _ gap rest _ hne hgap _ =>
    obtain ⟨d, hd⟩ := List.exists_mem_of_ne_nil gap hne
    have hmem : d ∈ cell ++ (gap ++ rest) := List.mem_append_right _ (List.mem_append_left _ hd)
    exact absurd (hgap d hd) (List.any_eq_false.1 hout d hmem)

/-- A row ends in `struct {` only if it does with one space between its cells. -/
theorem suffix_intercalate_of_spread {row : List (List Char)} {out : List Char} (h : Spread row out)
    (hout : "struct".toList ++ ' ' :: ['\x7b'] <:+ out) :
    "struct".toList ++ ' ' :: ['\x7b'] <:+ [' '].intercalate row := by
  induction h with
  | nil => exact hout
  | last cell => simpa using hout
  | @next cell next gap rest more hne hgap hrest ih =>
    rw [List.intercalate_cons_cons]
    by_cases hin : "struct".toList ++ ' ' :: ['\x7b'] <:+ rest
    · exact (ih hin).trans (List.suffix_append _ _)
    -- the suffix reaches over the gap, which holds its only blank
    have hbehind : rest <:+ cell ++ (gap ++ rest) := ⟨cell ++ gap, List.append_assoc _ _ _⟩
    obtain ⟨u, hu⟩ := (List.suffix_or_suffix_of_suffix hout hbehind).resolve_left hin
    obtain ⟨front, hfront⟩ := hout
    rw [← hu, ← List.append_assoc, ← List.append_assoc, List.append_cancel_right_eq] at hfront
    obtain ⟨g, b, rfl⟩ := (List.eq_nil_or_concat' gap).resolve_left hne
    have hu0 : u ≠ [] := by
      rintro rfl
      exact hin ⟨[], hu.symm⟩
    obtain ⟨u, b', rfl⟩ := (List.eq_nil_or_concat' u).resolve_left hu0
    rw [← List.append_assoc, ← List.append_assoc] at hfront
    obtain ⟨hcell, hb⟩ := List.append_inj' hfront rfl
    cases hb
    have hblank : isBlank b = true := hgap b (List.mem_append_right g List.mem_cons_self)
    rw [List.append_assoc] at hu
    obtain ⟨rfl, rfl, rfl⟩ := split_at_blank (by decide) (by decide) hblank hu.symm
    -- so it is one space, and the last cell is a brace
    have hg : g = [] := by
      rcases List.eq_nil_or_concat' g with hg | ⟨g, d, rfl⟩
      · exact hg
      · have hlast : front ++ "struc".toList ++ ['t'] = cell ++ g ++ [d] := by
          rw [List.append_assoc, List.append_assoc]
          exact hcell
        obtain ⟨-, hd⟩ := List.append_inj' hlast rfl
        cases hd
        have ht := hgap 't' (by simp)
        cases ht
    rw [hg, List.append_nil] at hcell
    have hrow := intercalate_of_spread hrest (by decide)
    rw [hrow, ← hcell]
    exact ⟨front, by simp⟩

/-- So does a line that was lined up. -/
theorem opensFields_squeezed {text out : List Char} (h : Spread (cells text) out)
    (hout : opensFields out = true) : opensFields (squeezed text) = true := by
  have hspell : "struct \x7b".toList = "struct".toList ++ ' ' :: ['\x7b'] := by decide
  rw [opensFields, List.isSuffixOf_iff_suffix, hspell] at hout ⊢
  exact suffix_intercalate_of_spread h hout

end ServiceSchema.Go
