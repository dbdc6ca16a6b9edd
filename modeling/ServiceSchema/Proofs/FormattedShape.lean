/-
  ServiceSchema.Proofs.FormattedShape — how a canonical text looks.

  A canonical text is empty or ends in one line feed. It has no blank lines at its two ends and
  no two in a row, none below a line that leaves a bracket open that it opened, and none above a
  line that begins by closing one. Its lines are indented by tabs and have no blanks at their
  ends. Of a line that starts inside a raw string the last two do not hold, nor does it count as
  beginning by closing a bracket.

  Which brackets a line leaves open, and whether it starts inside a raw string, is read where the
  line comes from (`ComesFrom`): in the source.

  - `exists_standing`: behind each written line there is a laid-out one that was kept.
  - `wellSpaced_of_layout`: so what holds of the kept lines, one below the other, holds of the
    written ones.
  - `shape_of_format`: the shape of a canonical text.
  - `wellSpaced_self`: a text that is its own canonical form is spaced well by what its own lines
    leave open.
-/
import ServiceSchema.Proofs.Origins
import ServiceSchema.Proofs.SpacedLines

namespace ServiceSchema.Go

open Text

/-- Lines with room between them only where it may be, tabs before them and nothing behind them;
    `origin` tells which line of the source each comes from. -/
structure WellSpaced (raws outs : List (List Char)) (origin : List Nat) : Prop where
  /-- No blank line stands below a line that leaves a bracket open that it opened. -/
  opener : ∀ k i, origin[k]? = some i → LeavesOpen (raws.take (i + 1)) → outs[k + 1]? ≠ some []
  /-- None stands above a line that begins by closing a bracket. -/
  closer : ∀ (k i : Nat) (line : List Char), origin[k + 1]? = some i → ¬ InRaw (raws.take i) →
    outs[k + 1]? = some line → startsWithCloser (line.dropWhile (· = '\t')) = true → outs[k]? ≠ some []
  trailing : ∀ (k i : Nat) (line : List Char), origin[k]? = some i → ¬ InRaw (raws.take i) →
    outs[k]? = some line → ∀ c, line.getLast? = some c → isBlank c = false
  leading : ∀ (k i : Nat) (line : List Char), origin[k]? = some i → ¬ InRaw (raws.take i) →
    outs[k]? = some line → ∀ c ∈ line.takeWhile isBlank, c = '\t'

section

variable {source : List Char} {ls : List Line} (h : layout source = .ok ls)
include h

theorem exists_standing {origin : List Nat} (hpicked : Picked ls (dropRedundantBlanks ls) origin)
    {k : Nat} {out : List Char} (hout : (lines (write ls))[k]? = some out) :
    ∃ i l, origin[k]? = some i ∧ (dropRedundantBlanks ls)[k]? = some l ∧ Standing (lines source) i l out := by
  rw [lines_write h, List.getElem?_map, Option.map_eq_some_iff] at hout
  obtain ⟨j, hj, rfl⟩ := hout
  obtain ⟨l, hl, hlined⟩ := exists_of_forall₂_right (linedUp_lineUp _) hj
  obtain ⟨i, hi, hli⟩ := exists_of_forall₂_right hpicked.lines hl
  exact ⟨i, l, hi, hl, standing_of_layout h hli hlined⟩

theorem exists_follows {origin : List Nat} (hpicked : Picked ls (dropRedundantBlanks ls) origin) {k : Nat}
    {above below : List Char} (habove : (lines (write ls))[k]? = some above)
    (hbelow : (lines (write ls))[k + 1]? = some below) :
    ∃ i i' l m, origin[k]? = some i ∧ origin[k + 1]? = some i' ∧ Standing (lines source) i l above ∧
      Standing (lines source) i' m below ∧ Follows l m := by
  obtain ⟨i, l, hi, hl, hstanding⟩ := exists_standing h hpicked habove
  obtain ⟨i', m, hi', hm, hstanding'⟩ := exists_standing h hpicked hbelow
  have hchain := (spaced_dropRedundantBlanks ls).chain
  obtain ⟨hk, rfl⟩ := List.getElem?_eq_some_iff.1 hm
  obtain ⟨_, rfl⟩ := List.getElem?_eq_some_iff.1 hl
  exact ⟨i, i', _, _, hi, hi', hstanding, hstanding', hchain.getElem k hk⟩

theorem wellSpaced_of_layout {origin : List Nat} (hpicked : Picked ls (dropRedundantBlanks ls) origin) :
    WellSpaced (lines source) (lines (write ls)) origin := by
  refine ⟨fun k i hi hopen hempty => ?_, fun k i line hi hraw hline hcloser hempty => ?_,
    fun k i line hi hraw hline => ?_, fun k i line hi hraw hline => ?_⟩
  · have hk : k < (lines (write ls)).length := Nat.lt_of_succ_lt (List.getElem?_eq_some_iff.1 hempty).1
    obtain ⟨i', _, l, m, hi', -, habove, hbelow, hfollows⟩ :=
      exists_follows h hpicked (List.getElem?_eq_getElem hk) hempty
    cases Option.some.inj (hi.symm.trans hi')
    have hclosed := (hfollows.blank (hbelow.blank.2 rfl)).2
    rw [habove.opens.2 hopen] at hclosed
    cases hclosed
  · obtain ⟨_, i', l, m, -, hi', habove, hbelow, hfollows⟩ := exists_follows h hpicked hempty hline
    cases Option.some.inj (hi.symm.trans hi')
    have hblank := hfollows.closer (hbelow.closer hraw ▸ hcloser)
    rw [habove.blank.2 rfl] at hblank
    cases hblank
  · obtain ⟨i', l, hi', -, hstanding⟩ := exists_standing h hpicked hline
    cases Option.some.inj (hi.symm.trans hi')
    exact hstanding.trailing hraw
  · obtain ⟨i', l, hi', -, hstanding⟩ := exists_standing h hpicked hline
    cases Option.some.inj (hi.symm.trans hi')
    exact hstanding.leading hraw

/-- The blank lines that are written stand alone, and not at the ends. -/
theorem ends_of_write : (lines (write ls)).head? ≠ some [] ∧ (lines (write ls)).getLast? ≠ some [] ∧
    (lines (write ls)).IsChain fun above below => above = [] → below ≠ [] := by
  obtain ⟨origin, hpicked⟩ := (kept_dropRedundantBlanks ls).exists_picked
  have hspaced := spaced_dropRedundantBlanks ls
  refine ⟨fun hempty => ?_, fun hempty => ?_, ?_⟩
  · rw [List.head?_eq_getElem?] at hempty
    obtain ⟨_, l, -, hl, hstanding⟩ := exists_standing h hpicked hempty
    have hblank := hspaced.first l (List.head?_eq_getElem? ▸ hl)
    rw [hstanding.blank.2 rfl] at hblank
    cases hblank
  · have hlength : (lines (write ls)).length = (dropRedundantBlanks ls).length := by
      rw [lines_write h, List.length_map, ← (linedUp_lineUp (dropRedundantBlanks ls)).length_eq]
    rw [List.getLast?_eq_getElem?, hlength] at hempty
    obtain ⟨_, l, -, hl, hstanding⟩ := exists_standing h hpicked hempty
    have hblank := hspaced.last l (List.getLast?_eq_getElem? ▸ hl)
    rw [hstanding.blank.2 rfl] at hblank
    cases hblank
  · rw [List.isChain_iff_getElem]
    intro k hk habove hbelow
    obtain ⟨_, _, l, m, -, -, hstanding, hstanding', hfollows⟩ :=
      exists_follows h hpicked (habove ▸ List.getElem?_eq_getElem (Nat.lt_of_succ_lt hk))
        (hbelow ▸ List.getElem?_eq_getElem hk)
    have hblank := (hfollows.blank (hstanding'.blank.2 rfl)).1
    rw [hstanding.blank.2 rfl] at hblank
    cases hblank

end

/-- A text that is made of lines, the last of which is not empty, ends in one line feed. -/
theorem unlines_ended {ls : List (List Char)} (hlines : ∀ l ∈ ls, '\n' ∉ l) (hlast : ls.getLast? ≠ some []) :
    unlines ls = [] ∨ ∃ front, unlines ls = front ++ ['\n'] ∧ front.getLast? ≠ some '\n' := by
  rcases List.eq_nil_or_concat' ls with rfl | ⟨ls, l, rfl⟩
  · exact Or.inl rfl
  · have hl : l ≠ [] := by
      rintro rfl
      exact hlast List.getLast?_concat
    refine Or.inr ⟨unlines ls ++ l, ?_, fun hfront => ?_⟩
    · rw [unlines, List.flatMap_append, List.flatMap_singleton, ← unlines, List.append_assoc]
    · rw [List.getLast?_append_of_ne_nil _ hl] at hfront
      exact hlines l (List.mem_append_right _ (List.mem_singleton_self l)) (List.mem_of_getLast? hfront)

structure CanonicalShape (source out : List Char) : Prop where
  ended : out = [] ∨ ∃ front, out = front ++ ['\n'] ∧ front.getLast? ≠ some '\n'
  first : (lines out).head? ≠ some []
  last : (lines out).getLast? ≠ some []
  single : (lines out).IsChain fun above below => above = [] → below ≠ []
  spaced : ∃ origin, ComesFrom (lines source) (lines out) origin ∧
    WellSpaced (lines source) (lines out) origin

/-- A canonical text is empty or ends in one line feed, has no empty line at its ends, none next to
    another or below a line that leaves a bracket open that it opened and, where it does not go on
    with a raw string, none above a line that begins by closing a bracket, no blanks at the end of
    a line, and only tabs at the beginning of one. -/
theorem shape_of_format {check : Check} {source out : String} (h : format check source = .ok out) :
    CanonicalShape source.toList out.toList := by
  obtain ⟨ls, hlayout, hwrite⟩ := exists_layout_of_format h
  obtain ⟨origin, hpicked⟩ := (kept_dropRedundantBlanks ls).exists_picked
  obtain ⟨next, hlines⟩ := layout_eq_ok.1 hlayout
  obtain ⟨hfirst, hlast, hsingle⟩ := ends_of_write hlayout
  have hunlines : write ls = unlines (lines (write ls)) := by
    rw [lines_write hlayout]
    exact write_eq ls
  rw [hwrite]
  refine ⟨?_, hfirst, hlast, hsingle, origin, ?_, wellSpaced_of_layout hlayout hpicked⟩
  · have hended := unlines_ended (newline_not_mem_lines (write ls)) hlast
    rwa [← hunlines] at hended
  · rw [lines_write hlayout]
    exact hpicked.comesFrom (laid_layoutLines hlines) (linedUp_lineUp _)

/-- The field block of a struct is indented, the blank lines at its ends are gone. -/
theorem shape_of_format_struct :
    CanonicalShape "type T struct \x7b\n\nA  int \n\n\nB string\n\n\x7d\n\n".toList
      "type T struct \x7b\n\tA int\n\n\tB string\n\x7d\n".toList := by
  have h : (format .always "type T struct \x7b\n\nA  int \n\n\nB string\n\n\x7d\n\n").toOption =
      some "type T struct \x7b\n\tA int\n\n\tB string\n\x7d\n" := by
    decide +kernel
  exact shape_of_format (Fallible.toOption_eq_some.1 h)

/-! ## A canonical text read by itself -/

theorem Picked.refl (ls : List Line) : Picked ls ls (List.range ls.length) := by
  refine ⟨List.pairwise_lt_range, ?_, fun i l hl _ => ?_⟩
  · rw [List.forall₂_iff_get]
    refine ⟨List.length_range, fun k _ hk => ?_⟩
    simp
  · exact List.mem_range.2 (List.getElem?_eq_some_iff.1 hl).1

/-- In a text that is its own canonical form the lines are spaced well by what they themselves leave
    open. -/
theorem wellSpaced_self {check : Check} {out : String} (h : format check out = .ok out) :
    WellSpaced (lines out.toList) (lines out.toList) (List.range (lines out.toList).length) := by
  obtain ⟨ls, hlayout, hwrite⟩ := exists_layout_of_format h
  obtain ⟨next, hlines⟩ := layout_eq_ok.1 hlayout
  have hlength : (lines out.toList).length = ls.length := (length_layoutLines hlines).symm
  have hkept : dropRedundantBlanks ls = ls := by
    refine (kept_dropRedundantBlanks ls).sublist.eq_of_length ?_
    rw [← hlength, hwrite, lines_write hlayout, List.length_map, ← (linedUp_lineUp _).length_eq]
  have hpicked : Picked ls (dropRedundantBlanks ls) (List.range ls.length) := by
    rw [hkept]
    exact .refl ls
  have hspaced := wellSpaced_of_layout hlayout hpicked
  rwa [← hwrite, ← hlength] at hspaced

end ServiceSchema.Go
