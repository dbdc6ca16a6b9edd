/-
  ServiceSchema.Proofs.Idempotence — formatting a formatted text.

  A text is formatted into its lines without redundant blank ones, the field lines lined up
  (`lineUp`). Laid out again they stand where they stood. None of them is redundant now, and
  the field blocks that are still recognised are lined up already (`lineUp_relaid`), so writing
  them gives the same text.

  - `layout_write`: a written text is laid out and written as itself, if the cells of its field
    lines can be moved (`Movable`).
  - `format_format`: so formatting a formatted text changes nothing.
  - `not_format_idempotent`: field lines whose cells cannot be moved are read in another way when
    they were lined up, and the second run changes the text.
-/
import ServiceSchema.Proofs.Relayout

namespace ServiceSchema.Go

open Text

/-! ## Lining up -/

/-- The lines of a field block, lined up. -/
def alignLines (group : List Line) : List Line :=
  let widths := columnWidths ((group.map Line.text).map cells)
  group.map fun l => { l with text := writeCells widths 0 (cells l.text) }

theorem text_alignLines (group : List Line) :
    (alignLines group).map Line.text = alignRows (group.map Line.text) := by
  simp only [alignLines, alignRows, List.map_map]
  rfl

theorem alignLines_eq_self {group : List Line}
    (h : alignRows (group.map Line.text) = group.map Line.text) : alignLines group = group := by
  rw [← text_alignLines, alignLines, List.map_map, List.map_inj_left] at h
  unfold alignLines
  rw [List.map_congr_left, List.map_id']
  intro l hl
  show { l with text := _ } = { l with text := l.text }
  exact congrArg (fun text => { l with text := text }) (h l hl)

/-- A run, its lines lined up if they are of a field block. -/
def lineUpRun (run : List Line) : List Line :=
  if (run.head?.bind Line.block).isSome then alignLines run else run

/-- Lines as they are written, before indentation. -/
def lineUp (ls : List Line) : List Line := (runs ls).flatMap lineUpRun

theorem writeRun_lineUpRun (run : List Line) :
    writeRun run = unlines ((lineUpRun run).map Line.shown) := by
  have hzip : ∀ f : Line → List Char, ((run.zip (run.map f)).map fun l => indented l.1.indent l.2) =
      run.map fun l => indented l.indent (f l) := by
    intro f
    rw [List.zip_eq_zipWith, List.map_zipWith, List.zipWith_map_right, List.zipWith_self]
  rw [writeRun_eq, runTexts, lineUpRun]
  split
  · simp only [alignRows, List.map_map, hzip]
    simp only [alignLines, List.map_map]
    rfl
  · rw [hzip]
    rfl

theorem writeLines_eq (ls : List Line) : writeLines ls = unlines ((lineUp ls).map Line.shown) := by
  rw [writeLines, lineUp, List.map_flatMap, unlines, List.flatMap_assoc]
  exact congrArg (fun f => (runs ls).flatMap f) (funext writeRun_lineUpRun)

/-- Lines by their runs: one line outside all field blocks, or a group of lines of one field
    block before a line that is not of it. -/
inductive ByRuns : List Line → Prop
  | nil : ByRuns []
  | alone {l : Line} {ls : List Line} (hl : l.block = none) (h : ByRuns ls) : ByRuns (l :: ls)
  | group {n : Nat} {l : Line} {ls rest : List Line} (hgroup : ∀ l' ∈ l :: ls, l'.block = some n)
      (hrest : ∀ next, rest.head? = some next → next.block ≠ some n) (h : ByRuns rest) :
      ByRuns (l :: ls ++ rest)

theorem byRuns (ls : List Line) : ByRuns ls := by
  induction hlen : ls.length using Nat.strong_induction_on generalizing ls with
  | _ k ih =>
    subst hlen
    cases ls with
    | nil => exact .nil
    | cons l ls =>
      cases hl : l.block with
      | none => exact .alone hl (ih ls.length (by simp) ls rfl)
      | some n =>
        let p : Line → Bool := fun l' => l'.block == some n
        have hsplit : l :: ls = l :: ls.takeWhile p ++ ls.dropWhile p := by
          rw [List.cons_append, List.takeWhile_append_dropWhile]
        rw [hsplit]
        refine .group (n := n) ?_ ?_ (ih _ ?_ _ rfl)
        · rw [List.forall_mem_cons]
          refine ⟨hl, fun l' hl' => ?_⟩
          simpa [p] using List.mem_takeWhile_imp hl'
        · intro next hnext
          have hnot := List.head?_dropWhile_not p ls
          rw [hnext] at hnot
          simpa [p] using hnot
        · exact Nat.lt_succ_of_le (List.dropWhile_suffix p).length_le

theorem lineUp_cons_none {l : Line} (h : l.block = none) (ls : List Line) :
    lineUp (l :: ls) = l :: lineUp ls := by
  rw [lineUp, runs_cons_none h, List.flatMap_cons]
  simp [lineUpRun, h, lineUp]

theorem lineUp_append_none {ls : List Line} (h : ∀ l ∈ ls, l.block = none) (rest : List Line) :
    lineUp (ls ++ rest) = ls ++ lineUp rest := by
  induction ls with
  | nil => rfl
  | cons l ls ih =>
    rw [List.forall_mem_cons] at h
    rw [List.cons_append, lineUp_cons_none h.1, ih h.2, List.cons_append]

theorem lineUp_group {n : Nat} {l : Line} {ls rest : List Line}
    (hgroup : ∀ l' ∈ l :: ls, l'.block = some n)
    (hrest : ∀ next, rest.head? = some next → next.block ≠ some n) :
    lineUp (l :: ls ++ rest) = alignLines (l :: ls) ++ lineUp rest := by
  rw [lineUp, runs_group hgroup hrest, List.flatMap_cons, lineUp]
  simp [lineUpRun, hgroup l List.mem_cons_self]

theorem linedUp_alignLines {group : List Line} (h : ∀ l ∈ group, l.block.isSome = true) :
    List.Forall₂ LinedUp group (alignLines group) := by
  rw [alignLines, List.forall₂_map_right_iff, List.forall₂_same]
  intro l hl
  refine ⟨rfl, rfl, rfl, Or.inr ⟨h l hl, spread_alignRows (List.mem_map_of_mem hl)⟩, fun c hc => ?_⟩
  rcases mem_writeCells hc with hspace | ⟨cell, hcell, hc⟩
  · exact Or.inr hspace
  · exact Or.inl (mem_of_mem_cellsFrom cell hcell c hc)

theorem linedUp_lineUp (ls : List Line) : List.Forall₂ LinedUp ls (lineUp ls) := by
  induction byRuns ls with
  | nil => exact .nil
  | alone hl _ ih =>
    rw [lineUp_cons_none hl]
    exact .cons (.refl _) ih
  | group hgroup hrest _ ih =>
    rw [lineUp_group hgroup hrest]
    refine List.rel_append (linedUp_alignLines fun l hl => ?_) ih
    rw [hgroup l hl]
    rfl

theorem exists_of_forall₂_append {α β : Type} {R : α → β → Prop} {xs ys : List α} {zs : List β}
    (h : List.Forall₂ R (xs ++ ys) zs) :
    ∃ zs₁ zs₂, zs = zs₁ ++ zs₂ ∧ List.Forall₂ R xs zs₁ ∧ List.Forall₂ R ys zs₂ := by
  induction xs generalizing zs with
  | nil => exact ⟨[], zs, rfl, .nil, h⟩
  | cons x xs ih =>
    cases h with
    | cons hxz h =>
      obtain ⟨zs₁, zs₂, rfl, h₁, h₂⟩ := ih h
      exact ⟨_ :: zs₁, zs₂, rfl, .cons hxz h₁, h₂⟩

theorem map_eq_of_forall₂ {α β γ : Type} {R : α → β → Prop} {f : α → γ} {g : β → γ} {xs : List α}
    {ys : List β} (h : List.Forall₂ R xs ys) (hfg : ∀ x y, R x y → g y = f x) :
    ys.map g = xs.map f := by
  induction h with
  | nil => rfl
  | cons hxy _ ih => rw [List.map_cons, List.map_cons, hfg _ _ hxy, ih]

/-- What is lined up stays lined up when it is laid out again. -/
theorem alignLines_relaid {names : List (Nat × Option Nat)} {group ms : List Line}
    (h : List.Forall₂ (Relaid names) (alignLines group) ms) : alignLines ms = ms := by
  have htexts : ms.map Line.text = (alignLines group).map Line.text :=
    map_eq_of_forall₂ h fun _ _ hm => hm.text
  apply alignLines_eq_self
  rw [htexts, text_alignLines, alignRows_alignRows]

section

variable {names : List (Nat × Option Nat)} {old new : Nat} (hnum : Numbering names old new)
include hnum

/-- The lines of a block are in one block again, or in none. -/
theorem block_relaid {js ms : List Line} (h : List.Forall₂ (Relaid names) js ms) {n : Nat}
    {x : Option Nat} (hx : (n, x) ∈ names) (hjs : ∀ j ∈ js, j.block = some n) :
    ∀ m ∈ ms, m.block = x := by
  refine forall_mem_of_forall₂ h (P := fun j => j.block = some n) ?_ hjs
  intro j m hm hj
  have hrenamed := hm.block
  rw [hj] at hrenamed
  exact hnum.single hrenamed.mem hx

/-- A line of another block is not in it. -/
theorem block_relaid_ne {j m : Line} (hm : Relaid names j m) {n x : Nat} (hx : (n, some x) ∈ names)
    (hj : j.block ≠ some n) : m.block ≠ some x := by
  intro hblock
  have hrenamed := hm.block
  rw [hblock] at hrenamed
  cases hold : j.block with
  | none =>
    rw [hold] at hrenamed
    cases hrenamed.eq_none
  | some n' =>
    rw [hold] at hrenamed
    rw [hnum.apart hrenamed.mem hx] at hold
    exact hj hold

/-- Lines that were lined up and are laid out again are lined up. -/
theorem lineUp_relaid {ls ms : List Line} (h : List.Forall₂ (Relaid names) (lineUp ls) ms) :
    lineUp ms = ms := by
  induction byRuns ls generalizing ms with
  | nil =>
    cases h
    rfl
  | alone hl _ ih =>
    rw [lineUp_cons_none hl] at h
    cases h with
    | cons hm hms =>
      have hblock := hm.block
      rw [hl] at hblock
      rw [lineUp_cons_none hblock.eq_none, ih hms]
  | @group n l ls rest hgroup hrest _ ih =>
    rw [lineUp_group hgroup hrest] at h
    obtain ⟨ms₁, ms₂, rfl, h₁, h₂⟩ := exists_of_forall₂_append h
    have hjs : ∀ j ∈ alignLines (l :: ls), j.block = some n := by
      intro j hj
      obtain ⟨l', hl', rfl⟩ := List.mem_map.1 hj
      exact hgroup l' hl'
    have haligned := alignLines_relaid h₁
    cases h₁ with
    | @cons _ m _ ms₁ hm h₁ =>
      have hold := hm.block
      rw [hjs _ List.mem_cons_self] at hold
      have hblocks := block_relaid hnum (.cons hm h₁) hold.mem hjs
      cases hnew : m.block with
      | none =>
        rw [hnew] at hblocks
        rw [lineUp_append_none hblocks, ih h₂]
      | some x =>
        rw [hnew] at hold hblocks
        have hnext : ∀ next, ms₂.head? = some next → next.block ≠ some x := by
          intro next hnext
          obtain ⟨ms₂, rfl⟩ := List.head?_eq_some_iff.1 hnext
          have hlined := linedUp_lineUp rest
          generalize lineUp rest = js at h₂ hlined
          cases h₂ with
          | cons hm₂ _ =>
            cases hlined with
            | @cons k _ _ _ hk _ =>
              refine block_relaid_ne hnum hm₂ hold.mem ?_
              rw [hk.block]
              exact hrest k rfl
        rw [lineUp_group hblocks hnext, haligned, ih h₂]

end

/-! ## The written text -/

/-- A laid-out line that can be written and read again. -/
structure Writable (l : Line) : Prop where
  newline : '\n' ∉ l.text
  last : l.text.getLast? ≠ some '\r'
  field : l.block.isSome = true → Trimmed l.text

theorem writable_of_layoutLine {b b' : Between} {n : Nat} {raw : List Char} {l : Line}
    (h : layoutLine b n raw = .ok (l, b')) (hraw : '\n' ∉ raw) : Writable l := by
  have htext := text_of_layoutLine h
  refine ⟨fun hmem => ?_, fun hlast => ?_, fun hblock => (trimmed_of_block h hblock).2⟩
  · rw [htext] at hmem
    exact hraw ((laid_keptText b.literal raw).2 _ hmem)
  · rw [htext] at hlast
    by_cases hliteral : b.literal = .raw
    · rw [keptText, if_pos hliteral, List.getLast?_reverse] at hlast
      have hdrop := List.head?_dropWhile_not (fun c => decide (c = '\r')) raw.reverse
      rw [hlast] at hdrop
      simp at hdrop
    · rw [keptText, if_neg hliteral] at hlast
      have hblank := getLast?_trim hlast
      cases hblank

theorem writable_of_layout {source : List Char} {ls : List Line} (h : layout source = .ok ls) :
    ∀ l ∈ ls, Writable l := by
  obtain ⟨n, hlines⟩ := layout_eq_ok.1 h
  have hall : List.Forall₂ (fun raw l => '\n' ∉ raw → Writable l) (lines source) ls :=
    forall₂_layoutLines (fun hline hraw => writable_of_layoutLine hline hraw) hlines
  exact forall_mem_of_forall₂ hall (fun _ _ hl hraw => hl hraw) (newline_not_mem_lines source)

/-- A written line ends where it was ended. -/
theorem LinedUp.shown_ends {l j : Line} (hj : LinedUp l j) (hl : Writable l) :
    '\n' ∉ j.shown ∧ j.shown.getLast? ≠ some '\r' := by
  constructor
  · intro hmem
    rcases mem_indented hmem with hmem | hmem
    · rcases hj.chars _ hmem with hmem | hmem
      · exact hl.newline hmem
      · exact absurd hmem (by decide)
    · exact absurd hmem (by decide)
  · unfold Line.shown indented
    split
    · simp
    · rename_i hne
      rw [List.getLast?_append_of_ne_nil _ (by simpa using hne), hj.getLast? hl.field]
      exact hl.last

/-- A written text are the lines that were laid out and kept, lined up and indented. -/
theorem write_eq (ls : List Line) :
    write ls = unlines ((lineUp (dropRedundantBlanks ls)).map Line.shown) :=
  writeLines_eq (dropRedundantBlanks ls)

/-- The lines of a written text are read back as they were written. -/
theorem lines_write {source : List Char} {ls : List Line} (h : layout source = .ok ls) :
    lines (write ls) = (lineUp (dropRedundantBlanks ls)).map Line.shown := by
  have hwritable : ∀ k ∈ dropRedundantBlanks ls, Writable k := fun k hk =>
    writable_of_layout h k (mem_of_mem_dropRedundantBlanks hk)
  rw [write_eq]
  apply lines_unlines_of_ends
  rw [List.forall_mem_map]
  exact forall_mem_of_forall₂ (linedUp_lineUp _) (fun k j hj hk => hj.shown_ends hk) hwritable

/-- A written text is laid out and written as itself, if the cells of its field lines can be
    moved. -/
theorem layout_write {source : List Char} {ls : List Line} (h : layout source = .ok ls)
    (hmove : ∀ l ∈ ls, l.block.isSome = true → Movable l.text) :
    ∃ ms, layout (write ls) = .ok ms ∧ write ms = write ls := by
  obtain ⟨n, hlines⟩ := layout_eq_ok.1 h
  have hkept := kept_dropRedundantBlanks ls
  have hlined := linedUp_lineUp (dropRedundantBlanks ls)
  have hstart : SameBetween [] ⟨.code, [], 0⟩ ⟨.code, [], 0⟩ := ⟨rfl, .nil, .nil⟩
  obtain ⟨names, ms, c, -, hagain, hc, hms⟩ := exists_relayout hstart hlines hkept hlined hmove 1
  have hwritable : List.Forall₂ (fun k j => Writable k ∧ LinedUp k j) (dropRedundantBlanks ls)
      (lineUp (dropRedundantBlanks ls)) :=
    (List.forall₂_and_left _ _).2
      ⟨fun k hk => writable_of_layout h k (mem_of_mem_dropRedundantBlanks hk), hlined⟩
  refine ⟨ms, layout_eq_ok.2 ⟨c.nextBlock, ?_⟩, ?_⟩
  · obtain ⟨literal, stack, next⟩ := c
    cases hc.literal
    cases hc.stack
    rw [lines_write h, hagain]
  · have hshape : List.Forall₂ SameShape (dropRedundantBlanks ls) ms := by
      refine (forall₂_trans hwritable hms).imp ?_
      rintro k m ⟨j, ⟨hk, hj⟩, hm⟩
      exact ⟨by rw [hm.text, hj.head? hk.field], by rw [hm.opens, hj.opens]⟩
    have hshown : ms.map Line.shown = (lineUp (dropRedundantBlanks ls)).map Line.shown :=
      map_eq_of_forall₂ hms fun j m hm => by rw [Line.shown, hm.indent, hm.text, Line.shown]
    show writeLines (dropRedundantBlanks ms) = write ls
    rw [dropRedundantBlanks_of_sameShape hshape (dropRedundantBlanks_idem ls), writeLines_eq,
      lineUp_relaid hc.numbering hms, hshown, write_eq]

/-- The cells of all field lines of the text can be moved. -/
def MovableFields (source : List Char) : Prop :=
  ∀ ls, layout source = .ok ls → ∀ l ∈ ls, l.block.isSome = true → Movable l.text

instance (source : List Char) : Decidable (MovableFields source) :=
  match h : layout source with
  | .ok ls =>
    decidable_of_iff (∀ l ∈ ls, l.block.isSome = true → Movable l.text)
      ⟨fun hls _ hagain => Except.ok.inj (h.symm.trans hagain) ▸ hls, fun hall => hall ls h⟩
  | .error _ => isTrue fun _ hls => nomatch h.symm.trans hls

variable {check : Check}

theorem formatChars_formatChars {source out : List Char} (h : formatChars check source = .ok out)
    (hmove : MovableFields source) : formatChars check out = .ok out := by
  obtain ⟨ls, hlayout, rfl, hcheck⟩ := exists_of_formatChars h
  obtain ⟨ms, hagain, hwrite⟩ := layout_write hlayout (hmove ls hlayout)
  unfold formatChars
  rw [hagain]
  simp only [hwrite, hcheck]

theorem format_eq_ok {source out : String} :
    format check source = .ok out ↔ formatChars check source.toList = .ok out.toList := by
  unfold format
  rw [Fallible.bind_eq_ok]
  constructor
  · rintro ⟨chars, hchars, hout⟩
    cases hout
    rw [String.toList_ofList, hchars]
  · intro h
    exact ⟨out.toList, h, congrArg Except.ok String.ofList_toList⟩

/-- What is written of a text is its canonical form if the check accepts it. -/
theorem format_of_write {source out : String}
    (h : (layout source.toList).toOption.map write = some out.toList) (hcheck : check out.toList = .ok ()) :
    format check source = .ok out := by
  rw [Option.map_eq_some_iff] at h
  obtain ⟨ls, hls, hwrite⟩ := h
  rw [format_eq_ok, formatChars, Fallible.toOption_eq_some.1 hls]
  simp only [hwrite, hcheck]

/-- Formatting is idempotent: the canonical form of a text, the cells of whose field lines can
    be moved, is its own canonical form. -/
theorem format_format {source out : String} (h : format check source = .ok out)
    (hmove : MovableFields source.toList) : format check out = .ok out := by
  rw [format_eq_ok] at h ⊢
  exact formatChars_formatChars h hmove

theorem format_format_nested :
    format .always "type T struct \x7b\n\tIDs []int  //x\n\tB   struct \x7b\n\t\tA int\n\t\x7d\n\x7d\n" =
      .ok "type T struct \x7b\n\tIDs []int  //x\n\tB   struct \x7b\n\t\tA int\n\t\x7d\n\x7d\n" := by
  have h : (format .always "type T struct \x7b\n\nIDs []int//x\nB struct \x7b\nA int\n\x7d\n\x7d").toOption =
      some "type T struct \x7b\n\tIDs []int  //x\n\tB   struct \x7b\n\t\tA int\n\t\x7d\n\x7d\n" := by
    decide +kernel
  exact format_format (Fallible.toOption_eq_some.1 h) (by decide +kernel)

/-- A canonical text is laid out and written as itself. -/
theorem write_of_format {out : String} (h : format check out = .ok out) :
    (layout out.toList).toOption.map (fun ls => String.ofList (write ls)) = some out := by
  obtain ⟨ls, hlayout, hwrite, -⟩ := exists_of_formatChars (format_eq_ok.1 h)
  rw [hlayout]
  show some (String.ofList (write ls)) = some out
  rw [← hwrite, String.ofList_toList]

/-- A line that ends in `struct` and a brace with two spaces between them opens no field block, so
    the lines below it are not lined up. As a field line it is written with one space; the second
    run finds a field block and lines up its fields. No check that accepts the text makes up for it. -/
theorem not_format_idempotent :
    ¬ ∃ check : Check,
      check "type T struct \x7b\n\tX struct \x7b\n\t\tA a\n\t\tBc b\n\t\x7d\n\x7d\n".toList = .ok () ∧
      ∀ source out : String, format check source = .ok out → format check out = .ok out := by
  rintro ⟨check, hcheck, hidem⟩
  have hlayout : ((layout "type T struct \x7b\nX struct  \x7b\nA a\nBc b\n\x7d\n\x7d\n".toList).toOption.map
      write) =
        some "type T struct \x7b\n\tX struct \x7b\n\t\tA a\n\t\tBc b\n\t\x7d\n\x7d\n".toList := by
    decide +kernel
  have hagain := write_of_format (hidem _ _ (format_of_write hlayout hcheck))
  revert hagain
  decide +kernel

end ServiceSchema.Go
