/-
  ServiceSchema.Proofs.Respacing — formatting changes blanks only.

  The text goes through four stages, and each keeps the lines with ink in their order:
  - laying out trims lines, or drops carriage returns at their ends (`laid_layoutLines`);
  - redundant blank lines have no ink (`filter_dropRedundantBlanks`);
  - writing indents lines and lines up field lines (`exists_write`);
  - reading the lines of the written text gives them back, up to a carriage return at
    their ends (`lines_append_newline`).

  - `format_respaces`: so the lines with ink of a text and of its canonical form are the same
    ones, with other blanks.
-/
import ServiceSchema.Go.Format
import ServiceSchema.Proofs.Fallible
import ServiceSchema.Proofs.Ink
import ServiceSchema.Proofs.KeptLines

namespace ServiceSchema.Text

/-! ## Lines -/

theorem newline_not_mem_lines (cs : List Char) : ∀ l ∈ lines cs, '\n' ∉ l := by
  fun_induction lines cs with
  | case1 => exact List.forall_mem_nil _
  | case2 rest ih => exact List.forall_mem_cons.2 ⟨List.not_mem_nil, ih⟩
  | case3 rest ih => exact List.forall_mem_cons.2 ⟨List.not_mem_nil, ih⟩
  | case4 c rest hc _ hnil ih =>
    rw [List.forall_mem_singleton, List.mem_singleton]
    exact fun h => hc h.symm
  | case5 c rest hc _ l ls hlines ih =>
    rw [hlines, List.forall_mem_cons] at ih
    refine List.forall_mem_cons.2 ⟨?_, ih.2⟩
    intro h
    rcases List.mem_cons.1 h with h | h
    · exact hc h.symm
    · exact ih.1 h

/-- The first lines of a text have no line feeds. -/
theorem newline_not_mem_above {cs : List Char} {above below : List (List Char)}
    (h : lines cs = above ++ below) : ∀ l ∈ above, '\n' ∉ l := fun l hl =>
  newline_not_mem_lines cs l (h ▸ List.mem_append_left _ hl)

/-- A last line needs no end. -/
theorem lines_of_notMem {cs : List Char} (h : '\n' ∉ cs) (hne : cs ≠ []) : lines cs = [cs] := by
  fun_induction lines cs with
  | case1 => exact absurd rfl hne
  | case2 rest _ => exact absurd List.mem_cons_self h
  | case3 rest _ => exact absurd (List.mem_cons_of_mem _ List.mem_cons_self) h
  | case4 c rest _ _ hnil ih =>
    rw [List.mem_cons, not_or] at h
    by_cases hrest : rest = []
    · rw [hrest]
    · rw [ih h.2 hrest] at hnil
      cases hnil
  | case5 c rest _ _ l ls hlines ih =>
    rw [List.mem_cons, not_or] at h
    have hrest : rest ≠ [] := by
      rintro rfl
      cases hlines
    rw [ih h.2 hrest] at hlines
    cases hlines
    rfl

/-- A line is read back, but for a carriage return at its end. -/
theorem lines_append_newline {l : List Char} (h : '\n' ∉ l) (rest : List Char) :
    lines (l ++ '\n' :: rest) = l :: lines rest ∨
      ∃ l', l = l' ++ ['\r'] ∧ lines (l ++ '\n' :: rest) = l' :: lines rest := by
  induction l with
  | nil => exact Or.inl rfl
  | cons c l ih =>
    rw [List.mem_cons, not_or] at h
    by_cases hend : c = '\r' ∧ l = []
    · obtain ⟨rfl, rfl⟩ := hend
      exact Or.inr ⟨[], rfl, rfl⟩
    · have hcons : ∀ l' ls, lines (l ++ '\n' :: rest) = l' :: ls →
          lines (c :: (l ++ '\n' :: rest)) = (c :: l') :: ls := by
        intro l' ls hl
        rw [lines.eq_4, hl]
        · intro hc
          exact h.1 hc.symm
        · intro rest' hc hrest
          cases l with
          | nil => exact hend ⟨hc, rfl⟩
          | cons d l =>
            rw [List.cons_append] at hrest
            have hd := (List.cons.inj hrest).1
            exact h.2 (hd ▸ List.mem_cons_self)
      rcases ih h.2 with hl | ⟨l', rfl, hl⟩
      · exact Or.inl (hcons _ _ hl)
      · exact Or.inr ⟨c :: l', rfl, hcons _ _ hl⟩

theorem lines_unlines_of_ends {ls : List (List Char)}
    (h : ∀ l ∈ ls, '\n' ∉ l ∧ l.getLast? ≠ some '\r') : lines (unlines ls) = ls := by
  induction ls with
  | nil => rfl
  | cons l ls ih =>
    rw [List.forall_mem_cons] at h
    rw [unlines, List.flatMap_cons, List.append_assoc, List.singleton_append]
    rcases lines_append_newline h.1.1 (unlines ls) with hl | ⟨l', rfl, -⟩
    · rw [← unlines, hl, ih h.2]
    · exact absurd List.getLast?_concat h.1.2

theorem exists_lines_append {l : List Char} (h : '\n' ∉ l) (rest : List Char) :
    ∃ l', lines (l ++ '\n' :: rest) = l' :: lines rest ∧ ink l' = ink l := by
  rcases lines_append_newline h rest with hl | ⟨l', rfl, hl⟩
  · exact ⟨l, hl, rfl⟩
  · refine ⟨l', hl, (ink_append_blanks ?_ l').symm⟩
    rw [List.forall_mem_singleton]
    decide

/-- Lines whose inks are read as they were written. -/
theorem forall₂_lines_unlines {ls : List (List Char)} (h : ∀ l ∈ ls, '\n' ∉ l) :
    List.Forall₂ (fun l l' => ink l' = ink l) ls (lines (unlines ls)) := by
  induction ls with
  | nil => exact .nil
  | cons l ls ih =>
    rw [List.forall_mem_cons] at h
    obtain ⟨l', hl', hink⟩ := exists_lines_append h.1 (unlines ls)
    have hunlines : unlines (l :: ls) = l ++ '\n' :: unlines ls := by
      rw [unlines, List.flatMap_cons, List.append_assoc]
      rfl
    rw [hunlines, hl']
    exact .cons hink (ih h.2)

end ServiceSchema.Text

namespace ServiceSchema.Go

open Text

/-! ## Laying out -/

/-- The line holds the ink of a raw line, and nothing else than it had. -/
structure Laid (raw : List Char) (l : Line) : Prop where
  ink : Text.ink l.text = Text.ink raw
  chars : ∀ c ∈ l.text, c ∈ raw

/-- Blanks are all that a line loses. -/
theorem exists_keptText (literal : Literal) (raw : List Char) :
    ∃ left right, raw = left ++ (keptText literal raw ++ right) ∧ (∀ c ∈ left, isBlank c = true) ∧
      ∀ c ∈ right, isBlank c = true := by
  unfold keptText
  by_cases hraw : literal = .raw
  · rw [if_pos hraw]
    obtain ⟨gap, hgap, hreturn⟩ := exists_dropWhile_reverse (p := fun c => decide (c = '\r')) raw
    refine ⟨[], gap, hgap, List.forall_mem_nil _, fun c hc => ?_⟩
    rw [of_decide_eq_true (hreturn c hc)]
    decide
  · rw [if_neg hraw]
    exact exists_trim raw

theorem laid_keptText (literal : Literal) (raw : List Char) :
    Text.ink (keptText literal raw) = Text.ink raw ∧ ∀ c ∈ keptText literal raw, c ∈ raw := by
  obtain ⟨left, right, hcut, hleft, hright⟩ := exists_keptText literal raw
  constructor
  · have hink := ink_blanks hleft (keptText literal raw ++ right)
    rw [← hcut, ink_append_blanks hright] at hink
    exact hink.symm
  · intro c hc
    rw [hcut]
    exact List.mem_append_right _ (List.mem_append_left _ hc)

theorem layoutLine_eq_ok {b b' : Between} {n : Nat} {raw : List Char} {l : Line} :
    layoutLine b n raw = .ok (l, b') ↔
      ∃ s, Scan.run n ⟨b.literal, b.stack, 0, none⟩ (keptText b.literal raw) = .ok s ∧
        ¬ (s.literal = .interpreted ∨ s.literal = .rune) ∧
        l = ⟨if b.literal = .raw then 0 else s.indent.getD (level s.stack), keptText b.literal raw,
          startBlock b (keptText b.literal raw), s.fresh != 0⟩ ∧
        b' = ⟨s.literal, (settle s (keptText b.literal raw) b.nextBlock).1,
          (settle s (keptText b.literal raw) b.nextBlock).2⟩ := by
  unfold layoutLine
  rw [Fallible.bind_eq_ok]
  refine exists_congr fun s => and_congr_right fun _ => ?_
  by_cases hend : s.literal = .interpreted ∨ s.literal = .rune
  · have hthrow : (decide (s.literal = .interpreted) || decide (s.literal = .rune)) = true := by
      simpa using hend
    rw [if_pos hthrow]
    constructor
    · intro h
      cases h
    · rintro ⟨h, -⟩
      exact absurd hend h
  · have hgo : ¬ (decide (s.literal = .interpreted) || decide (s.literal = .rune)) = true := by
      simpa using hend
    rw [if_neg hgo]
    constructor
    · intro h
      cases h
      exact ⟨hend, rfl, rfl⟩
    · rintro ⟨-, rfl, rfl⟩
      rfl

theorem text_of_layoutLine {b b' : Between} {number : Nat} {raw : List Char} {l : Line}
    (h : layoutLine b number raw = .ok (l, b')) : l.text = keptText b.literal raw := by
  obtain ⟨s, -, -, rfl, -⟩ := layoutLine_eq_ok.1 h
  rfl

/-- What the layout makes of one line, it makes of each. -/
theorem forall₂_layoutLines {R : List Char → Line → Prop}
    (hR : ∀ {b b' : Between} {n : Nat} {raw : List Char} {l : Line},
      layoutLine b n raw = .ok (l, b') → R raw l)
    {b b' : Between} {number : Nat} {raws : List (List Char)} {ls : List Line}
    (h : layoutLines b number raws = .ok (ls, b')) : List.Forall₂ R raws ls := by
  induction raws generalizing b number ls with
  | nil =>
    cases h
    exact .nil
  | cons raw raws ih =>
    rw [layoutLines] at h
    obtain ⟨⟨l, b''⟩, hline, h⟩ := Fallible.bind_eq_ok.1 h
    obtain ⟨⟨ls', final⟩, hlines, h⟩ := Fallible.bind_eq_ok.1 h
    cases h
    exact .cons (hR hline) (ih hlines)

theorem laid_layoutLines {b b' : Between} {number : Nat} {raws : List (List Char)} {ls : List Line}
    (h : layoutLines b number raws = .ok (ls, b')) : List.Forall₂ Laid raws ls := by
  refine forall₂_layoutLines ?_ h
  intro b _ _ raw l hline
  have hkept := laid_keptText b.literal raw
  rw [← text_of_layoutLine hline] at hkept
  exact ⟨hkept.1, hkept.2⟩

theorem layout_eq_ok {source : List Char} {ls : List Line} :
    layout source = .ok ls ↔
      ∃ n, layoutLines ⟨.code, [], 0⟩ 1 (lines source) = .ok (ls, ⟨.code, [], n⟩) := by
  unfold layout
  constructor
  · intro h
    obtain ⟨⟨ls', final⟩, hlines, h⟩ := Fallible.bind_eq_ok.1 h
    obtain ⟨literal, stack, n⟩ := final
    rw [hlines]
    simp only at h
    split at h
    · cases h
    · cases h
      exact ⟨n, rfl⟩
    · cases h
    · cases h
  · rintro ⟨n, hlines⟩
    rw [hlines]
    rfl

/-! ## Blank lines -/

/-- Whether a laid-out line has ink. -/
def Line.hasInk (l : Line) : Bool := Text.hasInk l.text

theorem hasInk_of_isBlank {l : Line} (h : l.isBlank = true) : l.hasInk = false := by
  rw [Line.hasInk, List.isEmpty_iff.1 h]
  rfl

theorem filter_dropRedundantBlanks (ls : List Line) :
    (dropRedundantBlanks ls).filter Line.hasInk = ls.filter Line.hasInk :=
  (kept_dropRedundantBlanks ls).filter_eq fun _ => hasInk_of_isBlank

theorem mem_of_mem_dropRedundantBlanks {ls : List Line} {l : Line} (h : l ∈ dropRedundantBlanks ls) :
    l ∈ ls :=
  (kept_dropRedundantBlanks ls).sublist.subset h

/-! ## Writing -/

/-- The written line shows the ink of a laid-out line, with spaces and tabs between. -/
structure Shown (l : Line) (shown : List Char) : Prop where
  ink : Agree (Text.ink l.text) (Text.ink shown)
  chars : ∀ c ∈ shown, c ∈ l.text ∨ c = ' ' ∨ c = '\t'

theorem mem_consCell {cell cell' : List Char} {cells : List (List Char)} (h : cell' ∈ consCell cell cells) :
    cell' = cell ∨ cell' ∈ cells := by
  unfold consCell at h
  split at h
  · exact Or.inr h
  · exact List.mem_cons.1 h

theorem mem_of_mem_cellsFrom {cell cs : List Char} {quote : Option Quote} :
    ∀ cell' ∈ cellsFrom cell quote cs, ∀ c ∈ cell', c ∈ cell ++ cs := by
  fun_induction cellsFrom cell quote cs with
  | case1 cell quote =>
    intro cell' h c hc
    rcases mem_consCell h with rfl | h
    · exact List.mem_append_left _ hc
    · cases h
  | case2 cell =>
    intro cell' h c hc
    rcases mem_consCell h with rfl | h
    · exact hc
    · cases h
  | case3 cell d after ih => simpa using ih
  | case4 cell c rest _ ih => simpa using ih
  | case5 cell c rest ih => simpa using ih
  | case6 cell c rest _ =>
    intro cell' h d hd
    rcases mem_consCell h with rfl | h
    · exact List.mem_append_left _ hd
    · rw [List.mem_singleton.1 h] at hd
      exact List.mem_append_right _ hd
  | case7 cell c rest _ _ ih =>
    intro cell' h d hd
    rcases mem_consCell h with rfl | h
    · exact List.mem_append_left _ hd
    · exact List.mem_append_right _ (List.mem_cons_of_mem _ (ih cell' h d hd))
  | case8 cell c rest _ _ ih => simpa using ih

theorem mem_writeCells {widths : List Nat} {i : Nat} {row : List (List Char)} {c : Char}
    (h : c ∈ writeCells widths i row) : c = ' ' ∨ ∃ cell ∈ row, c ∈ cell := by
  fun_induction writeCells widths i row with
  | case1 => cases h
  | case2 i cell => exact Or.inr ⟨cell, List.mem_cons_self, h⟩
  | case3 i cell next more ih =>
    rw [List.mem_append, List.mem_append] at h
    rcases h with (h | h) | h
    · exact Or.inr ⟨cell, List.mem_cons_self, h⟩
    · exact Or.inl (List.eq_of_mem_replicate h)
    · rcases ih h with h | ⟨cell', hcell, h⟩
      · exact Or.inl h
      · exact Or.inr ⟨cell', List.mem_cons_of_mem _ hcell, h⟩

/-- An indented line. -/
def indented (indent : Nat) (text : List Char) : List Char :=
  if text.isEmpty then [] else List.replicate indent '\t' ++ text

theorem ink_indented (indent : Nat) (text : List Char) : ink (indented indent text) = ink text := by
  unfold indented
  by_cases ht : text.isEmpty = true
  · rw [if_pos ht, List.isEmpty_iff.1 ht]
  · rw [if_neg ht]
    apply ink_blanks
    intro c hc
    rw [List.eq_of_mem_replicate hc]
    decide

theorem mem_indented {indent : Nat} {text : List Char} {c : Char} (h : c ∈ indented indent text) :
    c ∈ text ∨ c = '\t' := by
  unfold indented at h
  split at h
  · cases h
  · rcases List.mem_append.1 h with h | h
    · exact Or.inr (List.eq_of_mem_replicate h)
    · exact Or.inl h

/-- The texts of a run as they are written, before indentation. -/
def runTexts (run : List Line) : List (List Char) :=
  if (run.head?.bind Line.block).isSome then alignRows (run.map Line.text) else run.map Line.text

theorem writeRun_eq (run : List Line) :
    writeRun run = unlines ((run.zip (runTexts run)).map fun l => indented l.1.indent l.2) := by
  cases run with
  | nil => rfl
  | cons first run =>
    rw [writeRun, unlines, List.flatMap_map]
    rfl

theorem shown_texts (run : List Line) : List.Forall₂ Shown run (runTexts run) := by
  unfold runTexts
  split
  · have halign : List.Forall₂ (fun (l : Line) (text : List Char) => Agree (ink l.text) (ink text)) run
        (alignRows (run.map Line.text)) := List.forall₂_map_left_iff.1 (agree_alignRows _)
    unfold alignRows at halign ⊢
    simp only [List.map_map, List.forall₂_map_right_iff, List.forall₂_same] at halign ⊢
    intro l hl
    refine ⟨halign l hl, ?_⟩
    intro c hmem
    rcases mem_writeCells hmem with h | ⟨cell, hcell, h⟩
    · exact Or.inr (Or.inl h)
    · exact Or.inl (mem_of_mem_cellsFrom cell hcell _ h)
  · rw [List.forall₂_map_right_iff, List.forall₂_same]
    exact fun l _ => ⟨.refl _, fun _ => Or.inl⟩

theorem shown_runTexts (run : List Line) :
    List.Forall₂ Shown run ((run.zip (runTexts run)).map fun l => indented l.1.indent l.2) := by
  have htexts := shown_texts run
  generalize runTexts run = texts at htexts ⊢
  induction htexts with
  | nil => exact .nil
  | cons h _ ih =>
    refine .cons ⟨?_, ?_⟩ ih
    · rw [ink_indented]
      exact h.ink
    · intro c hc
      rcases mem_indented hc with hc | hc
      · exact h.chars c hc
      · exact Or.inr (Or.inr hc)

theorem flatten_runs (ls : List Line) : (runs ls).flatten = ls := by
  induction ls with
  | nil => rfl
  | cons l ls ih =>
    rw [runs]
    split
    · rename_i m run more heq
      rw [heq] at ih
      split
      · rw [← ih]
        rfl
      · rw [← ih]
        rfl
    · rw [List.flatten_cons, ih]
      rfl

/-- The written text is made of one line for every line that is kept. -/
theorem exists_write (ls : List Line) :
    ∃ shown, write ls = unlines shown ∧ List.Forall₂ Shown (dropRedundantBlanks ls) shown := by
  rw [write]
  have hruns : ∀ rs : List (List Line), ∃ shown, rs.flatMap writeRun = unlines shown ∧
      List.Forall₂ Shown rs.flatten shown := by
    intro rs
    induction rs with
    | nil => exact ⟨[], rfl, .nil⟩
    | cons run rs ih =>
      obtain ⟨shown, hwrite, hshown⟩ := ih
      refine ⟨(run.zip (runTexts run)).map (fun l => indented l.1.indent l.2) ++ shown, ?_, ?_⟩
      · rw [List.flatMap_cons, writeRun_eq, hwrite, unlines, unlines, unlines, List.flatMap_append]
      · exact List.rel_append (shown_runTexts run) hshown
  have hall := hruns (runs (dropRedundantBlanks ls))
  rwa [flatten_runs] at hall

/-! ## The whole formatter -/

/-- The check that accepts every text. -/
def Check.always : Check := fun _ => .ok ()

variable {check : Check}

theorem exists_of_formatChars {source out : List Char} (h : formatChars check source = .ok out) :
    ∃ ls, layout source = .ok ls ∧ out = write ls ∧ check out = .ok () := by
  unfold formatChars at h
  split at h
  · cases h
  · rename_i ls hlayout
    dsimp only at h
    split at h
    · cases h
    · rename_i hcheck
      cases h
      exact ⟨ls, hlayout, rfl, hcheck⟩

/-- Related lists stay related when the same elements are dropped from both. -/
theorem forall₂_filter {α β : Type} {R : α → β → Prop} {p : α → Bool} {q : β → Bool} {xs : List α}
    {ys : List β} (h : List.Forall₂ R xs ys) (hpq : ∀ x y, R x y → p x = q y) :
    List.Forall₂ R (xs.filter p) (ys.filter q) := by
  induction h with
  | nil => exact .nil
  | @cons x y xs ys hxy _ ih =>
    have hkeep := hpq x y hxy
    by_cases hx : p x = true
    · rw [List.filter_cons_of_pos hx, List.filter_cons_of_pos (hkeep ▸ hx)]
      exact .cons hxy ih
    · rw [List.filter_cons_of_neg hx, List.filter_cons_of_neg (hkeep ▸ hx)]
      exact ih

theorem hasInk_of_agree {a b : List Char} (h : Agree (ink a) (ink b)) : hasInk a = hasInk b := by
  have hchars := h.map_fst
  rw [hasInk_eq, hasInk_eq, ← List.isEmpty_map, hchars, List.isEmpty_map]

/-- What every element has, every related one has, when the relation hands it on. -/
theorem forall_mem_of_forall₂ {α β : Type} {R : α → β → Prop} {P : α → Prop} {Q : β → Prop} {xs : List α}
    {ys : List β} (h : List.Forall₂ R xs ys) (hPQ : ∀ x y, R x y → P x → Q y) (hP : ∀ x ∈ xs, P x) :
    ∀ y ∈ ys, Q y := by
  induction h with
  | nil => exact List.forall_mem_nil _
  | @cons x y xs ys hxy _ ih =>
    rw [List.forall_mem_cons] at hP ⊢
    exact ⟨hPQ x y hxy hP.1, ih hP.2⟩

theorem forall₂_trans {α β γ : Type} {R : α → β → Prop} {S : β → γ → Prop} {xs : List α} {ys : List β}
    {zs : List γ} (hxy : List.Forall₂ R xs ys) (hyz : List.Forall₂ S ys zs) :
    List.Forall₂ (fun x z => ∃ y, R x y ∧ S y z) xs zs := by
  induction hxy generalizing zs with
  | nil =>
    cases hyz
    exact .nil
  | cons h _ ih =>
    cases hyz with
    | cons h' hyz => exact .cons ⟨_, h, h'⟩ (ih hyz)

/-- Formatting keeps the lines with ink and changes only blanks in them: the text is made of
    such lines, of the characters that the source has besides spaces and tabs. -/
theorem exists_of_formatChars_eq_ok {source out : List Char} (h : formatChars check source = .ok out) :
    ∃ shown, out = unlines shown ∧
      List.Forall₂ (fun a b => Agree (ink a) (ink b)) ((lines source).filter hasInk) (shown.filter hasInk) ∧
      (∀ l ∈ shown, ∀ c ∈ l, (∃ raw ∈ lines source, c ∈ raw) ∨ c = ' ' ∨ c = '\t') := by
  obtain ⟨ls, hlayout, rfl, -⟩ := exists_of_formatChars h
  obtain ⟨n, hlines⟩ := layout_eq_ok.1 hlayout
  obtain ⟨shown, hwrite, hshown⟩ := exists_write ls
  have hlaid := laid_layoutLines hlines
  refine ⟨shown, hwrite, ?_, ?_⟩
  · have hinked : List.Forall₂ Laid ((lines source).filter hasInk) (ls.filter Line.hasInk) :=
      forall₂_filter hlaid fun raw l hl => hasInk_of_agree (hl.ink ▸ .refl _)
    have hwritten : List.Forall₂ Shown (ls.filter Line.hasInk) (shown.filter hasInk) := by
      rw [← filter_dropRedundantBlanks]
      exact forall₂_filter hshown fun l text hl => hasInk_of_agree hl.ink
    refine (forall₂_trans hinked hwritten).imp ?_
    rintro raw text ⟨l, hraw, htext⟩
    rw [← hraw.ink]
    exact htext.ink
  · have hlaidChars : ∀ l ∈ ls, ∀ c ∈ l.text, ∃ raw ∈ lines source, c ∈ raw := by
      refine forall_mem_of_forall₂ hlaid (P := fun raw => raw ∈ lines source) ?_ fun raw hraw => hraw
      intro raw l hl hraw c hc
      exact ⟨raw, hraw, hl.chars c hc⟩
    refine forall_mem_of_forall₂ hshown (P := fun l => l ∈ ls) ?_ fun l => mem_of_mem_dropRedundantBlanks
    intro l text hl hmem c hc
    rcases hl.chars c hc with hc | hc
    · exact Or.inl (hlaidChars l hmem c hc)
    · exact Or.inr hc

/-- The lines of the formatted text are the lines that it is made of. -/
theorem agree_formatChars {source out : List Char} (h : formatChars check source = .ok out) :
    List.Forall₂ (fun a b => Agree (ink a) (ink b)) ((lines source).filter hasInk)
      ((lines out).filter hasInk) := by
  obtain ⟨shown, rfl, hink, hchars⟩ := exists_of_formatChars_eq_ok h
  have hline : ∀ l ∈ shown, '\n' ∉ l := by
    intro l hl hmem
    rcases hchars l hl _ hmem with ⟨raw, hraw, hmem⟩ | hmem | hmem
    · exact newline_not_mem_lines source raw hraw hmem
    · exact absurd hmem (by decide)
    · exact absurd hmem (by decide)
  have hread : List.Forall₂ (fun l l' => ink l' = ink l) (shown.filter hasInk)
      ((lines (unlines shown)).filter hasInk) :=
    forall₂_filter (forall₂_lines_unlines hline) fun l l' hl => hasInk_of_agree (hl ▸ .refl _)
  refine (forall₂_trans hink hread).imp ?_
  rintro raw l' ⟨l, hraw, hl'⟩
  rw [hl']
  exact hraw

/-- Formatting changes blanks only: a text that is formatted and its canonical form have the
    same lines with ink, in order, and in every line the same characters, with a gap between two
    of them in both or in neither, but for a gap that may open before a `//`. -/
theorem format_respaces {source out : String} (h : format check source = .ok out) :
    List.Forall₂ Respaced ((lines source.toList).filter hasInk) ((lines out.toList).filter hasInk) := by
  unfold format at h
  obtain ⟨chars, hchars, h⟩ := Fallible.bind_eq_ok.1 h
  cases h
  rw [String.toList_ofList]
  exact (agree_formatChars hchars).imp fun _ _ => respaced_of_agree

theorem format_respaces_field :
    List.Forall₂ Respaced
      ((lines "type T struct \x7b\n\nA  int//x\n\x7d".toList).filter hasInk)
      ((lines "type T struct \x7b\n\tA int //x\n\x7d\n".toList).filter hasInk) := by
  refine @format_respaces .always _ _ ?_
  have h : (format .always "type T struct \x7b\n\nA  int//x\n\x7d").toOption =
      some "type T struct \x7b\n\tA int //x\n\x7d\n" := by
    decide +kernel
  cases hf : format .always "type T struct \x7b\n\nA  int//x\n\x7d" with
  | error e =>
    rw [hf] at h
    cases h
  | ok out =>
    rw [hf] at h
    cases h
    rfl

end ServiceSchema.Go
