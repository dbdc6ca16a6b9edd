/-
  ServiceSchema.Proofs.LayoutEdits — the canonical form does not depend on the layout of its text.

  Two kinds of edits change nothing but the layout (`Edit`): other blanks around a line, and a
  blank line more where blank lines do not count. The first is not seen by the layout at all. The
  second moves the lines below it, and what the layout knows of a line does not depend on its
  number (`Moved`); the line itself is dropped, or stands for the one beside it.

  - `Moved.layoutLines`: further down, lines are laid out as before.
  - `Edit.leavesLines_iff`: an edit does not change the lines that are kept.
  - `format_of_edits`: so texts that edits lead to have the same canonical form.
-/
import Mathlib.Logic.Relation
import ServiceSchema.Proofs.RawLines

namespace ServiceSchema.Go

open Text Fallible

/-- A place between lines where a blank line does not count. -/
inductive Idle (before after : List (List Char)) : Prop
  | first (h : before = [])
  | last (h : after = [])
  | underBlank (raw : List Char) (h : before.getLast? = some raw) (hraw : trim raw = [])
  | overBlank (raw : List Char) (h : after.head? = some raw) (hraw : trim raw = [])
  | underOpener (h : LeavesOpen before)
  | overCloser (raw : List Char) (h : after.head? = some raw) (hraw : startsWithCloser (trim raw) = true)

/-- An edit of a text outside its raw strings that changes nothing but the layout: a line gets
    other blanks around it, or a blank line is put in where it does not count. -/
inductive Edit (source edited : List Char) : Prop
  | margins (before after : List (List Char)) (raw raw' : List Char)
      (h : lines source = before ++ raw :: after) (h' : lines edited = before ++ raw' :: after)
      (hraw : ¬ InRaw before) (htrim : trim raw' = trim raw)
  | blank (before after : List (List Char)) (raw : List Char)
      (h : lines source = before ++ after) (h' : lines edited = before ++ raw :: after)
      (hraw : ¬ InRaw before) (htrim : trim raw = []) (hidle : Idle before after)

/-! ## Lines further down -/

/-- The layout in the same state, but for the lines that brackets were opened on. -/
structure Moved (b b' : Between) : Prop where
  literal : b'.literal = b.literal
  stack : ∃ names : List (Nat × Option Nat), (∀ p ∈ names, p.2 = some p.1) ∧
    List.Forall₂ (SameOpen names) b.stack b'.stack
  nextBlock : b'.nextBlock = b.nextBlock

/-- Blocks that keep their numbers. -/
theorem Renamed.eq_of_own {names : List (Nat × Option Nat)} (hnames : ∀ p ∈ names, p.2 = some p.1)
    {block block' : Option Nat} (h : Renamed names block block') : block' = block := by
  cases h with
  | outside => rfl
  | inside hmem => exact hnames _ hmem

namespace Moved

variable {b b' : Between}

theorem refl (b : Between) : Moved b b := by
  refine ⟨rfl, ⟨(b.stack.filterMap Open.fields).map fun n => (n, some n), ?_, ?_⟩, rfl⟩
  · rw [List.forall_mem_map]
    exact fun _ _ => rfl
  · rw [List.forall₂_same]
    intro o ho
    refine ⟨rfl, rfl, ?_⟩
    cases hfields : o.fields with
    | none => exact .outside
    | some n => exact .inside (List.mem_map.2 ⟨n, List.mem_filterMap.2 ⟨o, ho, hfields⟩, rfl⟩)

theorem startBlock (h : Moved b b') (text : List Char) : startBlock b' text = startBlock b text := by
  obtain ⟨literal, stack, next⟩ := b
  obtain ⟨literal', stack', next'⟩ := b'
  obtain ⟨hliteral, ⟨names, hnames, hstack⟩, -⟩ := h
  cases hliteral
  unfold Go.startBlock
  cases hstack with
  | nil => rfl
  | cons htop _ =>
    cases literal with
    | code => simp only [htop.fields.eq_of_own hnames]
    | _ => rfl

/-- A line ends in the same way. -/
theorem settle {names : List (Nat × Option Nat)} (hnames : ∀ p ∈ names, p.2 = some p.1) {s s' : Scan}
    (h : SameScan names s s') (text : List Char) (next : Nat) :
    (Go.settle s' text next).2 = (Go.settle s text next).2 ∧
      ∃ names', (∀ p ∈ names', p.2 = some p.1) ∧
        List.Forall₂ (SameOpen names') (Go.settle s text next).1 (Go.settle s' text next).1 := by
  obtain ⟨literal, stack, fresh, indent⟩ := s
  obtain ⟨literal', stack', fresh', indent'⟩ := s'
  obtain ⟨-, hstack, hfresh, -, -⟩ := h
  cases hfresh
  cases fresh with
  | zero => exact ⟨rfl, names, hnames, hstack⟩
  | succ k =>
    cases hstack with
    | nil => exact ⟨rfl, names, hnames, .nil⟩
    | @cons top top' rest rest' htop hrest =>
      simp only [Go.settle, htop.kind]
      split
      · refine ⟨rfl, (next, some next) :: names, List.forall_mem_cons.2 ⟨rfl, hnames⟩,
          .cons ⟨rfl, rfl, .inside List.mem_cons_self⟩ ?_⟩
        exact hrest.imp fun _ _ => SameOpen.mono (List.subset_cons_self _ _)
      · exact ⟨rfl, names, hnames, .cons ⟨rfl, rfl, htop.fields⟩ hrest⟩

theorem layoutLine (h : Moved b b') {c : Between} {n : Nat} {raw : List Char} {l : Line}
    (hl : layoutLine b n raw = .ok (l, c)) (n' : Nat) :
    ∃ c', Go.layoutLine b' n' raw = .ok (l, c') ∧ Moved c c' := by
  obtain ⟨names, hnames, hstack⟩ := h.stack
  obtain ⟨s, hrun, hend, rfl, rfl⟩ := layoutLine_eq_ok.1 hl
  have hstart : SameScan names ⟨b.literal, b.stack, 0, none⟩ ⟨b'.literal, b'.stack, 0, none⟩ :=
    ⟨h.literal, hstack, rfl, rfl, fun o ho => by cases ho⟩
  obtain ⟨s', hrun', hs⟩ := hstart.run hrun n'
  obtain ⟨hnext, hsettled⟩ := settle hnames hs (keptText b.literal raw) b.nextBlock
  refine ⟨_, layoutLine_eq_ok.2 ⟨s', ?_, ?_, ?_, rfl⟩, hs.literal, ?_, ?_⟩
  · rw [h.literal]
    rw [h.literal] at hrun'
    exact hrun'
  · rw [hs.literal]
    exact hend
  · rw [h.literal, hs.indent, level_eq hs.stack, h.startBlock, hs.fresh]
  · rw [h.literal, h.nextBlock]
    exact hsettled
  · rw [h.literal, h.nextBlock]
    exact hnext

/-- Further down, lines are laid out as before. -/
theorem layoutLines (h : Moved b b') {c : Between} {n : Nat} {raws : List (List Char)} {ls : List Line}
    (hls : layoutLines b n raws = .ok (ls, c)) (n' : Nat) :
    ∃ c', Go.layoutLines b' n' raws = .ok (ls, c') ∧ Moved c c' := by
  induction raws generalizing b b' n ls n' with
  | nil =>
    cases hls
    exact ⟨b', rfl, h⟩
  | cons raw raws ih =>
    obtain ⟨l, b₁, ls', hline, hlines, rfl⟩ := layoutLines_cons_eq_ok.1 hls
    obtain ⟨b₁', hline', h₁⟩ := h.layoutLine hline n'
    obtain ⟨c', hlines', hc⟩ := ih h₁ hlines (n' + 1)
    exact ⟨c', layoutLines_cons_eq_ok.2 ⟨l, b₁', ls', hline', hlines', rfl⟩, hc⟩

end Moved

/-! ## Blank lines -/

theorem isBlank_of_trim {raw : List Char} (h : trim raw = []) : ∀ c ∈ raw, isBlank c = true := by
  obtain ⟨left, right, hraw, hleft, hright⟩ := exists_trim raw
  rw [hraw, h, List.nil_append, List.forall_mem_append]
  exact ⟨hleft, hright⟩

/-- A blank line as it is laid out. -/
def Between.blank (b : Between) : Line := ⟨level b.stack, [], none, false⟩

theorem layoutLine_blank {b : Between} (hb : b.Tidy) (hliteral : b.literal ≠ .raw) {raw : List Char}
    (hraw : trim raw = []) (n : Nat) : layoutLine b n raw = .ok (b.blank, b) := by
  have htext : keptText b.literal raw = [] := (if_neg hliteral).trans hraw
  refine layoutLine_eq_ok.2 ⟨⟨b.literal, b.stack, 0, none⟩, ?_, hb, ?_, ?_⟩
  · rw [htext, Scan.run_nil]
  · have hblock : startBlock b [] = none := by
      unfold startBlock
      split <;> rfl
    rw [htext, hblock, if_neg hliteral]
    rfl
  · rw [htext]
    rfl

section

variable {before : List (List Char)} (hnewline : ∀ raw ∈ before, '\n' ∉ raw) (hraw : ¬ InRaw before)
  {xs : List Line} {b : Between} (hxs : layoutLines .initial 1 before = .ok (xs, b))
include hnewline hraw hxs

theorem literal_ne_raw : b.literal ≠ .raw := fun hb => hraw ((inRaw_iff hnewline hxs).2 hb)

theorem layoutLine_blank_behind {raw : List Char} (htrim : trim raw = []) (n : Nat) :
    layoutLine b n raw = .ok (b.blank, b) :=
  layoutLine_blank (tidy_of_layoutLines tidy_initial hxs) (literal_ne_raw hnewline hraw hxs) htrim n

/-- A blank line where it does not count is superfluous. -/
theorem superfluous_of_idle {after : List (List Char)} (hidle : Idle before after) {n : Nat} {ys : List Line}
    {c : Between} (hys : layoutLines b n after = .ok (ys, c)) : Superfluous b.blank xs ys := by
  have hliteral : b.literal ≠ .raw := literal_ne_raw hnewline hraw hxs
  cases hidle with
  | first h =>
    rw [h] at hxs
    cases hxs
    exact .first rfl
  | last h =>
    rw [h] at hys
    cases hys
    exact .last rfl
  | underBlank raw h htrim =>
    obtain ⟨front, rfl⟩ := List.getLast?_eq_some_iff.1 h
    obtain ⟨xs', b₀, ks, -, hline, rfl⟩ := layoutLines_append_eq_ok.1 hxs
    obtain ⟨k, b', ls, hline, hend, rfl⟩ := layoutLines_cons_eq_ok.1 hline
    cases hend
    refine .behind k List.getLast?_concat (Or.inl (isBlank_iff.2 ?_))
    rw [text_of_layoutLine hline, keptText, if_neg, htrim]
    -- a blank line does not end a raw string
    intro hb₀
    have hquote : '`' ∉ raw := fun hmem => absurd (isBlank_of_trim htrim '`' hmem) (by decide)
    rw [layoutLine_raw hb₀ hquote] at hline
    cases hline
    exact hliteral hb₀
  | overBlank raw h htrim =>
    obtain ⟨rest, rfl⟩ := List.head?_eq_some_iff.1 h
    obtain ⟨m, b', ls, hline, -, rfl⟩ := layoutLines_cons_eq_ok.1 hys
    rw [layoutLine_blank_behind hnewline hraw hxs htrim] at hline
    cases hline
    exact .before _ rfl (Or.inl rfl)
  | underOpener h =>
    rcases List.eq_nil_or_concat' before with rfl | ⟨front, raw, rfl⟩
    · obtain ⟨kind, stack, hstack⟩ := leavesOpen_iff.1 h
      cases hstack
    · obtain ⟨xs', b₀, ks, hfront, hline, rfl⟩ := layoutLines_append_eq_ok.1 hxs
      obtain ⟨k, b', ls, hline, hend, rfl⟩ := layoutLines_cons_eq_ok.1 hline
      cases hend
      exact .behind k List.getLast?_concat (Or.inr ((opens_iff_leavesOpen hnewline hfront hline).2 h))
  | overCloser raw h hcloser =>
    obtain ⟨rest, rfl⟩ := List.head?_eq_some_iff.1 h
    obtain ⟨m, b', ls, hline, -, rfl⟩ := layoutLines_cons_eq_ok.1 hys
    refine .before m rfl (Or.inr ?_)
    rw [text_of_layoutLine hline, keptText, if_neg hliteral]
    exact hcloser

end

/-! ## Edits -/

/-- The lines that are kept of a text. -/
def LeavesLines (source : List Char) (ks : List Line) : Prop :=
  ∃ ls, layout source = .ok ls ∧ dropRedundantBlanks ls = ks

theorem layoutLine_congr {b : Between} {raw raw' : List Char}
    (h : keptText b.literal raw' = keptText b.literal raw) (n : Nat) :
    layoutLine b n raw' = layoutLine b n raw := by
  unfold layoutLine
  rw [h]

/-- Blanks around a line are not seen. -/
theorem layout_of_margins {before after : List (List Char)} {raw raw' : List Char}
    (hnewline : ∀ raw ∈ before, '\n' ∉ raw) (hraw : ¬ InRaw before) (htrim : trim raw' = trim raw) :
    layoutLines .initial 1 (before ++ raw' :: after) = layoutLines .initial 1 (before ++ raw :: after) := by
  rw [layoutLines_append_bind, layoutLines_append_bind]
  cases hxs : layoutLines .initial 1 before with
  | error fault => rfl
  | ok p =>
    have hliteral := literal_ne_raw hnewline hraw hxs
    have hkept : keptText p.2.literal raw' = keptText p.2.literal raw := by
      rw [keptText, keptText, if_neg hliteral, if_neg hliteral, htrim]
    simp only [ok_bind, layoutLines, layoutLine_congr hkept]

/-- Where nothing is open no line number is left. -/
theorem Moved.eq_of_closed {next : Nat} {b : Between} (h : Moved ⟨.code, [], next⟩ b) :
    b = ⟨.code, [], next⟩ := by
  obtain ⟨literal, stack, next'⟩ := b
  obtain ⟨hliteral, ⟨names, -, hstack⟩, hnext⟩ := h
  cases hliteral
  cases hstack
  cases hnext
  rfl

section

variable {before after : List (List Char)} {raw : List Char} (hnewline : ∀ raw ∈ before, '\n' ∉ raw)
  (hraw : ¬ InRaw before) (htrim : trim raw = []) (hidle : Idle before after)
include hnewline hraw htrim hidle

/-- Putting in a blank line where it does not count. -/
theorem layoutLines_insert {ls : List Line} {next : Nat}
    (h : layoutLines .initial 1 (before ++ after) = .ok (ls, ⟨.code, [], next⟩)) :
    ∃ ls', layoutLines .initial 1 (before ++ raw :: after) = .ok (ls', ⟨.code, [], next⟩) ∧
      dropRedundantBlanks ls' = dropRedundantBlanks ls := by
  obtain ⟨xs, b, ys, hxs, hys, rfl⟩ := layoutLines_append_eq_ok.1 h
  obtain ⟨c, hys', hc⟩ := (Moved.refl b).layoutLines hys (1 + before.length + 1)
  have hblank := layoutLine_blank_behind hnewline hraw hxs htrim (1 + before.length)
  have hsuperfluous := superfluous_of_idle hnewline hraw hxs hidle hys
  rw [hc.eq_of_closed] at hys'
  refine ⟨xs ++ b.blank :: ys, ?_, dropRedundantBlanks_insert rfl hsuperfluous⟩
  exact layoutLines_append_eq_ok.2
    ⟨xs, b, _, hxs, layoutLines_cons_eq_ok.2 ⟨_, b, ys, hblank, hys', rfl⟩, rfl⟩

/-- Taking it away. -/
theorem layoutLines_delete {ls : List Line} {next : Nat}
    (h : layoutLines .initial 1 (before ++ raw :: after) = .ok (ls, ⟨.code, [], next⟩)) :
    ∃ ls', layoutLines .initial 1 (before ++ after) = .ok (ls', ⟨.code, [], next⟩) ∧
      dropRedundantBlanks ls' = dropRedundantBlanks ls := by
  obtain ⟨xs, b, rest, hxs, hrest, rfl⟩ := layoutLines_append_eq_ok.1 h
  obtain ⟨l, b', ys, hline, hys, rfl⟩ := layoutLines_cons_eq_ok.1 hrest
  rw [layoutLine_blank_behind hnewline hraw hxs htrim] at hline
  cases hline
  obtain ⟨c, hys', hc⟩ := (Moved.refl b).layoutLines hys (1 + before.length)
  have hsuperfluous := superfluous_of_idle hnewline hraw hxs hidle hys
  rw [hc.eq_of_closed] at hys'
  refine ⟨xs ++ ys, ?_, (dropRedundantBlanks_insert rfl hsuperfluous).symm⟩
  exact layoutLines_append_eq_ok.2 ⟨xs, b, ys, hxs, hys', rfl⟩

end

/-- An edit does not change the lines that are kept. -/
theorem Edit.leavesLines_iff {source edited : List Char} (h : Edit source edited) (ks : List Line) :
    LeavesLines source ks ↔ LeavesLines edited ks := by
  cases h with
  | margins before after raw raw' h h' hraw htrim =>
    have hnewline : ∀ raw ∈ before, '\n' ∉ raw := newline_not_mem_above h
    have hlayout : layout edited = layout source := by
      unfold layout
      rw [h, h']
      exact congrArg (· >>= _) (layout_of_margins hnewline hraw htrim)
    rw [LeavesLines, LeavesLines, hlayout]
  | blank before after raw h h' hraw htrim hidle =>
    have hnewline : ∀ raw ∈ before, '\n' ∉ raw := newline_not_mem_above h
    constructor
    · rintro ⟨ls, hls, rfl⟩
      obtain ⟨next, hlines⟩ := layout_eq_ok.1 hls
      rw [h] at hlines
      obtain ⟨ls', hlines', hdrop⟩ := layoutLines_insert hnewline hraw htrim hidle hlines
      exact ⟨ls', layout_eq_ok.2 ⟨next, h' ▸ hlines'⟩, hdrop⟩
    · rintro ⟨ls, hls, rfl⟩
      obtain ⟨next, hlines⟩ := layout_eq_ok.1 hls
      rw [h'] at hlines
      obtain ⟨ls', hlines', hdrop⟩ := layoutLines_delete hnewline hraw htrim hidle hlines
      exact ⟨ls', layout_eq_ok.2 ⟨next, h ▸ hlines'⟩, hdrop⟩

variable {check : Check}

/-- The canonical form is written from the lines that are kept. -/
theorem formatChars_eq_ok_iff {source out : List Char} :
    formatChars check source = .ok out ↔
      ∃ ks, LeavesLines source ks ∧ out = (runs ks).flatMap writeRun ∧ check out = .ok () := by
  constructor
  · intro h
    obtain ⟨ls, hlayout, hwrite, hcheck⟩ := exists_of_formatChars h
    exact ⟨_, ⟨ls, hlayout, rfl⟩, hwrite, hcheck⟩
  · rintro ⟨-, ⟨ls, hlayout, rfl⟩, hwrite, hcheck⟩
    unfold formatChars
    rw [hlayout]
    have hout : write ls = out := hwrite.symm
    simp only [hout, hcheck]

/-- Texts that edits of their layout lead to, one after the other and back, have the same canonical
    form. -/
theorem format_of_edits {source edited : String} (h : Relation.EqvGen Edit source.toList edited.toList)
    (out : String) : format check source = .ok out ↔ format check edited = .ok out := by
  have hlines : ∀ ks, LeavesLines source.toList ks ↔ LeavesLines edited.toList ks := by
    generalize source.toList = cs at h
    generalize edited.toList = cs' at h
    induction h with
    | rel _ _ hedit => exact hedit.leavesLines_iff
    | refl _ => exact fun _ => Iff.rfl
    | symm _ _ _ ih => exact fun ks => (ih ks).symm
    | trans _ _ _ _ _ ih ih' => exact fun ks => (ih ks).trans (ih' ks)
  rw [format_eq_ok, format_eq_ok, formatChars_eq_ok_iff, formatChars_eq_ok_iff]
  exact exists_congr fun ks => and_congr_left fun _ => hlines ks

/-- A blank line below the opening brace goes, and a field gets other blanks around it. -/
theorem format_of_edits_struct :
    Relation.EqvGen Edit "type T struct \x7b\n\n  A int \n\x7d\n".toList
        "type T struct \x7b\nA int\n\x7d\n".toList ∧
      format .always "type T struct \x7b\n\n  A int \n\x7d\n" =
        .ok "type T struct \x7b\n\tA int\n\x7d\n" := by
  have hedits : Relation.EqvGen Edit "type T struct \x7b\n\n  A int \n\x7d\n".toList
      "type T struct \x7b\nA int\n\x7d\n".toList := by
    refine .trans _ "type T struct \x7b\n\nA int\n\x7d\n".toList _ (.rel _ _ ?_) (.symm _ _ (.rel _ _ ?_))
    · exact .margins ["type T struct \x7b".toList, []] ["\x7d".toList] "  A int ".toList "A int".toList
        (by decide +kernel) (by decide +kernel) (by decide +kernel) (by decide +kernel)
    · exact .blank ["type T struct \x7b".toList] ["A int".toList, "\x7d".toList] []
        (by decide +kernel) (by decide +kernel) (by decide +kernel) rfl (.underOpener (by decide +kernel))
  have h : (format .always "type T struct \x7b\nA int\n\x7d\n").toOption =
      some "type T struct \x7b\n\tA int\n\x7d\n" := by
    decide +kernel
  exact ⟨hedits, (format_of_edits hedits _).2 (Fallible.toOption_eq_some.1 h)⟩

end ServiceSchema.Go
