/-
  ServiceSchema.Proofs.Origins — which line each line of a canonical text comes from.

  A canonical text has some of the lines of its source, in their order (`ComesFrom`): the lines
  it lacks have no ink, and in the others blanks are all that differs. What the layout knew of a
  line, told by the source alone, can so be said of the line that comes from it.

  - `Kept.exists_picked`: the places of lines among those that some blank ones were dropped of.
  - `Picked.comesFrom`: laid out, kept and lined up, lines come from the lines of the source.
  - `standing_of_layout`: how a written line looks, by what is open behind the source lines
    before it and behind its own.
-/
import ServiceSchema.Proofs.Idempotence
import ServiceSchema.Proofs.LineBrackets

namespace ServiceSchema.Go

open Text

/-- Lines that come from other ones, each from one, in their order. Blanks are all that differs,
    and every line with ink is there. -/
structure ComesFrom (raws outs : List (List Char)) (origin : List Nat) : Prop where
  increasing : origin.Pairwise (· < ·)
  respaced : List.Forall₂ (fun i out => ∃ raw, raws[i]? = some raw ∧ Respaced raw out) origin outs
  inked : ∀ i raw, raws[i]? = some raw → hasInk raw = true → i ∈ origin

/-! ## Places -/

/-- The places of `ks` among `ls`, all of whose other lines are blank. -/
structure Picked (ls ks : List Line) (origin : List Nat) : Prop where
  increasing : origin.Pairwise (· < ·)
  lines : List.Forall₂ (fun i k => ls[i]? = some k) origin ks
  kept : ∀ i l, ls[i]? = some l → l.isBlank = false → i ∈ origin

theorem Kept.exists_picked {ls ks : List Line} (h : Kept ls ks) : ∃ origin, Picked ls ks origin := by
  induction h with
  | nil => exact ⟨[], .nil, .nil, fun i l hl => by cases hl⟩
  | @keep l ls ks _ ih =>
    obtain ⟨origin, hincreasing, hlines, hkept⟩ := ih
    refine ⟨0 :: origin.map (· + 1), ?_, ?_, ?_⟩
    · rw [List.pairwise_cons, List.forall_mem_map, List.pairwise_map]
      exact ⟨fun i _ => Nat.succ_pos i, hincreasing.imp Nat.succ_lt_succ⟩
    · exact .cons rfl (List.forall₂_map_left_iff.2 hlines)
    · intro i k hk hblank
      cases i with
      | zero => exact List.mem_cons_self
      | succ i => exact List.mem_cons_of_mem _ (List.mem_map_of_mem (hkept i k hk hblank))
  | @drop l ls ks hl _ ih =>
    obtain ⟨origin, hincreasing, hlines, hkept⟩ := ih
    refine ⟨origin.map (· + 1), ?_, List.forall₂_map_left_iff.2 hlines, ?_⟩
    · rw [List.pairwise_map]
      exact hincreasing.imp Nat.succ_lt_succ
    · intro i k hk hblank
      cases i with
      | zero =>
        cases hk
        rw [hl] at hblank
        cases hblank
      | succ i => exact List.mem_map_of_mem (hkept i k hk hblank)

/-- Elements of related lists that stand at the same place. -/
theorem exists_of_forall₂_right {α β : Type} {R : α → β → Prop} {xs : List α} {ys : List β}
    (h : List.Forall₂ R xs ys) {k : Nat} {y : β} (hy : ys[k]? = some y) :
    ∃ x, xs[k]? = some x ∧ R x y := by
  induction h generalizing k with
  | nil => cases hy
  | cons hxy _ ih =>
    cases k with
    | zero =>
      cases hy
      exact ⟨_, rfl, hxy⟩
    | succ k => exact ih hy

theorem exists_of_forall₂_left {α β : Type} {R : α → β → Prop} {xs : List α} {ys : List β}
    (h : List.Forall₂ R xs ys) {k : Nat} {x : α} (hx : xs[k]? = some x) :
    ∃ y, ys[k]? = some y ∧ R x y :=
  exists_of_forall₂_right h.flip hx

/-! ## Written lines -/

theorem LinedUp.agree {l j : Line} (h : LinedUp l j) : Agree (ink l.text) (ink j.shown) := by
  rw [Line.shown, ink_indented]
  rcases h.text with htext | ⟨-, hspread⟩
  · rw [htext]
    exact .refl _
  · exact agree_of_spread hspread

theorem Picked.comesFrom {raws : List (List Char)} {ls ks js : List Line} {origin : List Nat}
    (h : Picked ls ks origin) (hls : List.Forall₂ Laid raws ls) (hjs : List.Forall₂ LinedUp ks js) :
    ComesFrom raws (js.map Line.shown) origin := by
  refine ⟨h.increasing, ?_, fun i raw hraw hink => ?_⟩
  · rw [List.forall₂_map_right_iff]
    refine (forall₂_trans h.lines hjs).imp ?_
    rintro i j ⟨l, hl, hj⟩
    obtain ⟨raw, hraw, hlaid⟩ := exists_of_forall₂_right hls hl
    refine ⟨raw, hraw, respaced_of_agree ?_⟩
    rw [← hlaid.ink]
    exact hj.agree
  · obtain ⟨l, hl, hlaid⟩ := exists_of_forall₂_left hls hraw
    refine h.kept i l hl (Bool.eq_false_iff.2 fun hblank => ?_)
    rw [hasInk_eq, ← hlaid.ink, List.isEmpty_iff.1 hblank] at hink
    cases hink

/-- A text that is formatted has been laid out, and its canonical form is what was written. -/
theorem exists_layout_of_format {check : Check} {source out : String} (h : format check source = .ok out) :
    ∃ ls, layout source.toList = .ok ls ∧ out.toList = write ls := by
  obtain ⟨ls, hlayout, hwrite, -⟩ := exists_of_formatChars (format_eq_ok.1 h)
  exact ⟨ls, hlayout, hwrite⟩

section

variable {indent : Nat} {text : List Char}

theorem indented_eq_nil : indented indent text = [] ↔ text = [] := by
  unfold indented
  cases text with
  | nil => simp
  | cons c cs => simp

/-- What is indented begins with its tabs. -/
theorem indented_of_head? (hhead : ∀ c, text.head? = some c → isBlank c = false) :
    (∀ c ∈ (indented indent text).takeWhile isBlank, c = '\t') ∧
      (indented indent text).dropWhile (· = '\t') = text := by
  unfold indented
  cases text with
  | nil => exact ⟨List.forall_mem_nil _, rfl⟩
  | cons c cs =>
    have hc : isBlank c = false := hhead c rfl
    have htab : ¬ c = '\t' := by
      rintro rfl
      cases hc
    have htabs : ∀ d ∈ List.replicate indent '\t', d = '\t' := fun d hd => List.eq_of_mem_replicate hd
    have hblanks : ∀ d ∈ List.replicate indent '\t', isBlank d = true := fun d hd => by
      rw [htabs d hd]
      decide
    simp only [List.isEmpty_cons, Bool.false_eq_true, if_false]
    constructor
    · rw [List.takeWhile_append_of_pos hblanks, List.takeWhile_cons_of_neg (by simp [hc]), List.append_nil]
      exact htabs
    · rw [List.dropWhile_append_of_pos (by simp), List.dropWhile_cons_of_neg (by simpa using htab)]

theorem getLast?_indented : (indented indent text).getLast? = text.getLast? := by
  unfold indented
  cases text with
  | nil => rfl
  | cons c cs => exact List.getLast?_append_of_ne_nil _ (List.cons_ne_nil c cs)

end

/-- How the line looks that comes from line `i`, and what is known of it. -/
structure Standing (raws : List (List Char)) (i : Nat) (l : Line) (out : List Char) : Prop where
  opens : l.opens = true ↔ LeavesOpen (raws.take (i + 1))
  blank : l.isBlank = true ↔ out = []
  closer : ¬ InRaw (raws.take i) → startsWithCloser (out.dropWhile (· = '\t')) = startsWithCloser l.text
  leading : ¬ InRaw (raws.take i) → ∀ c ∈ out.takeWhile isBlank, c = '\t'
  trailing : ¬ InRaw (raws.take i) → ∀ c, out.getLast? = some c → isBlank c = false

theorem standing_of_layout {source : List Char} {ls : List Line} (h : layout source = .ok ls) {i : Nat}
    {l j : Line} (hl : ls[i]? = some l) (hj : LinedUp l j) : Standing (lines source) i l j.shown := by
  obtain ⟨next, hlines⟩ := layout_eq_ok.1 h
  obtain ⟨raw, hraw, -⟩ := exists_of_forall₂_right (laid_layoutLines hlines) hl
  obtain ⟨b, l', b', hat⟩ := exists_atLine h hraw
  cases Option.some.inj (hl.symm.trans hat.laid)
  have htrimmed : l.block.isSome = true → Trimmed l.text :=
    fun hblock => (trimmed_of_block hat.line hblock).2
  have hhead : j.text.head? = l.text.head? := hj.head? htrimmed
  have htext : ¬ InRaw ((lines source).take i) → l.text = trim raw := by
    intro hraw'
    rw [text_of_layoutLine hat.line, keptText, if_neg (mt hat.inRaw.2 hraw')]
  have hends : ¬ InRaw ((lines source).take i) → ∀ c, j.text.head? = some c → isBlank c = false := by
    intro hraw' c hc
    rw [hhead, htext hraw'] at hc
    exact head?_trim hc
  refine ⟨hat.opens, ?_, fun hraw' => ?_, fun hraw' => ?_, fun hraw' c hc => ?_⟩
  · rw [Line.shown, indented_eq_nil, Line.isBlank, ← (start_of_head? hhead).1, List.isEmpty_iff]
  · rw [Line.shown, (indented_of_head? (hends hraw')).2, (start_of_head? hhead).2]
  · exact (indented_of_head? (hends hraw')).1
  · rw [Line.shown, getLast?_indented, hj.getLast? htrimmed, htext hraw'] at hc
    exact getLast?_trim hc

end ServiceSchema.Go
