/-
  ServiceSchema.Proofs.SpacedLines — how the lines that stay follow each other.

  Whether a blank line stays is told by its neighbours: the line above it is neither blank nor
  leaves a bracket open, and the line below does not begin by closing one (`Follows`). Lines
  are all kept exactly if each follows the one above it and the first and the last are not
  blank (`Spaced`). A line that is not blank keeps what is above it apart from what is below.

  - `keepLine_eq_cons`: one step, told by the neighbour.
  - `dropRedundantBlanks_eq_self_iff`: the lines of which none is dropped.
  - `dropRedundantBlanks_split`: above and below a line that is not blank, lines are dropped
    independently.
-/
import Mathlib.Data.List.Chain
import ServiceSchema.Proofs.KeptLines

namespace ServiceSchema.Go

/-- The second line may stay below the first: it is blank only below a line that is not blank and
    leaves no bracket open, and begins by closing a bracket only below a line that is not blank. -/
structure Follows (k l : Line) : Prop where
  blank : l.isBlank = true → k.isBlank = false ∧ k.opens = false
  closer : startsWithCloser l.text = true → k.isBlank = false

/-- Lines without redundant blank ones. -/
structure Spaced (ls : List Line) : Prop where
  first : ∀ l, ls.head? = some l → l.isBlank = false
  last : ∀ l, ls.getLast? = some l → l.isBlank = false
  chain : ls.IsChain Follows

theorem startsWithCloser_of_isBlank {l : Line} (h : l.isBlank = true) : startsWithCloser l.text = false := by
  rw [List.isEmpty_iff.1 h]
  rfl

/-! ## One step -/

theorem keepLine_eq (kept : List Line) (l : Line) :
    keepLine kept l =
      if l.isBlank then
        if kept.head?.all fun k => k.isBlank || k.opens then kept else l :: kept
      else l :: if startsWithCloser l.text then kept.dropWhile Line.isBlank else kept := by
  unfold keepLine
  cases kept with
  | nil => simp
  | cons k kept =>
    rw [List.head?_cons, Option.all_some]
    by_cases hl : l.isBlank = true
    · rw [if_pos hl, if_pos hl]
    · rw [if_neg hl, if_neg hl, apply_ite (l :: ·)]

/-- A blank line is put on top of the kept ones exactly if the topmost is not blank and leaves no
    bracket open. -/
theorem keepLine_blank_eq_cons {kept : List Line} {l : Line} (hl : l.isBlank = true) :
    keepLine kept l = l :: kept ↔ ∃ k, kept.head? = some k ∧ k.isBlank = false ∧ k.opens = false := by
  rw [keepLine_eq, if_pos hl]
  cases kept with
  | nil => simp
  | cons k kept =>
    rw [List.head?_cons, Option.all_some]
    constructor
    · intro h
      refine ⟨k, rfl, ?_⟩
      split at h
      · have hlength := congrArg List.length h
        simp at hlength
      · rename_i hk
        rwa [Bool.or_eq_true, not_or, Bool.not_eq_true, Bool.not_eq_true] at hk
    · rintro ⟨k', hk', hblank, hopens⟩
      cases hk'
      rw [hblank, hopens]
      rfl

/-- Any other line takes no kept line away exactly if it does not begin by closing a bracket or the
    topmost is not blank. -/
theorem keepLine_ink_eq_cons {kept : List Line} {l : Line} (hl : l.isBlank = false) :
    keepLine kept l = l :: kept ↔
      (startsWithCloser l.text = true → ∀ k, kept.head? = some k → k.isBlank = false) := by
  rw [keepLine_eq, if_neg (Bool.eq_false_iff.1 hl), List.cons_inj_right]
  by_cases hc : startsWithCloser l.text = true
  · rw [if_pos hc, imp_iff_right hc, List.dropWhile_eq_self_iff]
    constructor
    · intro h k hk
      obtain ⟨rest, rfl⟩ := List.head?_eq_some_iff.1 hk
      exact Bool.eq_false_iff.2 (h (Nat.succ_pos _))
    · intro h hlength
      have hk := h kept[0] (List.head?_eq_getElem? ▸ List.getElem?_eq_getElem hlength)
      exact Bool.eq_false_iff.1 hk
  · rw [if_neg hc]
    exact iff_of_true rfl fun hcloser => absurd hcloser hc

/-- A line is put on top of the kept ones, and none of these goes, exactly if it may follow the
    topmost. -/
theorem keepLine_eq_cons {kept : List Line} {l : Line} :
    keepLine kept l = l :: kept ↔
      (kept = [] → l.isBlank = false) ∧ ∀ k, kept.head? = some k → Follows k l := by
  by_cases hl : l.isBlank = true
  · rw [keepLine_blank_eq_cons hl]
    constructor
    · rintro ⟨k, hk, hblank, hopens⟩
      refine ⟨fun hnil => absurd hk (by simp [hnil]), fun k' hk' => ?_⟩
      cases Option.some.inj (hk.symm.trans hk')
      exact ⟨fun _ => ⟨hblank, hopens⟩, fun _ => hblank⟩
    · rintro ⟨hfirst, hfollows⟩
      cases kept with
      | nil => exact absurd (hfirst rfl) (by simp [hl])
      | cons k kept => exact ⟨k, rfl, (hfollows k rfl).blank hl⟩
  · rw [Bool.not_eq_true] at hl
    rw [keepLine_ink_eq_cons hl, and_iff_right fun _ => hl]
    constructor
    · intro h k hk
      exact ⟨fun hblank => absurd hblank (by simp [hl]), fun hcloser => h hcloser k hk⟩
    · intro h hcloser k hk
      exact (h k hk).closer hcloser

/-! ## All lines -/

theorem Tidy.keepLine_eq {kept : List Line} {l : Line} (h : Tidy (l :: kept)) :
    Go.keepLine kept l = l :: kept := by
  have hall := h (l :: kept) (List.suffix_refl _)
  rw [List.reverse_cons, List.foldl_append, h kept (List.suffix_cons _ _)] at hall
  exact hall

/-- Lines that are all kept follow each other. -/
theorem Tidy.chain {kept : List Line} (h : Tidy kept) :
    kept.reverse.IsChain Follows ∧ ∀ l, kept.getLast? = some l → l.isBlank = false := by
  induction kept with
  | nil => exact ⟨.nil, fun l hl => by cases hl⟩
  | cons l kept ih =>
    obtain ⟨hchain, hlast⟩ := ih (h.suffix (List.suffix_cons _ _))
    obtain ⟨hfirst, hfollows⟩ := keepLine_eq_cons.1 h.keepLine_eq
    constructor
    · rw [List.reverse_cons, List.isChain_append]
      refine ⟨hchain, .singleton l, fun k hk l' hl' => ?_⟩
      rw [List.getLast?_reverse] at hk
      cases hl'
      exact hfollows k hk
    · intro l' hl'
      cases kept with
      | nil =>
        cases hl'
        exact hfirst rfl
      | cons k kept => exact hlast l' (by rwa [List.getLast?_cons_cons] at hl')

theorem spaced_dropRedundantBlanks (ls : List Line) : Spaced (dropRedundantBlanks ls) := by
  have htidy : Tidy ((ls.foldl keepLine []).dropWhile Line.isBlank) :=
    (Tidy.nil.foldl_keepLine ls).suffix (List.dropWhile_suffix _)
  obtain ⟨hchain, hlast⟩ := htidy.chain
  refine ⟨fun l hl => ?_, fun l hl => ?_, hchain⟩
  · rw [dropRedundantBlanks, List.head?_reverse] at hl
    exact hlast l hl
  · rw [dropRedundantBlanks, List.getLast?_reverse] at hl
    have hhead := List.head?_dropWhile_not Line.isBlank (ls.foldl keepLine [])
    rw [hl] at hhead
    exact hhead

/-- Lines that follow each other are all put on top of each other. -/
theorem foldl_keepLine_of_chain {ls : List Line} (hfirst : ∀ l, ls.head? = some l → l.isBlank = false)
    (hchain : ls.IsChain Follows) : ls.foldl keepLine [] = ls.reverse := by
  induction ls using List.reverseRecOn with
  | nil => rfl
  | append_singleton ls l ih =>
    rw [List.isChain_append] at hchain
    have hbefore : ls.foldl keepLine [] = ls.reverse := by
      refine ih (fun k hk => hfirst k ?_) hchain.1
      rw [List.head?_append, hk]
      rfl
    rw [List.foldl_append, hbefore, List.reverse_append, List.reverse_singleton, List.singleton_append]
    refine keepLine_eq_cons.2 ⟨fun hnil => ?_, fun k hk => ?_⟩
    · rw [List.reverse_eq_nil_iff] at hnil
      exact hfirst l (by rw [hnil]; rfl)
    · rw [List.head?_reverse] at hk
      exact hchain.2.2 k hk l rfl

/-- No line is dropped exactly if each follows the one above it, and the first and the last are
    not blank. -/
theorem dropRedundantBlanks_eq_self_iff {ls : List Line} : dropRedundantBlanks ls = ls ↔ Spaced ls := by
  constructor
  · intro h
    rw [← h]
    exact spaced_dropRedundantBlanks ls
  · intro h
    rw [dropRedundantBlanks, foldl_keepLine_of_chain h.first h.chain]
    cases hrev : ls.reverse with
    | nil => exact (List.reverse_eq_nil_iff.1 hrev).symm
    | cons l kept =>
      have hl : l.isBlank = false := h.last l (by rw [← List.head?_reverse, hrev]; rfl)
      rw [List.dropWhile_cons_of_neg (by simp [hl]), ← hrev, List.reverse_reverse]

/-! ## Above and below a line -/

section

variable {l : Line} (hl : l.isBlank = false)
include hl

theorem dropWhile_above (above below : List Line) :
    (above ++ l :: below).dropWhile Line.isBlank = above.dropWhile Line.isBlank ++ l :: below := by
  rw [List.dropWhile_append]
  split
  · rename_i hnil
    rw [List.isEmpty_iff.1 hnil, List.dropWhile_cons_of_neg (by simp [hl])]
    rfl
  · rfl

/-- What is below a line that is not blank has no part in a step above it. -/
theorem exists_keepLine_above (above below : List Line) (x : Line) :
    ∃ kept, keepLine (above ++ l :: below) x = kept ++ l :: below ∧
      keepLine (above ++ [l]) x = kept ++ [l] := by
  have hhead : (above ++ l :: below).head? = (above ++ [l]).head? := by simp [List.head?_append]
  rw [keepLine_eq, keepLine_eq, hhead, dropWhile_above hl, dropWhile_above hl]
  split
  · split
    · exact ⟨above, rfl, rfl⟩
    · exact ⟨x :: above, rfl, rfl⟩
  · split
    · exact ⟨x :: above.dropWhile Line.isBlank, rfl, rfl⟩
    · exact ⟨x :: above, rfl, rfl⟩

theorem exists_foldl_keepLine_above (xs above below : List Line) :
    ∃ kept, xs.foldl keepLine (above ++ l :: below) = kept ++ l :: below ∧
      xs.foldl keepLine (above ++ [l]) = kept ++ [l] := by
  induction xs generalizing above with
  | nil => exact ⟨above, rfl, rfl⟩
  | cons x xs ih =>
    obtain ⟨kept, hlong, hshort⟩ := exists_keepLine_above hl above below x
    rw [List.foldl_cons, List.foldl_cons, hlong, hshort]
    exact ih kept

/-- Above and below a line that is not blank, lines are dropped independently. -/
theorem dropRedundantBlanks_split (xs ys : List Line) :
    ∃ front back, dropRedundantBlanks (xs ++ [l]) = front ++ [l] ∧
      dropRedundantBlanks (l :: ys) = l :: back ∧
      dropRedundantBlanks (xs ++ l :: ys) = front ++ l :: back := by
  obtain ⟨below, hpush⟩ : ∃ below, keepLine (xs.foldl keepLine []) l = l :: below := by
    rcases keepLine_cases (xs.foldl keepLine []) l with ⟨hblank, -⟩ | ⟨ks, -, -, hpush, -⟩
    · rw [hl] at hblank
      cases hblank
    · exact ⟨ks, hpush⟩
  have hstart : keepLine [] l = [l] :=
    keepLine_eq_cons.2 ⟨fun _ => hl, fun k hk => by cases hk⟩
  obtain ⟨kept, hlong, hshort⟩ := exists_foldl_keepLine_above hl ys [] below
  rw [List.nil_append] at hlong hshort
  refine ⟨below.reverse, (kept.dropWhile Line.isBlank).reverse, ?_, ?_, ?_⟩
  · rw [dropRedundantBlanks, List.foldl_append, List.foldl_cons, List.foldl_nil, hpush,
      List.dropWhile_cons_of_neg (by simp [hl]), List.reverse_cons]
  · rw [dropRedundantBlanks, List.foldl_cons, hstart, hshort, dropWhile_above hl, List.reverse_append]
    rfl
  · rw [dropRedundantBlanks, List.foldl_append, List.foldl_cons, hpush, hlong, dropWhile_above hl,
      List.reverse_append, List.reverse_cons, List.append_assoc]
    rfl

end

/-! ## A blank line more -/

/-- Where a blank line `l` is dropped, or drops another one that is the same: at the ends, below a
    blank line or one that leaves a bracket open, and above a blank line or one that begins by
    closing a bracket. -/
inductive Superfluous (l : Line) (above below : List Line) : Prop
  | first (h : above = [])
  | last (h : below = [])
  | behind (k : Line) (hk : above.getLast? = some k) (h : k.isBlank = true ∨ k.opens = true)
  | before (m : Line) (hm : below.head? = some m) (h : m = l ∨ startsWithCloser m.text = true)

theorem keepLine_blank {l : Line} (hl : l.isBlank = true) (kept : List Line) :
    keepLine kept l = kept ∨ keepLine kept l = l :: kept := by
  rw [keepLine_eq, if_pos hl]
  split
  · exact Or.inl rfl
  · exact Or.inr rfl

/-- Below a blank line and below one that leaves a bracket open no blank line is kept. -/
theorem keepLine_under {k l : Line} (hl : l.isBlank = true) (hk : k.isBlank = true ∨ k.opens = true)
    (kept : List Line) : keepLine (keepLine kept k) l = keepLine kept k := by
  have htop : ∀ rest, keepLine (k :: rest) l = k :: rest := by
    intro rest
    rw [keepLine_eq, if_pos hl, if_pos]
    rw [List.head?_cons, Option.all_some, Bool.or_eq_true]
    exact hk
  by_cases hblank : k.isBlank = true
  · rw [keepLine_eq kept k, if_pos hblank]
    split
    · rename_i hall
      rw [keepLine_eq, if_pos hl, if_pos hall]
    · exact htop kept
  · rw [keepLine_eq kept k, if_neg hblank]
    exact htop _

/-- Above a line that begins by closing a bracket no blank line is kept, and of two that are the
    same one is not. -/
theorem keepLine_over {l m : Line} (hl : l.isBlank = true) (hm : m = l ∨ startsWithCloser m.text = true)
    (kept : List Line) : keepLine (keepLine kept l) m = keepLine kept m := by
  rcases hm with rfl | hm
  · exact keepLine_under hl (Or.inl hl) kept
  · have hink : ¬ m.isBlank = true := by
      intro hblank
      rw [startsWithCloser_of_isBlank hblank] at hm
      cases hm
    rcases keepLine_blank hl kept with hkeep | hkeep
    · rw [hkeep]
    · rw [hkeep, keepLine_eq, keepLine_eq, if_neg hink, if_neg hink, if_pos hm, if_pos hm,
        List.dropWhile_cons_of_pos hl]

theorem dropRedundantBlanks_insert {l : Line} (hl : l.isBlank = true) {above below : List Line}
    (h : Superfluous l above below) :
    dropRedundantBlanks (above ++ l :: below) = dropRedundantBlanks (above ++ below) := by
  have hfold : ∀ kept, keepLine kept l = kept → below.foldl keepLine (keepLine kept l) =
      below.foldl keepLine kept := fun kept hkeep => by rw [hkeep]
  rw [dropRedundantBlanks, dropRedundantBlanks, List.foldl_append, List.foldl_append, List.foldl_cons]
  cases h with
  | first h =>
    rw [h, List.foldl_nil, hfold]
    rw [keepLine_eq, if_pos hl]
    rfl
  | last h =>
    rw [h, List.foldl_nil, List.foldl_nil]
    rcases keepLine_blank hl (above.foldl keepLine []) with hkeep | hkeep
    · rw [hkeep]
    · rw [hkeep, List.dropWhile_cons_of_pos hl]
  | behind k hk h =>
    obtain ⟨front, rfl⟩ := List.getLast?_eq_some_iff.1 hk
    rw [hfold]
    rw [List.foldl_append, List.foldl_cons, List.foldl_nil]
    exact keepLine_under hl h _
  | before m hm h =>
    obtain ⟨rest, rfl⟩ := List.head?_eq_some_iff.1 hm
    rw [List.foldl_cons, List.foldl_cons, keepLine_over hl h]

end ServiceSchema.Go
