/-
  ServiceSchema.Proofs.KeptLines — lines without redundant blank ones.

  Dropping redundant blank lines drops blank lines and keeps all others in their order
  (`Kept`). Whether a blank line is redundant depends on the lines around it, but not on what
  they say: on whether they are blank, leave a bracket open, or begin by closing one.

  - `keepLine_cases`: one step, as the list of kept lines grows.
  - `kept_dropRedundantBlanks`: only blank lines are dropped.
  - `dropRedundantBlanks_idem`: what is left has no redundant blank lines.
  - `dropRedundantBlanks_of_sameShape`: nor have lines of the same shape.
-/
import Mathlib.Data.List.DropRight
import Mathlib.Data.List.Forall2
import ServiceSchema.Go.BlankLines

namespace ServiceSchema.Go

/-! ## Dropping blank lines -/

/-- The lines of which some blank ones are gone. -/
inductive Kept : List Line → List Line → Prop
  | nil : Kept [] []
  | keep {l : Line} {ls ks : List Line} (h : Kept ls ks) : Kept (l :: ls) (l :: ks)
  | drop {l : Line} {ls ks : List Line} (hl : l.isBlank = true) (h : Kept ls ks) : Kept (l :: ls) ks

namespace Kept

variable {ls ks js : List Line}

theorem refl (ls : List Line) : Kept ls ls := by
  induction ls with
  | nil => exact .nil
  | cons l ls ih => exact .keep ih

theorem trans (h : Kept ls ks) (h' : Kept ks js) : Kept ls js := by
  induction h generalizing js with
  | nil => exact h'
  | keep _ ih =>
    cases h' with
    | keep h' => exact .keep (ih h')
    | drop hl h' => exact .drop hl (ih h')
  | drop hl _ ih => exact .drop hl (ih h')

theorem append {ls' ks' : List Line} (h : Kept ls ks) (h' : Kept ls' ks') :
    Kept (ls ++ ls') (ks ++ ks') := by
  induction h with
  | nil => exact h'
  | keep _ ih => exact .keep ih
  | drop hl _ ih => exact .drop hl ih

theorem reverse (h : Kept ls ks) : Kept ls.reverse ks.reverse := by
  induction h with
  | nil => exact .nil
  | keep _ ih =>
    rw [List.reverse_cons, List.reverse_cons]
    exact ih.append (.refl _)
  | @drop l ls ks hl _ ih =>
    rw [List.reverse_cons, ← List.append_nil ks.reverse]
    exact ih.append (.drop hl .nil)

/-- What blank lines do not have, selects the same lines. -/
theorem filter_eq (h : Kept ls ks) {p : Line → Bool} (hp : ∀ l, l.isBlank = true → p l = false) :
    ks.filter p = ls.filter p := by
  induction h with
  | nil => rfl
  | keep _ ih => rw [List.filter_cons, List.filter_cons, ih]
  | drop hl _ ih => rw [List.filter_cons_of_neg (by simp [hp _ hl]), ih]

theorem sublist (h : Kept ls ks) : ks.Sublist ls := by
  induction h with
  | nil => exact .slnil
  | keep _ ih => exact ih.cons_cons _
  | drop _ _ ih => exact ih.cons _

end Kept

theorem kept_dropWhile (ls : List Line) : Kept ls (ls.dropWhile Line.isBlank) := by
  induction ls with
  | nil => exact .nil
  | cons l ls ih =>
    by_cases hl : l.isBlank = true
    · rw [List.dropWhile_cons_of_pos hl]
      exact .drop hl ih
    · rw [List.dropWhile_cons_of_neg hl]
      exact .refl _

/-- A blank line may be dropped. Any other line is kept, and then it would be kept a second
    time below the same lines. -/
theorem keepLine_cases (kept : List Line) (l : Line) :
    l.isBlank = true ∧ keepLine kept l = kept ∨
      ∃ ks, Kept kept ks ∧ ks <:+ kept ∧ keepLine kept l = l :: ks ∧ keepLine ks l = l :: ks := by
  have hself : keepLine kept l = l :: kept →
      ∃ ks, Kept kept ks ∧ ks <:+ kept ∧ keepLine kept l = l :: ks ∧ keepLine ks l = l :: ks :=
    fun h => ⟨kept, .refl _, List.suffix_refl _, h, h⟩
  by_cases hl : l.isBlank = true
  · cases kept with
    | nil =>
      refine Or.inl ⟨hl, ?_⟩
      simp [keepLine, hl]
    | cons k kept =>
      by_cases hk : (k.isBlank || k.opens) = true
      · refine Or.inl ⟨hl, ?_⟩
        simp only [keepLine, hl, hk, if_true]
      · refine Or.inr (hself ?_)
        simp only [keepLine, hl, hk, if_true, if_false, Bool.false_eq_true]
  · refine Or.inr ?_
    by_cases hc : startsWithCloser l.text = true
    · refine ⟨kept.dropWhile Line.isBlank, kept_dropWhile kept, List.dropWhile_suffix _, ?_, ?_⟩
      · simp only [keepLine, hl, hc, if_true, if_false, Bool.false_eq_true]
      · simp only [keepLine, hl, hc, if_true, if_false, Bool.false_eq_true,
          List.dropWhile_idempotent _ _]
    · refine hself ?_
      simp only [keepLine, hl, hc, if_false, Bool.false_eq_true]

theorem kept_foldl_keepLine (ls kept : List Line) :
    Kept (ls.reverse ++ kept) (ls.foldl keepLine kept) := by
  induction ls generalizing kept with
  | nil => exact .refl _
  | cons l ls ih =>
    rw [List.foldl_cons, List.reverse_cons, List.append_assoc, List.singleton_append]
    refine ((Kept.refl ls.reverse).append ?_).trans (ih (keepLine kept l))
    rcases keepLine_cases kept l with ⟨hl, hkeep⟩ | ⟨ks, hks, -, hkeep, -⟩
    · rw [hkeep]
      exact .drop hl (.refl _)
    · rw [hkeep]
      exact .keep hks

theorem kept_dropRedundantBlanks (ls : List Line) : Kept ls (dropRedundantBlanks ls) := by
  have hfold := (kept_foldl_keepLine ls []).trans (kept_dropWhile _)
  rw [List.append_nil] at hfold
  have hrev := hfold.reverse
  rwa [List.reverse_reverse] at hrev

/-! ## Dropping them again -/

/-- Lines, newest first, that are all kept, and so are the older ones of them. -/
def Tidy (kept : List Line) : Prop := ∀ ks, ks <:+ kept → ks.reverse.foldl keepLine [] = ks

namespace Tidy

variable {kept : List Line}

theorem nil : Tidy [] := by
  intro ks hks
  rw [List.suffix_nil.1 hks]
  rfl

theorem suffix {ks : List Line} (h : Tidy kept) (hks : ks <:+ kept) : Tidy ks :=
  fun js hjs => h js (hjs.trans hks)

theorem cons {l : Line} (h : Tidy kept) (hl : keepLine kept l = l :: kept) : Tidy (l :: kept) := by
  intro ks hks
  rcases List.suffix_cons_iff.1 hks with rfl | hks
  · rw [List.reverse_cons, List.foldl_append, h kept (List.suffix_refl _)]
    exact hl
  · exact h ks hks

theorem keepLine (h : Tidy kept) (l : Line) : Tidy (keepLine kept l) := by
  rcases keepLine_cases kept l with ⟨-, hkeep⟩ | ⟨ks, -, hks, hkeep, hagain⟩
  · rw [hkeep]
    exact h
  · rw [hkeep]
    exact (h.suffix hks).cons hagain

theorem foldl_keepLine (h : Tidy kept) (ls : List Line) : Tidy (ls.foldl Go.keepLine kept) := by
  induction ls generalizing kept with
  | nil => exact h
  | cons l ls ih => exact ih (h.keepLine l)

end Tidy

/-- Lines without redundant blank ones have no redundant blank ones. -/
theorem dropRedundantBlanks_idem (ls : List Line) :
    dropRedundantBlanks (dropRedundantBlanks ls) = dropRedundantBlanks ls := by
  have htidy : Tidy ((ls.foldl keepLine []).dropWhile Line.isBlank) :=
    (Tidy.nil.foldl_keepLine ls).suffix (List.dropWhile_suffix _)
  unfold dropRedundantBlanks
  rw [htidy _ (List.suffix_refl _), List.dropWhile_idempotent _ _]

/-! ## Lines of the same shape -/

/-- Texts that begin alike are empty, or begin with a closing bracket, alike. -/
theorem start_of_head? {text text' : List Char} (h : text'.head? = text.head?) :
    text'.isEmpty = text.isEmpty ∧ startsWithCloser text' = startsWithCloser text := by
  cases text with
  | nil =>
    rw [List.head?_eq_none_iff.1 h]
    exact ⟨rfl, rfl⟩
  | cons c cs =>
    obtain ⟨cs', rfl⟩ := List.head?_eq_some_iff.1 h
    exact ⟨rfl, rfl⟩

/-- Lines that are kept or dropped alike. -/
structure SameShape (l m : Line) : Prop where
  head : m.text.head? = l.text.head?
  opens : m.opens = l.opens

theorem SameShape.isBlank {l m : Line} (h : SameShape l m) : m.isBlank = l.isBlank :=
  (start_of_head? h.head).1

section

variable {ks ms : List Line}

theorem forall₂_dropWhile_isBlank (h : List.Forall₂ SameShape ks ms) :
    List.Forall₂ SameShape (ks.dropWhile Line.isBlank) (ms.dropWhile Line.isBlank) := by
  induction h with
  | nil => exact .nil
  | @cons l m ks ms hlm h ih =>
    by_cases hl : l.isBlank = true
    · rw [List.dropWhile_cons_of_pos hl, List.dropWhile_cons_of_pos (hlm.isBlank ▸ hl)]
      exact ih
    · rw [List.dropWhile_cons_of_neg hl, List.dropWhile_cons_of_neg (hlm.isBlank ▸ hl)]
      exact .cons hlm h

theorem forall₂_keepLine {l m : Line} (h : List.Forall₂ SameShape ks ms) (hlm : SameShape l m) :
    List.Forall₂ SameShape (keepLine ks l) (keepLine ms m) := by
  unfold keepLine
  rw [hlm.isBlank, (start_of_head? hlm.head).2]
  split
  · cases h with
    | nil => exact .nil
    | @cons k k' ks ms hk h =>
      simp only [hk.isBlank, hk.opens]
      split
      · exact .cons hk h
      · exact .cons hlm (.cons hk h)
  · split
    · exact .cons hlm (forall₂_dropWhile_isBlank h)
    · exact .cons hlm h

theorem forall₂_dropRedundantBlanks (h : List.Forall₂ SameShape ks ms) :
    List.Forall₂ SameShape (dropRedundantBlanks ks) (dropRedundantBlanks ms) := by
  have hfold : ∀ kept kept', List.Forall₂ SameShape kept kept' →
      List.Forall₂ SameShape (ks.foldl keepLine kept) (ms.foldl keepLine kept') := by
    induction h with
    | nil => exact fun _ _ hkept => hkept
    | cons hlm _ ih => exact fun _ _ hkept => ih _ _ (forall₂_keepLine hkept hlm)
  exact List.rel_reverse (forall₂_dropWhile_isBlank (hfold [] [] .nil))

/-- Lines of the same shape as lines that are all kept are all kept. -/
theorem dropRedundantBlanks_of_sameShape (h : List.Forall₂ SameShape ks ms)
    (hks : dropRedundantBlanks ks = ks) : dropRedundantBlanks ms = ms := by
  have hlength : (dropRedundantBlanks ms).length = ms.length := by
    rw [← (forall₂_dropRedundantBlanks h).length_eq, hks, h.length_eq]
  exact (kept_dropRedundantBlanks ms).sublist.eq_of_length hlength

end

end ServiceSchema.Go
