/-
  ServiceSchema.Proofs.BracketWords — words of brackets, and the first mark that spoils one.

  What counts in a text outside its literals and comments are its brackets, and the line ends
  that break off a literal. The brackets have to form a balanced word; a mark that no balanced
  word has behind what came before is a fault, and the first of them is the one to report.

  - `balanced_iff`: a word is balanced exactly if reading it with a stack leaves no bracket open.
  - `stacked_iff`: what a stack holds behind a word, told by the grammar of balanced words.
  - `spoiled_iff`: the fault that reading ends in is that of the first mark which spoils the word.
-/
import ServiceSchema.Fault
import ServiceSchema.Go.Bracket
import ServiceSchema.Proofs.Fallible

namespace ServiceSchema.Go

/-! ## Words -/

/-- A bracket with its line, or the end of a line that breaks off a literal. -/
inductive Mark where
  | opens (kind : Bracket) (line : Nat)
  | closes (kind : Bracket) (line : Nat)
  | breaks (line : Nat)
  deriving DecidableEq, Repr

/-- The words in which every bracket that opens is closed by one of its kind, with a balanced
    word between them. -/
inductive Balanced : List Mark → Prop
  | nil : Balanced []
  | enclose {kind : Bracket} {m n : Nat} {inner rest : List Mark} : Balanced inner → Balanced rest →
      Balanced (.opens kind m :: (inner ++ .closes kind n :: rest))

/-- Some balanced word begins so. -/
def Begins (w : List Mark) : Prop := ∃ rest, Balanced (w ++ rest)

/-- The fault of the first mark that no balanced word has at its place: a closing bracket with
    none open before it, or with one of another kind as the innermost open one, or the end of a
    line that breaks off a literal. -/
inductive Spoiled : List Mark → LayoutFault → Prop
  | unexpected {before after : List Mark} {kind : Bracket} {line : Nat} : Balanced before →
      Spoiled (before ++ .closes kind line :: after) (.unexpected kind.closer line)
  | mismatched {outer inner after : List Mark} {kind other : Bracket} {m n : Nat} : Begins outer →
      Balanced inner → kind ≠ other →
      Spoiled (outer ++ .opens kind m :: inner ++ .closes other n :: after)
        (.mismatched kind.opener m other.closer n)
  | unterminatedLiteral {before after : List Mark} {line : Nat} : Begins before →
      Spoiled (before ++ .breaks line :: after) (.unterminatedLiteral line)

theorem Balanced.append {w v : List Mark} (hw : Balanced w) (hv : Balanced v) : Balanced (w ++ v) := by
  induction hw with
  | nil => exact hv
  | enclose hinner _ _ ih =>
    rw [List.cons_append, List.append_assoc, List.cons_append]
    exact .enclose hinner ih

theorem Balanced.pair {w : List Mark} (h : Balanced w) (kind : Bracket) (m n : Nat) :
    Balanced (.opens kind m :: w ++ [.closes kind n]) := .enclose h .nil

theorem Balanced.breaks_notMem {w : List Mark} (h : Balanced w) (line : Nat) : .breaks line ∉ w := by
  induction h with
  | nil => exact List.not_mem_nil
  | enclose _ _ hinner hrest => simp [hinner, hrest]

/-! ## Reading with a stack -/

/-- The open brackets, the innermost first, behind one more mark. -/
def absorb : List (Bracket × Nat) → Mark → Except LayoutFault (List (Bracket × Nat))
  | stack, .opens kind line => .ok ((kind, line) :: stack)
  | [], .closes kind line => .error (.unexpected kind.closer line)
  | (top, m) :: stack, .closes kind line =>
    if top = kind then .ok stack else .error (.mismatched top.opener m kind.closer line)
  | _, .breaks line => .error (.unterminatedLiteral line)

def absorbAll (stack : List (Bracket × Nat)) (w : List Mark) : Except LayoutFault (List (Bracket × Nat)) :=
  w.foldlM absorb stack

theorem absorbAll_cons (stack : List (Bracket × Nat)) (mark : Mark) (w : List Mark) :
    absorbAll stack (mark :: w) = absorb stack mark >>= fun stack' => absorbAll stack' w :=
  List.foldlM_cons

theorem absorbAll_append (stack : List (Bracket × Nat)) (w v : List Mark) :
    absorbAll stack (w ++ v) = absorbAll stack w >>= fun stack' => absorbAll stack' v :=
  List.foldlM_append

theorem absorbAll_balanced {w : List Mark} (h : Balanced w) (stack : List (Bracket × Nat)) :
    absorbAll stack w = .ok stack := by
  induction h generalizing stack with
  | nil => rfl
  | @enclose kind m n inner rest _ _ hinner hrest =>
    have hclose : absorb ((kind, m) :: stack) (.closes kind n) = .ok stack := by simp [absorb]
    rw [absorbAll_cons, absorb, Fallible.ok_bind, absorbAll_append, hinner, Fallible.ok_bind,
      absorbAll_cons, hclose, Fallible.ok_bind, hrest]

/-- The stack holds the open brackets of a word: between them the word is balanced. -/
inductive Stacked : List (Bracket × Nat) → List Mark → Prop
  | nil {w : List Mark} : Balanced w → Stacked [] w
  | cons {stack : List (Bracket × Nat)} {outer inner : List Mark} {kind : Bracket} {line : Nat} :
      Stacked stack outer → Balanced inner →
      Stacked ((kind, line) :: stack) (outer ++ .opens kind line :: inner)

namespace Stacked

variable {stack stack' : List (Bracket × Nat)} {w v : List Mark}

theorem append (h : Stacked stack w) (hv : Balanced v) : Stacked stack (w ++ v) := by
  cases h with
  | nil hw => exact .nil (hw.append hv)
  | cons houter hinner =>
    rw [List.append_assoc, List.cons_append]
    exact .cons houter (hinner.append hv)

theorem close {kind : Bracket} {m : Nat} (h : Stacked ((kind, m) :: stack) w) (n : Nat) :
    Stacked stack (w ++ [.closes kind n]) := by
  cases h with
  | cons houter hinner =>
    rw [List.append_assoc]
    exact houter.append (hinner.pair kind m n)

theorem absorb {mark : Mark} (h : Stacked stack w) (hmark : Go.absorb stack mark = .ok stack') :
    Stacked stack' (w ++ [mark]) := by
  cases mark with
  | opens kind line =>
    cases hmark
    exact .cons h .nil
  | closes kind line =>
    cases stack with
    | nil => cases hmark
    | cons top stack =>
      obtain ⟨top, m⟩ := top
      by_cases hkind : top = kind
      · subst hkind
        simp only [Go.absorb, if_true] at hmark
        cases hmark
        exact h.close line
      · simp only [Go.absorb, if_neg hkind] at hmark
        cases hmark
  | breaks line => cases hmark

theorem absorbAll (h : Stacked stack w) (hv : Go.absorbAll stack v = .ok stack') :
    Stacked stack' (w ++ v) := by
  induction v generalizing stack w with
  | nil =>
    cases hv
    rwa [List.append_nil]
  | cons mark v ih =>
    rw [absorbAll_cons, Fallible.bind_eq_ok] at hv
    obtain ⟨stack'', hmark, hv⟩ := hv
    have hrest := ih (h.absorb hmark) hv
    rwa [List.append_assoc] at hrest

/-- Closing what is open makes the word balanced. -/
theorem begins (h : Stacked stack w) : Begins w := by
  induction stack generalizing w with
  | nil =>
    cases h with
    | nil hw => exact ⟨[], by rwa [List.append_nil]⟩
  | cons top stack ih =>
    obtain ⟨rest, hrest⟩ := ih (h.close 0)
    exact ⟨_, by rwa [List.append_assoc] at hrest⟩

end Stacked

/-- Reading a word leaves the brackets on the stack that the word has open. -/
theorem stacked_iff {stack : List (Bracket × Nat)} {w : List Mark} :
    absorbAll [] w = .ok stack ↔ Stacked stack w := by
  constructor
  · intro h
    exact (Stacked.nil .nil).absorbAll h
  · intro h
    induction h with
    | nil hw => exact absorbAll_balanced hw []
    | cons _ hinner ih =>
      rw [absorbAll_append, ih, Fallible.ok_bind, absorbAll_cons, absorb, Fallible.ok_bind,
        absorbAll_balanced hinner]

theorem balanced_iff {w : List Mark} : Balanced w ↔ absorbAll [] w = .ok [] := by
  rw [stacked_iff]
  constructor
  · exact .nil
  · intro h
    cases h with
    | nil hw => exact hw

theorem begins_iff {w : List Mark} : Begins w ↔ ∃ stack, absorbAll [] w = .ok stack := by
  constructor
  · intro h
    obtain ⟨rest, hrest⟩ := h
    rw [balanced_iff, absorbAll_append, Fallible.bind_eq_ok] at hrest
    obtain ⟨stack, hstack, -⟩ := hrest
    exact ⟨stack, hstack⟩
  · intro h
    obtain ⟨stack, hstack⟩ := h
    exact (stacked_iff.1 hstack).begins

/-- Reading fails at a mark, and not before. -/
theorem absorbAll_eq_error {stack : List (Bracket × Nat)} {w : List Mark} {fault : LayoutFault} :
    absorbAll stack w = .error fault ↔ ∃ before mark after stack', w = before ++ mark :: after ∧
      absorbAll stack before = .ok stack' ∧ absorb stack' mark = .error fault := by
  constructor
  · intro h
    induction w generalizing stack with
    | nil => cases h
    | cons mark w ih =>
      rw [absorbAll_cons, Fallible.bind_eq_error] at h
      rcases h with h | ⟨stack'', hmark, h⟩
      · exact ⟨[], mark, w, stack, rfl, rfl, h⟩
      · obtain ⟨before, bad, after, stack', rfl, hbefore, hbad⟩ := ih h
        refine ⟨mark :: before, bad, after, stack', rfl, ?_, hbad⟩
        rw [absorbAll_cons, hmark]
        exact hbefore
  · intro h
    obtain ⟨before, mark, after, stack', rfl, hbefore, hmark⟩ := h
    rw [absorbAll_append, hbefore, Fallible.ok_bind, absorbAll_cons, hmark]
    rfl

/-- The fault that reading ends in is that of the first mark which spoils the word. -/
theorem spoiled_iff {w : List Mark} {fault : LayoutFault} :
    absorbAll [] w = .error fault ↔ Spoiled w fault := by
  constructor
  · intro h
    obtain ⟨before, mark, after, stack, rfl, hbefore, hmark⟩ := absorbAll_eq_error.1 h
    have hstacked := stacked_iff.1 hbefore
    cases mark with
    | opens kind line => cases hmark
    | breaks line =>
      cases hmark
      exact .unterminatedLiteral hstacked.begins
    | closes kind line =>
      cases hstacked with
      | nil hw =>
        cases hmark
        exact .unexpected hw
      | @cons stack outer inner top m houter hinner =>
        by_cases hkind : top = kind
        · simp only [absorb, if_pos hkind] at hmark
          cases hmark
        · simp only [absorb, if_neg hkind] at hmark
          cases hmark
          exact .mismatched houter.begins hinner hkind
  · intro h
    rw [absorbAll_eq_error]
    cases h with
    | unexpected hbefore => exact ⟨_, _, _, [], rfl, balanced_iff.1 hbefore, rfl⟩
    | @mismatched outer inner after kind other m n houter hinner hkind =>
      obtain ⟨stack, hstack⟩ := begins_iff.1 houter
      refine ⟨_, _, _, (kind, m) :: stack, rfl, ?_, by simp [absorb, hkind]⟩
      exact stacked_iff.2 (.cons (stacked_iff.1 hstack) hinner)
    | unterminatedLiteral hbefore =>
      obtain ⟨stack, hstack⟩ := begins_iff.1 hbefore
      refine ⟨_, _, _, stack, rfl, hstack, ?_⟩
      cases stack with
      | nil => rfl
      | cons top stack => rfl

end ServiceSchema.Go
