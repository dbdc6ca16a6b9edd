/-
  ServiceSchema.Proofs.Relayout — a text whose field lines were lined up is laid out again.

  Its lines have the same brackets, literals and comments, so the second layout goes through
  the same states as the first. Only the numbers of the field blocks differ, and a block that
  is not recognised any more has no number: a list of pairs keeps the old and the new ones
  (`Numbering`). Blank lines do not move the layout, so it does not matter which of them are
  gone.

  - `SameScan.run`: the scanner goes through the same states.
  - `SameBetween.layoutLine`: one line is laid out as before.
  - `exists_relayout`: so are all lines, at the same levels and in the same blocks.
-/
import Mathlib.Data.List.DropRight
import ServiceSchema.Proofs.Blocks
import ServiceSchema.Proofs.Rescanning
import ServiceSchema.Proofs.Respacing

namespace ServiceSchema.Text

/-! ## The ends of a line -/

theorem head?_trim {cs : List Char} {c : Char} (h : (trim cs).head? = some c) : isBlank c = false := by
  have hprefix : trim cs <+: trimLeft cs := by
    have hsuffix := List.dropWhile_suffix isBlank (l := (trimLeft cs).reverse)
    rw [← List.reverse_prefix, List.reverse_reverse] at hsuffix
    exact hsuffix
  have hhead : (trimLeft cs).head? = some c := by
    obtain ⟨rest, hrest⟩ := hprefix
    rw [← hrest, List.head?_append, h]
    rfl
  have hdrop := List.head?_dropWhile_not isBlank cs
  rw [trimLeft] at hhead
  rw [hhead] at hdrop
  exact hdrop

theorem getLast?_trim {cs : List Char} {c : Char} (h : (trim cs).getLast? = some c) :
    isBlank c = false := by
  rw [trim, trimRight, List.getLast?_reverse] at h
  have hdrop := List.head?_dropWhile_not isBlank (trimLeft cs).reverse
  rw [h] at hdrop
  exact hdrop

/-- Blanks before a text without blanks around it are trimmed away, and nothing else is. -/
theorem trim_gap {gap text : List Char} (hgap : ∀ c ∈ gap, isBlank c = true)
    (hhead : ∀ c, text.head? = some c → isBlank c = false)
    (hlast : ∀ c, text.getLast? = some c → isBlank c = false) : trim (gap ++ text) = text := by
  have hleft : trimLeft (gap ++ text) = text := by
    rw [trimLeft, List.dropWhile_append_of_pos hgap]
    cases text with
    | nil => rfl
    | cons c cs => exact List.dropWhile_cons_of_neg (by simp [hhead c rfl])
  rw [trim, hleft, trimRight]
  rcases List.eq_nil_or_concat' text with rfl | ⟨cs, c, rfl⟩
  · rfl
  · have hc := hlast c List.getLast?_concat
    rw [List.reverse_append, List.reverse_singleton, List.singleton_append,
      List.dropWhile_cons_of_neg (by simp [hc]), List.reverse_cons, List.reverse_reverse]

end ServiceSchema.Text

namespace ServiceSchema.Go

open Text

/-! ## Numbers of field blocks -/

/-- The new number of a field block, where it has an old one. -/
inductive Renamed (names : List (Nat × Option Nat)) : Option Nat → Option Nat → Prop
  | outside : Renamed names none none
  | inside {n : Nat} {new : Option Nat} (h : (n, new) ∈ names) : Renamed names (some n) new

theorem Renamed.eq_none {names : List (Nat × Option Nat)} {new : Option Nat}
    (h : Renamed names none new) : new = none := by
  cases h
  rfl

theorem Renamed.mem {names : List (Nat × Option Nat)} {n : Nat} {new : Option Nat}
    (h : Renamed names (some n) new) : (n, new) ∈ names := by
  cases h with
  | inside h => exact h

theorem Renamed.mono {names names' : List (Nat × Option Nat)} (hsub : names ⊆ names')
    {block new : Option Nat} (h : Renamed names block new) : Renamed names' block new := by
  cases h with
  | outside => exact .outside
  | inside h => exact .inside (hsub h)

/-- The numbers that `old` blocks got among `new` ones: at most one each, and each another. -/
structure Numbering (names : List (Nat × Option Nat)) (old new : Nat) : Prop where
  below : ∀ p ∈ names, p.1 < old ∧ ∀ x, p.2 = some x → x < new
  single : ∀ {n : Nat} {x y : Option Nat}, (n, x) ∈ names → (n, y) ∈ names → x = y
  apart : ∀ {m n x : Nat}, (m, some x) ∈ names → (n, some x) ∈ names → m = n

namespace Numbering

variable {names : List (Nat × Option Nat)} {old new : Nat}

theorem nil : Numbering [] 0 0 := by
  refine ⟨List.forall_mem_nil _, fun h => ?_, fun h => ?_⟩
  · cases h
  · cases h

/-- The next old block gets the next new number, or none. -/
theorem cons (h : Numbering names old new) {number : Option Nat} {new' : Nat} (hle : new ≤ new')
    (hnumber : ∀ x, number = some x → x = new ∧ new < new') :
    Numbering ((old, number) :: names) (old + 1) new' := by
  refine ⟨?_, ?_, ?_⟩
  · rw [List.forall_mem_cons]
    refine ⟨⟨Nat.lt_succ_self old, fun x hx => ?_⟩, fun p hp => ⟨?_, fun x hx => ?_⟩⟩
    · obtain ⟨rfl, hlt⟩ := hnumber x hx
      exact hlt
    · exact Nat.lt_succ_of_lt (h.below p hp).1
    · exact Nat.lt_of_lt_of_le ((h.below p hp).2 x hx) hle
  · intro n x y hx hy
    have hfresh : ∀ z, (old, z) ∉ names := fun z hz => Nat.lt_irrefl old (h.below _ hz).1
    rcases List.mem_cons.1 hx with hx | hx
    · obtain ⟨rfl, rfl⟩ := Prod.mk.inj hx
      rcases List.mem_cons.1 hy with hy | hy
      · exact (Prod.mk.inj hy).2.symm
      · exact absurd hy (hfresh y)
    · rcases List.mem_cons.1 hy with hy | hy
      · rw [(Prod.mk.inj hy).1] at hx
        exact absurd hx (hfresh x)
      · exact h.single hx hy
  · intro m n x hm hn
    have hfresh : number = some x → ∀ k, (k, some x) ∉ names := by
      intro hx k hk
      rw [(hnumber x hx).1] at hk
      exact Nat.lt_irrefl new ((h.below _ hk).2 new rfl)
    rcases List.mem_cons.1 hm with hm | hm
    · obtain ⟨rfl, hx⟩ := Prod.mk.inj hm
      rcases List.mem_cons.1 hn with hn | hn
      · exact (Prod.mk.inj hn).1.symm
      · exact absurd hn (hfresh hx.symm n)
    · rcases List.mem_cons.1 hn with hn | hn
      · exact absurd hm (hfresh (Prod.mk.inj hn).2.symm m)
      · exact h.apart hm hn

end Numbering

/-! ## The scanner -/

variable {names : List (Nat × Option Nat)}

/-- The same open bracket, whatever line it was opened on. -/
structure SameOpen (names : List (Nat × Option Nat)) (o o' : Open) : Prop where
  kind : o'.kind = o.kind
  indents : o'.indents = o.indents
  fields : Renamed names o.fields o'.fields

theorem SameOpen.mono {names' : List (Nat × Option Nat)} (hsub : names ⊆ names') {o o' : Open}
    (h : SameOpen names o o') : SameOpen names' o o' :=
  ⟨h.kind, h.indents, h.fields.mono hsub⟩

theorem level_eq {stack stack' : List Open} (h : List.Forall₂ (SameOpen names) stack stack') :
    level stack' = level stack := by
  induction h with
  | nil => rfl
  | cons h _ ih =>
    unfold level at ih ⊢
    rw [List.countP_cons, List.countP_cons, ih, h.indents]

/-- The scanner in the same state. What the line has opened has no number yet. -/
structure SameScan (names : List (Nat × Option Nat)) (s s' : Scan) : Prop where
  literal : s'.literal = s.literal
  stack : List.Forall₂ (SameOpen names) s.stack s'.stack
  fresh : s'.fresh = s.fresh
  indent : s'.indent = s.indent
  unnumbered : ∀ o ∈ s'.stack.take s'.fresh, o.fields = none

namespace SameScan

variable {s s' : Scan}

theorem enter (h : SameScan names s s') (literal : Literal) :
    SameScan names { s with literal := literal } { s' with literal := literal } :=
  { h with literal := rfl }

theorem note (h : SameScan names s s') (c : Char) : SameScan names (s.note c) (s'.note c) := by
  unfold Scan.note
  rw [h.indent, level_eq h.stack]
  split
  · exact { h with indent := rfl }
  · exact h

theorem seen (h : SameScan names s s') (c : Char) : SameScan names (s.seen c) (s'.seen c) := by
  unfold Scan.seen
  rw [h.literal]
  split
  · exact h.note c
  · exact h

theorem push (h : SameScan names s s') (kind : Bracket) (n n' : Nat) :
    SameScan names (s.push kind n) (s'.push kind n') where
  literal := h.literal
  stack := .cons ⟨rfl, rfl, .outside⟩ h.stack
  fresh := congrArg (· + 1) h.fresh
  indent := h.indent
  unnumbered := List.forall_mem_cons.2 ⟨rfl, h.unnumbered⟩

theorem pop (h : SameScan names s s') {kind : Bracket} {n : Nat} {t : Scan}
    (hp : s.pop kind n = .ok t) (n' : Nat) : ∃ t', s'.pop kind n' = .ok t' ∧ SameScan names t t' := by
  obtain ⟨literal, stack, fresh, indent⟩ := s
  obtain ⟨literal', stack', fresh', indent'⟩ := s'
  obtain ⟨hliteral, hstack, hfresh, hindent, hunnumbered⟩ := h
  cases hstack with
  | nil => cases hp
  | @cons top top' rest rest' htop hrest =>
    simp only [Scan.pop] at hp ⊢
    rw [htop.kind]
    split at hp
    · rename_i hkind
      cases hp
      rw [if_pos hkind]
      refine ⟨_, rfl, hliteral, hrest, congrArg (· - 1) hfresh, hindent, ?_⟩
      intro o ho
      apply hunnumbered o
      cases fresh' with
      | zero => cases ho
      | succ k => exact List.mem_cons_of_mem _ ho
    · cases hp

end SameScan

/-- The same move. -/
inductive SameMove (names : List (Nat × Option Nat)) : Move → Move → Prop
  | stop {s s' : Scan} (h : SameScan names s s') : SameMove names (.stop s) (.stop s')
  | go {s s' : Scan} (h : SameScan names s s') : SameMove names (.go s) (.go s')
  | skip {s s' : Scan} (h : SameScan names s s') : SameMove names (.skip s) (.skip s')

theorem SameScan.move {s s' : Scan} (h : SameScan names s s') {n : Nat} {c : Char} {ahead : Option Char}
    {m : Move} (hm : s.move n c ahead = .ok m) (n' : Nat) :
    ∃ m', s'.move n' c ahead = .ok m' ∧ SameMove names m m' := by
  rw [Scan.move_eq_deed] at hm ⊢
  rw [h.literal]
  have hseen := h.seen c
  cases hd : Scan.deed s.literal c ahead with
  | stop =>
    rw [hd] at hm
    cases hm
    exact ⟨_, rfl, .stop hseen⟩
  | go literal =>
    rw [hd] at hm
    cases hm
    exact ⟨_, rfl, .go (hseen.enter literal)⟩
  | skip literal =>
    rw [hd] at hm
    cases hm
    exact ⟨_, rfl, .skip (hseen.enter literal)⟩
  | opens kind =>
    rw [hd] at hm
    cases hm
    exact ⟨_, rfl, .go (hseen.push kind n n')⟩
  | closes kind =>
    rw [hd] at hm
    obtain ⟨t, hpop, hm⟩ := Fallible.bind_eq_ok.1 hm
    cases hm
    obtain ⟨t', hpop', ht⟩ := hseen.pop hpop n'
    exact ⟨.go t', by rw [Scan.Deed.move, hpop', Fallible.ok_bind], .go ht⟩

/-- The scanner goes through the same states. -/
theorem SameScan.run {s s' t : Scan} {n : Nat} {text : List Char} (h : SameScan names s s')
    (hr : Scan.run n s text = .ok t) (n' : Nat) :
    ∃ t', Scan.run n' s' text = .ok t' ∧ SameScan names t t' := by
  -- a move passes over one character or two
  induction hlen : text.length using Nat.strong_induction_on generalizing text s s' with
  | _ k ih =>
    subst hlen
    cases text with
    | nil =>
      rw [Scan.run_nil] at hr ⊢
      cases hr
      exact ⟨s', rfl, h⟩
    | cons c rest =>
      rw [Scan.run_cons] at hr ⊢
      obtain ⟨m, hm, hr⟩ := Fallible.bind_eq_ok.1 hr
      obtain ⟨m', hm', hsame⟩ := h.move hm n'
      rw [hm', Fallible.ok_bind]
      cases hsame with
      | stop h =>
        cases hr
        exact ⟨_, rfl, h⟩
      | go h => exact ih rest.length (Nat.lt_succ_self _) h hr rfl
      | skip h =>
        have hshorter : rest.tail.length < (c :: rest).length := by
          rw [List.length_tail, List.length_cons]
          omega
        exact ih rest.tail.length hshorter h hr rfl

/-! ## Lines -/

/-- Without blanks around it, and not empty. -/
structure Trimmed (text : List Char) : Prop where
  head : ∃ c cs, text = c :: cs ∧ isBlank c = false
  last : ∀ c, text.getLast? = some c → isBlank c = false

/-- A field line stands in code, and is trimmed. -/
theorem trimmed_of_block {b b' : Between} {n : Nat} {raw : List Char} {l : Line}
    (h : layoutLine b n raw = .ok (l, b')) (hblock : l.block.isSome = true) :
    b.literal = .code ∧ Trimmed l.text := by
  obtain ⟨s, -, -, rfl, -⟩ := layoutLine_eq_ok.1 h
  simp only [startBlock] at hblock ⊢
  split at hblock
  · rename_i hcode _
    have htrim : keptText b.literal raw = trim raw := if_neg (by rw [hcode]; decide)
    rw [htrim] at hblock ⊢
    refine ⟨hcode, ?_, fun c => getLast?_trim⟩
    cases htext : trim raw with
    | nil =>
      rw [htext] at hblock
      cases hblock
    | cons c cs => exact ⟨c, cs, rfl, head?_trim (by rw [htext]; rfl)⟩
  · cases hblock

/-- A laid-out line, whose text may have been lined up in its field block. -/
structure LinedUp (l j : Line) : Prop where
  indent : j.indent = l.indent
  block : j.block = l.block
  opens : j.opens = l.opens
  text : j.text = l.text ∨ l.block.isSome = true ∧ Spread (cells l.text) j.text
  chars : ∀ c ∈ j.text, c ∈ l.text ∨ c = ' '

namespace LinedUp

variable {l j : Line}

theorem refl (l : Line) : LinedUp l l := ⟨rfl, rfl, rfl, Or.inl rfl, fun _ => Or.inl⟩

theorem head? (h : LinedUp l j) (htrim : l.block.isSome = true → Trimmed l.text) :
    j.text.head? = l.text.head? := by
  rcases h.text with htext | ⟨hblock, hspread⟩
  · rw [htext]
  · obtain ⟨c, cs, htext, hc⟩ := (htrim hblock).head
    rw [htext] at hspread ⊢
    exact head?_of_spread hc hspread

theorem getLast? (h : LinedUp l j) (htrim : l.block.isSome = true → Trimmed l.text) :
    j.text.getLast? = l.text.getLast? := by
  rcases h.text with htext | ⟨hblock, hspread⟩
  · rw [htext]
  · exact getLast?_of_spread hspread (htrim hblock).last

end LinedUp

/-- A line as it is written. -/
def Line.shown (l : Line) : List Char := indented l.indent l.text

/-- A written line is read back. -/
theorem keptText_shown {b b' : Between} {n : Nat} {raw : List Char} {l j : Line}
    (hl : layoutLine b n raw = .ok (l, b')) (hj : LinedUp l j) :
    keptText b.literal j.shown = j.text := by
  have htext := text_of_layoutLine hl
  by_cases hraw : b.literal = .raw
  · have hsame : j.text = l.text := by
      rcases hj.text with hsame | ⟨hblock, -⟩
      · exact hsame
      · rw [(trimmed_of_block hl hblock).1] at hraw
        cases hraw
    have hindent : j.indent = 0 := by
      obtain ⟨s, -, -, rfl, -⟩ := layoutLine_eq_ok.1 hl
      rw [hj.indent]
      exact if_pos hraw
    have hshown : j.shown = j.text := by
      unfold Line.shown indented
      rw [hindent]
      split
      · rename_i hempty
        exact (List.isEmpty_iff.1 hempty).symm
      · rfl
    rw [hshown, hsame, htext, hraw]
    simp only [keptText, if_true, List.reverse_reverse, List.dropWhile_idempotent _ _]
  · have htrimmed : l.block.isSome = true → Trimmed l.text :=
      fun hblock => (trimmed_of_block hl hblock).2
    have htrim : l.text = trim raw := by rw [htext, keptText, if_neg hraw]
    rw [keptText, if_neg hraw, Line.shown, indented]
    split
    · rename_i hempty
      rw [List.isEmpty_iff.1 hempty]
      rfl
    · apply trim_gap
      · intro c hc
        rw [List.eq_of_mem_replicate hc]
        decide
      · intro c hc
        rw [hj.head? htrimmed, htrim] at hc
        exact head?_trim hc
      · intro c hc
        rw [hj.getLast? htrimmed, htrim] at hc
        exact getLast?_trim hc

/-! ## Field lines -/

/-- The scanner finds the same in both texts, and a line that opens a field block did so before. -/
structure Rescans (text text' : List Char) : Prop where
  run : ∀ n s, Scan.run n s text' = Scan.run n s text
  head : text'.head? = text.head?
  fields : opensFields text' = true → opensFields text = true

/-- A field line whose cells can be moved. No comment begins with the slash that ends the
    comment before it, and where the cells end in `struct` and a brace, the line ends in
    `struct {`, with one space. -/
structure Movable (text : List Char) : Prop where
  comment : ∀ cell ∈ cells text, ['/', '/'] <+: cell → ¬ '*' :: cell <:+ text
  fields : opensFields (squeezed text) = true → opensFields text = true

instance (text : List Char) : Decidable (Movable text) :=
  decidable_of_iff ((∀ cell ∈ cells text, ['/', '/'] <+: cell → ¬ '*' :: cell <:+ text) ∧
    (opensFields (squeezed text) = true → opensFields text = true))
    ⟨fun h => ⟨h.1, h.2⟩, fun h => ⟨h.comment, h.fields⟩⟩

example : Movable "X int /* a */ // b".toList := by decide +kernel

example : ¬ Movable "X int /* a *// b".toList := by decide +kernel

example : ¬ Movable "X struct  \x7b".toList := by decide +kernel

theorem LinedUp.rescans {l j : Line} (h : LinedUp l j) (htrim : l.block.isSome = true → Trimmed l.text)
    (hmove : l.block.isSome = true → Movable l.text) : Rescans l.text j.text := by
  have hhead := h.head? htrim
  rcases h.text with htext | ⟨hblock, hspread⟩
  · rw [htext]
    exact ⟨fun _ _ => rfl, rfl, id⟩
  · have hm := hmove hblock
    exact ⟨run_of_spread hspread hm.comment, hhead, fun h => hm.fields (opensFields_squeezed hspread h)⟩

/-! ## The whole layout -/

/-- The layout in the same state between two lines. -/
structure SameBetween (names : List (Nat × Option Nat)) (b b' : Between) : Prop where
  literal : b'.literal = b.literal
  stack : List.Forall₂ (SameOpen names) b.stack b'.stack
  numbering : Numbering names b.nextBlock b'.nextBlock

theorem SameBetween.startBlock {b b' : Between} (h : SameBetween names b b') {text text' : List Char}
    (hhead : text'.head? = text.head?) : Renamed names (startBlock b text) (startBlock b' text') := by
  obtain ⟨literal, stack, old⟩ := b
  obtain ⟨literal', stack', new⟩ := b'
  obtain ⟨hliteral, hstack, -⟩ := h
  cases hliteral
  unfold Go.startBlock
  cases hstack with
  | nil => cases literal <;> exact .outside
  | cons htop _ =>
    cases literal with
    | code =>
      simp only [start_of_head? hhead]
      split
      · exact .outside
      · exact htop.fields
    | _ => exact .outside

/-- A line numbers at most one block, the one that it opens at its end. -/
theorem SameScan.settle {s s' : Scan} (h : SameScan names s s') {old new : Nat}
    (hnum : Numbering names old new) {text text' : List Char}
    (hfields : opensFields text' = true → opensFields text = true) :
    ∃ names', names ⊆ names' ∧
      List.Forall₂ (SameOpen names') (settle s text old).1 (settle s' text' new).1 ∧
      Numbering names' (settle s text old).2 (settle s' text' new).2 := by
  obtain ⟨literal, stack, fresh, indent⟩ := s
  obtain ⟨literal', stack', fresh', indent'⟩ := s'
  obtain ⟨-, hstack, hfresh, -, hunnumbered⟩ := h
  cases hfresh
  cases fresh with
  | zero => exact ⟨names, List.Subset.refl _, hstack, hnum⟩
  | succ k =>
    cases hstack with
    | nil => exact ⟨names, List.Subset.refl _, .nil, hnum⟩
    | @cons top top' rest rest' htop hrest =>
      have hnone : top'.fields = none := hunnumbered top' List.mem_cons_self
      have hgrow : ∀ number, List.Forall₂ (SameOpen ((old, number) :: names)) rest rest' :=
        fun number => hrest.imp fun _ _ => SameOpen.mono (List.subset_cons_self _ _)
      simp only [Go.settle, htop.kind]
      by_cases hopens : (decide (top.kind = .brace) && opensFields text) = true
      · rw [if_pos hopens]
        rw [Bool.and_eq_true] at hopens
        by_cases hopens' : opensFields text' = true
        · rw [if_pos (by rw [hopens.1, hopens']; rfl)]
          refine ⟨(old, some new) :: names, List.subset_cons_self _ _,
            .cons ⟨rfl, rfl, .inside List.mem_cons_self⟩ (hgrow _),
            hnum.cons (Nat.le_succ new) fun x hx => ?_⟩
          cases hx
          exact ⟨rfl, Nat.lt_succ_self _⟩
        · rw [if_neg (by simp [hopens'])]
          refine ⟨(old, none) :: names, List.subset_cons_self _ _, .cons ⟨rfl, rfl, ?_⟩ (hgrow _),
            hnum.cons (Nat.le_refl new) fun x hx => by cases hx⟩
          rw [hnone]
          exact .inside List.mem_cons_self
      · rw [if_neg hopens]
        have hopens' : ¬ (decide (top.kind = .brace) && opensFields text') = true := by
          intro h
          rw [Bool.and_eq_true] at h hopens
          exact hopens ⟨h.1, hfields h.2⟩
        rw [if_neg hopens']
        exact ⟨names, List.Subset.refl _, .cons ⟨rfl, rfl, htop.fields⟩ hrest, hnum⟩

/-- A line as it was laid out before, in a block of a new number. -/
structure Relaid (names : List (Nat × Option Nat)) (j m : Line) : Prop where
  indent : m.indent = j.indent
  text : m.text = j.text
  block : Renamed names j.block m.block
  opens : m.opens = j.opens

theorem Relaid.mono {names' : List (Nat × Option Nat)} (hsub : names ⊆ names') {j m : Line}
    (h : Relaid names j m) : Relaid names' j m :=
  { h with block := h.block.mono hsub }

/-- One line is laid out as before. -/
theorem SameBetween.layoutLine {b b' c : Between} (hb : SameBetween names b b') {n : Nat}
    {raw : List Char} {l j : Line} (hl : layoutLine b n raw = .ok (l, c)) (hj : LinedUp l j)
    (hmove : l.block.isSome = true → Movable l.text) (n' : Nat) :
    ∃ names' m c', names ⊆ names' ∧ layoutLine b' n' j.shown = .ok (m, c') ∧
      SameBetween names' c c' ∧ Relaid names' j m := by
  have hkept : keptText b'.literal j.shown = j.text := by
    rw [hb.literal]
    exact keptText_shown hl hj
  have hscans := hj.rescans (fun hblock => (trimmed_of_block hl hblock).2) hmove
  obtain ⟨s, hrun, hend, rfl, rfl⟩ := layoutLine_eq_ok.1 hl
  have hstart : SameScan names ⟨b.literal, b.stack, 0, none⟩ ⟨b'.literal, b'.stack, 0, none⟩ :=
    ⟨hb.literal, hb.stack, rfl, rfl, fun o ho => by cases ho⟩
  obtain ⟨s', hrun', hs⟩ := hstart.run hrun n'
  obtain ⟨names', hsub, hstack, hnum⟩ := hs.settle hb.numbering hscans.fields
  refine ⟨names', _, _, hsub, layoutLine_eq_ok.2 ⟨s', ?_, ?_, rfl, rfl⟩, ⟨hs.literal, ?_, ?_⟩,
    ⟨?_, ?_, ?_, ?_⟩⟩
  · rw [hkept, hscans.run]
    exact hrun'
  · rw [hs.literal]
    exact hend
  · rw [hkept]
    exact hstack
  · rw [hkept]
    exact hnum
  · rw [hj.indent, hb.literal, hs.indent, level_eq hs.stack]
  · exact hkept
  · rw [hj.block, hkept]
    exact (hb.startBlock hscans.head).mono hsub
  · rw [hj.opens, hs.fresh]

/-- A blank line leaves the layout where it was. -/
theorem between_of_isBlank {b b' : Between} {n : Nat} {raw : List Char} {l : Line}
    (h : layoutLine b n raw = .ok (l, b')) (hblank : l.isBlank = true) : b' = b := by
  obtain ⟨s, hrun, -, rfl, rfl⟩ := layoutLine_eq_ok.1 h
  have htext : keptText b.literal raw = [] := List.isEmpty_iff.1 hblank
  rw [htext, Scan.run_nil] at hrun
  cases hrun
  rfl

/-- The lines that are kept are laid out as before when they are read again. -/
theorem exists_relayout {raws : List (List Char)} {b b' c : Between} {n : Nat} {ls ks js : List Line}
    (hb : SameBetween names b b') (hls : layoutLines b n raws = .ok (ls, c)) (hks : Kept ls ks)
    (hjs : List.Forall₂ LinedUp ks js) (hmove : ∀ l ∈ ls, l.block.isSome = true → Movable l.text)
    (n' : Nat) :
    ∃ names' ms c', names ⊆ names' ∧ layoutLines b' n' (js.map Line.shown) = .ok (ms, c') ∧
      SameBetween names' c c' ∧ List.Forall₂ (Relaid names') js ms := by
  induction raws generalizing names b b' n ls ks js n' with
  | nil =>
    cases hls
    cases hks
    cases hjs
    exact ⟨names, [], b', List.Subset.refl _, rfl, hb, .nil⟩
  | cons raw raws ih =>
    rw [layoutLines] at hls
    obtain ⟨⟨l, b₁⟩, hline, hls⟩ := Fallible.bind_eq_ok.1 hls
    obtain ⟨⟨ls', c₁⟩, hlines, hls⟩ := Fallible.bind_eq_ok.1 hls
    cases hls
    rw [List.forall_mem_cons] at hmove
    cases hks with
    | drop hblank hks =>
      rw [between_of_isBlank hline hblank] at hlines
      exact ih hb hlines hks hjs hmove.2 n'
    | keep hks =>
      cases hjs with
      | cons hj hjs =>
        obtain ⟨names₁, m, b₁', hsub₁, hline', hb₁, hm⟩ := hb.layoutLine hline hj hmove.1 n'
        obtain ⟨names₂, ms, c', hsub₂, hlines', hc, hms⟩ := ih hb₁ hlines hks hjs hmove.2 (n' + 1)
        exact ⟨names₂, m :: ms, c', List.Subset.trans hsub₁ hsub₂, layoutLines_cons hline' hlines', hc,
          .cons (hm.mono hsub₂) hms⟩

end ServiceSchema.Go
