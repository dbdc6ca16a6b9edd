/-
  ServiceSchema.Proofs.Indentation — how far a line is indented.

  A line that leaves brackets open that it opened indents the lines below it by one level, as long
  as the innermost of these brackets is open. Whether it is counts at the first character of a
  line that is neither blank nor a closing bracket, nor in a comment that goes on from the line
  before.

  - `absorbAll_over`: what a word does to the brackets below those it opens.
  - `Grown.layoutLines`: of the brackets that are open at some place, later lines close some and
    open others above the rest.
  - `exists_leading`: up to its first character that counts, a line closes brackets only, and its
    level is that of the brackets that are left.
  - `indents_iff`: a bracket that indents is the innermost one that its line left open.
  - `indent_eq_ncard`: so the indentation of a line counts the lines above whose innermost bracket
    is still open.
-/
import Mathlib.Data.Set.Card
import ServiceSchema.Proofs.LineBrackets
import ServiceSchema.Proofs.Pieces

namespace ServiceSchema.Go

open Text Fallible

/-! ## The place that counts -/

/-- What comes before the first character that counts: one of code that is neither blank nor a
    closing bracket. -/
def leading : Region → List Char → List Char
  | _, [] => []
  | r, c :: cs =>
    if r = .code ∧ isBlank c = false ∧ Bracket.isCloser c = false then [] else c :: leading (r.next c) cs

/-- A text up to the place on its line `i` that counts for the indentation of the line. -/
def upToLeading (source : List Char) (i : Nat) : List Char :=
  let above := unlines ((lines source).take i)
  above ++ leading (regionBehind above) ((lines source).getD i [])

/-- The bracket that a word has behind `outer` is not closed in it. -/
def StillOpen (outer : List Mark) (kind : Bracket) (line : Nat) (w : List Mark) : Prop :=
  ∃ inner, w = outer ++ .opens kind line :: inner ∧ Begins inner

/-- Line `j` leaves a bracket open that it opened, and the innermost of these is still open where it
    counts on line `i`. -/
def Indents (source : List Char) (i j : Nat) : Prop :=
  ∃ outer kind, Innermost outer kind (j + 1) (marksOf (unlines ((lines source).take (j + 1)))) ∧
    StillOpen outer kind (j + 1) (marksOf (upToLeading source i))

example : upToLeading "f(\n/* ( */ )".toList 1 = "f(\n".toList ∧
    upToLeading "f(/*\n( */ ) ;".toList 1 = "f(/*\n( */ ) ".toList := by
  decide

/-! ## Words over open brackets -/

/-- What is open below takes no part as long as it is not closed. -/
theorem absorbAll_under {stack stack' : List (Bracket × Nat)} {w : List Mark}
    (h : absorbAll stack w = .ok stack') (base : List (Bracket × Nat)) :
    absorbAll (stack ++ base) w = .ok (stack' ++ base) := by
  induction w generalizing stack with
  | nil =>
    cases h
    rfl
  | cons mark w ih =>
    rw [absorbAll_cons, bind_eq_ok] at h ⊢
    obtain ⟨next, hmark, h⟩ := h
    refine ⟨next ++ base, ?_, ih h⟩
    cases mark with
    | opens kind line =>
      cases hmark
      rfl
    | closes kind line =>
      cases stack with
      | nil => cases hmark
      | cons top stack =>
        obtain ⟨top, m⟩ := top
        by_cases hkind : top = kind
        · simp only [absorb, List.cons_append, if_pos hkind] at hmark ⊢
          cases hmark
          rfl
        · simp only [absorb, if_neg hkind] at hmark
          cases hmark
    | breaks line => cases stack <;> cases hmark

/-- A mark of a line below `m` changes the brackets `stack` that were opened there, or closes one of
    those below them. -/
theorem absorb_over {m : Nat} {stack base next : List (Bracket × Nat)} {mark : Mark}
    (hmark : ∀ kind line, mark = .opens kind line → m < line) (hstack : ∀ p ∈ stack, m < p.2)
    (h : absorb (stack ++ base) mark = .ok next) :
    ∃ top rest, next = top ++ rest ∧ rest <:+ base ∧ (∀ p ∈ top, m < p.2) ∧
      (rest = base → absorb stack mark = .ok top) := by
  cases mark with
  | opens kind line =>
    cases h
    exact ⟨(kind, line) :: stack, base, rfl, List.suffix_refl _,
      List.forall_mem_cons.2 ⟨hmark kind line rfl, hstack⟩, fun _ => rfl⟩
  | breaks line => cases hbase : stack ++ base <;> rw [hbase] at h <;> cases h
  | closes kind line =>
    cases stack with
    | cons p stack =>
      obtain ⟨p, n⟩ := p
      by_cases hkind : p = kind
      · simp only [absorb, List.cons_append, if_pos hkind] at h
        cases h
        exact ⟨stack, base, rfl, List.suffix_refl _, (List.forall_mem_cons.1 hstack).2,
          fun _ => if_pos hkind⟩
      · simp only [absorb, List.cons_append, if_neg hkind] at h
        cases h
    | nil =>
      cases base with
      | nil => cases h
      | cons p base =>
        obtain ⟨p, n⟩ := p
        by_cases hkind : p = kind
        · simp only [absorb, List.nil_append, if_pos hkind] at h
          cases h
          exact ⟨[], next, rfl, List.suffix_cons _ _, List.forall_mem_nil _,
            fun hsame => absurd hsame.symm (List.cons_ne_self _ _)⟩
        · simp only [absorb, List.nil_append, if_neg hkind] at h
          cases h

/-- Behind a word the brackets are those that it opened and that are left, above the rest of those
    that were open before. If all of these are left, none of them took part. -/
theorem absorbAll_over {m : Nat} {stack base stack' : List (Bracket × Nat)} {w : List Mark}
    (hw : ∀ kind line, .opens kind line ∈ w → m < line) (hstack : ∀ p ∈ stack, m < p.2)
    (h : absorbAll (stack ++ base) w = .ok stack') :
    ∃ top rest, stack' = top ++ rest ∧ rest <:+ base ∧ (∀ p ∈ top, m < p.2) ∧
      (rest = base → absorbAll stack w = .ok top) := by
  induction w generalizing stack base with
  | nil =>
    cases h
    exact ⟨stack, base, rfl, List.suffix_refl _, hstack, fun _ => rfl⟩
  | cons mark w ih =>
    rw [absorbAll_cons, bind_eq_ok] at h
    obtain ⟨next, hmark, h⟩ := h
    obtain ⟨inner, under, rfl, hunder, hinner, hfirst⟩ :=
      absorb_over (fun kind line heq => hw kind line (heq ▸ List.mem_cons_self)) hstack hmark
    obtain ⟨top, rest, rfl, hrest, htop, hlater⟩ :=
      ih (fun kind line hmem => hw kind line (List.mem_cons_of_mem _ hmem)) hinner h
    refine ⟨top, rest, rfl, hrest.trans hunder, htop, fun hall => ?_⟩
    -- what the first mark closed is not there at the end
    have hsame : under = base := hunder.eq_of_length_le (hall ▸ hrest.length_le)
    rw [absorbAll_cons, hfirst hsame, ok_bind]
    exact hlater (hall.trans hsame.symm)

theorem begins_append_iff {w v : List Mark} (hw : Balanced w) : Begins (w ++ v) ↔ Begins v := by
  rw [begins_iff, begins_iff, absorbAll_append, absorbAll_balanced hw, ok_bind]

/-- A bracket that a word leaves open as its innermost one is still open behind more of the text
    exactly if what comes then closes no bracket that it did not open. -/
theorem stillOpen_iff {kind : Bracket} {line : Nat} {outer w v : List Mark}
    (h : Innermost outer kind line w) : StillOpen outer kind line (w ++ v) ↔ Begins v := by
  obtain ⟨inner, rfl, -, hinner⟩ := h
  rw [← begins_append_iff hinner]
  constructor
  · rintro ⟨inner', heq, hbegins⟩
    rw [List.append_assoc, List.append_cancel_left_eq, List.cons_append, List.cons_inj_right] at heq
    rwa [heq]
  · intro hbegins
    exact ⟨inner ++ v, by rw [List.append_assoc, List.cons_append], hbegins⟩

/-! ## Brackets on the stack -/

/-- Of the brackets `base` the innermost ones may have been closed, and others of lines below `m`
    opened above the rest. -/
def Grown (m : Nat) (base stack : List Open) : Prop :=
  ∃ top rest, stack = top ++ rest ∧ rest <:+ base ∧ ∀ o ∈ top, m < o.line

namespace Grown

variable {m n : Nat} {base stack : List Open}

theorem refl (m : Nat) (base : List Open) : Grown m base base :=
  ⟨[], base, rfl, List.suffix_refl _, List.forall_mem_nil _⟩

theorem push (h : Grown m base stack) {o : Open} (ho : m < o.line) : Grown m base (o :: stack) := by
  obtain ⟨top, rest, rfl, hrest, hlines⟩ := h
  exact ⟨o :: top, rest, rfl, hrest, List.forall_mem_cons.2 ⟨ho, hlines⟩⟩

theorem suffix (h : Grown m base stack) {stack' : List Open} (hs : stack' <:+ stack) :
    Grown m base stack' := by
  obtain ⟨top, rest, rfl, hrest, hlines⟩ := h
  rcases List.suffix_or_suffix_of_suffix hs (List.suffix_append top rest) with hle | ⟨left, rfl⟩
  · exact ⟨[], stack', rfl, hle.trans hrest, List.forall_mem_nil _⟩
  · obtain ⟨closed, heq⟩ := hs
    rw [← List.append_assoc, List.append_cancel_right_eq] at heq
    exact ⟨left, rest, rfl, hrest, fun o ho => hlines o (heq ▸ List.mem_append_right _ ho)⟩

theorem run (hn : m < n) {s t : Scan} {text : List Char} (h : Grown m base s.stack)
    (hrun : Scan.run n s text = .ok t) : Grown m base t.stack :=
  Scan.run_stack (P := fun stack _ => Grown m base stack) (fun _ _ _ h => h.push hn)
    (fun _ _ _ h => h.suffix (List.suffix_cons _ _)) hrun h

theorem layoutLine (hn : m < n) {b c : Between} {raw : List Char} {l : Line} (hr : Ranked n b.stack 0)
    (h : Grown m base b.stack) (hl : Go.layoutLine b n raw = .ok (l, c)) : Grown m base c.stack := by
  obtain ⟨s, hrun, -, -, rfl⟩ := layoutLine_eq_ok.1 hl
  have hs : Ranked n s.stack s.fresh := Ranked.run (s := ⟨b.literal, b.stack, 0, none⟩) hr hrun
  have hgrown : Grown m base s.stack := run (s := ⟨b.literal, b.stack, 0, none⟩) hn h hrun
  by_cases hfresh : s.fresh = 0
  · show Grown m base (settle s (keptText b.literal raw) b.nextBlock).1
    rw [Ranked.settle_zero hfresh]
    exact hgrown
  · obtain ⟨top, top', rest, hstack, hsettle, -, hline, -⟩ :=
      hs.settle_fresh hfresh (keptText b.literal raw) b.nextBlock
    show Grown m base (settle s (keptText b.literal raw) b.nextBlock).1
    rw [hsettle]
    rw [hstack] at hgrown
    exact (hgrown.suffix (List.suffix_cons _ _)).push (hline ▸ hn)

theorem layoutLines (hn : m < n) {b c : Between} {raws : List (List Char)} {ls : List Line}
    (hr : Ranked n b.stack 0) (h : Grown m base b.stack) (hls : Go.layoutLines b n raws = .ok (ls, c)) :
    Grown m base c.stack := by
  induction raws generalizing b n ls with
  | nil =>
    cases hls
    exact h
  | cons raw raws ih =>
    obtain ⟨l, b', ls', hline, hlines, -⟩ := layoutLines_cons_eq_ok.1 hls
    have hr' : Ranked (n + 1) b'.stack 0 := hr.layoutLine (Nat.zero_lt_of_lt hn) hline
    exact ih (Nat.lt_succ_of_lt hn) hr' (h.layoutLine hn hr hline) hlines

end Grown

/-! ## The beginning of a line -/

theorem leading_cons_of_counts {c : Char} (hblank : isBlank c = false) (hclose : Bracket.isCloser c = false)
    (cs : List Char) : leading .code (c :: cs) = [] := if_pos ⟨rfl, hblank, hclose⟩

theorem leading_cons {r : Region} {c : Char}
    (h : ¬ (r = .code ∧ isBlank c = false ∧ Bracket.isCloser c = false)) (cs : List Char) :
    leading r (c :: cs) = c :: leading (r.next c) cs := if_neg h

/-- The marks of what comes before the place that counts. -/
def leadingMarks (r : Region) (n : Nat) (cs : List Char) : List Mark := (r.read n (leading r cs)).1

theorem leadingMarks_cons {r : Region} {c : Char} (hc : c ≠ '\n')
    (h : ¬ (r = .code ∧ isBlank c = false ∧ Bracket.isCloser c = false)) (n : Nat) (cs : List Char) :
    leadingMarks r n (c :: cs) = (r.mark n c).toList ++ leadingMarks (r.next c) n cs := by
  rw [leadingMarks, leading_cons h, Region.read, if_neg hc]
  rfl

theorem leadingMarks_blank {c : Char} (h : isBlank c = true) (hc : c ≠ '\n') {r : Region}
    (hr : r.resting = r) (n : Nat) (cs : List Char) : leadingMarks r n (c :: cs) = leadingMarks r n cs := by
  rw [leadingMarks_cons hc (by simp [h]), Region.mark_blank h hc, Region.next_blank h hc, hr]
  rfl

/-- Behind a star only a slash counts. -/
theorem leadingMarks_star {cs : List Char} (h : cs.head? ≠ some '/') (hcs : '\n' ∉ cs) (n : Nat) :
    leadingMarks .star n cs = leadingMarks .comment n cs := by
  cases cs with
  | nil => rfl
  | cons c cs =>
    have hc : c ≠ '/' := fun hc => h (congrArg some hc)
    have hline : c ≠ '\n' := fun hline => hcs (hline ▸ List.mem_cons_self)
    have hnext : Region.star.next c = Region.comment.next c := if_neg hc
    rw [leadingMarks_cons hline (by simp), leadingMarks_cons hline (by simp), hnext]
    rfl

/-- Blanks may stand before a text. -/
theorem leadingMarks_gap {gap : List Char} (hgap : ∀ c ∈ gap, isBlank c = true ∧ c ≠ '\n') {r : Region}
    (hr : r.resting = r) (n : Nat) (cs : List Char) : leadingMarks r n (gap ++ cs) = leadingMarks r n cs := by
  induction gap with
  | nil => rfl
  | cons c gap ih =>
    rw [List.forall_mem_cons] at hgap
    rw [List.cons_append, leadingMarks_blank hgap.1.1 hgap.1.2 hr, ih hgap.2]

/-- And behind it. -/
theorem leadingMarks_trailing {gap : List Char} (hgap : ∀ c ∈ gap, isBlank c = true ∧ c ≠ '\n')
    {cs : List Char} (hcs : '\n' ∉ cs) (r : Region) (n : Nat) :
    leadingMarks r n (cs ++ gap) = leadingMarks r n cs := by
  induction cs generalizing r with
  | nil =>
    induction gap generalizing r with
    | nil => rfl
    | cons c gap ih =>
      rw [List.forall_mem_cons] at hgap
      rw [List.nil_append, leadingMarks_cons hgap.1.2 (by simp [hgap.1.1]),
        Region.mark_blank hgap.1.1 hgap.1.2, Option.toList_none, List.nil_append]
      exact ih hgap.2 (r.next c)
  | cons c cs ih =>
    rw [List.mem_cons, not_or] at hcs
    by_cases h : r = .code ∧ isBlank c = false ∧ Bracket.isCloser c = false
    · rw [leadingMarks, leadingMarks, List.cons_append, leading, leading, if_pos h, if_pos h]
    · rw [List.cons_append, leadingMarks_cons (Ne.symm hcs.1) h, leadingMarks_cons (Ne.symm hcs.1) h,
        ih hcs.2]

theorem Bracket.none_of_ofCloser? {c : Char} {kind : Bracket} (h : ofCloser? c = some kind) :
    ofOpener? c = none ∧ Region.enter c = .code ∧ c ≠ '\n' := by
  unfold ofCloser? at h
  split at h
  · decide
  · decide
  · decide
  · cases h

/-- A closing bracket does not fix the level. -/
theorem Scan.move_closer {s : Scan} (hs : s.literal = .code) {c : Char} {kind : Bracket}
    (hc : Bracket.ofCloser? c = some kind) (n : Nat) (ahead : Option Char) :
    s.move n c ahead = s.pop kind n >>= fun t => .ok (.go t) := by
  have hnote : s.note c = s := by simp [Scan.note, Bracket.isCloser, hc]
  obtain ⟨hopen, henter, -⟩ := Bracket.none_of_ofCloser? hc
  have hplain : c ≠ '"' ∧ c ≠ '\'' ∧ c ≠ '`' ∧ c ≠ '/' := by
    refine ⟨?_, ?_, ?_, ?_⟩ <;> rintro rfl <;> cases hc
  unfold Scan.move
  simp only [hs, hnote, hplain.1, hplain.2.1, hplain.2.2.1, hplain.2.2.2, if_false, hopen, hc]
  rfl

section

variable {n : Nat} {stack : List Open} {c : Char} {text : List Char}

theorem leadingMarks_closer {kind : Bracket} (hc : Bracket.ofCloser? c = some kind) :
    leadingMarks .code n (c :: text) = .closes kind n :: leadingMarks .code n text := by
  obtain ⟨hopen, henter, hline⟩ := Bracket.none_of_ofCloser? hc
  have hmark : Region.code.mark n c = some (.closes kind n) := by simp [Region.mark, hopen, hc]
  have hnext : Region.code.next c = .code := henter
  rw [leadingMarks_cons hline (by simp [Bracket.isCloser, hc]), hmark, hnext]
  rfl

theorem leadingMarks_comment (hc : c ≠ '\n') (htext : '\n' ∉ text)
    (h : ¬ (c = '*' ∧ text.head? = some '/')) :
    leadingMarks .comment n (c :: text) = leadingMarks .comment n text := by
  rw [leadingMarks_cons hc (by simp)]
  show leadingMarks (if c = '*' then .star else .comment) n text = _
  by_cases hstar : c = '*'
  · rw [if_pos hstar, leadingMarks_star (fun hslash => h ⟨hstar, hslash⟩) htext]
  · rw [if_neg hstar]

theorem leadingMarks_commentEnd :
    leadingMarks .comment n ('*' :: '/' :: text) = leadingMarks .code n text := by
  rw [leadingMarks_cons (by decide) (by decide), leadingMarks_cons (by decide) (by decide)]
  rfl

/-- A closing bracket takes the innermost one that is open, and the scan goes on behind it. -/
theorem Scan.run_closer {kind : Bracket} {s : Scan} (hc : Bracket.ofCloser? c = some kind)
    (h : run n ⟨.code, stack, 0, none⟩ (c :: text) = .ok s) :
    ∃ under, under <:+ stack ∧ run n ⟨.code, under, 0, none⟩ text = .ok s ∧
      absorb (pending stack) (.closes kind n) = .ok (pending under) := by
  rw [run_cons, move_closer rfl hc, bind_assoc] at h
  obtain ⟨t, hpop, hrun⟩ := bind_eq_ok.1 h
  obtain ⟨hfresh, hindent, top, hstack⟩ := stack_pop hpop
  have ht : t = ⟨.code, t.stack, 0, none⟩ := by
    obtain ⟨literal, under, fresh, indent⟩ := t
    cases hfresh
    cases hindent
    cases literal_pop hpop
    rfl
  rw [ht] at hrun
  refine ⟨t.stack, ⟨[top], hstack.symm⟩, hrun, ?_⟩
  have habsorb := absorb_pop ⟨.code, stack, 0, none⟩ kind n
  rwa [hpop, ok_bind] at habsorb

/-- Up to the place that counts a line only closes brackets, and its level is that of the brackets
    that are left there. -/
theorem exists_leading {literal : Literal} (hliteral : literal = .code ∨ literal = .comment)
    (htext : '\n' ∉ text) {s : Scan}
    (h : Scan.run n ⟨literal, stack, 0, none⟩ text = .ok s) :
    ∃ left, left <:+ stack ∧ s.indent.getD (level s.stack) = level left ∧
      absorbAll (pending stack) (leadingMarks literal.region n text) = .ok (pending left) := by
  -- a move passes over one character or two
  induction hlen : text.length using Nat.strong_induction_on generalizing text literal stack with
  | _ k ih =>
    subst hlen
    cases text with
    | nil =>
      rw [Scan.run_nil] at h
      cases h
      exact ⟨stack, List.suffix_refl _, rfl, rfl⟩
    | cons c text =>
      rw [List.mem_cons, not_or] at htext
      obtain ⟨hc, htext⟩ := htext
      have hshorter : text.length < (c :: text).length := Nat.lt_succ_self _
      rcases hliteral with rfl | rfl
      · by_cases hblank : isBlank c = true
        · rw [Scan.run_blank hblank] at h
          rw [Literal.region, leadingMarks_blank hblank (Ne.symm hc) rfl]
          exact ih text.length hshorter (Or.inl rfl) htext h rfl
        cases hclose : Bracket.ofCloser? c with
        | some kind =>
          obtain ⟨under, hunder, hrun, habsorb⟩ := Scan.run_closer hclose h
          obtain ⟨left, hleft, hlevel, hmarks⟩ := ih text.length hshorter (Or.inl rfl) htext hrun rfl
          refine ⟨left, hleft.trans hunder, hlevel, ?_⟩
          rw [Literal.region, leadingMarks_closer hclose, absorbAll_cons, habsorb]
          exact hmarks
        | none =>
          -- here the level is fixed
          have hplain : isBlank c = false := Bool.eq_false_iff.2 hblank
          have hcloser : Bracket.isCloser c = false := by rw [Bracket.isCloser, hclose]; rfl
          rw [Scan.run_first hplain hcloser] at h
          refine ⟨stack, List.suffix_refl _, ?_, ?_⟩
          · rw [Scan.run_indent h rfl]
            rfl
          · rw [Literal.region, leadingMarks, leading_cons_of_counts hplain hcloser]
            rfl
      · rw [Scan.run_cons] at h
        simp only [Scan.move, ok_bind] at h
        by_cases hend : c = '*' ∧ text.head? = some '/'
        · rw [if_pos hend] at h
          obtain ⟨rfl, hhead⟩ := hend
          obtain ⟨after, rfl⟩ := List.head?_eq_some_iff.1 hhead
          rw [List.mem_cons, not_or] at htext
          have hafter : after.length < ('*' :: '/' :: after).length := by
            simp only [List.length_cons]
            omega
          rw [Literal.region, leadingMarks_commentEnd]
          exact ih after.length hafter (Or.inl rfl) htext.2 h rfl
        · rw [if_neg hend] at h
          rw [Literal.region, leadingMarks_comment (Ne.symm hc) htext hend]
          exact ih text.length hshorter (Or.inr rfl) htext h rfl

end

/-- The level of a line that does not start inside a raw string. -/
theorem exists_level {b b' : Between} (hb : b.literal = .code ∨ b.literal = .comment) {n : Nat}
    {raw : List Char} (hraw : '\n' ∉ raw) {l : Line} (h : layoutLine b n raw = .ok (l, b')) :
    ∃ left, left <:+ b.stack ∧ l.indent = level left ∧
      absorbAll (pending b.stack) (leadingMarks b.literal.region n raw) = .ok (pending left) := by
  obtain ⟨s, hrun, -, rfl, -⟩ := layoutLine_eq_ok.1 h
  obtain ⟨before, behind, hcut, hbefore, hbehind⟩ := exists_keptText b.literal raw
  have hnewline : (∀ c ∈ before, c ≠ '\n') ∧ '\n' ∉ keptText b.literal raw ∧ ∀ c ∈ behind, c ≠ '\n' := by
    rw [hcut, List.mem_append, List.mem_append, not_or, not_or] at hraw
    exact ⟨fun c hc h => hraw.1 (h ▸ hc), hraw.2.1, fun c hc h => hraw.2.2 (h ▸ hc)⟩
  obtain ⟨hgap, htext, htrailing⟩ := hnewline
  obtain ⟨left, hleft, hlevel, hmarks⟩ := exists_leading hb htext hrun
  have hliteral : b.literal ≠ .raw := by
    rcases hb with hb | hb <;> rw [hb] <;> decide
  refine ⟨left, hleft, ?_, ?_⟩
  · rw [← hlevel]
    exact if_neg hliteral
  · rw [hcut, leadingMarks_gap (fun c hc => ⟨hbefore c hc, hgap c hc⟩) (resting_region b.literal),
      leadingMarks_trailing (fun c hc => ⟨hbehind c hc, htrailing c hc⟩) htext]
    exact hmarks

/-! ## Lines that indent -/

theorem filter_lines {m : Nat} {top rest : List (Bracket × Nat)} (htop : ∀ p ∈ top, m < p.2)
    (hrest : ∀ p ∈ rest, p.2 ≤ m) : (top ++ rest).filter (fun p => decide (p.2 ≤ m)) = rest := by
  have hnone : top.filter (fun p => decide (p.2 ≤ m)) = [] :=
    List.filter_eq_nil_iff.2 fun p hp => by simpa using htop p hp
  have hall : rest.filter (fun p => decide (p.2 ≤ m)) = rest :=
    List.filter_eq_self.2 fun p hp => by simpa using hrest p hp
  rw [List.filter_append, hnone, hall, List.nil_append]

theorem forall_mem_pending {stack : List Open} {P : Nat → Prop} (h : ∀ o ∈ stack, P o.line) :
    ∀ p ∈ pending stack, P p.2 := by
  rw [pending, List.forall_mem_map]
  exact h

/-- All brackets that were open are open still exactly if what comes then closes none that it did
    not open. -/
theorem rest_eq_iff_begins {m : Nat} {base top rest : List Open} (hbase : ∀ o ∈ base, o.line ≤ m)
    (htop : ∀ o ∈ top, m < o.line) (hrest : rest <:+ base) {w : List Mark}
    (hw : ∀ kind line, .opens kind line ∈ w → m < line)
    (h : absorbAll (pending base) w = .ok (pending (top ++ rest))) : rest = base ↔ Begins w := by
  have hpending : pending (top ++ rest) = pending top ++ pending rest := List.map_append
  have hbelow : ∀ p ∈ pending base, p.2 ≤ m := forall_mem_pending (P := (· ≤ m)) hbase
  have hkept : (pending (top ++ rest)).filter (fun p => decide (p.2 ≤ m)) = pending rest := by
    rw [hpending]
    exact filter_lines (forall_mem_pending (P := (m < ·)) htop)
      (forall_mem_pending (P := (· ≤ m)) fun o ho => hbase o (hrest.subset ho))
  rw [begins_iff]
  constructor
  · intro hall
    have hword : absorbAll ([] ++ pending base) w = .ok (pending (top ++ rest)) := h
    obtain ⟨above, under, heq, hunder, habove, hword⟩ :=
      absorbAll_over hw (List.forall_mem_nil _) hword
    rw [heq, filter_lines habove fun p hp => hbelow p (hunder.subset hp), hall] at hkept
    exact ⟨above, hword hkept⟩
  · rintro ⟨above, habove⟩
    have hunder := absorbAll_under habove (pending base)
    rw [List.nil_append, h, Except.ok.injEq] at hunder
    have hall : (pending base).filter (fun p => decide (p.2 ≤ m)) = pending base :=
      List.filter_eq_self.2 fun p hp => by simpa using hbelow p hp
    rw [hunder, List.filter_append, hall] at hkept
    refine hrest.eq_of_length_le ?_
    have hlength := congrArg List.length hkept
    rw [List.length_append, pending, pending, List.length_map, List.length_map] at hlength
    omega

/-- The marks of a longer text: what comes is opened on later lines. -/
theorem exists_marksOf_append (a b : List Char) : ∃ w, marksOf (a ++ b) = marksOf a ++ w ∧
    ∀ kind line, .opens kind line ∈ w → a.count '\n' < line := by
  refine ⟨((regionBehind a).read (1 + a.count '\n') b).1, ?_, fun kind line hmem => ?_⟩
  · rw [marksOf, Region.read_append]
    rfl
  · have hle := Region.le_line_of_opens hmem
    omega

/-- The lines above line `i`, cut behind line `j`. -/
theorem take_cut {i j : Nat} (hj : j < i) (raws : List (List Char)) :
    raws.take i = raws.take (j + 1) ++ (raws.take i).drop (j + 1) := by
  have hcut := List.take_append_drop (j + 1) (raws.take i)
  rw [List.take_take, Nat.min_eq_left hj] at hcut
  exact hcut.symm

/-- The text up to the place that counts goes on from any line above it. -/
theorem exists_upToLeading (source : List Char) {i j : Nat} (hj : j < i) :
    ∃ rest, upToLeading source i = unlines ((lines source).take (j + 1)) ++ rest := by
  have hunlines : unlines ((lines source).take i) =
      unlines ((lines source).take (j + 1)) ++ unlines (((lines source).take i).drop (j + 1)) := by
    conv_lhs => rw [take_cut hj, unlines, List.flatMap_append]
    rfl
  exact ⟨_, by rw [upToLeading, hunlines, List.append_assoc]⟩

/-- What is known of the brackets that are left where it counts on a line. -/
theorem exists_left {source : List Char} {ls : List Line} (h : layout source = .ok ls) {i : Nat}
    {raw : List Char} (hraw : (lines source)[i]? = some raw) (hin : ¬ InRaw ((lines source).take i)) :
    ∃ b l b' left, AtLine source ls i raw b l b' ∧ left <:+ b.stack ∧ l.indent = level left ∧
      absorbAll [] (marksOf (upToLeading source i)) = .ok (pending left) := by
  have hnewline : ∀ raw ∈ (lines source).take i, '\n' ∉ raw :=
    newline_not_mem_above (List.take_append_drop i _).symm
  obtain ⟨b, l, b', hat⟩ := exists_atLine h hraw
  obtain ⟨hstack, hregion⟩ := reading_of_layoutLines hnewline hat.above
  have hliteral : b.literal = .code ∨ b.literal = .comment := by
    have htidy := hat.tidy
    have hne := mt hat.inRaw.2 hin
    rw [Between.Tidy] at htidy
    cases hb : b.literal <;> simp [hb] at htidy hne ⊢
  obtain ⟨left, hleft, hlevel, hmarks⟩ :=
    exists_level hliteral (newline_not_mem_lines source raw (List.mem_of_getElem? hraw)) hat.line
  refine ⟨b, l, b', left, hat, hleft, hlevel, ?_⟩
  have hcount : 1 + (unlines ((lines source).take i)).count '\n' = i + 1 := by
    rw [count_newline_unlines hnewline, Nat.add_comm,
      List.length_take_of_le (Nat.le_of_lt (List.getElem?_eq_some_iff.1 hraw).1)]
  have hget : (lines source).getD i [] = raw := by
    rw [List.getD_eq_getElem?_getD, hraw]
    rfl
  have hcut : marksOf (upToLeading source i) =
      marksOf (unlines ((lines source).take i)) ++ leadingMarks b.literal.region (i + 1) raw := by
    rw [marksOf, upToLeading, Region.read_append, hcount, hget, hregion]
    show _ ++ ((regionBehind _).read _ _).1 = _
    rw [hregion]
    rfl
  rw [hcut, absorbAll_append, hstack, ok_bind]
  exact hmarks

/-- A line indents where it counts on a later one exactly if it leaves a bracket open that it opened,
    and what comes then closes no bracket that it did not open. -/
theorem indents_iff_begins {source : List Char} {i j : Nat} (hj : j < (lines source).length) {w : List Mark}
    (hw : marksOf (upToLeading source i) = marksOf (unlines ((lines source).take (j + 1))) ++ w) :
    Indents source i j ↔ LeavesOpen ((lines source).take (j + 1)) ∧ Begins w := by
  rw [Indents, LeavesOpen, hw, List.length_take_of_le hj]
  constructor
  · rintro ⟨outer, kind, hinnermost, hopen⟩
    exact ⟨⟨outer, kind, hinnermost⟩, (stillOpen_iff hinnermost).1 hopen⟩
  · rintro ⟨⟨outer, kind, hinnermost⟩, hbegins⟩
    exact ⟨outer, kind, hinnermost, (stillOpen_iff hinnermost).2 hbegins⟩

/-- Of the brackets behind a line those that are open above a later one are left, below others. -/
theorem grown_of_above {source : List Char} {ls : List Line} {i j : Nat} (hji : j < i)
    (hj : j < (lines source).length) {raw raw' : List Char} {b b' c c' : Between} {l l' : Line}
    (hat : AtLine source ls i raw b l b') (hat' : AtLine source ls j raw' c l' c') :
    Grown (j + 1) c'.stack b.stack := by
  have habove := hat.above
  rw [take_cut hji] at habove
  obtain ⟨ls₁, d, ls₂, hbefore, hbetween, -⟩ := layoutLines_append_eq_ok.1 habove
  obtain ⟨-, rfl⟩ := Prod.mk.inj (Except.ok.inj (hbefore.symm.trans hat'.through))
  have hranked : Ranked (j + 2) d.stack 0 := hat'.ranked.layoutLine (Nat.succ_pos j) hat'.line
  rw [List.length_take_of_le hj, Nat.add_comm] at hbetween
  exact (Grown.refl (j + 1) d.stack).layoutLines (Nat.lt_succ_self _) hranked hbetween

/-- Behind a line, brackets that are left have one of the line that indents exactly if the line has
    left a bracket open that it opened and none is gone. -/
theorem exists_indents_iff {n : Nat} (hn : 0 < n) {b c : Between} (hb : Ranked n b.stack 0)
    {raw : List Char} {l : Line} (hl : layoutLine b n raw = .ok (l, c)) {rest : List Open}
    (hrest : rest <:+ c.stack) :
    (∃ o ∈ rest, o.indents = true ∧ o.line = n) ↔ l.opens = true ∧ rest = c.stack := by
  rcases hb.top_of_layoutLine hl with ⟨hopens, top, under, hstack, hline, hindents⟩ | ⟨hopens, hbelow⟩
  · have hsingle := (hb.layoutLine hn hl).single
    rw [List.drop_zero, hstack, List.pairwise_cons] at hsingle
    rw [and_iff_right hopens]
    constructor
    · rintro ⟨o, ho, hindents', hline'⟩
      rw [hstack, List.suffix_cons_iff] at hrest
      rcases hrest with hall | hunder
      · rw [hall, hstack]
      · -- the brackets below that indent are of lines above
        have hlt := hsingle.1 o (hunder.subset ho) hindents hindents'
        omega
    · rintro rfl
      exact ⟨top, hstack ▸ List.mem_cons_self, hindents, hline⟩
  · refine iff_of_false ?_ (by simp [hopens])
    rintro ⟨o, ho, -, hline⟩
    have hlt := hbelow o (hrest.subset ho)
    omega

/-- A line indents where it counts on a later line exactly if one of the brackets that are left there
    is of the line and indents. -/
theorem indents_iff {source : List Char} {ls : List Line} (h : layout source = .ok ls) {i j : Nat}
    (hji : j < i) (hj : j < (lines source).length) {raw : List Char} {b b' : Between} {l : Line}
    (hat : AtLine source ls i raw b l b') {left : List Open} (hleft : left <:+ b.stack)
    (hmarks : absorbAll [] (marksOf (upToLeading source i)) = .ok (pending left)) :
    Indents source i j ↔ ∃ o ∈ left, o.indents = true ∧ o.line = j + 1 := by
  obtain ⟨c, l', c', hat'⟩ := exists_atLine h (List.getElem?_eq_getElem hj)
  have hnewline : ∀ raw ∈ (lines source).take (j + 1), '\n' ∉ raw :=
    newline_not_mem_above (List.take_append_drop (j + 1) _).symm
  have hranked : Ranked (j + 2) c'.stack 0 := hat'.ranked.layoutLine (Nat.succ_pos j) hat'.line
  have hbase : ∀ o ∈ c'.stack, o.line ≤ j + 1 := fun o ho => Nat.le_of_lt_succ (hranked.before o ho).2
  obtain ⟨below, hbelow⟩ := exists_upToLeading source hji
  obtain ⟨w, hw, hlines⟩ := exists_marksOf_append (unlines ((lines source).take (j + 1))) below
  rw [count_newline_unlines hnewline, List.length_take_of_le hj] at hlines
  rw [← hbelow] at hw
  rw [hw, absorbAll_append, (reading_of_layoutLines hnewline hat'.through).1, ok_bind] at hmarks
  obtain ⟨top, rest, rfl, hrest, htop⟩ := (grown_of_above hji hj hat hat').suffix hleft
  have hwhole := rest_eq_iff_begins hbase htop hrest hlines hmarks
  have hearlier : (∃ o ∈ top ++ rest, o.indents = true ∧ o.line = j + 1) ↔
      ∃ o ∈ rest, o.indents = true ∧ o.line = j + 1 := by
    refine exists_congr fun o => and_congr_left fun ho => ?_
    rw [List.mem_append, or_iff_right]
    intro hmem
    have hlt := htop o hmem
    omega
  rw [indents_iff_begins hj hw, ← hat'.opens, ← hwhole, hearlier,
    exists_indents_iff (Nat.succ_pos j) hat'.ranked hat'.line hrest]

/-- The level under brackets counts the lines of those that indent. -/
theorem level_eq_ncard {n : Nat} {stack : List Open} (h : Ranked (n + 1) stack 0) :
    level stack = {j | j < n ∧ ∃ o ∈ stack, o.indents = true ∧ o.line = j + 1}.ncard := by
  have hlines : ((stack.filter Open.indents).map fun o => o.line - 1).Nodup := by
    rw [List.Nodup, List.pairwise_map, List.pairwise_filter]
    refine List.Pairwise.imp_of_mem ?_ h.single
    intro o o' ho ho' hlt hindents hindents' heq
    have hlt := hlt hindents hindents'
    have hpos := (h.before o ho).1
    have hpos' := (h.before o' ho').1
    omega
  have hset : {j | j < n ∧ ∃ o ∈ stack, o.indents = true ∧ o.line = j + 1} =
      ↑((stack.filter Open.indents).map fun o => o.line - 1).toFinset := by
    ext j
    simp only [Set.mem_ofPred_eq, List.coe_toFinset, List.mem_map, List.mem_filter]
    constructor
    · rintro ⟨-, o, ho, hindents, hline⟩
      exact ⟨o, ⟨ho, hindents⟩, by omega⟩
    · rintro ⟨o, ⟨ho, hindents⟩, hline⟩
      have hbefore := h.before o ho
      exact ⟨by omega, o, ho, hindents, by omega⟩
  rw [hset, Set.ncard_coe_finset, List.toFinset_card_of_nodup hlines, List.length_map, level,
    List.countP_eq_length_filter]

/-- The indentation of a line that does not start inside a raw string is the number of lines above
    it whose innermost bracket is still open where it counts. -/
theorem indent_eq_ncard {source : List Char} {ls : List Line} (h : layout source = .ok ls) {i : Nat}
    {raw : List Char} (hraw : (lines source)[i]? = some raw) (hin : ¬ InRaw ((lines source).take i)) :
    ∃ l, ls[i]? = some l ∧ l.indent = {j | j < i ∧ Indents source i j}.ncard := by
  obtain ⟨b, l, b', left, hat, hleft, hlevel, hmarks⟩ := exists_left h hraw hin
  have hi : i < (lines source).length := (List.getElem?_eq_some_iff.1 hraw).1
  have hranked : Ranked (i + 1) left 0 :=
    ⟨List.forall_mem_nil _, fun o ho => hat.ranked.before o (hleft.subset ho),
      hat.ranked.single.sublist hleft.sublist, Nat.zero_le _⟩
  refine ⟨l, hat.laid, ?_⟩
  rw [hlevel, level_eq_ncard hranked]
  congr 1
  ext j
  exact and_congr_right fun hj => (indents_iff h hj (Nat.lt_trans hj hi) hat hleft hmarks).symm

/-- Two brackets that are left open indent by one level. -/
theorem indent_eq_ncard_two_open :
    layout "f([\ny])\n".toList = .ok [⟨0, "f([".toList, none, true⟩, ⟨1, "y])".toList, none, false⟩] ∧
      {j | j < 1 ∧ Indents "f([\ny])\n".toList 1 j}.ncard = 1 := by
  have h : (layout "f([\ny])\n".toList).toOption =
      some [⟨0, "f([".toList, none, true⟩, ⟨1, "y])".toList, none, false⟩] := by
    decide +kernel
  have hlayout := Fallible.toOption_eq_some.1 h
  have hraw : (lines "f([\ny])\n".toList)[1]? = some "y])".toList := by decide +kernel
  obtain ⟨l, hl, hindent⟩ := indent_eq_ncard hlayout hraw (by decide +kernel)
  cases hl
  exact ⟨hlayout, hindent.symm⟩

end ServiceSchema.Go
