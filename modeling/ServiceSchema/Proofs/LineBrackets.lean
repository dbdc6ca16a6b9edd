/-
  ServiceSchema.Proofs.LineBrackets — what is open behind the first lines of a text.

  The reader of `Bracketing` says for every piece of text where it leads and which brackets it
  has. Cut at the ends of lines this tells whether a line starts inside a raw string (`InRaw`)
  and whether it leaves a bracket open that it opened (`LeavesOpen`). The layout knows both
  without reading back: the one from the literal it is inside of, the other by counting the
  brackets of the current line.

  - `reading_of_layoutLines`: between two lines the layout has the reader's brackets and is
    where the reader is.
  - `Scan.run_stack`: what opening and closing a bracket keep, scanning a line keeps.
  - `Ranked.layoutLines`: the brackets of a line stand above those of earlier lines, and only
    the innermost one that the line left open indents.
  - `opens_iff_leavesOpen`: so a laid-out line opens a block exactly if the line leaves a
    bracket open that it opened.
  - `exists_atLine`: what is known of the layout at a line of a text.
-/
import ServiceSchema.Proofs.Bracketing

namespace ServiceSchema.Go

open Text Fallible

/-! ## Reading up to a place -/

/-- The brackets and broken literals of a text up to some place. -/
def marksOf (text : List Char) : List Mark := (Region.code.read 1 text).1

/-- Where a text leads. -/
def regionBehind (text : List Char) : Region := (Region.code.read 1 text).2

/-- What comes behind these lines starts inside a raw string. -/
def InRaw (raws : List (List Char)) : Prop := regionBehind (unlines raws) = .raw

instance (raws : List (List Char)) : Decidable (InRaw raws) :=
  inferInstanceAs (Decidable (regionBehind (unlines raws) = .raw))

/-- The bracket that a word has behind `outer` is the innermost one that the word leaves open. -/
def Innermost (outer : List Mark) (kind : Bracket) (line : Nat) (w : List Mark) : Prop :=
  ∃ inner, w = outer ++ .opens kind line :: inner ∧ Begins outer ∧ Balanced inner

/-- The last of these lines leaves a bracket open that it opened. -/
def LeavesOpen (raws : List (List Char)) : Prop :=
  ∃ outer kind, Innermost outer kind raws.length (marksOf (unlines raws))

/-- The innermost open bracket is the one on top of the stack. -/
theorem exists_innermost_iff {kind : Bracket} {line : Nat} {w : List Mark} :
    (∃ outer, Innermost outer kind line w) ↔ ∃ stack, absorbAll [] w = .ok ((kind, line) :: stack) := by
  constructor
  · intro h
    obtain ⟨outer, inner, rfl, houter, hinner⟩ := h
    obtain ⟨stack, hstack⟩ := begins_iff.1 houter
    exact ⟨stack, stacked_iff.2 (.cons (stacked_iff.1 hstack) hinner)⟩
  · intro h
    obtain ⟨stack, hstack⟩ := h
    cases stacked_iff.1 hstack with
    | cons houter hinner => exact ⟨_, _, rfl, houter.begins, hinner⟩

theorem leavesOpen_iff {raws : List (List Char)} :
    LeavesOpen raws ↔
      ∃ kind stack, absorbAll [] (marksOf (unlines raws)) = .ok ((kind, raws.length) :: stack) := by
  rw [LeavesOpen, exists_comm]
  exact exists_congr fun kind => exists_innermost_iff

instance (raws : List (List Char)) : Decidable (LeavesOpen raws) :=
  match h : absorbAll [] (marksOf (unlines raws)) with
  | .ok ((_, line) :: _) =>
    if hline : line = raws.length then
      isTrue (leavesOpen_iff.2 ⟨_, _, hline ▸ h⟩)
    else
      isFalse fun hopen => by
        obtain ⟨kind, stack, heq⟩ := leavesOpen_iff.1 hopen
        rw [h] at heq
        cases heq
        exact hline rfl
  | .ok [] | .error _ =>
    isFalse fun hopen => by
      obtain ⟨kind, stack, heq⟩ := leavesOpen_iff.1 hopen
      rw [h] at heq
      cases heq

example : LeavesOpen ["f(a, func() \x7b".toList] ∧ ¬ LeavesOpen ["\x7b".toList, "\x7d // (".toList] := by
  decide

theorem Region.read_append (r : Region) (n : Nat) (a b : List Char) :
    r.read n (a ++ b) =
      ((r.read n a).1 ++ ((r.read n a).2.read (n + a.count '\n') b).1,
        ((r.read n a).2.read (n + a.count '\n') b).2) := by
  induction a generalizing r n with
  | nil => rfl
  | cons c a ih =>
    have hline : (if c = '\n' then n + 1 else n) + a.count '\n' = n + (c :: a).count '\n' := by
      rw [List.count_cons]
      by_cases hc : c = '\n'
      · simp [hc]
        omega
      · simp [hc]
    simp only [List.cons_append, Region.read, ih, hline, List.append_assoc]

theorem Region.line_of_mark {r : Region} {n : Nat} {c : Char} {kind : Bracket} {line : Nat}
    (h : r.mark n c = some (.opens kind line)) : line = n := by
  unfold Region.mark at h
  split at h
  · split at h <;> cases h
    rfl
  · split at h <;> cases h
    rfl
  · split at h <;> cases h
  · split at h <;> cases h
  · cases h

/-- What is read from a line on stands on that line or below it. -/
theorem Region.le_line_of_opens {r : Region} {n : Nat} {cs : List Char} {kind : Bracket} {line : Nat}
    (h : .opens kind line ∈ (r.read n cs).1) : n ≤ line := by
  induction cs generalizing r n with
  | nil => cases h
  | cons c cs ih =>
    rw [Region.read, List.mem_append] at h
    rcases h with h | h
    · rw [Option.mem_toList] at h
      exact Nat.le_of_eq (Region.line_of_mark h).symm
    · have hle := ih h
      split at hle
      · omega
      · exact hle

theorem count_newline_unlines {raws : List (List Char)} (h : ∀ raw ∈ raws, '\n' ∉ raw) :
    (unlines raws).count '\n' = raws.length := by
  induction raws with
  | nil => rfl
  | cons raw raws ih =>
    rw [List.forall_mem_cons] at h
    rw [unlines, List.flatMap_cons, ← unlines, List.count_append, List.count_append, ih h.2,
      List.count_eq_zero.2 h.1, List.length_cons]
    simp
    omega

/-! ## The layout between two lines -/

theorem layoutLines_append_bind (b : Between) (n : Nat) (xs ys : List (List Char)) :
    layoutLines b n (xs ++ ys) = layoutLines b n xs >>= fun p =>
      layoutLines p.2 (n + xs.length) ys >>= fun q => .ok (p.1 ++ q.1, q.2) := by
  induction xs generalizing b n with
  | nil =>
    show layoutLines b n ys = layoutLines b n ys >>= fun q => .ok (q.1, q.2)
    cases layoutLines b n ys <;> rfl
  | cons x xs ih =>
    rw [List.cons_append, layoutLines, layoutLines]
    cases hline : layoutLine b n x with
    | error fault => rfl
    | ok p =>
      simp only [ok_bind, ih, bind_assoc]
      have hlength : n + 1 + xs.length = n + (x :: xs).length := by rw [List.length_cons]; omega
      rw [hlength]
      rfl

theorem layoutLines_append_eq_ok {b c : Between} {n : Nat} {xs ys : List (List Char)} {ls : List Line} :
    layoutLines b n (xs ++ ys) = .ok (ls, c) ↔ ∃ ls₁ b' ls₂, layoutLines b n xs = .ok (ls₁, b') ∧
      layoutLines b' (n + xs.length) ys = .ok (ls₂, c) ∧ ls = ls₁ ++ ls₂ := by
  rw [layoutLines_append_bind, bind_eq_ok]
  constructor
  · rintro ⟨⟨ls₁, b'⟩, hx, h⟩
    obtain ⟨⟨ls₂, c'⟩, hy, h⟩ := bind_eq_ok.1 h
    cases h
    exact ⟨ls₁, b', ls₂, hx, hy, rfl⟩
  · rintro ⟨ls₁, b', ls₂, hx, hy, rfl⟩
    exact ⟨(ls₁, b'), hx, by rw [hy]; rfl⟩

theorem layoutLines_cons_eq_ok {b c : Between} {n : Nat} {raw : List Char} {raws : List (List Char)}
    {ls : List Line} :
    layoutLines b n (raw :: raws) = .ok (ls, c) ↔ ∃ l b' ls', layoutLine b n raw = .ok (l, b') ∧
      layoutLines b' (n + 1) raws = .ok (ls', c) ∧ ls = l :: ls' := by
  rw [layoutLines, bind_eq_ok]
  constructor
  · rintro ⟨⟨l, b'⟩, hl, h⟩
    obtain ⟨⟨ls', c'⟩, hls, h⟩ := bind_eq_ok.1 h
    cases h
    exact ⟨l, b', ls', hl, hls, rfl⟩
  · rintro ⟨l, b', ls', hl, hls, rfl⟩
    exact ⟨(l, b'), hl, by simp only [hls, ok_bind]; rfl⟩

theorem length_layoutLines {b c : Between} {n : Nat} {raws : List (List Char)} {ls : List Line}
    (h : layoutLines b n raws = .ok (ls, c)) : ls.length = raws.length :=
  (laid_layoutLines h).length_eq.symm

/-- What the layout does with lines, the reader does. -/
theorem judge_unlines {raws : List (List Char)} (h : ∀ raw ∈ raws, '\n' ∉ raw) (b : Between) (n : Nat) :
    judge (pending b.stack) b.literal.region n (unlines raws) =
      layoutLines b n raws >>= fun p => .ok (pending p.2.stack, p.2.literal.region) := by
  induction raws generalizing b n with
  | nil => rfl
  | cons raw raws ih =>
    rw [List.forall_mem_cons] at h
    have hunlines : unlines (raw :: raws) = raw ++ '\n' :: unlines raws := by
      rw [unlines, List.flatMap_cons, List.append_assoc]
      rfl
    rw [hunlines, judge_layoutLine h.1, layoutLines, bind_assoc]
    cases layoutLine b n raw with
    | error fault => rfl
    | ok p =>
      simp only [ok_bind, ih h.2, bind_assoc]
      rfl

/-- The layout before the first line. -/
def Between.initial : Between := ⟨.code, [], 0⟩

theorem tidy_initial : Between.initial.Tidy := by simp [Between.Tidy, Between.initial]

/-- No literal of one line is open behind lines that are laid out. -/
theorem tidy_of_layoutLines {b c : Between} (hb : b.Tidy) {n : Nat} {raws : List (List Char)}
    {ls : List Line} (h : layoutLines b n raws = .ok (ls, c)) : c.Tidy := by
  induction raws generalizing b n ls with
  | nil =>
    cases h
    exact hb
  | cons raw raws ih =>
    obtain ⟨l, b', ls', hline, hlines, -⟩ := layoutLines_cons_eq_ok.1 h
    obtain ⟨s, -, htidy, -, rfl⟩ := layoutLine_eq_ok.1 hline
    refine ih ?_ hlines
    exact htidy

/-- Behind some lines the layout has the brackets that the reader has open there, and is inside
    of what the reader is inside of. -/
theorem reading_of_layoutLines {raws : List (List Char)} (hraws : ∀ raw ∈ raws, '\n' ∉ raw)
    {ls : List Line} {b : Between} (h : layoutLines .initial 1 raws = .ok (ls, b)) :
    absorbAll [] (marksOf (unlines raws)) = .ok (pending b.stack) ∧
      regionBehind (unlines raws) = b.literal.region := by
  have hjudge := judge_unlines hraws .initial 1
  rw [h, ok_bind] at hjudge
  obtain ⟨stack, hstack, heq⟩ := bind_eq_ok.1 hjudge
  obtain ⟨rfl, hregion⟩ := Prod.mk.inj (Except.ok.inj heq)
  exact ⟨hstack, hregion⟩

theorem inRaw_iff {raws : List (List Char)} (hraws : ∀ raw ∈ raws, '\n' ∉ raw) {ls : List Line}
    {b : Between} (h : layoutLines .initial 1 raws = .ok (ls, b)) : InRaw raws ↔ b.literal = .raw := by
  rw [InRaw, (reading_of_layoutLines hraws h).2]
  cases b.literal <;> simp [Literal.region]

/-! ## The brackets of a line -/

/-- Where a move leaves the scanner. -/
def Move.scan : Move → Scan
  | .stop s | .go s | .skip s => s

/-- What a move can do: it may fix the level first. Then it opens a bracket, or closes one, or
    changes nothing but what the scanner is inside of. -/
theorem Scan.move_cases {n : Nat} {s : Scan} {c : Char} {ahead : Option Char} {m : Move}
    (h : s.move n c ahead = .ok m) :
    ∃ s₀, (s₀ = s ∨ s₀ = s.note c) ∧
      (m.scan = { s₀ with literal := m.scan.literal } ∨ (∃ kind, m.scan = s₀.push kind n) ∨
        ∃ kind, s₀.pop kind n = .ok m.scan) := by
  rw [Scan.move_eq_deed] at h
  refine ⟨s.seen c, Scan.seen_cases s c, ?_⟩
  cases hd : Scan.deed s.literal c ahead with
  | stop =>
    rw [hd] at h
    cases h
    exact Or.inl rfl
  | go literal =>
    rw [hd] at h
    cases h
    exact Or.inl rfl
  | skip literal =>
    rw [hd] at h
    cases h
    exact Or.inl rfl
  | opens kind =>
    rw [hd] at h
    cases h
    exact Or.inr (Or.inl ⟨kind, rfl⟩)
  | closes kind =>
    rw [hd] at h
    obtain ⟨t, hpop, h⟩ := bind_eq_ok.1 h
    cases h
    exact Or.inr (Or.inr ⟨kind, hpop⟩)

/-- What each move keeps, scanning keeps. -/
theorem Scan.run_invariant {P : Scan → Prop} {n : Nat}
    (hP : ∀ {s : Scan} {c : Char} {ahead : Option Char} {m : Move}, s.move n c ahead = .ok m → P s → P m.scan)
    {s t : Scan} {text : List Char} (h : Scan.run n s text = .ok t) (hs : P s) : P t := by
  -- a move passes over one character or two
  induction hlen : text.length using Nat.strong_induction_on generalizing text s with
  | _ k ih =>
    subst hlen
    cases text with
    | nil =>
      rw [Scan.run_nil] at h
      cases h
      exact hs
    | cons c rest =>
      rw [Scan.run_cons] at h
      obtain ⟨m, hm, h⟩ := bind_eq_ok.1 h
      have hmove : P m.scan := hP hm hs
      cases m with
      | stop s' =>
        cases h
        exact hmove
      | go s' => exact ih rest.length (Nat.lt_succ_self _) h hmove rfl
      | skip s' =>
        refine ih rest.tail.length ?_ h hmove rfl
        rw [List.length_tail, List.length_cons]
        omega

theorem Scan.stack_pop {s t : Scan} {kind : Bracket} {n : Nat} (h : s.pop kind n = .ok t) :
    t.fresh = s.fresh - 1 ∧ t.indent = s.indent ∧ ∃ top, s.stack = top :: t.stack := by
  unfold Scan.pop at h
  split at h
  · cases h
  · rename_i top rest hstack
    split at h <;> cases h
    exact ⟨rfl, rfl, top, hstack⟩

/-- What opening and closing a bracket keep, scanning keeps: `P` is about the open brackets and
    how many of them the line has opened. -/
theorem Scan.run_stack {P : List Open → Nat → Prop} {n : Nat} {s t : Scan} {text : List Char}
    (hpush : ∀ kind stack fresh, P stack fresh → P (⟨kind, n, false, none⟩ :: stack) (fresh + 1))
    (hpop : ∀ top stack fresh, P (top :: stack) fresh → P stack (fresh - 1))
    (h : Scan.run n s text = .ok t) (hs : P s.stack s.fresh) : P t.stack t.fresh := by
  refine Scan.run_invariant (P := fun s => P s.stack s.fresh) ?_ h hs
  intro s c ahead m hm hs
  obtain ⟨s₀, hs₀, hcases⟩ := Scan.move_cases hm
  have hsame : P s₀.stack s₀.fresh := by
    rcases hs₀ with rfl | rfl
    · exact hs
    · unfold Scan.note
      split <;> exact hs
  rcases hcases with heq | ⟨kind, heq⟩ | ⟨kind, hpopped⟩
  · rw [heq]
    exact hsame
  · rw [heq]
    exact hpush kind _ _ hsame
  · obtain ⟨hfresh, -, top, hstack⟩ := Scan.stack_pop hpopped
    rw [hstack] at hsame
    rw [hfresh]
    exact hpop top _ _ hsame

/-- A level that is fixed stays. -/
theorem Scan.run_indent {n : Nat} {s t : Scan} {text : List Char} {k : Nat} (h : Scan.run n s text = .ok t)
    (hs : s.indent = some k) : t.indent = some k := by
  refine Scan.run_invariant (P := fun s => s.indent = some k) ?_ h hs
  intro s c ahead m hm hs
  obtain ⟨s₀, hs₀, hcases⟩ := Scan.move_cases hm
  have hsame : s₀.indent = some k := by
    rcases hs₀ with rfl | rfl
    · exact hs
    · unfold Scan.note
      rw [hs]
      exact hs
  rcases hcases with heq | ⟨kind, heq⟩ | ⟨kind, hpopped⟩
  · rw [heq]
    exact hsame
  · rw [heq]
    exact hsame
  · rw [(Scan.stack_pop hpopped).2.1]
    exact hsame

/-- The open brackets on line `n`: the `fresh` innermost ones are those that the line has opened,
    none of which indents yet; the others are of earlier lines, at most one of each indenting. -/
structure Ranked (n : Nat) (stack : List Open) (fresh : Nat) : Prop where
  here : ∀ o ∈ stack.take fresh, o.line = n ∧ o.indents = false
  before : ∀ o ∈ stack.drop fresh, 0 < o.line ∧ o.line < n
  single : (stack.drop fresh).Pairwise fun o o' =>
    o.indents = true → o'.indents = true → o'.line < o.line
  fresh_le : fresh ≤ stack.length

namespace Ranked

variable {n : Nat}

theorem initial : Ranked 1 [] 0 :=
  ⟨List.forall_mem_nil _, List.forall_mem_nil _, .nil, Nat.le_refl 0⟩

theorem run {s t : Scan} {text : List Char} (hs : Ranked n s.stack s.fresh)
    (h : Scan.run n s text = .ok t) : Ranked n t.stack t.fresh := by
  refine Scan.run_stack (P := Ranked n) ?_ ?_ h hs
  · intro kind stack fresh hr
    refine ⟨?_, hr.before, hr.single, Nat.succ_le_succ hr.fresh_le⟩
    rw [List.take_succ_cons, List.forall_mem_cons]
    exact ⟨⟨rfl, rfl⟩, hr.here⟩
  · intro top stack fresh hr
    cases fresh with
    | zero =>
      refine ⟨List.forall_mem_nil _, ?_, ?_, Nat.zero_le _⟩
      · exact (List.forall_mem_cons.1 hr.before).2
      · exact (List.pairwise_cons.1 hr.single).2
    | succ k =>
      refine ⟨?_, hr.before, hr.single, Nat.le_of_succ_le_succ hr.fresh_le⟩
      exact (List.forall_mem_cons.1 hr.here).2

/-- A line that has left brackets open gives the level to the innermost of them. -/
theorem settle_fresh {s : Scan} (hs : Ranked n s.stack s.fresh) (h : s.fresh ≠ 0) (text : List Char)
    (nextBlock : Nat) :
    ∃ top top' rest, s.stack = top :: rest ∧ (Go.settle s text nextBlock).1 = top' :: rest ∧
      top'.kind = top.kind ∧ top'.line = n ∧ top'.indents = true := by
  obtain ⟨literal, stack, fresh, indent⟩ := s
  obtain ⟨k, rfl⟩ := Nat.exists_eq_succ_of_ne_zero h
  cases stack with
  | nil =>
    have hle := hs.fresh_le
    simp at hle
  | cons top rest =>
    have hline : top.line = n := (hs.here top List.mem_cons_self).1
    simp only [Go.settle]
    split
    · exact ⟨top, _, rest, rfl, rfl, rfl, hline, rfl⟩
    · exact ⟨top, _, rest, rfl, rfl, rfl, hline, rfl⟩

/-- A line that has left no bracket open leaves the brackets as they are. -/
theorem settle_zero {s : Scan} (h : s.fresh = 0) (text : List Char) (nextBlock : Nat) :
    (Go.settle s text nextBlock).1 = s.stack := by
  unfold Go.settle
  rw [h]

/-- What the line has left open besides its innermost bracket does not indent. -/
theorem single_rest {top : Open} {rest : List Open} {k : Nat} (hs : Ranked n (top :: rest) (k + 1)) :
    rest.Pairwise fun o o' => o.indents = true → o'.indents = true → o'.line < o.line := by
  have hflat : ∀ o ∈ rest.take k, o.indents = false := fun o ho =>
    (hs.here o (List.mem_cons_of_mem _ ho)).2
  rw [← List.take_append_drop k rest, List.pairwise_append]
  refine ⟨?_, hs.single, fun o ho o' _ hindents => ?_⟩
  · refine List.pairwise_of_forall_mem_list fun o ho o' _ hindents => ?_
    rw [hflat o ho] at hindents
    cases hindents
  · rw [hflat o ho] at hindents
    cases hindents

/-- With the level given to the innermost bracket of the line, all brackets are of earlier lines. -/
theorem give {top top' : Open} {rest : List Open} {k : Nat} (hn : 0 < n)
    (hs : Ranked n (top :: rest) (k + 1)) (hline : top'.line = n) : Ranked (n + 1) (top' :: rest) 0 := by
  have hrest : ∀ o ∈ rest, o.line = n ∧ o.indents = false ∨ 0 < o.line ∧ o.line < n := by
    intro o ho
    rw [← List.take_append_drop k rest, List.mem_append] at ho
    rcases ho with ho | ho
    · exact Or.inl (hs.here o (List.mem_cons_of_mem _ ho))
    · exact Or.inr (hs.before o ho)
  refine ⟨List.forall_mem_nil _, List.forall_mem_cons.2 ⟨by omega, fun o ho => ?_⟩,
    List.pairwise_cons.2 ⟨fun o ho _ hindents => ?_, hs.single_rest⟩, Nat.zero_le _⟩
  · rcases hrest o ho with ⟨hn', -⟩ | ⟨hpos, hlt⟩ <;> omega
  · rcases hrest o ho with ⟨-, hflat⟩ | ⟨-, hlt⟩
    · rw [hflat] at hindents
      cases hindents
    · omega

/-- Behind the line all brackets are of an earlier line. -/
theorem settle {s : Scan} (hn : 0 < n) (hs : Ranked n s.stack s.fresh) (text : List Char) (nextBlock : Nat) :
    Ranked (n + 1) (Go.settle s text nextBlock).1 0 := by
  by_cases hfresh : s.fresh = 0
  · rw [settle_zero hfresh]
    rw [hfresh] at hs
    refine ⟨List.forall_mem_nil _, fun o ho => ?_, hs.single, Nat.zero_le _⟩
    obtain ⟨hpos, hlt⟩ := hs.before o ho
    exact ⟨hpos, Nat.lt_succ_of_lt hlt⟩
  · obtain ⟨top, top', rest, hstack, hsettle, -, hline, -⟩ := settle_fresh hs hfresh text nextBlock
    obtain ⟨k, hk⟩ := Nat.exists_eq_succ_of_ne_zero hfresh
    rw [hstack, hk] at hs
    rw [hsettle]
    exact hs.give hn hline

theorem layoutLine {b c : Between} {raw : List Char} {l : Line} (hn : 0 < n) (hb : Ranked n b.stack 0)
    (h : layoutLine b n raw = .ok (l, c)) : Ranked (n + 1) c.stack 0 := by
  obtain ⟨s, hrun, -, -, rfl⟩ := layoutLine_eq_ok.1 h
  have hs : Ranked n s.stack s.fresh := run (s := ⟨b.literal, b.stack, 0, none⟩) hb hrun
  exact hs.settle hn _ _

theorem layoutLines {b c : Between} {raws : List (List Char)} {ls : List Line} (hn : 0 < n)
    (hb : Ranked n b.stack 0) (h : layoutLines b n raws = .ok (ls, c)) :
    Ranked (n + raws.length) c.stack 0 := by
  induction raws generalizing b n ls with
  | nil =>
    cases h
    exact hb
  | cons raw raws ih =>
    obtain ⟨l, b', ls', hline, hlines, rfl⟩ := layoutLines_cons_eq_ok.1 h
    have hrest := ih (Nat.succ_pos n) (hb.layoutLine hn hline) hlines
    have hnumber : n + (raw :: raws).length = n + 1 + raws.length := by rw [List.length_cons]; omega
    rw [hnumber]
    exact hrest

/-- Behind a line that leaves a bracket open that it opened, the innermost open bracket is of this
    line and indents; behind any other line all open brackets are of earlier ones. -/
theorem top_of_layoutLine {b c : Between} {raw : List Char} {l : Line} (hb : Ranked n b.stack 0)
    (h : Go.layoutLine b n raw = .ok (l, c)) :
    (l.opens = true ∧ ∃ top rest, c.stack = top :: rest ∧ top.line = n ∧ top.indents = true) ∨
      (l.opens = false ∧ ∀ o ∈ c.stack, o.line < n) := by
  obtain ⟨s, hrun, -, rfl, rfl⟩ := layoutLine_eq_ok.1 h
  have hs : Ranked n s.stack s.fresh := run (s := ⟨b.literal, b.stack, 0, none⟩) hb hrun
  by_cases hfresh : s.fresh = 0
  · refine Or.inr ⟨by simp [hfresh], fun o ho => ?_⟩
    rw [settle_zero hfresh] at ho
    have hbefore := hs.before
    rw [hfresh, List.drop_zero] at hbefore
    exact (hbefore o ho).2
  · obtain ⟨-, top, rest, -, hsettle, -, hline, hindents⟩ := hs.settle_fresh hfresh _ b.nextBlock
    exact Or.inl ⟨by simpa using hfresh, top, rest, hsettle, hline, hindents⟩

end Ranked

/-! ## Lines of a text -/

/-- A laid-out line opens a block exactly if it leaves a bracket open that it opened. -/
theorem opens_iff_leavesOpen {raws : List (List Char)} {raw : List Char}
    (hraws : ∀ raw' ∈ raws ++ [raw], '\n' ∉ raw') {ls : List Line} {b b' : Between} {l : Line}
    (h : layoutLines .initial 1 raws = .ok (ls, b)) (hl : layoutLine b (1 + raws.length) raw = .ok (l, b')) :
    l.opens = true ↔ LeavesOpen (raws ++ [raw]) := by
  have hlines : layoutLines .initial 1 (raws ++ [raw]) = .ok (ls ++ [l], b') := by
    exact layoutLines_append_eq_ok.2
      ⟨ls, b, [l], h, layoutLines_cons_eq_ok.2 ⟨l, b', [], hl, rfl, rfl⟩, rfl⟩
  have hread := (reading_of_layoutLines hraws hlines).1
  have hb : Ranked (1 + raws.length) b.stack 0 := Ranked.initial.layoutLines Nat.one_pos h
  rw [leavesOpen_iff, hread, List.length_append, List.length_singleton, Nat.add_comm]
  rcases hb.top_of_layoutLine hl with ⟨hopens, top, rest, hstack, hline, -⟩ | ⟨hopens, hearlier⟩
  · refine iff_of_true hopens ⟨top.kind, pending rest, ?_⟩
    rw [hstack, pending, List.map_cons, hline]
    rfl
  · refine iff_of_false (by simp [hopens]) ?_
    rintro ⟨kind, stack, hstack⟩
    have hmem : (kind, 1 + raws.length) ∈ pending b'.stack := by
      rw [Except.ok.inj hstack]
      exact List.mem_cons_self
    obtain ⟨o, ho, heq⟩ := List.mem_map.1 hmem
    have hlt := hearlier o ho
    rw [(Prod.mk.inj heq).2] at hlt
    exact Nat.lt_irrefl _ hlt

/-- The layout of a text at its line `i`: it is in state `b` above it and in state `b'` behind it. -/
structure AtLine (source : List Char) (ls : List Line) (i : Nat) (raw : List Char) (b : Between) (l : Line)
    (b' : Between) : Prop where
  above : layoutLines .initial 1 ((lines source).take i) = .ok (ls.take i, b)
  line : layoutLine b (i + 1) raw = .ok (l, b')
  laid : ls[i]? = some l
  through : layoutLines .initial 1 ((lines source).take (i + 1)) = .ok (ls.take (i + 1), b')
  tidy : b.Tidy
  ranked : Ranked (i + 1) b.stack 0
  opens : l.opens = true ↔ LeavesOpen ((lines source).take (i + 1))
  inRaw : InRaw ((lines source).take i) ↔ b.literal = .raw

theorem exists_atLine {source : List Char} {ls : List Line} (h : layout source = .ok ls) {i : Nat}
    {raw : List Char} (hraw : (lines source)[i]? = some raw) : ∃ b l b', AtLine source ls i raw b l b' := by
  obtain ⟨next, hlines⟩ := layout_eq_ok.1 h
  obtain ⟨hi, hget⟩ := List.getElem?_eq_some_iff.1 hraw
  have hlength : ((lines source).take i).length = i := List.length_take_of_le (Nat.le_of_lt hi)
  have hcut : lines source = (lines source).take i ++ raw :: (lines source).drop (i + 1) := by
    rw [← hget, ← List.drop_eq_getElem_cons hi, List.take_append_drop]
  have htake : (lines source).take (i + 1) = (lines source).take i ++ [raw] := by
    rw [List.take_add_one, hraw]
    rfl
  rw [hcut] at hlines
  obtain ⟨above, b, rest, hbefore, hrest, rfl⟩ := layoutLines_append_eq_ok.1 hlines
  obtain ⟨l, b', below, hline, -, rfl⟩ := layoutLines_cons_eq_ok.1 hrest
  have habove : above.length = i := by rw [length_layoutLines hbefore, hlength]
  have htaken : (above ++ l :: below).take i = above := by rw [← habove, List.take_left]
  have hlaid : (above ++ l :: below)[i]? = some l := by
    rw [List.getElem?_append_right (Nat.le_of_eq habove), habove, Nat.sub_self]
    rfl
  have hthrough : layoutLines .initial 1 ((lines source).take (i + 1)) = .ok (above ++ [l], b') := by
    rw [htake]
    exact layoutLines_append_eq_ok.2
      ⟨above, b, [l], hbefore, layoutLines_cons_eq_ok.2 ⟨l, b', [], hline, rfl, rfl⟩, rfl⟩
  have hranked : Ranked (1 + ((lines source).take i).length) b.stack 0 :=
    Ranked.initial.layoutLines Nat.one_pos hbefore
  have hnewline : ∀ k, ∀ raw' ∈ (lines source).take k, '\n' ∉ raw' := fun k =>
    newline_not_mem_above (List.take_append_drop k _).symm
  have hopens : l.opens = true ↔ LeavesOpen ((lines source).take i ++ [raw]) :=
    opens_iff_leavesOpen (htake ▸ hnewline (i + 1)) hbefore hline
  rw [Nat.add_comm, hlength] at hline hranked
  refine ⟨b, l, b', ?_, hline, hlaid, ?_, tidy_of_layoutLines tidy_initial hbefore, hranked,
    htake ▸ hopens, inRaw_iff (hnewline i) hbefore⟩
  · rw [htaken]
    exact hbefore
  · rw [hthrough, List.take_add_one, htaken, hlaid]
    rfl

end ServiceSchema.Go
