/-
  ServiceSchema.Proofs.Rescanning — field lines that are scanned a second time.

  At a character the scanner looks at most one character ahead (`Scan.move`), so what it does
  with a line follows from what it does at each place. Blanks do not move it, whatever it is
  inside of. Lining up puts blanks where there were none only before a `//`, which is harmless
  unless the slash ended a comment: `*//`.

  - `Scan.run_cons`: a run, one move at a time.
  - `Scan.move_eq_deed`: what a move does is settled without the open brackets; they only say
    whether a bracket may close.
  - `Scan.run_gap`: blanks are passed over.
  - `run_of_spread`: the scanner reads a line that was lined up like the line before.
-/
import ServiceSchema.Proofs.Fallible
import ServiceSchema.Proofs.Recutting

namespace ServiceSchema.Go

open Text

/-- No blank is a bracket. -/
theorem Bracket.none_of_isBlank {c : Char} (h : isBlank c = true) :
    ofOpener? c = none ∧ ofCloser? c = none := by
  constructor
  · unfold ofOpener?
    split <;> first | rfl | cases h
  · unfold ofCloser?
    split <;> first | rfl | cases h

/-! ## Moves -/

/-- What the scanner does at a character: it stops, it goes on, or it goes on behind the next
    character. -/
inductive Move where
  | stop (s : Scan)
  | go (s : Scan)
  | skip (s : Scan)
  deriving DecidableEq, Repr

namespace Scan

/-- The move at a character, given the next one. -/
def move (line : Nat) (s : Scan) (c : Char) (ahead : Option Char) : Except LayoutFault Move :=
  match s.literal with
  | .interpreted =>
    .ok (if c = '\\' then .skip s else .go (if c = '"' then { s with literal := .code } else s))
  | .rune =>
    .ok (if c = '\\' then .skip s else .go (if c = '\'' then { s with literal := .code } else s))
  | .raw => .ok (.go (if c = '`' then { s with literal := .code } else s))
  | .comment =>
    .ok (if c = '*' ∧ ahead = some '/' then .skip { s with literal := .code } else .go s)
  | .code =>
    let s := s.note c
    if c = '"' then .ok (.go { s with literal := .interpreted })
    else if c = '\'' then .ok (.go { s with literal := .rune })
    else if c = '`' then .ok (.go { s with literal := .raw })
    else if c = '/' then
      .ok (if ahead = some '/' then .stop s
        else if ahead = some '*' then .skip { s with literal := .comment } else .go s)
    else
      match Bracket.ofOpener? c, Bracket.ofCloser? c with
      | some kind, _ => .ok (.go (s.push kind line))
      | none, some kind => do return .go (← s.pop kind line)
      | none, none => .ok (.go s)

/-- The run after a move, `rest` being the characters behind the one it was made at. -/
def follow (line : Nat) (rest : List Char) : Move → Except LayoutFault Scan
  | .stop s => .ok s
  | .go s => run line s rest
  | .skip s => run line s rest.tail

theorem run_nil (n : Nat) (s : Scan) : run n s [] = .ok s := by rw [run.eq_def]

theorem run_cons (n : Nat) (s : Scan) (c : Char) (rest : List Char) :
    run n s (c :: rest) = s.move n c rest.head? >>= follow n rest := by
  rw [run.eq_def]
  unfold move
  dsimp only
  cases s.literal with
  | interpreted =>
    by_cases hc : c = '\\'
    · cases rest with
      | nil => simp [hc, Fallible.ok_bind, follow, run_nil]
      | cons d after => simp [hc, Fallible.ok_bind, follow]
    · simp [hc, Fallible.ok_bind, follow]
  | rune =>
    by_cases hc : c = '\\'
    · cases rest with
      | nil => simp [hc, Fallible.ok_bind, follow, run_nil]
      | cons d after => simp [hc, Fallible.ok_bind, follow]
    · simp [hc, Fallible.ok_bind, follow]
  | raw => rfl
  | comment =>
    cases rest with
    | nil => simp [Fallible.ok_bind, follow, run_nil]
    | cons d after =>
      by_cases hc : c = '*' ∧ d = '/'
      · simp [hc, Fallible.ok_bind, follow]
      · simp [hc, Fallible.ok_bind, follow]
  | code =>
    by_cases h1 : c = '"'
    · simp [h1, Fallible.ok_bind, follow]
    by_cases h2 : c = '\''
    · simp [h2, Fallible.ok_bind, follow]
    by_cases h3 : c = '`'
    · simp [h3, Fallible.ok_bind, follow]
    by_cases h4 : c = '/'
    · cases rest with
      | nil => simp [h4, Fallible.ok_bind, follow, run_nil]
      | cons d after =>
        by_cases h5 : d = '/'
        · simp [h4, h5, Fallible.ok_bind, follow]
        by_cases h6 : d = '*'
        · simp [h4, h6, Fallible.ok_bind, follow]
        · simp [h4, h5, h6, Fallible.ok_bind, follow]
    simp only [h1, h2, h3, h4, if_false]
    cases Bracket.ofOpener? c with
    | some kind => rfl
    | none =>
      cases Bracket.ofCloser? c with
      | some kind => rw [bind_assoc]; rfl
      | none => rfl

/-- What the scanner does at a character, told without its state: the rest of the line is a
    comment, or it goes on inside of something, behind the next character or not, or there is
    a bracket. -/
inductive Deed where
  | stop
  | go (literal : Literal)
  | skip (literal : Literal)
  | opens (kind : Bracket)
  | closes (kind : Bracket)

/-- What is done depends on what the scanner is inside of, the character and the next one. -/
def deed : Literal → Char → Option Char → Deed
  | .interpreted, c, _ =>
    if c = '\\' then .skip .interpreted else .go (if c = '"' then .code else .interpreted)
  | .rune, c, _ => if c = '\\' then .skip .rune else .go (if c = '\'' then .code else .rune)
  | .raw, c, _ => .go (if c = '`' then .code else .raw)
  | .comment, c, ahead => if c = '*' ∧ ahead = some '/' then .skip .code else .go .comment
  | .code, c, ahead =>
    if c = '"' then .go .interpreted
    else if c = '\'' then .go .rune
    else if c = '`' then .go .raw
    else if c = '/' then
      if ahead = some '/' then .stop else if ahead = some '*' then .skip .comment else .go .code
    else
      match Bracket.ofOpener? c, Bracket.ofCloser? c with
      | some kind, _ => .opens kind
      | none, some kind => .closes kind
      | none, none => .go .code

/-- The move that does it. -/
def Deed.move (line : Nat) (s : Scan) : Deed → Except LayoutFault Move
  | .stop => .ok (.stop s)
  | .go literal => .ok (.go { s with literal := literal })
  | .skip literal => .ok (.skip { s with literal := literal })
  | .opens kind => .ok (.go (s.push kind line))
  | .closes kind => s.pop kind line >>= fun t => .ok (.go t)

/-- Only in code a character fixes the level. -/
def seen (s : Scan) (c : Char) : Scan :=
  match s.literal with
  | .code => s.note c
  | _ => s

theorem seen_cases (s : Scan) (c : Char) : s.seen c = s ∨ s.seen c = s.note c := by
  unfold seen
  split
  · exact Or.inr rfl
  · exact Or.inl rfl

theorem literal_note (s : Scan) (c : Char) : (s.note c).literal = s.literal := by
  unfold note
  split <;> rfl

theorem move_eq_deed (n : Nat) (s : Scan) (c : Char) (ahead : Option Char) :
    s.move n c ahead = (deed s.literal c ahead).move n (s.seen c) := by
  obtain ⟨literal, stack, fresh, indent⟩ := s
  cases literal with
  | interpreted =>
    dsimp only [move, deed, seen]
    split_ifs <;> rfl
  | rune =>
    dsimp only [move, deed, seen]
    split_ifs <;> rfl
  | raw =>
    dsimp only [move, deed, seen]
    split_ifs <;> rfl
  | comment =>
    dsimp only [move, deed, seen]
    split_ifs <;> rfl
  | code =>
    dsimp only [move, deed, seen]
    -- the level may have been fixed, but the scanner is still in code
    have hnote := literal_note ⟨.code, stack, fresh, indent⟩ c
    generalize note ⟨.code, stack, fresh, indent⟩ c = t at hnote ⊢
    obtain ⟨_, stack', fresh', indent'⟩ := t
    cases hnote
    split_ifs <;> try rfl
    -- what is left is a bracket, or no mark at all
    cases Bracket.ofOpener? c with
    | some kind => rfl
    | none => cases Bracket.ofCloser? c <;> rfl

theorem move_blank {c : Char} (hc : isBlank c = true) (n : Nat) (s : Scan) (ahead : Option Char) :
    s.move n c ahead = .ok (.go s) := by
  have hne : ∀ d, isBlank d = false → c ≠ d := by
    rintro d hd rfl
    rw [hd] at hc
    cases hc
  obtain ⟨hopen, hclose⟩ := Bracket.none_of_isBlank hc
  have hnote : s.note c = s := by simp [note, hc]
  unfold move
  cases s.literal <;>
    simp [hnote, hopen, hclose, hne '\\' (by decide), hne '"' (by decide), hne '\'' (by decide),
      hne '`' (by decide), hne '*' (by decide), hne '/' (by decide)]

theorem run_blank {c : Char} (hc : isBlank c = true) (n : Nat) (s : Scan) (rest : List Char) :
    run n s (c :: rest) = run n s rest := by
  rw [run_cons, move_blank hc, Fallible.ok_bind]
  rfl

/-- The scanner passes over blanks, whatever it is inside of. -/
theorem run_gap {gap : List Char} (hgap : ∀ c ∈ gap, isBlank c = true) (n : Nat) (s : Scan)
    (rest : List Char) : run n s (gap ++ rest) = run n s rest := by
  induction gap with
  | nil => rfl
  | cons c gap ih =>
    rw [List.forall_mem_cons] at hgap
    rw [List.cons_append, run_blank hgap.1]
    exact ih hgap.2

/-- In quotes a slash is passed over. -/
theorem run_slash {s : Scan} (hs : s.literal = .interpreted ∨ s.literal = .rune) (n : Nat)
    (rest : List Char) : run n s ('/' :: rest) = run n s rest := by
  rw [run_cons, move]
  rcases hs with hs | hs
  · rw [hs]
    rfl
  · rw [hs]
    rfl

/-- The characters agree in whether they are a slash, and in whether they are a star. -/
def SameMark (a b : Option Char) : Prop :=
  (a = some '/' ↔ b = some '/') ∧ (a = some '*' ↔ b = some '*')

/-- Only at a slash and at a star the next character counts, and only whether it is one. -/
theorem move_congr {c : Char} {a b : Option Char} (h : c = '/' ∨ c = '*' → SameMark a b) (n : Nat)
    (s : Scan) : s.move n c a = s.move n c b := by
  unfold move
  by_cases hc : c = '/' ∨ c = '*'
  · obtain ⟨hslash, hstar⟩ := h hc
    simp only [hslash, hstar]
  · rw [not_or] at hc
    simp only [hc.1, hc.2, false_and, if_false]

/-- A character is passed over behind a backslash in quotes, or as the second one of a mark. -/
theorem mark_of_skip {c : Char} {ahead : Option Char} {n : Nat} {s s' : Scan}
    (h : s.move n c ahead = .ok (.skip s')) :
    (s.literal = .interpreted ∨ s.literal = .rune) ∧ s' = s ∨
      (c = '/' ∨ c = '*') ∧ (ahead = some '/' ∨ ahead = some '*') := by
  unfold move at h
  cases hs : s.literal with
  | interpreted =>
    simp only [hs, Except.ok.injEq] at h
    split at h
    · cases h
      exact Or.inl ⟨Or.inl rfl, rfl⟩
    · cases h
  | rune =>
    simp only [hs, Except.ok.injEq] at h
    split at h
    · cases h
      exact Or.inl ⟨Or.inr rfl, rfl⟩
    · cases h
  | raw =>
    rw [hs] at h
    cases h
  | comment =>
    simp only [hs, Except.ok.injEq] at h
    split at h
    · rename_i hc
      exact Or.inr ⟨Or.inr hc.1, Or.inl hc.2⟩
    · cases h
  | code =>
    simp only [hs] at h
    split at h
    · cases h
    split at h
    · cases h
    split at h
    · cases h
    split at h
    · rename_i hc
      simp only [Except.ok.injEq] at h
      split at h
      · cases h
      split at h
      · rename_i hahead
        exact Or.inr ⟨Or.inl hc, Or.inr hahead⟩
      · cases h
    split at h
    · cases h
    · obtain ⟨s'', -, h⟩ := Fallible.bind_eq_ok.1 h
      cases h
    · cases h

end Scan

/-! ## Texts that are scanned alike -/

/-- From here on the scanner reads both texts alike, also where it passes over their first
    character: in quotes, behind a backslash, or when it is one and the same. -/
structure Alike (x y : List Char) : Prop where
  run : ∀ n s, Scan.run n s x = Scan.run n s y
  quoted : ∀ n s, s.literal = .interpreted ∨ s.literal = .rune →
    Scan.run n s x.tail = Scan.run n s y.tail
  tail : x.head? = y.head? → ∀ n s, Scan.run n s x.tail = Scan.run n s y.tail

namespace Alike

theorem refl (x : List Char) : Alike x x := ⟨fun _ _ => rfl, fun _ _ _ => rfl, fun _ _ _ => rfl⟩

theorem cons {x y : List Char} (h : Alike x y) {c : Char}
    (hmark : c = '/' ∨ c = '*' → Scan.SameMark x.head? y.head?) : Alike (c :: x) (c :: y) := by
  refine ⟨fun n s => ?_, fun n s _ => h.run n s, fun _ => h.run⟩
  rw [Scan.run_cons, Scan.run_cons, Scan.move_congr hmark]
  cases hm : s.move n c y.head? with
  | error fault => rfl
  | ok m =>
    cases m with
    | stop s' => rfl
    | go s' => exact h.run n s'
    | skip s' =>
      show Scan.run n s' x.tail = Scan.run n s' y.tail
      rcases Scan.mark_of_skip hm with ⟨hs, rfl⟩ | ⟨hc, hy⟩
      · exact h.quoted n s' hs
      · -- both texts go on with the second character of the mark
        apply h.tail
        rcases hy with hy | hy
        · rw [hy, (hmark hc).1.2 hy]
        · rw [hy, (hmark hc).2.2 hy]

/-- Gaps of any width are alike. -/
theorem gaps {g g' x y : List Char} (hg : g ≠ []) (hg' : g' ≠ []) (hb : ∀ c ∈ g, isBlank c = true)
    (hb' : ∀ c ∈ g', isBlank c = true) (h : ∀ n s, Scan.run n s x = Scan.run n s y) :
    Alike (g ++ x) (g' ++ y) := by
  have htail : ∀ n s, Scan.run n s (g ++ x).tail = Scan.run n s (g' ++ y).tail := by
    intro n s
    rw [List.tail_append_of_ne_nil hg, List.tail_append_of_ne_nil hg',
      Scan.run_gap (fun c hc => hb c (List.mem_of_mem_tail hc)),
      Scan.run_gap (fun c hc => hb' c (List.mem_of_mem_tail hc)), h]
  refine ⟨fun n s => ?_, fun n s _ => htail n s, fun _ => htail⟩
  rw [Scan.run_gap hb, Scan.run_gap hb', h]

/-- A gap may come before a comment. -/
theorem comment {gap rest : List Char} (hne : gap ≠ []) (hb : ∀ c ∈ gap, isBlank c = true) :
    Alike (gap ++ '/' :: rest) ('/' :: rest) := by
  refine ⟨fun n s => Scan.run_gap hb n s _, fun n s hs => ?_, fun hhead => ?_⟩
  · rw [List.tail_append_of_ne_nil hne, Scan.run_gap (fun c hc => hb c (List.mem_of_mem_tail hc)),
      Scan.run_slash hs]
    rfl
  · cases gap with
    | nil => exact absurd rfl hne
    | cons c gap =>
      cases hhead
      have hblank := hb '/' List.mem_cons_self
      cases hblank

end Alike

/-! ## Lined-up lines -/

/-- How a line goes on behind a started cell, as it was lined up and as it was: alike, and
    with the same character, unless a gap comes there. -/
structure Resumes (cell : List Char) (quote : Option Quote) (rest cs : List Char) : Prop
    extends Alike rest cs where
  head : rest.head? = cs.head? ∨ quote = none ∧ (∀ d, rest.head? = some d → isBlank d = true) ∧
    ∀ d, cs.head? = some d → isBlank d = true ∨ d = '/' ∧ cell.getLast? ≠ some '*'

/-- One character of the cell more. -/
theorem Resumes.alike_cons {cell rest cs : List Char} {c : Char} {quote : Option Quote}
    (h : Resumes (cell ++ [c]) quote rest cs)
    (hslash : quote = none → c = '/' → cs.head? ≠ some '/') : Alike (c :: rest) (c :: cs) := by
  apply h.toAlike.cons
  intro hc
  rcases h.head with heq | ⟨hq, hrest, hcs⟩
  · rw [heq]
    exact ⟨Iff.rfl, Iff.rfl⟩
  have hno : ∀ d, isBlank d = false → rest.head? ≠ some d := by
    intro d hd hhead
    rw [hrest d hhead] at hd
    cases hd
  refine ⟨⟨fun hr => absurd hr (hno '/' (by decide)), fun hr => ?_⟩,
    ⟨fun hr => absurd hr (hno '*' (by decide)), fun hr => ?_⟩⟩
  · rcases hcs '/' hr with hblank | ⟨-, hstar⟩
    · cases hblank
    · rcases hc with hc | rfl
      · exact absurd hr (hslash hq hc)
      · exact absurd List.getLast?_concat hstar
  · rcases hcs '*' hr with hblank | ⟨hslash, -⟩
    · cases hblank
    · cases hslash

theorem Resumes.of_alike {rest cs : List Char} (h : Alike rest cs) (hhead : rest.head? = cs.head?)
    (cell : List Char) (quote : Option Quote) :
    (∀ n s, Scan.run n s rest = Scan.run n s cs) ∧ (cell ≠ [] → Resumes cell quote rest cs) :=
  ⟨h.run, fun _ => ⟨h, Or.inl hhead⟩⟩

/-- At a gap behind a cell, the line as it was goes on with a blank or with a comment that does
    not take up the end of another one. -/
theorem Resumes.of_gap {cell rest cs : List Char} (h : Alike rest cs)
    (hrest : ∀ d, rest.head? = some d → isBlank d = true)
    (hcs : ∀ d, cs.head? = some d → isBlank d = true ∨ d = '/' ∧ cell.getLast? ≠ some '*') :
    (∀ n s, Scan.run n s rest = Scan.run n s cs) ∧ (cell ≠ [] → Resumes cell none rest cs) :=
  ⟨h.run, fun _ => ⟨h, Or.inr ⟨rfl, hrest, hcs⟩⟩⟩

theorem isBlank_of_head?_gap {gap out : List Char} (hne : gap ≠ []) (hgap : ∀ c ∈ gap, isBlank c = true) :
    ∀ d, (gap ++ out).head? = some d → isBlank d = true := by
  intro d hd
  rw [List.head?_append_of_ne_nil _ hne] at hd
  exact hgap d (List.mem_of_head? hd)

/-- A line that goes on at a blank, lined up with a gap of its own in place of that blank. -/
theorem Resumes.of_blank {gap out after : List Char} {c : Char} (hc : isBlank c = true)
    (hgap : ∀ d ∈ gap, isBlank d = true) (hne : gap ≠ [] ∨ out = [])
    (hafter : ∀ n s, Scan.run n s out = Scan.run n s after) (cell : List Char) :
    (∀ n s, Scan.run n s (gap ++ out) = Scan.run n s (c :: after)) ∧
      (cell ≠ [] → Resumes cell none (gap ++ out) (c :: after)) := by
  have hblank : ∀ d ∈ [c], isBlank d = true := by
    intro d hd
    rwa [List.mem_singleton.1 hd]
  have hcs : ∀ d, (c :: after).head? = some d → isBlank d = true ∨ d = '/' ∧ cell.getLast? ≠ some '*' := by
    intro d hd
    cases hd
    exact Or.inl hc
  by_cases hnil : gap = []
  · -- the line as it was lined up ends here
    obtain rfl : out = [] := hne.resolve_left (absurd hnil)
    subst hnil
    refine Resumes.of_gap ⟨fun n s => ?_, fun n s _ => hafter n s, fun _ => hafter⟩ ?_ hcs
    · rw [Scan.run_blank hc]
      exact hafter n s
    · exact fun d hd => by cases hd
  · exact Resumes.of_gap (.gaps hnil (by simp) hgap hblank hafter) (isBlank_of_head?_gap hnil hgap) hcs

/-- Cells with blanks between them are scanned like the line they were cut from, the part of
    the current cell that was read staying in front. -/
theorem exists_rescan {cell cs out : List Char} {quote : Option Quote}
    (h : Spread (cellsFrom cell quote cs) out)
    (hstar : ∀ z ∈ cellsFrom cell quote cs, ['/', '/'] <+: z → ¬ '*' :: z <:+ cell ++ cs) :
    ∃ rest, out = cell ++ rest ∧ (∀ n s, Scan.run n s rest = Scan.run n s cs) ∧
      (cell ≠ [] → Resumes cell quote rest cs) := by
  fun_induction cellsFrom cell quote cs generalizing out with
  | case1 cell quote =>
    exact ⟨[], by rw [h.eq_cell, List.append_nil], Resumes.of_alike (.refl []) rfl _ _⟩
  | case2 cell => exact ⟨['\\'], h.eq_cell, Resumes.of_alike (.refl ['\\']) rfl _ _⟩
  | case3 cell d after ih =>
    obtain ⟨rest, rfl, -, hrest⟩ := ih h (by simpa using hstar)
    refine ⟨'\\' :: d :: rest, by simp, Resumes.of_alike ?_ (by rfl) _ _⟩
    have hd : Resumes ((cell ++ ['\\']) ++ [d]) (some .double) rest after := by
      simpa using hrest (by simp)
    exact (hd.alike_cons fun hq => by cases hq).cons (by simp)
  | case4 cell c after hc ih =>
    obtain ⟨rest, rfl, -, hrest⟩ := ih h (by simpa using hstar)
    refine ⟨c :: rest, by simp, Resumes.of_alike ?_ (by rfl) _ _⟩
    apply (hrest (by simp)).alike_cons
    rintro hq rfl
    simp at hq
  | case5 cell c after ih =>
    obtain ⟨rest, rfl, -, hrest⟩ := ih h (by simpa using hstar)
    refine ⟨c :: rest, by simp, Resumes.of_alike ?_ (by rfl) _ _⟩
    apply (hrest (by simp)).alike_cons
    rintro hq rfl
    simp at hq
  | case6 cell c after hc =>
    obtain ⟨rfl, hafter⟩ := hc
    rcases h.uncons with ⟨rfl, hcells⟩ | ⟨hnil, -⟩ | ⟨gap, out', hne, hgap, hcells, rfl⟩
    · cases hcells
      exact ⟨_, rfl, Resumes.of_alike (.refl _) rfl _ _⟩
    · cases hnil
    · cases hcells
      refine ⟨_, rfl, Resumes.of_gap (.comment hne hgap) (isBlank_of_head?_gap hne hgap) ?_⟩
      -- the slash stays a slash only if it does not end a comment
      intro d hd
      cases hd
      refine Or.inr ⟨rfl, fun hlast => ?_⟩
      obtain ⟨front, hfront⟩ := List.getLast?_eq_some_iff.1 hlast
      obtain ⟨after, rfl⟩ := List.head?_eq_some_iff.1 hafter
      refine hstar ('/' :: '/' :: after) ?_ ⟨after, rfl⟩ ⟨front, ?_⟩
      · cases cell <;> simp [consCell]
      · rw [hfront, List.append_assoc]
        rfl
  | case7 cell c after _ hc ih =>
    have hafter : ∀ out', Spread (cellsFrom [] none after) out' →
        ∀ n s, Scan.run n s out' = Scan.run n s after := by
      intro out' hcells
      have hstar' : ∀ z ∈ cellsFrom [] none after, ['/', '/'] <+: z → ¬ '*' :: z <:+ [] ++ after := by
        intro z hz hslash hsuffix
        refine hstar z ?_ hslash (hsuffix.trans ⟨cell ++ [c], by simp⟩)
        cases cell with
        | nil => exact hz
        | cons d cell => exact List.mem_cons_of_mem _ hz
      obtain ⟨_, rfl, hrun, -⟩ := ih hcells hstar'
      exact hrun
    rcases h.uncons with ⟨rfl, hcells⟩ | ⟨hnil, rfl⟩ | ⟨gap, out', hne, hgap, hcells, rfl⟩
    · refine ⟨out, rfl, fun n s => ?_, fun hcell => absurd rfl hcell⟩
      rw [hafter out hcells]
      exact (Scan.run_blank hc n s after).symm
    · exact ⟨[] ++ [], (List.append_nil _).symm,
        Resumes.of_blank hc (by simp) (Or.inr rfl) (hafter [] (hnil ▸ .nil)) _⟩
    · exact ⟨gap ++ out', rfl, Resumes.of_blank hc hgap (Or.inl hne) (hafter out' hcells) cell⟩
  | case8 cell c after hc hblank ih =>
    obtain ⟨rest, rfl, -, hrest⟩ := ih h (by simpa using hstar)
    refine ⟨c :: rest, by simp, Resumes.of_alike ?_ (by rfl) _ _⟩
    apply (hrest (by simp)).alike_cons
    intro _ hslash hhead
    exact hc ⟨hslash, hhead⟩

/-- The scanner reads a line that was lined up like the line before, unless the line has the
    end of a comment and the beginning of another in one: `*//`. -/
theorem run_of_spread {text out : List Char} (h : Spread (cells text) out)
    (hstar : ∀ cell ∈ cells text, ['/', '/'] <+: cell → ¬ '*' :: cell <:+ text) (n : Nat) (s : Scan) :
    Scan.run n s out = Scan.run n s text := by
  obtain ⟨rest, rfl, hrun, -⟩ := exists_rescan h hstar
  exact hrun n s

end ServiceSchema.Go
