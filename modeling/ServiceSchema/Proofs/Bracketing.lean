/-
  ServiceSchema.Proofs.Bracketing — layout accepts exactly the well-bracketed texts.

  The reader here goes through a whole text character by character, with no stack, no look ahead
  and nothing trimmed: it knows what it is inside of, and which brackets and broken literals it
  came by. The layout goes line by line over trimmed lines and looks one character ahead. That it
  comes to the same rests on three things:
  - blanks take no part, neither before a line's text nor behind it (`judge_gap`, `judge_trailing`);
  - inside a line the scanner does what the reader does (`judge_run`);
  - at the end of a line a slash, a star or a backslash has begun nothing (`judge_resting`).

  - `layout_bracketing`: a text is laid out exactly if it is well-bracketed, and otherwise the
    fault is its first offence.
-/
import ServiceSchema.Proofs.BracketWords
import ServiceSchema.Proofs.Rescanning
import ServiceSchema.Proofs.Respacing

namespace ServiceSchema.Go

open Text Fallible

/-! ## Reading -/

/-- The literals that end on their line. -/
inductive Quoted where
  | interpreted
  | rune
  deriving DecidableEq, Repr

def Quoted.quote : Quoted → Char
  | interpreted => '"'
  | rune => '\''

/-- What a reader is inside of. -/
inductive Region where
  | code
  /-- Code behind a slash. -/
  | slash
  | quoted (kind : Quoted)
  /-- Behind a backslash in quotes. -/
  | escaped (kind : Quoted)
  | raw
  /-- A comment that `*/` ends. -/
  | comment
  /-- Behind a star in such a comment. -/
  | star
  /-- A comment up to the end of its line. -/
  | remark
  deriving DecidableEq, Repr

namespace Region

/-- Where a character of code leads. -/
def enter (c : Char) : Region :=
  if c = '"' then .quoted .interpreted
  else if c = '\'' then .quoted .rune
  else if c = '`' then .raw
  else if c = '/' then .slash
  else .code

/-- Where a character leads. Only raw strings and comments in stars go on at the end of a line. -/
def next : Region → Char → Region
  | .code, c => enter c
  | .slash, c => if c = '/' then .remark else if c = '*' then .comment else enter c
  | .quoted kind, c =>
    if c = '\n' then .code else if c = '\\' then .escaped kind
    else if c = kind.quote then .code else .quoted kind
  | .escaped kind, c => if c = '\n' then .code else .quoted kind
  | .raw, c => if c = '`' then .code else .raw
  | .comment, c => if c = '*' then .star else .comment
  | .star, c => if c = '/' then .code else if c = '*' then .star else .comment
  | .remark, c => if c = '\n' then .code else .remark

/-- What counts at a character on line `line`. -/
def mark : Region → Nat → Char → Option Mark
  | .code, line, c | .slash, line, c =>
    match Bracket.ofOpener? c, Bracket.ofCloser? c with
    | some kind, _ => some (.opens kind line)
    | none, some kind => some (.closes kind line)
    | none, none => none
  | .quoted _, line, c | .escaped _, line, c => if c = '\n' then some (.breaks line) else none
  | _, _, _ => none

/-- The marks of a text that is read from line `line` on, and where its end is. -/
def read : Region → Nat → List Char → List Mark × Region
  | r, _, [] => ([], r)
  | r, line, c :: rest =>
    let later := (r.next c).read (if c = '\n' then line + 1 else line) rest
    ((r.mark line c).toList ++ later.1, later.2)

end Region

/-- A text's brackets and broken literals, and where it ends; its end is the end of a line. -/
def reading (source : List Char) : List Mark × Region := Region.code.read 1 (source ++ ['\n'])

example : reading "f(\"]\\\"\", `\n[` /* ) */) // (\n['".toList =
    ([.opens .paren 1, .closes .paren 2, .opens .square 3, .breaks 3], .code) := by decide

/-- Every literal of one line ends on it, the brackets form a balanced word, and the text ends
    in no raw string or comment. -/
structure WellBracketed (source : List Char) : Prop where
  literals : ∀ line, .breaks line ∉ (reading source).1
  brackets : Balanced (reading source).1
  ended : (reading source).2 = .code

/-- The fault of the first place where a text is not well-bracketed: a mark that spoils the word
    of its marks or, when there is none, the innermost open bracket, or, when there is none
    either, the raw string or comment that the text ends in. -/
inductive FirstOffence (source : List Char) : LayoutFault → Prop
  | mark {fault : LayoutFault} : Spoiled (reading source).1 fault → FirstOffence source fault
  | unclosed {outer inner : List Mark} {kind : Bracket} {line : Nat} :
      (reading source).1 = outer ++ .opens kind line :: inner → Begins outer → Balanced inner →
      FirstOffence source (.unclosed kind.opener line)
  | unterminatedRaw : Balanced (reading source).1 → (reading source).2 = .raw →
      FirstOffence source .unterminatedRaw
  | unterminatedComment : Balanced (reading source).1 → (reading source).2 = .comment →
      FirstOffence source .unterminatedComment

/-! ## Judging what is read -/

/-- The brackets that are open behind a text, and where its end is. -/
def judge (stack : List (Bracket × Nat)) (r : Region) (line : Nat) (cs : List Char) :
    Except LayoutFault (List (Bracket × Nat) × Region) :=
  absorbAll stack (r.read line cs).1 >>= fun stack' => .ok (stack', (r.read line cs).2)

theorem judge_cons (stack : List (Bracket × Nat)) (r : Region) (line : Nat) (c : Char) (rest : List Char) :
    judge stack r line (c :: rest) = absorbAll stack (r.mark line c).toList >>= fun stack' =>
      judge stack' (r.next c) (if c = '\n' then line + 1 else line) rest := by
  rw [judge, Region.read, absorbAll_append, bind_assoc]
  rfl

theorem judge_pass {r : Region} {line : Nat} {c : Char} (hc : c ≠ '\n') (hmark : r.mark line c = none)
    (stack : List (Bracket × Nat)) (rest : List Char) :
    judge stack r line (c :: rest) = judge stack (r.next c) line rest := by
  rw [judge_cons, hmark, if_neg hc]
  rfl

/-- Ends that are judged alike may stand behind any text. -/
theorem judge_congr {y y' : List Char}
    (h : ∀ stack r line, judge stack r line y = judge stack r line y') (x : List Char)
    (stack : List (Bracket × Nat)) (r : Region) (line : Nat) :
    judge stack r line (x ++ y) = judge stack r line (x ++ y') := by
  induction x generalizing stack r line with
  | nil => exact h stack r line
  | cons c x ih =>
    rw [List.cons_append, List.cons_append, judge_cons, judge_cons]
    simp only [ih]

/-! ## Blanks -/

namespace Region

/-- Where blanks lead: what a character has begun is dropped. -/
def resting : Region → Region
  | .slash => .code
  | .escaped kind => .quoted kind
  | .star => .comment
  | r => r

theorem mark_blank {c : Char} (h : isBlank c = true) (hc : c ≠ '\n') (r : Region) (line : Nat) :
    r.mark line c = none := by
  obtain ⟨hopen, hclose⟩ := Bracket.none_of_isBlank h
  cases r <;> simp [mark, hopen, hclose, hc]

theorem next_blank {c : Char} (h : isBlank c = true) (hc : c ≠ '\n') (r : Region) : r.next c = r.resting := by
  have hne : ∀ d, isBlank d = false → c ≠ d := by
    rintro d hd rfl
    rw [hd] at h
    cases h
  have henter : enter c = .code := by
    simp [enter, hne '"' (by decide), hne '\'' (by decide), hne '`' (by decide), hne '/' (by decide)]
  have hquote : ∀ kind : Quoted, c ≠ kind.quote := by
    intro kind
    cases kind
    · exact hne '"' (by decide)
    · exact hne '\'' (by decide)
  cases r <;>
    simp [next, resting, henter, hquote, hc, hne '\\' (by decide), hne '`' (by decide),
      hne '*' (by decide), hne '/' (by decide)]

end Region

/-- The end of a line finds nothing begun. -/
theorem judge_resting (stack : List (Bracket × Nat)) (r : Region) (line : Nat) (rest : List Char) :
    judge stack r.resting line ('\n' :: rest) = judge stack r line ('\n' :: rest) := by
  rw [judge_cons, judge_cons]
  cases r <;> rfl

/-- Blanks may stand before a text where nothing has begun. -/
theorem judge_gap {gap : List Char} (hgap : ∀ c ∈ gap, isBlank c = true ∧ c ≠ '\n') {r : Region}
    (hr : r.resting = r) (stack : List (Bracket × Nat)) (line : Nat) (cs : List Char) :
    judge stack r line (gap ++ cs) = judge stack r line cs := by
  induction gap with
  | nil => rfl
  | cons c gap ih =>
    rw [List.forall_mem_cons] at hgap
    obtain ⟨⟨hblank, hc⟩, hgap⟩ := hgap
    rw [List.cons_append, judge_pass hc (Region.mark_blank hblank hc r line),
      Region.next_blank hblank hc, hr]
    exact ih hgap

/-- Blanks may stand at the end of a line. -/
theorem judge_trailing {gap : List Char} (hgap : ∀ c ∈ gap, isBlank c = true ∧ c ≠ '\n')
    (stack : List (Bracket × Nat)) (r : Region) (line : Nat) (rest : List Char) :
    judge stack r line (gap ++ '\n' :: rest) = judge stack r line ('\n' :: rest) := by
  induction gap generalizing r with
  | nil => rfl
  | cons c gap ih =>
    rw [List.forall_mem_cons] at hgap
    obtain ⟨⟨hblank, hc⟩, hgap⟩ := hgap
    rw [List.cons_append, judge_pass hc (Region.mark_blank hblank hc r line),
      Region.next_blank hblank hc, ih hgap, judge_resting]

/-! ## The scanner as a reader -/

def Literal.region : Literal → Region
  | .code => .code
  | .interpreted => .quoted .interpreted
  | .rune => .quoted .rune
  | .raw => .raw
  | .comment => .comment

/-- The brackets of a stack with their lines. -/
def pending (stack : List Open) : List (Bracket × Nat) := stack.map fun o => (o.kind, o.line)

theorem resting_region (literal : Literal) : literal.region.resting = literal.region := by
  cases literal <;> rfl

theorem pending_note (s : Scan) (c : Char) : pending (s.note c).stack = pending s.stack := by
  unfold Scan.note
  split <;> rfl

section

variable {line : Nat} {c d : Char} {cs : List Char}

theorem judge_quote (stack : List (Bracket × Nat)) (kind : Quoted) :
    judge stack (.quoted kind) line (kind.quote :: cs) = judge stack .code line cs := by
  cases kind <;> exact judge_pass (by decide) rfl _ _

theorem judge_quoted (kind : Quoted) (hc : c ≠ '\n') (hne : c ≠ '\\') (hquote : c ≠ kind.quote)
    (stack : List (Bracket × Nat)) :
    judge stack (.quoted kind) line (c :: cs) = judge stack (.quoted kind) line cs := by
  rw [judge_pass hc (by simp [Region.mark, hc]), Region.next, if_neg hc, if_neg hne, if_neg hquote]

/-- A backslash does not hide the end of a line. -/
theorem judge_backslash (stack : List (Bracket × Nat)) (kind : Quoted) :
    judge stack (.quoted kind) line ('\\' :: '\n' :: cs) = judge stack (.quoted kind) line ('\n' :: cs) := by
  rw [judge_pass (by decide) rfl]
  exact (judge_resting stack (.escaped kind) line cs).symm

theorem judge_escaped (hd : d ≠ '\n') (stack : List (Bracket × Nat)) (kind : Quoted) :
    judge stack (.quoted kind) line ('\\' :: d :: cs) = judge stack (.quoted kind) line cs := by
  rw [judge_pass (by decide) rfl]
  show judge stack (.escaped kind) line (d :: cs) = _
  rw [judge_pass hd (by simp [Region.mark, hd]), Region.next, if_neg hd]

theorem judge_code (hc : c ≠ '\n') (hopen : Bracket.ofOpener? c = none) (hclose : Bracket.ofCloser? c = none)
    (stack : List (Bracket × Nat)) :
    judge stack .code line (c :: cs) = judge stack (.enter c) line cs := by
  rw [judge_pass hc (by simp [Region.mark, hopen, hclose]), Region.next]

theorem judge_bracket (hc : c ≠ '\n') (hplain : Region.enter c = .code) {mark : Mark}
    (hmark : Region.code.mark line c = some mark) (stack : List (Bracket × Nat)) :
    judge stack .code line (c :: cs) = absorb stack mark >>= fun stack' => judge stack' .code line cs := by
  rw [judge_cons, hmark, if_neg hc, Region.next, hplain, Option.toList, absorbAll_cons, bind_assoc]
  rfl

/-- A slash that begins no comment has begun nothing. -/
theorem judge_slash (hslash : d ≠ '/') (hstar : d ≠ '*') (stack : List (Bracket × Nat)) :
    judge stack .slash line (d :: cs) = judge stack .code line (d :: cs) := by
  have hnext : Region.slash.next d = Region.code.next d := (if_neg hslash).trans (if_neg hstar)
  rw [judge_cons, judge_cons, hnext]
  rfl

theorem judge_star (hd : d ≠ '/') (stack : List (Bracket × Nat)) :
    judge stack .star line (d :: cs) = judge stack .comment line (d :: cs) := by
  have hnext : Region.star.next d = Region.comment.next d := if_neg hd
  rw [judge_cons, judge_cons, hnext]
  rfl

theorem judge_remark {text : List Char} (htext : '\n' ∉ text) (stack : List (Bracket × Nat)) :
    judge stack .remark line (text ++ '\n' :: cs) = judge stack .code line ('\n' :: cs) := by
  induction text with
  | nil =>
    rw [List.nil_append, judge_cons, judge_cons]
    rfl
  | cons c text ih =>
    rw [List.mem_cons, not_or] at htext
    have hc : c ≠ '\n' := Ne.symm htext.1
    rw [List.cons_append, judge_pass hc rfl, Region.next, if_neg hc]
    exact ih htext.2

end

theorem absorb_pop (s : Scan) (kind : Bracket) (line : Nat) :
    absorb (pending s.stack) (.closes kind line) =
      s.pop kind line >>= fun s' => .ok (pending s'.stack) := by
  unfold Scan.pop
  cases s.stack with
  | nil => rfl
  | cons top stack =>
    by_cases hkind : top.kind = kind
    · simp [pending, absorb, hkind, ok_bind]
    · simp only [pending, absorb, List.map_cons, if_neg hkind]
      rfl

theorem literal_pop {s s' : Scan} {kind : Bracket} {line : Nat} (h : s.pop kind line = .ok s') :
    s'.literal = s.literal := by
  unfold Scan.pop at h
  split at h
  · cases h
  · split at h <;> cases h
    rfl

/-- What the reader makes of a line behind a move, `text` being what came after the character it
    was made at. -/
def Move.judge (line : Nat) (text rest : List Char) :
    Move → Except LayoutFault (List (Bracket × Nat) × Region)
  | .stop s => Go.judge (pending s.stack) s.literal.region line ('\n' :: rest)
  | .go s => Go.judge (pending s.stack) s.literal.region line (text ++ '\n' :: rest)
  | .skip s => Go.judge (pending s.stack) s.literal.region line (text.tail ++ '\n' :: rest)

section

variable {s : Scan} {line : Nat} {c : Char} {text : List Char} (htext : '\n' ∉ text) (rest : List Char)
include htext

theorem judge_move_quoted (hc : c ≠ '\n') {kind : Quoted} (hs : s.literal.region = .quoted kind) :
    judge (pending s.stack) (.quoted kind) line (c :: (text ++ '\n' :: rest)) =
      (if c = '\\' then Move.skip s
        else .go (if c = kind.quote then { s with literal := .code } else s)).judge line text rest := by
  by_cases hslash : c = '\\'
  · rw [if_pos hslash, hslash, Move.judge, hs]
    cases text with
    | nil => exact judge_backslash _ kind
    | cons d text =>
      rw [List.mem_cons, not_or] at htext
      exact judge_escaped (Ne.symm htext.1) _ kind
  · rw [if_neg hslash]
    by_cases hquote : c = kind.quote
    · rw [if_pos hquote, hquote]
      exact judge_quote _ kind
    · rw [if_neg hquote, Move.judge, hs]
      exact judge_quoted kind hc hslash hquote _

omit htext in
theorem judge_move_comment (hc : c ≠ '\n') (hs : s.literal = .comment) :
    judge (pending s.stack) .comment line (c :: (text ++ '\n' :: rest)) =
      (if c = '*' ∧ text.head? = some '/' then Move.skip { s with literal := .code }
        else .go s).judge line text rest := by
  rw [judge_pass hc rfl, Region.next]
  by_cases hstar : c = '*'
  · rw [if_pos hstar]
    cases text with
    | nil =>
      rw [if_neg (by simp), Move.judge, hs]
      exact (judge_resting _ .star line rest).symm
    | cons d text =>
      by_cases hd : d = '/'
      · rw [if_pos (by simp [hstar, hd]), hd]
        exact judge_pass (by decide) rfl _ _
      · rw [if_neg (by simp [hd]), Move.judge, hs]
        exact judge_star hd _
  · rw [if_neg hstar, if_neg (fun h => hstar h.1), Move.judge, hs]
    rfl

theorem judge_move_slash (hs : s.literal = .code) :
    judge (pending s.stack) .code line ('/' :: (text ++ '\n' :: rest)) =
      (if text.head? = some '/' then Move.stop s
        else if text.head? = some '*' then .skip { s with literal := .comment }
        else .go s).judge line text rest := by
  rw [judge_code (by decide) rfl rfl]
  cases text with
  | nil =>
    rw [if_neg (by simp), if_neg (by simp), Move.judge, hs]
    exact (judge_resting _ .slash line rest).symm
  | cons d text =>
    rw [List.mem_cons, not_or] at htext
    by_cases hslash : d = '/'
    · rw [if_pos (by simp [hslash]), Move.judge, hs, hslash, List.cons_append, judge_pass (by decide) rfl]
      exact judge_remark htext.2 _
    by_cases hstar : d = '*'
    · rw [if_neg (by simp [hslash]), if_pos (by simp [hstar]), hstar]
      exact judge_pass (by decide) rfl _ _
    · rw [if_neg (by simp [hslash]), if_neg (by simp [hstar]), Move.judge, hs]
      exact judge_slash hslash hstar _

omit htext in
/-- Brackets, and characters that are no mark. -/
theorem judge_move_mark (hc : c ≠ '\n') (hplain : Region.enter c = .code) (hs : s.literal = .code) :
    judge (pending s.stack) .code line (c :: (text ++ '\n' :: rest)) =
      (match Bracket.ofOpener? c, Bracket.ofCloser? c with
        | some kind, _ => .ok (.go (s.push kind line))
        | none, some kind => do return .go (← s.pop kind line)
        | none, none => .ok (.go s)) >>= Move.judge line text rest := by
  cases hopen : Bracket.ofOpener? c with
  | some kind =>
    have hmark : Region.code.mark line c = some (.opens kind line) := by simp [Region.mark, hopen]
    rw [judge_bracket hc hplain hmark, absorb, ok_bind, ok_bind, Move.judge, Scan.push, hs]
    rfl
  | none =>
    cases hclose : Bracket.ofCloser? c with
    | some kind =>
      have hmark : Region.code.mark line c = some (.closes kind line) := by
        simp [Region.mark, hopen, hclose]
      rw [judge_bracket hc hplain hmark, absorb_pop]
      dsimp only
      cases hpop : s.pop kind line with
      | error fault => rfl
      | ok s' =>
        have hliteral : s'.literal = .code := by rw [literal_pop hpop, hs]
        show judge (pending s'.stack) .code line (text ++ '\n' :: rest) =
          judge (pending s'.stack) s'.literal.region line (text ++ '\n' :: rest)
        rw [hliteral]
        rfl
    | none =>
      rw [judge_code hc hopen hclose, hplain, ok_bind, Move.judge, hs]
      rfl

end

/-- What the scanner does at a character, the reader does. -/
theorem judge_move (s : Scan) (line : Nat) {c : Char} {text : List Char} (hc : c ≠ '\n')
    (htext : '\n' ∉ text) (rest : List Char) :
    judge (pending s.stack) s.literal.region line (c :: (text ++ '\n' :: rest)) =
      s.move line c text.head? >>= Move.judge line text rest := by
  unfold Scan.move
  cases hs : s.literal with
  | interpreted => exact judge_move_quoted htext rest hc (by rw [hs]; rfl)
  | rune => exact judge_move_quoted htext rest hc (by rw [hs]; rfl)
  | raw =>
    rw [Literal.region, judge_pass hc rfl, Region.next]
    by_cases hquote : c = '`'
    · rw [if_pos hquote, if_pos hquote]
      rfl
    · rw [if_neg hquote, if_neg hquote, ok_bind, Move.judge, hs]
      rfl
  | comment => exact judge_move_comment rest hc hs
  | code =>
    have hnote : (s.note c).literal = .code := by rw [Scan.literal_note, hs]
    simp only [Literal.region]
    rw [← pending_note s c]
    by_cases hdouble : c = '"'
    · rw [if_pos hdouble, hdouble]
      exact judge_code (by decide) rfl rfl _
    by_cases hsingle : c = '\''
    · rw [if_neg hdouble, if_pos hsingle, hsingle]
      exact judge_code (by decide) rfl rfl _
    by_cases hback : c = '`'
    · rw [if_neg hdouble, if_neg hsingle, if_pos hback, hback]
      exact judge_code (by decide) rfl rfl _
    by_cases hslash : c = '/'
    · rw [if_neg hdouble, if_neg hsingle, if_neg hback, if_pos hslash, ok_bind]
      subst hslash
      exact judge_move_slash htext rest hnote
    rw [if_neg hdouble, if_neg hsingle, if_neg hback, if_neg hslash]
    exact judge_move_mark rest hc (by simp [Region.enter, hdouble, hsingle, hback, hslash]) hnote

/-- What the scanner does with the text of a line, the reader does. -/
theorem judge_run (s : Scan) (line : Nat) {text : List Char} (htext : '\n' ∉ text) (rest : List Char) :
    judge (pending s.stack) s.literal.region line (text ++ '\n' :: rest) =
      Scan.run line s text >>= fun s' =>
        judge (pending s'.stack) s'.literal.region line ('\n' :: rest) := by
  induction hlength : text.length using Nat.strong_induction_on generalizing text s with
  | _ n ih =>
    cases text with
    | nil => rw [Scan.run_nil]; rfl
    | cons c text =>
      rw [List.mem_cons, not_or] at htext
      rw [List.length_cons] at hlength
      rw [List.cons_append, judge_move s line (Ne.symm htext.1) htext.2, Scan.run_cons, bind_assoc]
      cases s.move line c text.head? with
      | error fault => rfl
      | ok m =>
        cases m with
        | stop s' => rfl
        | go s' => exact ih text.length (by omega) s' htext.2 rfl
        | skip s' =>
          have htail : '\n' ∉ text.tail := fun h => htext.2 (List.mem_of_mem_tail h)
          exact ih text.tail.length (by rw [List.length_tail]; omega) s' htail rfl

/-! ## Lines -/

theorem pending_settle (s : Scan) (text : List Char) (nextBlock : Nat) :
    pending (settle s text nextBlock).1 = pending s.stack := by
  unfold settle
  split
  · rename_i top stack _ hstack
    split
    · rw [hstack]
      rfl
    · rw [hstack]
      rfl
  · rfl

/-- What is not kept of a line takes no part. -/
theorem judge_keptText {raw : List Char} (hraw : '\n' ∉ raw) (literal : Literal)
    (stack : List (Bracket × Nat)) (line : Nat) (rest : List Char) :
    judge stack literal.region line (raw ++ '\n' :: rest) =
      judge stack literal.region line (keptText literal raw ++ '\n' :: rest) := by
  obtain ⟨left, right, hcut, hleft, hright⟩ := exists_keptText literal raw
  have hgap : (∀ c ∈ left, c ≠ '\n') ∧ ∀ c ∈ right, c ≠ '\n' := by
    rw [hcut] at hraw
    simp only [List.mem_append, not_or] at hraw
    exact ⟨fun c hc h => hraw.1 (h ▸ hc), fun c hc h => hraw.2.2 (h ▸ hc)⟩
  have hraw' : raw ++ '\n' :: rest = left ++ (keptText literal raw ++ (right ++ '\n' :: rest)) := by
    conv_lhs => rw [hcut]
    simp only [List.append_assoc]
  rw [hraw', judge_gap (fun c hc => ⟨hleft c hc, hgap.1 c hc⟩) (resting_region literal)]
  exact judge_congr (fun stack r line =>
    judge_trailing (fun c hc => ⟨hright c hc, hgap.2 c hc⟩) stack r line rest) _ _ _ _

/-- At the end of a line the reader is at the beginning of the next one, unless a literal breaks
    off. -/
theorem judge_lineEnd (stack : List (Bracket × Nat)) (literal : Literal) (line : Nat) (rest : List Char) :
    judge stack literal.region line ('\n' :: rest) =
      if literal = .interpreted ∨ literal = .rune then .error (.unterminatedLiteral line)
      else judge stack literal.region (line + 1) rest := by
  have hbreaks : absorbAll stack [.breaks line] = .error (.unterminatedLiteral line) := by
    cases stack <;> rfl
  rw [judge_cons]
  cases literal with
  | interpreted => rw [if_pos (Or.inl rfl)]; exact congrArg (· >>= _) hbreaks
  | rune => rw [if_pos (Or.inr rfl)]; exact congrArg (· >>= _) hbreaks
  | code => rfl
  | raw => rfl
  | comment => rfl

/-- What the layout does with a line, the reader does. -/
theorem judge_layoutLine {raw : List Char} (hraw : '\n' ∉ raw) (b : Between) (line : Nat)
    (rest : List Char) :
    judge (pending b.stack) b.literal.region line (raw ++ '\n' :: rest) =
      layoutLine b line raw >>= fun p => judge (pending p.2.stack) p.2.literal.region (line + 1) rest := by
  have htext : '\n' ∉ keptText b.literal raw := fun h => hraw ((laid_keptText b.literal raw).2 _ h)
  have hrun := judge_run ⟨b.literal, b.stack, 0, none⟩ line htext rest
  rw [judge_keptText hraw, hrun, layoutLine]
  cases Scan.run line ⟨b.literal, b.stack, 0, none⟩ (keptText b.literal raw) with
  | error fault => rfl
  | ok s =>
    simp only [ok_bind, judge_lineEnd, Bool.or_eq_true, decide_eq_true_eq]
    by_cases hend : s.literal = .interpreted ∨ s.literal = .rune
    · rw [if_pos hend, if_pos hend]
      rfl
    · rw [if_neg hend, if_neg hend, ← pending_settle s (keptText b.literal raw) b.nextBlock]
      rfl

/-- No literal of one line is open between two lines. -/
def Between.Tidy (b : Between) : Prop := ¬ (b.literal = .interpreted ∨ b.literal = .rune)

/-- What the layout does with a first line and with the lines after it, the reader does. -/
theorem judge_layoutLines_cons {raw rest : List Char} (hraw : '\n' ∉ raw) {raws : List (List Char)}
    {line : Nat} (hrest : ∀ b : Between, b.Tidy →
      judge (pending b.stack) b.literal.region (line + 1) rest =
        layoutLines b (line + 1) raws >>= fun p => .ok (pending p.2.stack, p.2.literal.region))
    (b : Between) :
    judge (pending b.stack) b.literal.region line (raw ++ '\n' :: rest) =
      layoutLines b line (raw :: raws) >>= fun p => .ok (pending p.2.stack, p.2.literal.region) := by
  rw [judge_layoutLine hraw, layoutLines]
  cases hline : layoutLine b line raw with
  | error fault => rfl
  | ok p =>
    obtain ⟨s, -, htidy, -, hbetween⟩ := layoutLine_eq_ok.1 hline
    have hp : p.2.Tidy := by
      rw [Between.Tidy, hbetween]
      exact htidy
    rw [ok_bind, ok_bind, hrest p.2 hp, bind_assoc]
    rfl

/-- What the layout does with the lines of a text, the reader does. -/
theorem judge_layoutLines (cs : List Char) {b : Between} (hb : b.Tidy) (line : Nat) :
    judge (pending b.stack) b.literal.region line (cs ++ ['\n']) =
      layoutLines b line (lines cs) >>= fun p => .ok (pending p.2.stack, p.2.literal.region) := by
  induction hlength : cs.length using Nat.strong_induction_on generalizing cs b line with
  | _ n ih =>
    by_cases hcs : '\n' ∈ cs
    · obtain ⟨raw, rest, rfl, hraw⟩ := List.eq_append_cons_of_mem hcs
      have hrest : ∀ b : Between, b.Tidy →
          judge (pending b.stack) b.literal.region (line + 1) (rest ++ ['\n']) =
            layoutLines b (line + 1) (lines rest) >>= fun p =>
              .ok (pending p.2.stack, p.2.literal.region) := by
        intro b hb
        refine ih rest.length ?_ rest hb (line + 1) rfl
        rw [← hlength, List.length_append, List.length_cons]
        omega
      rw [List.append_assoc, List.cons_append]
      rcases lines_append_newline hraw rest with hlines | ⟨raw', rfl, hlines⟩
      · rw [hlines]
        exact judge_layoutLines_cons hraw hrest b
      · -- a carriage return at the end of the line is a blank to the reader
        have hreturn : ∀ c ∈ ['\r'], isBlank c = true ∧ c ≠ '\n' :=
          List.forall_mem_singleton.2 ⟨by decide, by decide⟩
        rw [hlines, List.append_assoc, judge_congr (judge_trailing hreturn · · · (rest ++ ['\n']))]
        exact judge_layoutLines_cons (fun h => hraw (List.mem_append_left _ h)) hrest b
    · by_cases hempty : cs = []
      · rw [hempty, List.nil_append, judge_lineEnd, if_neg hb]
        rfl
      · rw [lines_of_notMem hcs hempty]
        exact judge_layoutLines_cons hcs (fun _ _ => rfl) b

/-! ## Texts -/

/-- What is open at the end of a text, as a fault. -/
def unfinished : List (Bracket × Nat) × Region → Except LayoutFault Unit
  | ((kind, line) :: _, _) => .error (.unclosed kind.opener line)
  | ([], .code) => .ok ()
  | ([], .raw) => .error .unterminatedRaw
  | ([], _) => .error .unterminatedComment

/-- Laying out a text comes to judging what the reader makes of it. -/
theorem outcome_layout (source : List Char) :
    outcome (layout source) =
      absorbAll [] (reading source).1 >>= fun stack => unfinished (stack, (reading source).2) := by
  have hjudge : judge [] .code 1 (source ++ ['\n']) =
      layoutLines ⟨.code, [], 0⟩ 1 (lines source) >>= fun p => .ok (pending p.2.stack, p.2.literal.region) :=
    judge_layoutLines source (b := ⟨.code, [], 0⟩) (by simp [Between.Tidy]) 1
  have hreading : absorbAll [] (reading source).1 >>= (fun stack => unfinished (stack, (reading source).2)) =
      judge [] .code 1 (source ++ ['\n']) >>= unfinished := by
    rw [judge, bind_assoc]
    rfl
  rw [hreading, hjudge, layout]
  cases layoutLines ⟨.code, [], 0⟩ 1 (lines source) with
  | error fault => rfl
  | ok p =>
    obtain ⟨ls, literal, stack, next⟩ := p
    cases stack with
    | cons top stack => rfl
    | nil => cases literal <;> rfl

/-- A text ends in code, in a raw string or in a comment. -/
theorem region_reading (source : List Char) : (reading source).2 = .code ∨ (reading source).2 = .raw ∨
    (reading source).2 = .comment := by
  have hend : ∀ (cs : List Char) (r : Region) (line : Nat),
      ∃ r' : Region, (r.read line (cs ++ ['\n'])).2 = r'.next '\n' := by
    intro cs
    induction cs with
    | nil => exact fun r _ => ⟨r, rfl⟩
    | cons c cs ih => exact fun r line => ih (r.next c) _
  obtain ⟨r, hr⟩ := hend source .code 1
  rw [reading, hr]
  cases r with
  | raw => exact Or.inr (Or.inl rfl)
  | comment => exact Or.inr (Or.inr rfl)
  | star => exact Or.inr (Or.inr rfl)
  | _ => exact Or.inl rfl

theorem outcome_layout_eq_ok {source : List Char} :
    outcome (layout source) = .ok () ↔ WellBracketed source := by
  rw [outcome_layout, bind_eq_ok]
  constructor
  · intro h
    obtain ⟨stack, hstack, hend⟩ := h
    cases stack with
    | cons top stack => cases hend
    | nil =>
      have hbalanced := balanced_iff.2 hstack
      refine ⟨hbalanced.breaks_notMem, hbalanced, ?_⟩
      rcases region_reading source with hcode | hraw | hcomment
      · exact hcode
      · rw [hraw] at hend
        cases hend
      · rw [hcomment] at hend
        cases hend
  · intro h
    refine ⟨[], balanced_iff.1 h.brackets, ?_⟩
    rw [h.ended]
    rfl

theorem outcome_layout_eq_error {source : List Char} {fault : LayoutFault} :
    outcome (layout source) = .error fault ↔ FirstOffence source fault := by
  rw [outcome_layout, bind_eq_error]
  constructor
  · rintro (hmark | ⟨stack, hstack, hend⟩)
    · exact .mark (spoiled_iff.1 hmark)
    · generalize hmarks : (reading source).1 = marks at hstack
      cases stacked_iff.1 hstack with
      | cons houter hinner =>
        cases hend
        exact .unclosed hmarks houter.begins hinner
      | nil hbalanced =>
        rw [← hmarks] at hbalanced
        rcases region_reading source with hcode | hraw | hcomment
        · rw [hcode] at hend
          cases hend
        · rw [hraw] at hend
          cases hend
          exact .unterminatedRaw hbalanced hraw
        · rw [hcomment] at hend
          cases hend
          exact .unterminatedComment hbalanced hcomment
  · intro h
    cases h with
    | mark hspoiled => exact Or.inl (spoiled_iff.2 hspoiled)
    | @unclosed outer inner kind line hmarks houter hinner =>
      obtain ⟨stack, hstack⟩ := begins_iff.1 houter
      refine Or.inr ⟨(kind, line) :: stack, ?_, rfl⟩
      rw [hmarks]
      exact stacked_iff.2 (.cons (stacked_iff.1 hstack) hinner)
    | unterminatedRaw hbalanced hraw =>
      refine Or.inr ⟨[], balanced_iff.1 hbalanced, ?_⟩
      rw [hraw]
      rfl
    | unterminatedComment hbalanced hcomment =>
      refine Or.inr ⟨[], balanced_iff.1 hbalanced, ?_⟩
      rw [hcomment]
      rfl

/-- A text is laid out exactly if it is well-bracketed, and otherwise the fault is its first
    offence. -/
theorem layout_bracketing (source : List Char) :
    ((∃ ls, layout source = .ok ls) ↔ WellBracketed source) ∧
      ∀ fault, layout source = .error fault ↔ FirstOffence source fault := by
  refine ⟨?_, fun fault => ?_⟩
  · rw [← outcome_layout_eq_ok, outcome_eq_ok]
  · rw [← outcome_layout_eq_error, outcome_eq_error]

end ServiceSchema.Go
