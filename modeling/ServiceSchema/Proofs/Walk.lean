/-
  ServiceSchema.Proofs.Walk — the tokens of a formatted text, followed along its source.

  A formatted text has the lines of its source with other blanks, so its tokens can be told
  from the source:
  - `Walks src ts`: the lines of `src` are read as the tokens `ts`, from the start of a line;
  - `Left ends line src ts`: the same in the middle of a line, of which `line` is left.

  Words, operators and strings give the token that they give in the source (`Left.word`,
  `Left.operator`, `Left.raw`). A line without comments and open quotes (`Calm`) is read as
  some tokens and not beyond its end, whatever stands in it (`Walks.pass`): no token but a
  string goes over the end of a line.
-/
import ServiceSchema.Go.Syntax
import ServiceSchema.Proofs.Respacing
import ServiceSchema.Proofs.RowTokens

namespace ServiceSchema.Text

/-! ## Inks side by side -/

theorem exists_of_inkFrom {fresh f : Bool} {l : List Char} {c : Char} {ys : List (Char × Bool)}
    (h : inkFrom fresh l = (c, f) :: ys) :
    ∃ gap l', l = gap ++ c :: l' ∧ (∀ b ∈ gap, isBlank b = true) ∧ inkFrom false l' = ys := by
  induction l generalizing fresh with
  | nil => cases h
  | cons d l ih =>
    by_cases hd : isBlank d = true
    · rw [inkFrom_blank hd] at h
      obtain ⟨gap, l', rfl, hgap, hl'⟩ := ih h
      exact ⟨d :: gap, l', rfl, List.forall_mem_cons.2 ⟨hd, hgap⟩, hl'⟩
    · rw [inkFrom, if_neg hd] at h
      cases h
      exact ⟨[], l, rfl, List.forall_mem_nil _, rfl⟩

/-- What begins an ink begins a word. -/
theorem fresh_of_ink {cs : List Char} {c : Char} {f : Bool} {xs : List (Char × Bool)}
    (h : ink cs = (c, f) :: xs) : f = true := by
  induction cs with
  | nil => cases h
  | cons d cs ih =>
    by_cases hd : isBlank d = true
    · rw [ink, inkFrom_blank hd] at h
      exact ih h
    · rw [ink, inkFrom, if_neg hd] at h
      cases h
      rfl

/-- A character that begins no word stands right here. -/
theorem eq_cons_of_inkFrom {l : List Char} {c : Char} {ys : List (Char × Bool)}
    (h : inkFrom false l = (c, false) :: ys) :
    ∃ l', l = c :: l' ∧ isBlank c = false ∧ inkFrom false l' = ys := by
  cases l with
  | nil => cases h
  | cons d l =>
    by_cases hd : isBlank d = true
    · rw [inkFrom_blank hd] at h
      exact absurd (fresh_of_ink h) (by decide)
    · rw [inkFrom, if_neg hd] at h
      cases h
      exact ⟨l, rfl, by simpa using hd, rfl⟩

theorem Agree.uncons {c : Char} {f : Bool} {xs ys : List (Char × Bool)} (h : Agree ((c, f) :: xs) ys) :
    ∃ f' ys', ys = (c, f') :: ys' ∧ Agree xs ys' ∧ (c ≠ '/' → f' = f) := by
  cases h with
  | same _ h => exact ⟨f, _, rfl, h, fun _ => rfl⟩
  | comment h => exact ⟨true, _, rfl, h, fun hc => absurd rfl hc⟩

theorem Agree.uncons_right {c : Char} {xs ys : List (Char × Bool)} (h : Agree xs ((c, false) :: ys)) :
    ∃ xs', xs = (c, false) :: xs' ∧ Agree xs' ys := by
  cases h with
  | same _ h => exact ⟨_, rfl, h⟩

/-- The next character of the one line comes next in the other, after blanks. -/
theorem exists_cons_of_agree {f g : Bool} {c : Char} {line l : List Char} (hc : isBlank c = false)
    (h : Agree (inkFrom f (c :: line)) (inkFrom g l)) :
    ∃ gap l', l = gap ++ c :: l' ∧ (∀ b ∈ gap, isBlank b = true) ∧
      Agree (inkFrom false line) (inkFrom false l') := by
  rw [inkFrom, if_neg (by simp [hc])] at h
  obtain ⟨f', ys, hys, hagree, -⟩ := h.uncons
  obtain ⟨gap, l', hl, hgap, hl'⟩ := exists_of_inkFrom hys
  exact ⟨gap, l', hl, hgap, hl' ▸ hagree⟩

/-- What stands together in the one line stands together in the other. -/
theorem exists_append_of_agree {u line l : List Char} (hu : ∀ c ∈ u, isBlank c = false ∧ c ≠ '/')
    (h : Agree (inkFrom false (u ++ line)) (inkFrom false l)) :
    ∃ l', l = u ++ l' ∧ Agree (inkFrom false line) (inkFrom false l') := by
  induction u generalizing l with
  | nil => exact ⟨l, rfl, h⟩
  | cons c u ih =>
    rw [List.forall_mem_cons] at hu
    rw [List.cons_append, inkFrom, if_neg (by simp [hu.1.1])] at h
    obtain ⟨f', ys, hys, hagree, hf⟩ := h.uncons
    rw [hf hu.1.2] at hys
    obtain ⟨l₁, rfl, -, rfl⟩ := eq_cons_of_inkFrom hys
    obtain ⟨l', rfl, hl'⟩ := ih hu.2 hagree
    exact ⟨l', rfl, hl'⟩

theorem exists_append_of_agree_right {u line l : List Char} (hu : ∀ c ∈ u, isBlank c = false)
    (h : Agree (inkFrom false line) (inkFrom false (u ++ l))) :
    ∃ line', line = u ++ line' ∧ Agree (inkFrom false line') (inkFrom false l) := by
  induction u generalizing line with
  | nil => exact ⟨line, rfl, h⟩
  | cons c u ih =>
    rw [List.forall_mem_cons] at hu
    rw [List.cons_append, inkFrom, if_neg (by simp [hu.1])] at h
    obtain ⟨xs, hxs, hagree⟩ := h.uncons_right
    obtain ⟨line₁, rfl, -, rfl⟩ := eq_cons_of_inkFrom hxs
    obtain ⟨line', rfl, hline'⟩ := ih hu.2 hagree
    exact ⟨line', rfl, hline'⟩

/-- What stands before a character of the one line stands before it in the other, with other
    blanks. -/
theorem exists_body_of_agree {f g : Bool} {q : Char} {body line l : List Char} (hq : isBlank q = false)
    (h : Agree (inkFrom f (body ++ q :: line)) (inkFrom g l)) :
    ∃ body' l', l = body' ++ q :: l' ∧ (∀ c ∈ body', isBlank c = true ∨ c ∈ body) ∧
      Agree (inkFrom false line) (inkFrom false l') := by
  induction body generalizing f g l with
  | nil =>
    obtain ⟨gap, l', rfl, hgap, hl'⟩ := exists_cons_of_agree hq h
    exact ⟨gap, l', rfl, fun c hc => Or.inl (hgap c hc), hl'⟩
  | cons c body ih =>
    by_cases hc : isBlank c = true
    · rw [List.cons_append, inkFrom_blank hc] at h
      obtain ⟨body', l', rfl, hbody, hl'⟩ := ih h
      exact ⟨body', l', rfl, fun d hd => (hbody d hd).imp_right (List.mem_cons_of_mem c), hl'⟩
    · obtain ⟨gap, l₁, rfl, hgap, hl₁⟩ := exists_cons_of_agree (by simpa using hc) h
      obtain ⟨body', l', rfl, hbody, hl'⟩ := ih hl₁
      refine ⟨gap ++ c :: body', l', by simp, ?_, hl'⟩
      intro d hd
      rw [List.mem_append, List.mem_cons] at hd
      rcases hd with hd | rfl | hd
      · exact Or.inl (hgap d hd)
      · exact Or.inr List.mem_cons_self
      · exact (hbody d hd).imp_right (List.mem_cons_of_mem c)

end ServiceSchema.Text

namespace ServiceSchema.Go

open Pattern Text

/-! ## One step of the reader -/

theorem Reads.of_newline {ends : Bool} {rest : List Char} {ts : List Token}
    (h : Reads ends ('\n' :: rest) ts) : ∃ ts', ts = lineEnd ends ++ ts' ∧ Reads false rest ts' := by
  generalize hcs : '\n' :: rest = cs at h
  cases h with
  | finished => cases hcs
  | blank hc =>
    rw [← (List.cons.inj hcs).1] at hc
    exact absurd hc (by decide)
  | newline h =>
    cases hcs
    exact ⟨_, rfl, h⟩
  | lineComment | generalComment => exact absurd (List.cons.inj hcs).1 (by decide)
  | token _ hl =>
    have hshape := hl.spells.shape
    obtain ⟨d, u, rfl⟩ := hshape.exists_cons
    have hblank := not_isBlank_of_shape hshape
    rw [← (List.cons.inj hcs).1] at hblank
    exact absurd hblank (by decide)

/-- Only blanks and slashes begin something that is no token. -/
theorem notMem_gaps {c : Char} (hblank : isBlank c = false) (hslash : c ≠ '/') :
    c ∉ [' ', '\t', '\r', '\n', '/'] := by
  simp only [List.mem_cons, List.not_mem_nil, or_false, not_or]
  refine ⟨?_, ?_, ?_, ?_, hslash⟩ <;> (rintro rfl; exact absurd hblank (by decide))

/-- A line comment is passed up to the end of its line. -/
theorem Reads.of_lineComment {ends : Bool} {body rest : List Char} {ts : List Token} (hbody : '\n' ∉ body)
    (h : Reads ends ('/' :: '/' :: (body ++ '\n' :: rest)) ts) : Reads ends ('\n' :: rest) ts := by
  generalize hcs : '/' :: '/' :: (body ++ '\n' :: rest) = cs at h
  cases h with
  | finished => cases hcs
  | blank hc =>
    rw [← (List.cons.inj hcs).1] at hc
    exact absurd hc (by decide)
  | newline | generalComment => simp at hcs
  | @lineComment _ body' rest' _ hbody' hrest h =>
    simp only [List.cons.injEq, true_and] at hcs
    rcases List.append_eq_append_iff.1 hcs with ⟨u, rfl, hu⟩ | ⟨u, rfl, rfl⟩
    · -- the comment does not go over the end of the line
      cases u with
      | nil => rwa [hu]
      | cons c u =>
        have hline := (hbody' c (by simp)).1
        rw [List.cons_append] at hu
        exact absurd (List.cons.inj hu).1.symm hline
    · cases u with
      | nil => exact h
      | cons c u =>
        have hline := hrest c rfl
        exact absurd (hline ▸ by simp) hbody
  | token hcomment =>
    rw [← hcs] at hcomment
    cases hcomment

/-- A string that stands between quotes ends at the first quote that can end it. -/
theorem append_inj_of_quote {q : Char} {w body rest tail : List Char} (hle : w.length ≤ body.length)
    (hq : q ∉ body) (h : w ++ q :: rest = body ++ q :: tail) : w = body ∧ rest = tail := by
  rcases List.append_eq_append_iff.1 h with ⟨u, rfl, hu⟩ | ⟨u, rfl, hu⟩
  · cases u with
    | nil => exact ⟨(List.append_nil w).symm, (List.cons.inj hu).2⟩
    | cons c u => exact absurd ((List.cons.inj hu).1 ▸ by simp) hq
  · have hnil : u = [] := by
      rw [← List.length_eq_zero_iff]
      rw [List.length_append] at hle
      omega
    subst hnil
    exact ⟨List.append_nil body, (List.cons.inj hu).2.symm⟩

theorem Reads.of_raw {ends : Bool} {body tail : List Char} {ts : List Token} (hbody : '`' ∉ body)
    (h : Reads ends ('`' :: (body ++ '`' :: tail)) ts) :
    ∃ ts', ts = .string :: ts' ∧ Reads true tail ts' := by
  obtain ⟨t, u, rest', ts', hu, rfl, hl, hrest⟩ := h.exists_token (by decide)
  have hshape := hl.spells.shape
  obtain rfl := hshape.quote (by simp)
  cases hshape with
  | number ht => cases ht
  | @raw w hw =>
    rw [List.append_assoc] at hu
    have hle : w.length ≤ body.length := by
      rw [← Nat.not_lt]
      intro hlt
      obtain ⟨v, rfl⟩ := List.prefix_of_prefix_length_le (hu ▸ List.prefix_append body _)
        (List.prefix_append w _) (Nat.le_of_lt hlt)
      rw [List.append_assoc, List.append_cancel_left_eq] at hu
      cases v with
      | nil => simp at hlt
      | cons c v => exact hw ((List.cons.inj hu).1 ▸ by simp)
    obtain ⟨-, rfl⟩ := append_inj_of_quote hle hbody hu.symm
    exact ⟨ts', rfl, hrest⟩

theorem Reads.of_quoted {ends : Bool} {body tail : List Char} {ts : List Token}
    (hbody : ∀ c ∈ body, c ≠ '"' ∧ c ≠ '\\') (h : Reads ends ('"' :: (body ++ '"' :: tail)) ts) :
    ∃ ts', ts = .string :: ts' ∧ Reads true tail ts' := by
  obtain ⟨t, u, rest', ts', hu, rfl, hl, hrest⟩ := h.exists_token (by decide)
  have hshape := hl.spells.shape
  obtain rfl := hshape.quote (by simp)
  cases hshape with
  | number ht => cases ht
  | @quoted w hw =>
    rw [List.append_assoc] at hu
    have hle := length_le_of_quotables (by decide) hw hbody (hu ▸ List.prefix_append w _)
    obtain ⟨-, rfl⟩ := append_inj_of_quote hle (fun hq => (hbody _ hq).1 rfl) hu.symm
    exact ⟨ts', rfl, hrest⟩

/-! ## Lines that are still to come -/

/-- The text is made of lines that differ from those of the source in blanks only, as far as
    these have ink. -/
def Pending (src : List (List Char)) (text : List Char) : Prop :=
  ∃ shown, text = unlines shown ∧ (∀ l ∈ shown, OneLine l) ∧
    List.Forall₂ (fun a b => Agree (ink a) (ink b)) (src.filter hasInk) (shown.filter hasInk)

/-- The lines of `src` are read as some tokens, from the start of a line. -/
inductive Walks (src : List (List Char)) (ts : List Token) : Prop
  | mk (text : List Char) (hmore : Pending src text) (hreads : Reads false text ts)

/-- With `line` left of its line and the lines of `src` behind it, some tokens are read. -/
inductive Left (ends : Bool) (line : List Char) (src : List (List Char)) (ts : List Token) : Prop
  | mk (f g : Bool) (l text : List Char) (hone : OneLine l) (hink : Agree (inkFrom f line) (inkFrom g l))
      (hmore : Pending src text) (hreads : Reads ends (l ++ '\n' :: text) ts)

theorem isBlank_of_inkFrom_eq_nil {f : Bool} {l : List Char} (h : inkFrom f l = []) :
    ∀ c ∈ l, isBlank c = true := by
  have hchars := map_fst_inkFrom f l
  rw [h, List.map_nil] at hchars
  intro c hc
  have hnone := List.filter_eq_nil_iff.1 hchars.symm c hc
  simpa using hnone

theorem not_isBlank_of_isWordPart {c : Char} (h : isWordPart c = true) : isBlank c = false ∧ c ≠ '/' := by
  refine ⟨?_, ne_of_class h '/' (by decide)⟩
  rw [← Bool.not_eq_true]
  intro hblank
  rw [isWordPart_of_isBlank hblank] at h
  cases h

namespace Left

variable {ends : Bool} {src : List (List Char)} {line : List Char} {ts : List Token}

theorem blank {c : Char} (h : Left ends (c :: line) src ts) (hc : isBlank c = true) :
    Left ends line src ts := by
  obtain ⟨f, g, l, text, hone, hink, hmore, hreads⟩ := h
  rw [inkFrom_blank hc] at hink
  exact ⟨true, g, l, text, hone, hink, hmore, hreads⟩

/-- At the end of a line the next one begins. -/
theorem walks (h : Left ends [] src ts) : ∃ ts', ts = lineEnd ends ++ ts' ∧ Walks src ts' := by
  obtain ⟨f, g, l, text, hone, hink, hmore, hreads⟩ := h
  have hnil : inkFrom g l = [] := by
    cases hl : inkFrom g l with
    | nil => rfl
    | cons y ys =>
      rw [hl] at hink
      cases hink
  have hblank := isBlank_of_inkFrom_eq_nil hnil
  obtain ⟨ts', rfl, hnext⟩ := (Reads.of_blanks (fun c hc => ⟨hblank c hc, (hone c hc).1⟩) hreads).of_newline
  exact ⟨ts', rfl, text, hmore, hnext⟩

/-- The next character of the line is read next, with what is written behind it. -/
theorem next {c : Char} (h : Left ends (c :: line) src ts) (hc : isBlank c = false) :
    ∃ l text, OneLine l ∧ Agree (inkFrom false line) (inkFrom false l) ∧ Pending src text ∧
      Reads ends (c :: (l ++ '\n' :: text)) ts := by
  obtain ⟨f, g, l, text, hone, hink, hmore, hreads⟩ := h
  obtain ⟨gap, l', rfl, hgap, hink'⟩ := exists_cons_of_agree hc hink
  rw [OneLine, List.forall_mem_append, List.forall_mem_cons] at hone
  rw [List.append_assoc] at hreads
  exact ⟨l', text, hone.2.2, hink', hmore,
    .of_blanks (fun d hd => ⟨hgap d hd, (hone.1 d hd).1⟩) hreads⟩

/-- A text that is a token wherever the line goes on like this is that token. -/
theorem token {c : Char} {u : List Char} {t : Token} (h : Left ends (c :: (u ++ line)) src ts)
    (hn : t.isNumber = false) (hc : isBlank c = false ∧ c ≠ '/')
    (hu : ∀ d ∈ u, isBlank d = false ∧ d ≠ '/')
    (hl : ∀ l text, Agree (inkFrom false line) (inkFrom false l) → Lexeme t (c :: u) (l ++ '\n' :: text)) :
    ∃ ts', ts = t :: ts' ∧ Left t.endsLine line src ts' := by
  obtain ⟨l, text, hone, hink, hmore, hreads⟩ := h.next hc.1
  obtain ⟨l', rfl, hink'⟩ := exists_append_of_agree hu hink
  rw [OneLine, List.forall_mem_append] at hone
  rw [List.append_assoc] at hreads
  obtain ⟨ts', rfl, hrest⟩ := hreads.of_lexeme (notMem_gaps hc.1 hc.2) hn (hl l' text hink')
  exact ⟨ts', rfl, false, false, l', text, hone.2, hink', hmore, hrest⟩

/-- A word that does not go on is the token of that word. -/
theorem word {c : Char} {u : List Char} (h : Left ends (c :: (u ++ line)) src ts) (hc : isLetter c = true)
    (hu : ∀ d ∈ u, isWordPart d = true) (hstop : ∀ d, line.head? = some d → isWordPart d = false) :
    ∃ ts', ts = Token.ofWord (c :: u) :: ts' ∧ Left (Token.ofWord (c :: u)).endsLine line src ts' := by
  have hspells : (Token.ofWord (c :: u)).Spells (c :: u) := by
    refine spells_ofWord ?_
    rw [isIdentifier, hc, Bool.true_and, List.all_eq_true]
    exact hu
  have hn : (Token.ofWord (c :: u)).isNumber = false := by
    unfold Token.ofWord
    split <;> rfl
  refine h.token hn (not_isBlank_of_isWordPart (isWordPart_of_isLetter hc))
    (fun d hd => not_isBlank_of_isWordPart (hu d hd)) ?_
  intro l text hink
  refine lexeme_word hspells hc fun d hd => ?_
  cases l with
  | nil =>
    cases hd
    decide
  | cons e l =>
    cases hd
    by_cases hd : isWordPart d = true
    · -- it goes on in the source too
      have hpair : Agree (inkFrom false line) (inkFrom false ([d] ++ l)) := hink
      obtain ⟨line', rfl, -⟩ := exists_append_of_agree_right
        (List.forall_mem_singleton.2 (not_isBlank_of_isWordPart hd).1) hpair
      exact hstop d rfl
    · simpa using hd

/-- A bracket is its operator. -/
theorem opener {kind : Bracket} (h : Left ends (kind.opener :: line) src ts) :
    ∃ ts', ts = .operator kind.opening :: ts' ∧ Left false line src ts' := by
  have hends : (Token.operator kind.opening).endsLine = false := by cases kind <;> rfl
  rw [← hends]
  refine token (u := []) h rfl (by cases kind <;> decide) (List.forall_mem_nil _) fun l text _ => ?_
  rw [← text_opening]
  exact lexeme_operator _ fun d _ => (goesOn_bracket kind d).1

theorem closer {kind : Bracket} (h : Left ends (kind.closer :: line) src ts) :
    ∃ ts', ts = .operator kind.closing :: ts' ∧ Left true line src ts' := by
  have hends : (Token.operator kind.closing).endsLine = true := by cases kind <;> rfl
  rw [← hends]
  refine token (u := []) h rfl (by cases kind <;> decide) (List.forall_mem_nil _) fun l text _ => ?_
  rw [← text_closing]
  exact lexeme_operator _ fun d _ => (goesOn_bracket kind d).2

/-- What is quoted is written with other blanks. -/
theorem quote {q : Char} (hq : isBlank q = false) {body : List Char}
    (h : Left ends (q :: (body ++ q :: line)) src ts) :
    ∃ body' l text, (∀ c ∈ body', isBlank c = true ∨ c ∈ body) ∧ OneLine l ∧
      Agree (inkFrom false line) (inkFrom false l) ∧ Pending src text ∧
      Reads ends (q :: (body' ++ q :: (l ++ '\n' :: text))) ts := by
  obtain ⟨l, text, hone, hink, hmore, hreads⟩ := h.next hq
  obtain ⟨body', l', rfl, hbody, hink'⟩ := exists_body_of_agree hq hink
  rw [OneLine, List.forall_mem_append, List.forall_mem_cons] at hone
  rw [List.append_assoc, List.cons_append] at hreads
  exact ⟨body', l', text, hbody, hone.2.2, hink', hmore, hreads⟩

theorem raw {body : List Char} (hbody : '`' ∉ body) (h : Left ends ('`' :: (body ++ '`' :: line)) src ts) :
    ∃ ts', ts = .string :: ts' ∧ Left true line src ts' := by
  obtain ⟨body', l, text, hbody', hone, hink, hmore, hreads⟩ := h.quote (by decide)
  have hnone : '`' ∉ body' := fun hc => (hbody' _ hc).elim (absurd · (by decide)) hbody
  obtain ⟨ts', rfl, hrest⟩ := hreads.of_raw hnone
  exact ⟨ts', rfl, false, false, l, text, hone, hink, hmore, hrest⟩

theorem quoted {body : List Char} (hbody : ∀ c ∈ body, c ≠ '"' ∧ c ≠ '\\')
    (h : Left ends ('"' :: (body ++ '"' :: line)) src ts) :
    ∃ ts', ts = .string :: ts' ∧ Left true line src ts' := by
  obtain ⟨body', l, text, hbody', hone, hink, hmore, hreads⟩ := h.quote (by decide)
  have hnone : ∀ c ∈ body', c ≠ '"' ∧ c ≠ '\\' := by
    intro c hc
    rcases hbody' c hc with hblank | hmem
    · constructor <;> (rintro rfl; exact absurd hblank (by decide))
    · exact hbody c hmem
  obtain ⟨ts', rfl, hrest⟩ := hreads.of_quoted hnone
  exact ⟨ts', rfl, false, false, l, text, hone, hink, hmore, hrest⟩

/-- A line that is a comment is passed. -/
theorem comment {cs : List Char} (h : Left false ('/' :: '/' :: ' ' :: cs) src ts) : Walks src ts := by
  obtain ⟨l₁, text, hone, hink₁, hmore, hreads⟩ := h.next (by decide)
  -- the second slash stands right behind the first, as no third one follows
  rw [inkFrom, if_neg (by decide), inkFrom_blank (by decide)] at hink₁
  obtain ⟨l₂, rfl⟩ : ∃ l₂, l₁ = '/' :: l₂ := by
    generalize hys : inkFrom false l₁ = ys at hink₁
    generalize hxs : ink cs = xs at hink₁
    cases hink₁ with
    | same _ _ =>
      obtain ⟨l₂, hl₂, -⟩ := eq_cons_of_inkFrom hys
      exact ⟨l₂, hl₂⟩
    | comment _ => exact absurd (fresh_of_ink hxs) (by decide)
  have hbody : '\n' ∉ l₂ := fun hc => (hone _ (List.mem_cons_of_mem _ hc)).1 rfl
  obtain ⟨ts', rfl, hnext⟩ := hreads.of_lineComment hbody |>.of_newline
  exact ⟨text, hmore, hnext⟩

end Left

/-! ## Lines that are passed -/

/-- A character outside of quotes and comments. -/
def isCalmPart (c : Char) : Bool := !(['"', '`', '\'', '/', '\n', '\r'].contains c)

/-- A line without comments whose quotes are closed. -/
inductive Calm : List Char → Prop
  | nil : Calm []
  | char {c : Char} {line : List Char} : isCalmPart c = true → Calm line → Calm (c :: line)
  | raw {body line : List Char} : OneLine body → '`' ∉ body → Calm line → Calm ('`' :: (body ++ '`' :: line))
  | quoted {body line : List Char} : OneLine body → (∀ c ∈ body, c ≠ '"' ∧ c ≠ '\\') → Calm line →
      Calm ('"' :: (body ++ '"' :: line))

namespace Calm

theorem append {a b : List Char} (ha : Calm a) (hb : Calm b) : Calm (a ++ b) := by
  induction ha with
  | nil => exact hb
  | char hc _ ih => exact .char hc ih
  | raw hone hbody _ ih =>
    rw [List.cons_append, List.append_assoc]
    exact .raw hone hbody ih
  | quoted hone hbody _ ih =>
    rw [List.cons_append, List.append_assoc]
    exact .quoted hone hbody ih

theorem of_parts {cs : List Char} (h : ∀ c ∈ cs, isCalmPart c = true) : Calm cs := by
  induction cs with
  | nil => exact .nil
  | cons c cs ih =>
    rw [List.forall_mem_cons] at h
    exact .char h.1 (ih h.2)

theorem oneLine {cs : List Char} (h : Calm cs) : OneLine cs := by
  induction h with
  | nil => exact List.forall_mem_nil _
  | char hc _ ih =>
    refine List.forall_mem_cons.2 ⟨?_, ih⟩
    have hne := ne_of_class hc
    exact ⟨hne '\n' (by decide), hne '\r' (by decide)⟩
  | raw hone _ _ ih | quoted hone _ _ ih =>
    rw [OneLine, List.forall_mem_cons, List.forall_mem_append, List.forall_mem_cons]
    exact ⟨by decide, hone, by decide, ih⟩

theorem of_append {u line : List Char} (h : Calm (u ++ line)) (hu : ∀ c ∈ u, c ≠ '"' ∧ c ≠ '`') :
    Calm line := by
  induction u with
  | nil => exact h
  | cons c u ih =>
    rw [List.forall_mem_cons] at hu
    generalize hwhole : c :: u ++ line = whole at h
    cases h with
    | nil => cases hwhole
    | char _ h =>
      cases hwhole
      exact ih h hu.2
    | raw => exact absurd (List.cons.inj hwhole).1 hu.1.2
    | quoted => exact absurd (List.cons.inj hwhole).1 hu.1.1

end Calm

/-- A character of a token that is neither a string nor a rune. -/
def isTokenPart (c : Char) : Bool :=
  isWordPart c || Operator.all.any fun m => m.text.toList.contains c

theorem isTokenPart_of_numberPart {c : Char} (h : NumberPart c) : isTokenPart c = true := by
  rw [isTokenPart, Bool.or_eq_true]
  have hword : c.toNat < 128 → _ := fun hlt => (isWordPart_iff_of_lt (c := c) hlt).2
  by_cases hmark : c.toNat = 46 ∨ c.toNat = 43 ∨ c.toNat = 45
  · have hc : c = '.' ∨ c = '+' ∨ c = '-' := by
      rcases hmark with hn | hn | hn
      · exact Or.inl (Char.toNat_inj.1 hn)
      · exact Or.inr (Or.inl (Char.toNat_inj.1 hn))
      · exact Or.inr (Or.inr (Char.toNat_inj.1 hn))
    rcases hc with rfl | rfl | rfl <;> exact Or.inr (by decide)
  · unfold NumberPart at h
    exact Or.inl (hword (by omega) (by omega))

/-- A token that a calm character begins has only parts of tokens. -/
theorem Token.Shape.tokenParts {t : Token} {c : Char} {cs : List Char} (h : t.Shape (c :: cs))
    (hc : isCalmPart c = true) : ∀ d ∈ cs, isTokenPart d = true := by
  have hword : ∀ d, isWordPart d = true → isTokenPart d = true := fun d hd => by
    rw [isTokenPart, hd, Bool.true_or]
  cases h with
  | ident _ hcs | keyword _ _ _ hcs => exact fun d hd => hword d (hcs d hd)
  | number _ _ hparts => exact fun d hd => isTokenPart_of_numberPart (hparts d (List.mem_cons_of_mem c hd))
  | rune | raw | quoted => exact absurd hc (by decide)
  | operator m hm =>
    intro d hd
    have hmem : d ∈ m.text.toList := hm ▸ List.mem_cons_of_mem c hd
    rw [isTokenPart, Bool.or_eq_true]
    exact Or.inr (List.any_eq_true.2 ⟨m, m.mem_all, List.contains_iff_mem.2 hmem⟩)

theorem not_isBlank_of_isTokenPart {c : Char} (h : isTokenPart c = true) : isBlank c = false := by
  have hoperators : ∀ m ∈ Operator.all, ∀ c ∈ m.text.toList, isBlank c = false := by decide +kernel
  rw [isTokenPart, Bool.or_eq_true] at h
  rcases h with h | h
  · exact (not_isBlank_of_isWordPart h).1
  · obtain ⟨m, hm, hc⟩ := List.any_eq_true.1 h
    exact hoperators m hm c (List.contains_iff_mem.1 hc)

/-- A calm character begins a token that ends on its line. -/
theorem Left.calmPart {ends : Bool} {c : Char} {line : List Char} {src : List (List Char)} {ts : List Token}
    (h : Left ends (c :: line) src ts) (hc : isCalmPart c = true) (hblank : isBlank c = false) :
    ∃ t u line' ts', line = u ++ line' ∧ ts = t :: ts' ∧ t.Shape (c :: u) ∧
      (∀ d ∈ u, isTokenPart d = true) ∧ Left t.endsLine line' src ts' := by
  obtain ⟨l, text, hone, hink, hmore, hreads⟩ := h.next hblank
  have hgaps := notMem_gaps hblank (ne_of_class hc '/' (by decide))
  obtain ⟨t, u, rest', ts', hu, rfl, hl, hrest⟩ := hreads.exists_token hgaps
  have hparts := hl.spells.shape.tokenParts hc
  -- the end of the line belongs to no such token
  have hle : u.length ≤ l.length :=
    length_le_of_beginning (hu ▸ List.prefix_append u rest') hparts fun d hd => by cases hd; decide
  obtain ⟨l', rfl⟩ := List.prefix_of_prefix_length_le (List.prefix_append u rest')
    (hu ▸ List.prefix_append l _) hle
  obtain ⟨line', rfl, hink'⟩ :=
    exists_append_of_agree_right (fun d hd => not_isBlank_of_isTokenPart (hparts d hd)) hink
  rw [List.append_assoc, List.append_cancel_left_eq] at hu
  rw [OneLine, List.forall_mem_append] at hone
  exact ⟨t, u, line', ts', rfl, rfl, hl.spells.shape, hparts, false, false, l', text, hone.2, hink', hmore,
    hu ▸ hrest⟩

/-- A calm line is read up to its end. -/
theorem Left.calm {ends : Bool} {line : List Char} {src : List (List Char)} {ts : List Token}
    (hline : Calm line) (h : Left ends line src ts) :
    ∃ u ends' ts', ts = u ++ ts' ∧ Left ends' [] src ts' := by
  induction hn : line.length using Nat.strongRecOn generalizing ends line ts with
  | ind n ih =>
    -- a token, and what is left of the line behind it
    have hstep : ∀ {t : Token} {ends' : Bool} {line' : List Char} {ts' : List Token}, line'.length < n →
        Calm line' → ts = t :: ts' → Left ends' line' src ts' →
        ∃ u ends' ts', ts = u ++ ts' ∧ Left ends' [] src ts' := by
      rintro t ends' line' ts' hlt hline' rfl hleft
      obtain ⟨u, ends'', ts'', rfl, hend⟩ := ih _ hlt hline' hleft rfl
      exact ⟨t :: u, ends'', ts'', rfl, hend⟩
    cases hline with
    | nil => exact ⟨[], ends, ts, rfl, h⟩
    | raw hone hbody hcalm =>
      rw [List.length_cons, List.length_append, List.length_cons] at hn
      obtain ⟨ts', hts, hleft⟩ := h.raw hbody
      exact hstep (by omega) hcalm hts hleft
    | quoted hone hbody hcalm =>
      rw [List.length_cons, List.length_append, List.length_cons] at hn
      obtain ⟨ts', hts, hleft⟩ := h.quoted hbody
      exact hstep (by omega) hcalm hts hleft
    | @char c line hc hcalm =>
      rw [List.length_cons] at hn
      by_cases hblank : isBlank c = true
      · exact ih _ (by omega) hcalm (h.blank hblank) rfl
      obtain ⟨t, u, line', ts', rfl, hts, -, hu, hleft⟩ := h.calmPart hc (by simpa using hblank)
      -- no quote is a part of the token, so the rest of the line is calm
      have hcalm' : Calm line' := by
        apply hcalm.of_append
        intro d hd
        have hne := ne_of_class (hu d hd)
        exact ⟨hne '"' (by decide), hne '`' (by decide)⟩
      rw [List.length_append] at hn
      exact hstep (by omega) hcalm' hts hleft

namespace Walks

variable {src : List (List Char)} {line : List Char} {ts : List Token}

/-- Lines without ink are passed. -/
theorem skip (h : Walks (line :: src) ts) (hline : hasInk line = false) : Walks src ts := by
  obtain ⟨text, ⟨shown, htext, hone, hink⟩, hreads⟩ := h
  rw [List.filter_cons_of_neg (by simp [hline])] at hink
  exact ⟨text, ⟨shown, htext, hone, hink⟩, hreads⟩

/-- The next line with ink begins. -/
theorem left (h : Walks (line :: src) ts) (hline : hasInk line = true) : Left false line src ts := by
  obtain ⟨text, ⟨shown, rfl, hone, hink⟩, hreads⟩ := h
  rw [List.filter_cons_of_pos hline] at hink
  induction shown with
  | nil => cases hink
  | cons l shown ih =>
    rw [List.forall_mem_cons] at hone
    have htext : unlines (l :: shown) = l ++ '\n' :: unlines shown := by
      rw [unlines, List.flatMap_cons, List.append_assoc]
      rfl
    rw [htext] at hreads
    by_cases hl : hasInk l = true
    · rw [List.filter_cons_of_pos hl] at hink
      cases hink with
      | cons hagree hrest =>
        exact ⟨true, true, l, unlines shown, hone.1, hagree, ⟨shown, rfl, hone.2, hrest⟩, hreads⟩
    · rw [List.filter_cons_of_neg hl] at hink
      have hblank : ∀ c ∈ l, isBlank c = true ∧ c ≠ '\n' := by
        intro c hc
        have hnone : ¬ (!isBlank c) = true := fun hc' => hl (List.any_eq_true.2 ⟨c, hc, hc'⟩)
        exact ⟨by simpa using hnone, (hone.1 c hc).1⟩
      obtain ⟨ts', rfl, hnext⟩ := (Reads.of_blanks hblank hreads).of_newline
      exact ih hnext hone.2 hink

/-- A calm line is passed, whatever stands in it. -/
theorem pass (h : Walks (line :: src) ts) (hline : Calm line) : ∃ u ts', ts = u ++ ts' ∧ Walks src ts' := by
  by_cases hink : hasInk line = true
  · obtain ⟨u, ends, ts', rfl, hend⟩ := (h.left hink).calm hline
    obtain ⟨ts'', rfl, hwalks⟩ := hend.walks
    exact ⟨u ++ lineEnd ends, ts'', (List.append_assoc _ _ _).symm, hwalks⟩
  · exact ⟨[], ts, rfl, h.skip (by simpa using hink)⟩

theorem passAll {lines : List (List Char)} (h : Walks (lines ++ src) ts) (hlines : ∀ l ∈ lines, Calm l) :
    ∃ u ts', ts = u ++ ts' ∧ Walks src ts' := by
  induction lines generalizing ts with
  | nil => exact ⟨[], ts, rfl, h⟩
  | cons l lines ih =>
    rw [List.forall_mem_cons] at hlines
    obtain ⟨u, ts', rfl, hwalks⟩ := h.pass hlines.1
    obtain ⟨u', ts'', rfl, hwalks'⟩ := ih hwalks hlines.2
    exact ⟨u ++ u', ts'', (List.append_assoc _ _ _).symm, hwalks'⟩

end Walks

/-! ## A formatted text -/

/-- Lines that begin with a comment are formatted without a byte order mark before them. -/
theorem withoutMark_unlines {line : List Char} {src shown : List (List Char)}
    (hink : List.Forall₂ (fun a b => Agree (ink a) (ink b)) (('/' :: line) :: src) (shown.filter hasInk)) :
    withoutMark (unlines shown) = unlines shown := by
  cases shown with
  | nil => rfl
  | cons l shown =>
    cases l with
    | nil => rfl
    | cons c l =>
      have hcons : unlines ((c :: l) :: shown) = c :: (l ++ ['\n'] ++ unlines shown) := rfl
      rw [hcons]
      unfold withoutMark
      split
      · rename_i hmark
        obtain ⟨rfl, -⟩ := List.cons.inj hmark
        rw [List.filter_cons_of_pos (by simp +decide [hasInk])] at hink
        cases hink with
        | cons hagree _ =>
          rw [ink, inkFrom, if_neg (by decide), ink, inkFrom, if_neg (by decide)] at hagree
          obtain ⟨f, ys, hys, -⟩ := hagree.uncons
          have hslash : '\ufeff' = '/' := congrArg Prod.fst (List.cons.inj hys).1
          exact absurd hslash (by decide)
      · rfl

/-- When a text that begins with a comment is formatted to a Go file, its lines are read as the
    tokens of that file. -/
theorem walks_of_formatChars {check : Check} {line out : List Char} {src : List (List Char)}
    (hone : ∀ l ∈ ('/' :: line) :: src, OneLine l)
    (h : formatChars check (unlines (('/' :: line) :: src)) = .ok out) (hfile : IsFile out) :
    ∃ ts all, Walks (('/' :: line) :: src) ts ∧ Completes all ts ∧ Form.Fits (.rule .sourceFile) all := by
  obtain ⟨shown, rfl, hink, hchars⟩ := exists_of_formatChars_eq_ok h
  rw [lines_unlines hone] at hink hchars
  have hshown : ∀ l ∈ shown, OneLine l := by
    intro l hl c hc
    rcases hchars l hl c hc with ⟨raw, hraw, hc⟩ | rfl | rfl
    · exact hone raw hraw c hc
    · decide
    · decide
  have hfirst : hasInk ('/' :: line) = true := by simp +decide [hasInk]
  have hmark : withoutMark (unlines shown) = unlines shown := by
    rw [List.filter_cons_of_pos hfirst] at hink
    exact withoutMark_unlines hink
  obtain ⟨ts, all, hreads, hcompletes, hfits⟩ := hfile
  rw [hmark] at hreads
  exact ⟨ts, all, ⟨unlines shown, ⟨shown, rfl, hshown, hink⟩, hreads⟩, hcompletes, hfits⟩

end ServiceSchema.Go
