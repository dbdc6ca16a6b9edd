/-
  ServiceSchema.Proofs.RowTokens — the tokens of pieces and of rows.

  Pieces that are kept apart (`spaced`) are read one by one: what follows a word does not
  continue it, and what follows a sign does not make a longer operator of it.

  - `reads_piece`: a piece is the token that it stands for, or none if it is a gap.
  - `reads_rows`: rows have the tokens of their pieces, and a semicolon at the end of every
    line that may end a statement.
-/
import ServiceSchema.Proofs.Blocks
import ServiceSchema.Proofs.Tokens

namespace ServiceSchema.Go

open Text

/-! ## Pieces as tokens -/

def Bracket.opening : Bracket → Operator
  | brace => .lbrace
  | paren => .lparen
  | square => .lbrack

def Bracket.closing : Bracket → Operator
  | brace => .rbrace
  | paren => .rparen
  | square => .rbrack

def Sign.operator : Sign → Operator
  | comma => .comma
  | dot => .dot
  | define => .define
  | star => .star
  | semi => .semicolon
  | ne => .ne
  | colon => .colon

/-- A keyword or an identifier. -/
def Token.ofWord (name : List Char) : Token :=
  match Keyword.all.find? fun k => k.text.toList == name with
  | some k => .keyword k
  | none => .ident

namespace Piece

def tokens : Piece → List Token
  | word text => [Token.ofWord text.toList]
  | opener kind => [.operator kind.opening]
  | closer kind => [.operator kind.closing]
  | sign s => [.operator s.operator]
  | quoted _ => [.string]
  | raw _ => [.string]
  | gap _ => []

/-- A piece that may stand right behind this one: words are kept apart, and so are signs. -/
def parts : Piece → Piece → Bool
  | word _, word _ => false
  | sign _, sign _ => false
  | word _, gap width => width != 0
  | sign _, gap width => width != 0
  | _, _ => true

/-- A character right behind the piece does not belong to its token. -/
def stops : Piece → Char → Bool
  | word _, c => !isWordPart c
  | sign s, c => !s.operator.goesOn c
  | _, _ => true

end Piece

/-- All neighbours are kept apart. -/
def spaced : List Piece → Bool
  | p :: q :: rest => p.parts q && spaced (q :: rest)
  | _ => true

/-- The tokens of some pieces. -/
def pieceTokens (ps : List Piece) : List Token := ps.flatMap Piece.tokens

@[simp] theorem pieceTokens_nil : pieceTokens [] = [] := rfl

@[simp] theorem pieceTokens_cons (p : Piece) (ps : List Piece) :
    pieceTokens (p :: ps) = p.tokens ++ pieceTokens ps := rfl

@[simp] theorem pieceTokens_append (ps qs : List Piece) :
    pieceTokens (ps ++ qs) = pieceTokens ps ++ pieceTokens qs :=
  List.flatMap_append

@[simp] theorem pieceTokens_bracketed (kind : Bracket) (ps : List Piece) :
    pieceTokens (bracketed kind ps) =
      .operator kind.opening :: pieceTokens ps ++ [.operator kind.closing] := by
  simp [bracketed, Piece.tokens]

/-! ## Characters behind a piece -/

theorem isWordPart_of_isPlainPart {c : Char} (h : isPlainPart c = true) : isWordPart c = true := by
  have hn := toNat_of_isPlainPart h
  rw [isWordPart_iff_of_lt (by omega)]
  omega

theorem isLetter_of_isPlainStart {c : Char} (h : isPlainStart c = true) : isLetter c = true := by
  rw [isPlainStart, Bool.or_eq_true, isAlpha_iff, beq_iff_eq] at h
  rcases h with h | rfl
  · exact (isLetter_iff_of_lt (by omega)).2 (by omega)
  · decide

/-- Characters that brackets, strings, gaps and the ends of lines begin with. -/
def borders : List Char := ['{', '}', '(', ')', '[', ']', '"', '`', ' ', '\n']

/-- Signs go on with one of two characters, or with a digit. -/
theorem goesOn_sign {s : Sign} {c : Char} (h : s.operator.goesOn c = true) :
    c = '=' ∨ c = '.' ∨ c.isDigit = true := by
  have hall : s.operator.extensions.all (fun c => c == '=' || c == '.') = true := by cases s <;> decide
  rw [Operator.goesOn, Bool.or_eq_true, Bool.and_eq_true, List.contains_iff_mem] at h
  rcases h with h | h
  · have hc := List.all_eq_true.1 hall c h
    rw [Bool.or_eq_true, beq_iff_eq, beq_iff_eq] at hc
    exact hc.imp_right Or.inl
  · exact Or.inr (Or.inr h.2)

namespace Piece

theorem stops_sign (s : Sign) {c : Char} (h : c ≠ '=' ∧ c ≠ '.' ∧ c.isDigit = false) :
    (sign s).stops c = true := by
  rw [stops, Bool.not_eq_true', ← Bool.not_eq_true]
  intro hc
  rcases goesOn_sign hc with hc | hc | hc
  · exact h.1 hc
  · exact h.2.1 hc
  · rw [h.2.2] at hc
    cases hc

/-- A border ends every token. -/
theorem stops_border {c : Char} (h : c ∈ borders) (p : Piece) : p.stops c = true := by
  have hword : borders.all (fun c => !isWordPart c) = true := by decide
  have hsign : ∀ c ∈ borders, c ≠ '=' ∧ c ≠ '.' ∧ c.isDigit = false := by decide
  cases p with
  | word text => exact List.all_eq_true.1 hword c h
  | sign s => exact stops_sign s (hsign c h)
  | opener | closer | quoted | raw | gap => rfl

theorem mem_borders {q : Piece} (hw : ∀ text, q ≠ word text) (hs : ∀ s, q ≠ sign s) {c : Char}
    {cs : List Char} (h : q.chars = c :: cs) : c ∈ borders := by
  cases q with
  | word text => exact absurd rfl (hw text)
  | sign s => exact absurd rfl (hs s)
  | opener kind => cases kind <;> cases h <;> decide
  | closer kind => cases kind <;> cases h <;> decide
  | quoted body => cases h; decide
  | raw body => cases h; decide
  | gap width =>
    have hmem : c ∈ List.replicate width ' ' := by
      rw [show List.replicate width ' ' = c :: cs from h]; simp
    rw [List.eq_of_mem_replicate hmem]
    decide

theorem stops_plainStart (s : Sign) {c : Char} (h : isPlainStart c = true) :
    (sign s).stops c = true := by
  have hne := ne_of_class h
  have hdigit : c.isDigit = false := by
    rw [isPlainStart, Bool.or_eq_true, Text.isAlpha_iff, beq_iff_eq] at h
    rcases h with h | rfl
    · rw [← Bool.not_eq_true, Text.isDigit_iff]
      omega
    · decide
  exact stops_sign s ⟨hne '=' (by decide), hne '.' (by decide), hdigit⟩

/-- What may stand behind a piece does not continue its token. -/
theorem stops_of_parts {p q : Piece} (hp : p.parts q = true) (hq : q.isSound = true) {c : Char}
    {cs : List Char} (hc : q.chars = c :: cs) : p.stops c = true := by
  by_cases hw : ∃ text, q = word text
  · obtain ⟨name, rfl⟩ := hw
    obtain ⟨d, ds, hs, hd, -⟩ := exists_of_isPlain hq
    cases hs.symm.trans hc
    cases p with
    | word text => cases hp
    | sign s => exact stops_plainStart s hd
    | opener | closer | quoted | raw | gap => rfl
  · by_cases hs : ∃ s, q = sign s
    · obtain ⟨s, rfl⟩ := hs
      have hfirst : isWordPart c = false := by cases s <;> cases hc <;> decide
      cases p with
      | word text => simp [stops, hfirst]
      | sign s' => cases hp
      | opener | closer | quoted | raw | gap => rfl
    · exact stops_border (mem_borders (fun text h => hw ⟨text, h⟩) (fun s h => hs ⟨s, h⟩) hc) p

/-- Behind a word or a sign something must be written. -/
theorem chars_ne_nil_of_parts {p q : Piece} (hp : p.parts q = true) (hq : q.isSound = true) {c : Char}
    (hc : p.stops c = false) : q.chars ≠ [] := by
  have hwide : ∀ width, (width != 0) = true → List.replicate width ' ' ≠ [] := by
    intro width hne h
    rw [List.replicate_eq_nil_iff] at h
    simp [h] at hne
  cases q with
  | word name =>
    obtain ⟨d, ds, hs, -⟩ := exists_of_isPlain hq
    exact fun h => List.cons_ne_nil d ds (hs.symm.trans h)
  | sign s => cases s <;> exact List.cons_ne_nil _ _
  | opener | closer | quoted | raw => exact List.cons_ne_nil _ _
  | gap width =>
    cases p with
    | word text => exact hwide width hp
    | sign s => exact hwide width hp
    | opener | closer | quoted | raw | gap => cases hc

/-- The characters behind a piece end it. -/
def Stopped (p : Piece) (tail : List Char) : Prop := ∀ c, tail.head? = some c → p.stops c = true

theorem stopped_newline (p : Piece) (rest : List Char) : p.Stopped ('\n' :: rest) := by
  intro c hc
  cases hc
  exact stops_border (by decide) p

theorem stopped_of_parts {p q : Piece} (hp : p.parts q = true) (hq : q.isSound = true)
    (tail : List Char) :
    p.Stopped (q.chars ++ tail) := by
  intro c hc
  by_cases hstop : p.stops c = true
  · exact hstop
  · obtain ⟨d, ds, hd⟩ :=
      List.exists_cons_of_ne_nil (chars_ne_nil_of_parts hp hq (Bool.not_eq_true _ ▸ hstop))
    rw [hd] at hc
    cases hc
    exact stops_of_parts hp hq hd

end Piece

/-! ## Reading a piece -/

section

variable {ends : Bool} {text rest : List Char} {ts : List Token}

/-- Only a slash begins a comment. -/
theorem startsComment_cons {c : Char} (hc : c ≠ '/') (cs : List Char) : startsComment (c :: cs) = false := by
  unfold startsComment
  split
  · rename_i heq; exact absurd (List.cons.inj heq).1 hc
  · rename_i heq; exact absurd (List.cons.inj heq).1 hc
  · rfl

theorem Reads.lexeme {t : Token} {c : Char} (hc : c ≠ '/') (ht : Lexeme t (c :: text) rest)
    (h : Reads t.endsLine rest ts) : Reads ends (c :: text ++ rest) (t :: ts) :=
  .token (startsComment_cons hc _) ht h

theorem Reads.gap {width : Nat} (h : Reads ends rest ts) :
    Reads ends (List.replicate width ' ' ++ rest) ts := by
  induction width with
  | zero => exact h
  | succ n ih => exact .blank (Or.inl rfl) ih

theorem Reads.tabs {width : Nat} (h : Reads ends rest ts) :
    Reads ends (List.replicate width '\t' ++ rest) ts := by
  induction width with
  | zero => exact h
  | succ n ih => exact .blank (Or.inr (Or.inl rfl)) ih

theorem Reads.operator {m : Operator} (hm : m.text.toList.head? ≠ some '/')
    (hstop : ∀ c, rest.head? = some c → m.goesOn c = false)
    (h : Reads (Token.operator m).endsLine rest ts) :
    Reads ends (m.text.toList ++ rest) (.operator m :: ts) := by
  obtain ⟨c, cs, hcs⟩ := m.exists_cons
  have hl := lexeme_operator m hstop
  rw [← hcs] at hm hl ⊢
  exact .lexeme (fun hc => hm (congrArg some hc)) hl h

theorem spells_ofWord {name : List Char} (h : isIdentifier name = true) :
    (Token.ofWord name).Spells name := by
  unfold Token.ofWord
  split
  · rename_i k hk
    have htext := List.find?_some hk
    rw [beq_iff_eq] at htext
    exact htext.symm
  · rename_i hnone
    refine ⟨h, fun k hk => ?_⟩
    have hne := List.find?_eq_none.1 hnone k k.mem_all
    exact hne (beq_iff_eq.2 hk.symm)

theorem ofWord_of_notMem {name : List Char} (h : String.ofList name ∉ goKeywords) :
    Token.ofWord name = .ident := by
  have hkeywords : ∀ k ∈ Keyword.all, k.text ∈ goKeywords := by decide
  unfold Token.ofWord
  split
  · rename_i k hk
    have htext := List.find?_some hk
    rw [beq_iff_eq] at htext
    rw [← htext, String.ofList_toList] at h
    exact absurd (hkeywords k (List.mem_of_find?_eq_some hk)) h
  · rfl

theorem Reads.word {name : String} (hname : isPlain name = true) (hstop : (Piece.word name).Stopped rest)
    (h : Reads (Token.ofWord name.toList).endsLine rest ts) :
    Reads ends (name.toList ++ rest) (Token.ofWord name.toList :: ts) := by
  obtain ⟨c, cs, hs, hc, hcs⟩ := exists_of_isPlain hname
  have hletter := isLetter_of_isPlainStart hc
  have hspells : (Token.ofWord name.toList).Spells name.toList := by
    refine spells_ofWord ?_
    rw [hs, isIdentifier, hletter, Bool.true_and, List.all_eq_true]
    exact fun d hd => isWordPart_of_isPlainPart (hcs d hd)
  rw [hs] at hspells h ⊢
  have hnext : ∀ d, rest.head? = some d → isWordPart d = false := by
    intro d hd
    simpa [Piece.stops] using hstop d hd
  exact .lexeme (ne_of_class hc '/' (by decide)) (lexeme_word hspells hletter hnext) h

/-- Whether a line may end behind some tokens, if they begin where one may or may not. -/
def endsAfter (ends : Bool) (ts : List Token) : Bool := ts.foldl (fun _ t => t.endsLine) ends

theorem endsAfter_append (ends : Bool) (ts us : List Token) :
    endsAfter ends (ts ++ us) = endsAfter (endsAfter ends ts) us :=
  List.foldl_append

theorem text_opening (kind : Bracket) : kind.opening.text.toList = [kind.opener] := by
  cases kind <;> rfl

theorem text_closing (kind : Bracket) : kind.closing.text.toList = [kind.closer] := by
  cases kind <;> rfl

/-- No bracket begins a longer operator. -/
theorem goesOn_bracket (kind : Bracket) (c : Char) :
    kind.opening.goesOn c = false ∧ kind.closing.goesOn c = false := by
  have hnone : kind.opening.extensions = [] ∧ kind.closing.extensions = [] := by cases kind <;> decide
  rw [Operator.goesOn, Operator.goesOn, hnone.1, hnone.2]
  cases kind <;> exact ⟨rfl, rfl⟩

theorem text_sign (s : Sign) : s.operator.text.toList = s.chars := by
  cases s <;> rfl

/-- A piece is the token that it stands for, or none if it is a gap. -/
theorem reads_piece {p : Piece} (hp : p.isSound = true) (hstop : p.Stopped rest)
    (h : Reads (endsAfter ends p.tokens) rest ts) : Reads ends (p.chars ++ rest) (p.tokens ++ ts) := by
  cases p with
  | word text => exact .word hp hstop h
  | opener kind =>
    rw [Piece.chars, ← text_opening]
    exact .operator (by cases kind <;> decide) (fun c _ => (goesOn_bracket kind c).1) h
  | closer kind =>
    rw [Piece.chars, ← text_closing]
    exact .operator (by cases kind <;> decide) (fun c _ => (goesOn_bracket kind c).2) h
  | sign s =>
    have hnext : ∀ c, rest.head? = some c → s.operator.goesOn c = false := by
      intro c hc
      simpa [Piece.stops] using hstop c hc
    rw [Piece.chars, ← text_sign]
    exact .operator (by cases s <;> decide) hnext h
  | quoted body =>
    have hbody : ∀ c ∈ body.toList, Pattern.isSource c = true ∧ c ≠ '\n' ∧ c ≠ '"' ∧ c ≠ '\\' := by
      intro c hc
      have hpart := List.all_eq_true.1 hp c hc
      simp only [Piece.isQuotable, Bool.and_eq_true, bne_iff_ne, ne_eq] at hpart
      exact ⟨hpart.2, hpart.1.1.2, hpart.1.1.1.1, hpart.1.1.1.2⟩
    exact .lexeme (by decide) (lexeme_quoted hbody rest) h
  | raw body =>
    have hbody : ∀ c ∈ body.toList, Pattern.isSource c = true ∧ c ≠ '`' := by
      intro c hc
      have hpart := List.all_eq_true.1 hp c hc
      simp only [Piece.isRawPart, Bool.and_eq_true, bne_iff_ne, ne_eq] at hpart
      exact ⟨hpart.2, hpart.1.1.1⟩
    exact .lexeme (by decide) (lexeme_raw hbody rest) h
  | gap width => exact .gap h

end

/-! ## Reading rows -/

/-- The pieces of a line are read one by one. -/
theorem reads_pieces {ps : List Piece} (hs : ∀ p ∈ ps, p.isSound = true) (hp : spaced ps = true)
    {ends : Bool} {rest : List Char} {ts : List Token}
    (h : Reads (endsAfter ends (pieceTokens ps)) ('\n' :: rest) ts) :
    Reads ends (pieceChars ps ++ '\n' :: rest) (pieceTokens ps ++ ts) := by
  induction ps generalizing ends with
  | nil => exact h
  | cons p ps ih =>
    rw [List.forall_mem_cons] at hs
    rw [pieceTokens_cons, endsAfter_append] at h
    rw [pieceChars_cons, List.append_assoc, pieceTokens_cons, List.append_assoc]
    cases ps with
    | nil => exact reads_piece hs.1 (p.stopped_newline rest) h
    | cons q ps =>
      rw [spaced, Bool.and_eq_true] at hp
      refine reads_piece hs.1 ?_ (ih hs.2 hp.2 h)
      rw [pieceChars_cons, List.append_assoc]
      exact Piece.stopped_of_parts hp.1 (hs.2 q List.mem_cons_self) _

namespace Row

/-- The tokens of a row, with the semicolon that the end of the line may be. -/
def tokens (r : Row) : List Token :=
  pieceTokens r.pieces ++ lineEnd (endsAfter false (pieceTokens r.pieces))

/-- A row that is read as its tokens: its pieces are sound and kept apart. -/
structure Cut (r : Row) : Prop where
  sound : ∀ p ∈ r.pieces, p.isSound = true
  spaced : spaced r.pieces = true

variable {r : Row}

theorem Cut.deeper (h : r.Cut) : r.deeper.Cut := ⟨h.sound, h.spaced⟩

theorem reads (h : r.Cut) {rest : List Char} {ts : List Token} (hr : Reads false rest ts) :
    Reads false (r.text ++ rest) (r.tokens ++ ts) := by
  have hline : Reads false (pieceChars r.pieces ++ '\n' :: rest) (r.tokens ++ ts) := by
    rw [tokens, List.append_assoc]
    exact reads_pieces h.sound h.spaced (.newline hr)
  unfold text writeLine
  split
  · rename_i hempty
    rw [chars, List.isEmpty_iff] at hempty
    rwa [hempty] at hline
  · rw [List.append_assoc, List.append_assoc]
    exact .tabs hline

end Row

/-- Rows are read as their tokens one by one. -/
theorem reads_rows {rows : List Row} (h : ∀ r ∈ rows, r.Cut) {rest : List Char} {ts : List Token}
    (hr : Reads false rest ts) :
    Reads false (rows.flatMap Row.text ++ rest) (rows.flatMap Row.tokens ++ ts) := by
  induction rows with
  | nil => exact hr
  | cons r rows ih =>
    rw [List.forall_mem_cons] at h
    rw [List.flatMap_cons, List.flatMap_cons, List.append_assoc, List.append_assoc]
    exact Row.reads h.1 (ih h.2)

end ServiceSchema.Go
