/-
  ServiceSchema.Proofs.Pieces — a line of Go text as words, brackets, signs, strings and gaps.

  The same pieces serve the scanner that lays lines out and the reading of tokens: what is
  done with a line follows from what is done with one piece.

  - `Scan.run_pieces`: scanning a line pushes and pops the brackets of its pieces, and
    nothing else.
  - `layoutLine_flat`, `layoutLine_opening`, `layoutLine_brace`, `layoutLine_call`: where a
    line stands that closes all it opens, leaves a block open, or closes one.
-/
import ServiceSchema.Go.Format
import ServiceSchema.Go.Token
import ServiceSchema.Proofs.Fallible
import ServiceSchema.Proofs.Printer

namespace ServiceSchema

/-! ## Characters of plain names -/

/-- A character of a class is none of those that the class leaves out. -/
theorem ne_of_class {p : Char → Bool} {c : Char} (h : p c = true) : ∀ d, p d = false → c ≠ d := by
  intro d hd hcd
  rw [hcd, hd] at h
  cases h

theorem toNat_of_isPlainPart {c : Char} (h : isPlainPart c = true) :
    (48 ≤ c.toNat ∧ c.toNat ≤ 57) ∨ (65 ≤ c.toNat ∧ c.toNat ≤ 90) ∨ c.toNat = 95 ∨
      (97 ≤ c.toNat ∧ c.toNat ≤ 122) := by
  rw [isPlainPart, Bool.or_eq_true, Text.isAlphanum_iff, beq_iff_eq] at h
  rcases h with ((h | h) | h) | rfl
  · exact Or.inr (Or.inl h)
  · exact Or.inr (Or.inr (Or.inr h))
  · exact Or.inl h
  · exact Or.inr (Or.inr (Or.inl rfl))

theorem isPlainPart_of_isPlainStart {c : Char} (h : isPlainStart c = true) : isPlainPart c = true := by
  simp only [isPlainStart, isPlainPart, Char.isAlphanum, Bool.or_eq_true] at h ⊢
  rcases h with h | h
  · exact Or.inl (Or.inl h)
  · exact Or.inr h

theorem isBlank_of_isPlainPart {c : Char} (h : isPlainPart c = true) : Text.isBlank c = false := by
  have := toNat_of_isPlainPart h
  simp [Text.isBlank]
  omega

/-- A plain name is a character that starts one and characters that continue it. -/
theorem exists_of_isPlain {name : String} (h : isPlain name = true) :
    ∃ c rest, name.toList = c :: rest ∧ isPlainStart c = true ∧ ∀ d ∈ rest, isPlainPart d = true := by
  unfold isPlain at h
  split at h
  · cases h
  · rename_i c rest hs
    rw [Bool.and_eq_true, List.all_eq_true] at h
    exact ⟨c, rest, hs, h.1, h.2⟩

theorem isPlainPart_of_mem {name : String} (h : isPlain name = true) :
    ∀ c ∈ name.toList, isPlainPart c = true := by
  obtain ⟨c, rest, hs, hc, hr⟩ := exists_of_isPlain h
  intro d hd
  rw [hs] at hd
  rcases List.mem_cons.1 hd with rfl | hd
  · exact isPlainPart_of_isPlainStart hc
  · exact hr d hd

namespace Text

theorem trim_eq_self {c d : Char} {cs ds text : List Char} (hh : text = c :: cs)
    (hc : isBlank c = false) (hl : text = ds ++ [d]) (hd : isBlank d = false) : trim text = text := by
  have hleft : trimLeft text = text := by rw [trimLeft, hh, List.dropWhile_cons_of_neg (by simp [hc])]
  rw [trim, hleft, trimRight, hl, List.reverse_append, List.reverse_singleton, List.singleton_append,
    List.dropWhile_cons_of_neg (by simp [hd]), List.reverse_cons, List.reverse_reverse]

end Text

namespace Go

/-! ## Pieces -/

/-- The separators and operators of generated text. -/
inductive Sign where
  | comma
  | dot
  | define
  | star
  | semi
  | ne
  | colon
  deriving DecidableEq, Repr

def Sign.chars : Sign → List Char
  | comma => [',']
  | dot => ['.']
  | define => [':', '=']
  | star => ['*']
  | semi => [';']
  | ne => ['!', '=']
  | colon => [':']

/-- A part of a line. -/
inductive Piece where
  | word (text : String)
  | opener (kind : Bracket)
  | closer (kind : Bracket)
  | sign (sign : Sign)
  /-- A string in double quotes. -/
  | quoted (body : String)
  /-- A string in back quotes. -/
  | raw (body : String)
  | gap (width : Nat)
  deriving DecidableEq, Repr

namespace Piece

def chars : Piece → List Char
  | word text => text.toList
  | opener kind => [kind.opener]
  | closer kind => [kind.closer]
  | sign s => s.chars
  | quoted body => '"' :: body.toList ++ ['"']
  | raw body => '`' :: body.toList ++ ['`']
  | gap width => List.replicate width ' '

/-- A character that stands for itself between double quotes. -/
def isQuotable (c : Char) : Bool :=
  c != '"' && c != '\\' && c != '\n' && c != '\r' && Pattern.isSource c

/-- A character that stands for itself between back quotes, on one line. -/
def isRawPart (c : Char) : Bool := c != '`' && c != '\n' && c != '\r' && Pattern.isSource c

/-- The text of a piece is what it has to be: a plain word, or a string on one line. -/
def isSound : Piece → Bool
  | word text => isPlain text
  | quoted body => body.toList.all isQuotable
  | raw body => body.toList.all isRawPart
  | _ => true

/-- Something other than white space. -/
def isSolid : Piece → Bool
  | gap _ => false
  | p => p.isSound

end Piece

/-- The text of some pieces. -/
def pieceChars (ps : List Piece) : List Char := ps.flatMap Piece.chars

@[simp] theorem pieceChars_nil : pieceChars [] = [] := rfl

@[simp] theorem pieceChars_cons (p : Piece) (ps : List Piece) :
    pieceChars (p :: ps) = p.chars ++ pieceChars ps := rfl

@[simp] theorem pieceChars_append (ps qs : List Piece) :
    pieceChars (ps ++ qs) = pieceChars ps ++ pieceChars qs := by
  simp [pieceChars]

/-! ## Scanning -/

/-- A character that the scanner passes over in code. -/
def isInert (c : Char) : Bool :=
  c != '"' && c != '\'' && c != '`' && c != '/' && (Bracket.ofOpener? c).isNone &&
    (Bracket.ofCloser? c).isNone

theorem isInert_of_isPlainPart {c : Char} (h : isPlainPart c = true) : isInert c = true := by
  have hne := ne_of_class h
  have hopen : Bracket.ofOpener? c = none := by
    unfold Bracket.ofOpener?
    split
    · exact absurd rfl (hne '{' (by decide))
    · exact absurd rfl (hne '(' (by decide))
    · exact absurd rfl (hne '[' (by decide))
    · rfl
  have hclose : Bracket.ofCloser? c = none := by
    unfold Bracket.ofCloser?
    split
    · exact absurd rfl (hne '}' (by decide))
    · exact absurd rfl (hne ')' (by decide))
    · exact absurd rfl (hne ']' (by decide))
    · rfl
  simp [isInert, hopen, hclose, hne '"' (by decide), hne '\'' (by decide), hne '`' (by decide),
    hne '/' (by decide)]

namespace Scan

variable {n : Nat} {s : Scan}

/-- The scanner stands in code, and the level of its line is known. -/
def Settled (s : Scan) : Prop := s.literal = .code ∧ s.indent.isSome = true

theorem note_settled (h : s.Settled) (c : Char) : s.note c = s := by
  rw [note, Option.isNone_eq_false_iff.2 h.2]
  rfl

theorem run_inert (h : s.Settled) {c : Char} (hc : isInert c = true) (rest : List Char) :
    run n s (c :: rest) = run n s rest := by
  simp only [isInert, Bool.and_eq_true, bne_iff_ne, ne_eq, Option.isNone_iff_eq_none] at hc
  obtain ⟨⟨⟨⟨⟨h1, h2⟩, h3⟩, h4⟩, h5⟩, h6⟩ := hc
  rw [run.eq_def]
  simp only [h.1, note_settled h, h1, h2, h3, h4, h5, h6, if_false]

theorem run_allInert (h : s.Settled) {cs : List Char} (hc : ∀ c ∈ cs, isInert c = true)
    (rest : List Char) :
    run n s (cs ++ rest) = run n s rest := by
  induction cs with
  | nil => rfl
  | cons c cs ih =>
    rw [List.forall_mem_cons] at hc
    rw [List.cons_append, run_inert h hc.1, ih hc.2]

/-- Inside double quotes everything is passed over up to the closing quote. -/
theorem run_quotedBody {body : List Char} (hb : ∀ c ∈ body, Piece.isQuotable c = true)
    (rest : List Char) :
    run n { s with literal := .interpreted } (body ++ '"' :: rest) =
      run n { s with literal := .code } rest := by
  induction body with
  | nil => rw [List.nil_append, run.eq_def]; simp
  | cons c body ih =>
    rw [List.forall_mem_cons] at hb
    have hc := hb.1
    simp only [Piece.isQuotable, Bool.and_eq_true, bne_iff_ne, ne_eq] at hc
    rw [List.cons_append, run.eq_def]
    simp only [hc.1.1.1.1, hc.1.1.1.2, if_false]
    exact ih hb.2

theorem run_rawBody {body : List Char} (hb : ∀ c ∈ body, Piece.isRawPart c = true) (rest : List Char) :
    run n { s with literal := .raw } (body ++ '`' :: rest) =
      run n { s with literal := .code } rest := by
  induction body with
  | nil => rw [List.nil_append, run.eq_def]; simp
  | cons c body ih =>
    rw [List.forall_mem_cons] at hb
    have hc := hb.1
    simp only [Piece.isRawPart, Bool.and_eq_true, bne_iff_ne, ne_eq] at hc
    rw [List.cons_append, run.eq_def]
    simp only [hc.1.1.1, if_false]
    exact ih hb.2

end Scan

/-- What scanning a piece does: brackets are pushed and popped. -/
def Piece.scan (n : Nat) (s : Scan) : Piece → Except LayoutFault Scan
  | .opener kind => .ok (s.push kind n)
  | .closer kind => s.pop kind n
  | _ => .ok s

theorem Scan.pop_push (s : Scan) (kind : Bracket) (n : Nat) : (s.push kind n).pop kind n = .ok s := by
  simp [push, pop]

theorem Scan.settled_of_pop {n : Nat} {s s' : Scan} {kind : Bracket} (h : s.Settled)
    (hp : s.pop kind n = .ok s') :
    s'.Settled := by
  unfold pop at hp
  split at hp
  · cases hp
  · split at hp
    · cases hp; exact h
    · cases hp

theorem Piece.settled_of_scan {n : Nat} {s s' : Scan} {p : Piece} (h : s.Settled)
    (hp : p.scan n s = .ok s') :
    s'.Settled := by
  cases p with
  | opener kind => cases hp; exact h
  | closer kind => exact Scan.settled_of_pop h hp
  | word | sign | quoted | raw | gap => cases hp; exact h

theorem Scan.run_piece {n : Nat} {s : Scan} {p : Piece} (h : s.Settled) (hp : p.isSound = true)
    (rest : List Char) :
    run n s (p.chars ++ rest) = p.scan n s >>= fun s' => run n s' rest := by
  obtain ⟨literal, stack, fresh, indent⟩ := s
  obtain ⟨hlit, hind⟩ := h
  cases hlit
  have h : Settled ⟨.code, stack, fresh, indent⟩ := ⟨rfl, hind⟩
  cases p with
  | word text =>
    exact run_allInert h (fun c hc => isInert_of_isPlainPart (isPlainPart_of_mem hp c hc)) rest
  | gap width =>
    refine run_allInert h (fun c hc => ?_) rest
    rw [List.eq_of_mem_replicate hc]
    decide
  | sign sign =>
    refine run_allInert h (List.all_eq_true.1 ?_) rest
    cases sign <;> decide
  | quoted body =>
    show run n _ ('"' :: (body.toList ++ ['"']) ++ rest) = _
    rw [List.cons_append, List.append_assoc, run.eq_def]
    simp only [note_settled h, if_true]
    exact run_quotedBody (s := ⟨.code, stack, fresh, indent⟩) (List.all_eq_true.1 hp) rest
  | raw body =>
    show run n _ ('`' :: (body.toList ++ ['`']) ++ rest) = _
    rw [List.cons_append, List.append_assoc, run.eq_def]
    simp only [note_settled h, if_true, show ('`' = '"') = False by decide,
      show ('`' = '\'') = False by decide, if_false]
    exact run_rawBody (s := ⟨.code, stack, fresh, indent⟩) (List.all_eq_true.1 hp) rest
  | opener kind =>
    cases kind <;>
    · show run n _ (_ :: rest) = _
      rw [run.eq_def]
      simp only [note_settled h, Piece.scan, Bracket.opener, Bracket.ofOpener?]
      rfl
  | closer kind =>
    cases kind <;>
    · show run n _ (_ :: rest) = _
      rw [run.eq_def]
      simp only [note_settled h, Piece.scan, Bracket.closer, Bracket.ofOpener?, Bracket.ofCloser?]
      rfl

/-- Scanning a line is scanning its pieces one after another. -/
theorem Scan.run_pieces {n : Nat} {s : Scan} {ps : List Piece} (h : s.Settled)
    (hp : ∀ p ∈ ps, p.isSound = true) :
    run n s (pieceChars ps) = ps.foldlM (Piece.scan n) s := by
  induction ps generalizing s with
  | nil => rw [pieceChars_nil, run.eq_def]; rfl
  | cons p ps ih =>
    rw [List.forall_mem_cons] at hp
    rw [pieceChars_cons, run_piece h hp.1, List.foldlM_cons]
    cases hs : p.scan n s with
    | error e => rfl
    | ok s' => exact ih (Piece.settled_of_scan h hs) hp.2

/-! ## Lines -/

/-- Pieces that close everything they open. -/
def Flat (ps : List Piece) : Prop := ∀ (n : Nat) (s : Scan), ps.foldlM (Piece.scan n) s = .ok s

/-- Pieces that leave the brackets `outer` open, and inside them a brace. -/
def Opens (outer : List Bracket) (ps : List Piece) : Prop :=
  ∀ (n : Nat) (s : Scan), ps.foldlM (Piece.scan n) s =
    .ok ((outer.foldl (fun s k => s.push k n) s).push .brace n)

/-- Pieces that make up a line: it begins and ends with something solid, and does not
    begin by closing a bracket. -/
structure IsLine (ps : List Piece) : Prop where
  sound : ∀ p ∈ ps, p.isSound = true
  head : ∃ p, ps.head? = some p ∧ p.isSolid = true ∧ ∀ k, p ≠ .closer k
  last : ∃ p, ps.getLast? = some p ∧ p.isSolid = true

theorem Flat.append {ps qs : List Piece} (hp : Flat ps) (hq : Flat qs) : Flat (ps ++ qs) := by
  intro n s
  rw [List.foldlM_append, hp n s]
  exact hq n s

theorem flat_nil : Flat [] := fun _ _ => rfl

/-- Something other than a bracket. -/
def Piece.isNeutral : Piece → Bool
  | opener _ | closer _ => false
  | _ => true

theorem Flat.cons {p : Piece} {ps : List Piece} (hp : p.isNeutral = true) (h : Flat ps) :
    Flat (p :: ps) := by
  intro n s
  rw [List.foldlM_cons]
  cases p with
  | opener | closer => cases hp
  | word | sign | quoted | raw | gap => exact h n s

/-- Pieces in brackets. -/
def bracketed (kind : Bracket) (ps : List Piece) : List Piece := .opener kind :: ps ++ [.closer kind]

@[simp] theorem pieceChars_bracketed (kind : Bracket) (ps : List Piece) :
    pieceChars (bracketed kind ps) = kind.opener :: pieceChars ps ++ [kind.closer] := by
  simp [bracketed, Piece.chars]

theorem Flat.bracketed {ps : List Piece} (hp : Flat ps) (kind : Bracket) :
    Flat (bracketed kind ps) := by
  intro n s
  rw [Go.bracketed, List.cons_append, List.foldlM_cons]
  show List.foldlM (Piece.scan n) (s.push kind n) (ps ++ [.closer kind]) = .ok s
  rw [List.foldlM_append, hp]
  show List.foldlM (Piece.scan n) (s.push kind n) [.closer kind] = .ok s
  rw [List.foldlM_cons]
  show ((s.push kind n).pop kind n >>= fun s' => List.foldlM (Piece.scan n) s' []) = .ok s
  rw [Scan.pop_push]
  rfl

/-! ## Where lines stand -/

theorem Piece.exists_head {p : Piece} (h : p.isSolid = true) :
    ∃ c cs, p.chars = c :: cs ∧ Text.isBlank c = false ∧
      ((∀ k, p ≠ .closer k) → Bracket.isCloser c = false) := by
  cases p with
  | word text =>
    obtain ⟨c, rest, hs, hc, -⟩ := exists_of_isPlain h
    have hp := isPlainPart_of_isPlainStart hc
    have hi := isInert_of_isPlainPart hp
    simp only [isInert, Bool.and_eq_true, Option.isNone_iff_eq_none] at hi
    exact ⟨c, rest, hs, isBlank_of_isPlainPart hp, fun _ => by rw [Bracket.isCloser, hi.2]; rfl⟩
  | opener kind => cases kind <;> exact ⟨_, _, rfl, by decide, fun _ => by decide⟩
  | closer kind => cases kind <;> exact ⟨_, _, rfl, by decide, fun hk => absurd rfl (hk _)⟩
  | sign sign => cases sign <;> exact ⟨_, _, rfl, by decide, fun _ => by decide⟩
  | quoted body => exact ⟨_, _, rfl, by decide, fun _ => by decide⟩
  | raw body => exact ⟨_, _, rfl, by decide, fun _ => by decide⟩
  | gap width => cases h

theorem Piece.exists_last {p : Piece} (h : p.isSolid = true) :
    ∃ cs c, p.chars = cs ++ [c] ∧ Text.isBlank c = false := by
  cases p with
  | word text =>
    obtain ⟨c, rest, hs, -⟩ := exists_of_isPlain h
    have hne : text.toList ≠ [] := by rw [hs]; exact List.cons_ne_nil _ _
    refine ⟨_, _, (List.dropLast_concat_getLast hne).symm, ?_⟩
    exact isBlank_of_isPlainPart (isPlainPart_of_mem h _ (List.getLast_mem hne))
  | opener kind => cases kind <;> exact ⟨[], _, rfl, by decide⟩
  | closer kind => cases kind <;> exact ⟨[], _, rfl, by decide⟩
  | sign sign =>
    cases sign with
    | define => exact ⟨[':'], _, rfl, by decide⟩
    | ne => exact ⟨['!'], _, rfl, by decide⟩
    | _ => exact ⟨[], _, rfl, by decide⟩
  | quoted body => exact ⟨'"' :: body.toList, '"', rfl, by decide⟩
  | raw body => exact ⟨'`' :: body.toList, '`', rfl, by decide⟩
  | gap width => cases h

/-- A line of pieces begins with a character that gives it its level, and has no blanks
    around it. -/
theorem IsLine.exists_head {ps : List Piece} (h : IsLine ps) :
    ∃ c cs, pieceChars ps = c :: cs ∧ Text.isBlank c = false ∧ Bracket.isCloser c = false := by
  obtain ⟨p, hp, hs, hk⟩ := h.head
  obtain ⟨rest, rfl⟩ := List.head?_eq_some_iff.1 hp
  obtain ⟨c, cs, hp, hb, hc⟩ := Piece.exists_head hs
  exact ⟨c, cs ++ pieceChars rest, by rw [pieceChars_cons, hp, List.cons_append], hb, hc hk⟩

theorem IsLine.trim {ps : List Piece} (h : IsLine ps) : Text.trim (pieceChars ps) = pieceChars ps := by
  obtain ⟨c, cs, hh, hc, -⟩ := h.exists_head
  obtain ⟨p, hp, hs⟩ := h.last
  obtain ⟨front, hps⟩ := List.getLast?_eq_some_iff.1 hp
  obtain ⟨ds, d, hp, hd⟩ := Piece.exists_last hs
  refine Text.trim_eq_self hh hc (show pieceChars ps = (pieceChars front ++ ds) ++ [d] from ?_) hd
  rw [hps, pieceChars_append, pieceChars_cons, pieceChars_nil, List.append_nil, hp, List.append_assoc]

/-- The field block that lines directly under a stack of brackets belong to. -/
def fieldsOf (stack : List Open) : Option Nat := stack.head?.bind Open.fields

theorem startBlock_eq {stack : List Open} {nb : Nat} {c : Char} {cs : List Char}
    (hc : Bracket.isCloser c = false) :
    startBlock ⟨.code, stack, nb⟩ (c :: cs) = fieldsOf stack := by
  cases stack with
  | nil => rfl
  | cons top rest => simp [startBlock, startsWithCloser, hc, fieldsOf]

/-- The first character that is neither blank nor closes a bracket fixes the level. -/
theorem Scan.run_first {n : Nat} {stack : List Open} {c : Char} {cs : List Char}
    (hb : Text.isBlank c = false) (hc : Bracket.isCloser c = false) :
    run n ⟨.code, stack, 0, none⟩ (c :: cs) =
      run n ⟨.code, stack, 0, some (level stack)⟩ (c :: cs) := by
  have h1 : note ⟨.code, stack, 0, none⟩ c = ⟨.code, stack, 0, some (level stack)⟩ := by
    simp [note, hb, hc]
  have h2 : note ⟨.code, stack, 0, some (level stack)⟩ c =
      ⟨.code, stack, 0, some (level stack)⟩ := by simp [note]
  rw [run.eq_def, run.eq_def]
  simp only [h1, h2]

theorem layoutLine_of_scan {ps : List Piece} (hl : IsLine ps) {stack : List Open} {nb k : Nat}
    {s : Scan} (hs : ps.foldlM (Piece.scan k) ⟨.code, stack, 0, some (level stack)⟩ = .ok s)
    (hc : s.literal = .code) (hi : s.indent = some (level stack)) :
    layoutLine ⟨.code, stack, nb⟩ k (pieceChars ps) =
      .ok (⟨level stack, pieceChars ps, fieldsOf stack, s.fresh != 0⟩,
        ⟨.code, (settle s (pieceChars ps) nb).1, (settle s (pieceChars ps) nb).2⟩) := by
  obtain ⟨c, cs, hh, hb, hk⟩ := hl.exists_head
  have hkept : keptText .code (pieceChars ps) = pieceChars ps := hl.trim
  have hrun : Scan.run k ⟨.code, stack, 0, none⟩ (pieceChars ps) = .ok s := by
    rw [← hs, ← Scan.run_pieces ⟨rfl, rfl⟩ hl.sound, hh, Scan.run_first hb hk]
  have hstart : startBlock ⟨.code, stack, nb⟩ (pieceChars ps) = fieldsOf stack := by
    rw [hh, startBlock_eq hk]
  unfold layoutLine
  simp only [hkept, hrun, Fallible.ok_bind, hc, hi, hstart]
  rfl

/-- A line that closes all it opens stands at the level around it and changes nothing. -/
theorem layoutLine_flat {ps : List Piece} (hl : IsLine ps) (hf : Flat ps) (stack : List Open)
    (nb k : Nat) :
    layoutLine ⟨.code, stack, nb⟩ k (pieceChars ps) =
      .ok (⟨level stack, pieceChars ps, fieldsOf stack, false⟩, ⟨.code, stack, nb⟩) :=
  layoutLine_of_scan hl (hf k _) rfl rfl

theorem foldl_push (outer : List Bracket) (n : Nat) (s : Scan) :
    outer.foldl (fun s k => s.push k n) s =
      { s with
        stack := (outer.map fun b => Open.mk b n false none).reverse ++ s.stack
        fresh := s.fresh + outer.length } := by
  induction outer generalizing s with
  | nil => rfl
  | cons b outer ih =>
    rw [List.foldl_cons, ih]
    simp only [Scan.push, List.map_cons, List.reverse_cons, List.append_assoc, List.singleton_append,
      List.length_cons, Nat.add_assoc, Nat.add_comm 1]

/-- The brackets that line `k` leaves open: the innermost one gets the level. -/
def opened (k : Nat) (outer : List Bracket) (fields : Option Nat) : List Open :=
  ⟨.brace, k, true, fields⟩ :: (outer.map fun b => Open.mk b k false none).reverse

theorem level_opened (k : Nat) (outer : List Bracket) (fields : Option Nat) (stack : List Open) :
    level (opened k outer fields ++ stack) = level stack + 1 := by
  have h : ((outer.map fun b => Open.mk b k false none).reverse).countP Open.indents = 0 := by
    rw [List.countP_eq_zero]
    intro o ho
    obtain ⟨b, -, rfl⟩ := List.mem_map.1 (List.mem_reverse.1 ho)
    exact Bool.false_ne_true
  rw [level, opened, List.cons_append, List.countP_cons_of_pos rfl, List.countP_append, h, Nat.zero_add]
  rfl

/-- A line that leaves a block open stands at the level around it, and the lines after it
    one level deeper. -/
theorem layoutLine_opening {ps : List Piece} {outer : List Bracket} (hl : IsLine ps)
    (ho : Opens outer ps) (stack : List Open) (nb k : Nat) :
    layoutLine ⟨.code, stack, nb⟩ k (pieceChars ps) =
      .ok (⟨level stack, pieceChars ps, fieldsOf stack, true⟩,
        if opensFields (pieceChars ps) then ⟨.code, opened k outer (some nb) ++ stack, nb + 1⟩
        else ⟨.code, opened k outer none ++ stack, nb⟩) := by
  rw [layoutLine_of_scan hl (ho k _) (by rw [foldl_push]; rfl) (by rw [foldl_push]; rfl), foldl_push]
  cases h : opensFields (pieceChars ps) <;> simp [settle, Scan.push, opened, h]

/-- A line with a closing brace stands at the level around the block that it closes. -/
theorem layoutLine_brace (stack : List Open) (nb k j : Nat) (fields : Option Nat) :
    layoutLine ⟨.code, opened j [] fields ++ stack, nb⟩ k ['}'] =
      .ok (⟨level stack, ['}'], none, false⟩, ⟨.code, stack, nb⟩) := by
  rfl

/-- A line that closes a block and the call around it. -/
theorem layoutLine_call (stack : List Open) (nb k j : Nat) (fields : Option Nat) :
    layoutLine ⟨.code, opened j [.paren] fields ++ stack, nb⟩ k ['}', ')'] =
      .ok (⟨level stack, ['}', ')'], none, false⟩, ⟨.code, stack, nb⟩) := by
  rfl

theorem layoutLine_empty (stack : List Open) (nb k : Nat) :
    layoutLine ⟨.code, stack, nb⟩ k [] = .ok (⟨level stack, [], none, false⟩, ⟨.code, stack, nb⟩) := by
  cases stack <;> rfl

end Go

end ServiceSchema
