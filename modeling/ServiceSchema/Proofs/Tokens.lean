/-
  ServiceSchema.Proofs.Tokens — the tokens that a text can begin with.

  What a token looks like is told by its first character (`Token.Shape`): a letter begins a
  name or a keyword, a digit a number, a quote a string, and other characters an operator. So the
  longest token of a text is known from a few characters of it.

  - `lexeme_word`, `lexeme_operator`, `lexeme_quoted`, `lexeme_raw`: the token that a text begins with.
  - `Reads.of_lexeme`: such a token is the next one that is read.
  - `Reads.exists_token`: what does not begin with a blank or a comment begins with a token.
-/
import ServiceSchema.Go.Token
import ServiceSchema.Proofs.Matches
import ServiceSchema.Text.Blank

namespace ServiceSchema

namespace Text

/-! ## Classes of characters -/

theorem isLetter_iff_of_lt {c : Char} (h : c.toNat < 128) : isLetter c = true ↔
    (65 ≤ c.toNat ∧ c.toNat ≤ 90) ∨ (97 ≤ c.toNat ∧ c.toNat ≤ 122) ∨ c.toNat = 95 := by
  have hline : c = '_' ↔ c.toNat = 95 := ⟨fun hc => hc ▸ rfl, fun hc => Char.toNat_inj.1 hc⟩
  rw [isLetter, if_pos h, Bool.or_eq_true, isAlpha_iff, beq_iff_eq, hline, or_assoc]

theorem isDigit_iff_of_lt {c : Char} (h : c.toNat < 128) :
    isDigit c = true ↔ 48 ≤ c.toNat ∧ c.toNat ≤ 57 := by
  rw [isDigit, if_pos h, isDigit_iff]

/-- A word goes on with letters of ASCII, its digits, an underscore, and what stands above. -/
theorem isWordPart_iff_of_lt {c : Char} (h : c.toNat < 128) : isWordPart c = true ↔
    (48 ≤ c.toNat ∧ c.toNat ≤ 57) ∨ (65 ≤ c.toNat ∧ c.toNat ≤ 90) ∨
      (97 ≤ c.toNat ∧ c.toNat ≤ 122) ∨ c.toNat = 95 := by
  rw [isWordPart, Bool.or_eq_true, isLetter_iff_of_lt h, isDigit_iff_of_lt h]
  omega

theorem isWordPart_of_isLetter {c : Char} (h : isLetter c = true) : isWordPart c = true := by
  rw [isWordPart, h, Bool.true_or]

end Text

namespace Go

open Text

/-! ## Patterns -/

namespace Pattern

open Ebnf

variable {P : Char → Prop} {p : Pattern} {cs : List Char}

/-- All characters of the pattern are of a kind. -/
def Over (P : Char → Prop) : Pattern → Prop
  | .term f => ∀ c, f c = true → P c
  | .rule r => r.elim
  | .seq x y | .alt x y => Over P x ∧ Over P y
  | .opt x | .many x => Over P x

theorem Over.forall_mem (hp : Over P p) (h : p.Fits cs) : ∀ c ∈ cs, P c := by
  unfold Fits at h
  induction h with
  | term hc => exact List.forall_mem_singleton.2 (hp _ hc)
  | @rule r => exact r.elim
  | seq _ _ ihx ihy => exact List.forall_mem_append.2 ⟨ihx hp.1, ihy hp.2⟩
  | left _ ih => exact ih hp.1
  | right _ ih => exact ih hp.2
  | without | done => exact List.forall_mem_nil _
  | within _ ih => exact ih hp
  | more _ _ ihx ihy => exact List.forall_mem_append.2 ⟨ihx hp, ihy hp⟩

/-- All characters that the pattern begins with are of a kind. -/
def Starts (P : Char → Prop) : Pattern → Prop
  | .term f => ∀ c, f c = true → P c
  | .rule r => r.elim
  | .seq x y => Starts P x ∧ (isFull x = true ∨ Starts P y)
  | .alt x y => Starts P x ∧ Starts P y
  | .opt x | .many x => Starts P x

theorem Starts.cases (hp : Starts P p) (h : p.Fits cs) : cs = [] ∨ ∃ c rest, cs = c :: rest ∧ P c := by
  unfold Fits at h
  induction h with
  | @term f c hc => exact Or.inr ⟨c, [], rfl, hp c hc⟩
  | @rule r => exact r.elim
  | @seq x y u v hx _ ihx ihy =>
    rcases ihx hp.1 with rfl | ⟨c, rest, rfl, hc⟩
    · exact ihy (hp.2.resolve_left fun hfull => ne_nil_of_isFull hx hfull rfl)
    · exact Or.inr ⟨c, rest ++ v, rfl, hc⟩
  | left _ ih => exact ih hp.1
  | right _ ih => exact ih hp.2
  | without | done => exact Or.inl rfl
  | within _ ih => exact ih hp
  | @more x u v _ _ ihx ihy =>
    rcases ihx hp with rfl | ⟨c, rest, rfl, hc⟩
    · exact ihy hp
    · exact Or.inr ⟨c, rest ++ v, rfl, hc⟩

/-- What a pattern that is not empty begins with. -/
theorem Starts.exists_cons (hp : Starts P p) (hfull : isFull p = true) (h : p.Fits cs) :
    ∃ c rest, cs = c :: rest ∧ P c :=
  (hp.cases h).resolve_left (ne_nil_of_isFull h hfull)

theorem over_char {c : Char} (h : P c) : Over P (char c) := by
  intro d hd
  rw [beq_iff_eq] at hd
  exact hd ▸ h

theorem over_either {c d : Char} (hc : P c) (hd : P d) : Over P (either c d) :=
  ⟨over_char hc, over_char hd⟩

theorem over_range {first last : Char}
    (h : ∀ c : Char, first.toNat ≤ c.toNat → c.toNat ≤ last.toNat → P c) : Over P (range first last) := by
  intro c hc
  rw [Bool.and_eq_true, decide_eq_true_eq, decide_eq_true_eq] at hc
  exact h c hc.1 hc.2

/-- A character that numbers are written with. -/
def NumberPart (c : Char) : Prop :=
  (48 ≤ c.toNat ∧ c.toNat ≤ 57) ∨ (65 ≤ c.toNat ∧ c.toNat ≤ 90) ∨ (97 ≤ c.toNat ∧ c.toNat ≤ 122) ∨
    c.toNat = 95 ∨ c.toNat = 46 ∨ c.toNat = 43 ∨ c.toNat = 45

theorem over_decimalDigit : Over NumberPart decimalDigit :=
  over_range fun _ h h' => Or.inl ⟨h, h'⟩

theorem over_hexDigit : Over NumberPart hexDigit := by
  refine ⟨⟨over_decimalDigit, over_range fun c h h' => ?_⟩, over_range fun c h h' => ?_⟩
  · exact Or.inr (Or.inl ⟨h, Nat.le_trans h' (by decide)⟩)
  · exact Or.inr (Or.inr (Or.inl ⟨h, Nat.le_trans h' (by decide)⟩))

theorem over_octalDigit : Over NumberPart octalDigit :=
  over_range fun _ h h' => Or.inl ⟨h, Nat.le_trans h' (by decide)⟩

instance (c : Char) : Decidable (NumberPart c) := by
  unfold NumberPart
  infer_instance

theorem over_digits {digit : Pattern} (h : Over NumberPart digit) : Over NumberPart (digits digit) :=
  ⟨h, over_char (by decide), h⟩

theorem over_exponent {c d : Char} (hc : NumberPart c) (hd : NumberPart d) :
    Over NumberPart (exponent c d) :=
  ⟨⟨over_either hc hd, over_either (by decide) (by decide)⟩, over_digits over_decimalDigit⟩

theorem over_intLit : Over NumberPart intLit := by
  have hmark : ∀ {c : Char}, NumberPart c → Over NumberPart (char c) := over_char
  refine ⟨⟨⟨⟨hmark (by decide), ?_, hmark (by decide), over_digits over_decimalDigit⟩, ?_⟩, ?_⟩, ?_⟩
  · exact over_range fun c h h' => Or.inl ⟨Nat.le_trans (by decide) h, h'⟩
  · exact ⟨⟨⟨hmark (by decide), over_either (by decide) (by decide)⟩, hmark (by decide)⟩,
      over_digits (over_either (by decide) (by decide))⟩
  · exact ⟨⟨⟨hmark (by decide), over_either (by decide) (by decide)⟩, hmark (by decide)⟩,
      over_digits over_octalDigit⟩
  · exact ⟨⟨⟨hmark (by decide), over_either (by decide) (by decide)⟩, hmark (by decide)⟩,
      over_digits over_hexDigit⟩

theorem over_floatLit : Over NumberPart floatLit := by
  have hdot : Over NumberPart (char '.') := over_char (by decide)
  have hdecimal := over_digits over_decimalDigit
  have hexponent : Over NumberPart (exponent 'e' 'E') := over_exponent (by decide) (by decide)
  have hhex : Over NumberPart (char '0' ++ either 'x' 'X') :=
    ⟨over_char (by decide), over_either (by decide) (by decide)⟩
  have hline : Over NumberPart (char '_') := over_char (by decide)
  have hmantissa : Over NumberPart hexMantissa :=
    ⟨⟨⟨⟨⟨hline, over_digits over_hexDigit⟩, hdot⟩, over_digits over_hexDigit⟩,
      hline, over_digits over_hexDigit⟩, hdot, over_digits over_hexDigit⟩
  exact ⟨⟨⟨⟨⟨⟨hdecimal, hdot⟩, hdecimal⟩, hexponent⟩, hdecimal, hexponent⟩,
    ⟨hdot, hdecimal⟩, hexponent⟩, ⟨hhex, hmantissa⟩, over_exponent (by decide) (by decide)⟩

theorem over_imaginaryLit : Over NumberPart imaginaryLit :=
  ⟨⟨⟨over_digits over_decimalDigit, over_intLit⟩, over_floatLit⟩, over_char (by decide)⟩

/-- A digit of ASCII. -/
def Digit (c : Char) : Prop := 48 ≤ c.toNat ∧ c.toNat ≤ 57

instance (c : Char) : Decidable (Digit c) := inferInstanceAs (Decidable (_ ∧ _))

theorem starts_char {c : Char} (h : P c) : Starts P (char c) := over_char h

theorem starts_range {first last : Char}
    (h : ∀ c : Char, first.toNat ≤ c.toNat → c.toNat ≤ last.toNat → P c) : Starts P (range first last) :=
  over_range h

theorem starts_digits : Starts Digit (digits decimalDigit) :=
  ⟨starts_range fun _ h h' => ⟨h, h'⟩, Or.inl rfl⟩

theorem starts_intLit : Starts Digit intLit := by
  have hzero : Starts Digit (char '0') := starts_char (by decide)
  refine ⟨⟨⟨⟨hzero, starts_range (fun c h h' => ?_), Or.inl rfl⟩, ?_⟩, ?_⟩, ?_⟩
  · exact ⟨Nat.le_trans (by decide) h, h'⟩
  · exact ⟨⟨⟨hzero, Or.inl rfl⟩, Or.inl rfl⟩, Or.inl rfl⟩
  · exact ⟨⟨⟨hzero, Or.inl rfl⟩, Or.inl rfl⟩, Or.inl rfl⟩
  · exact ⟨⟨⟨hzero, Or.inl rfl⟩, Or.inl rfl⟩, Or.inl rfl⟩

/-- A number with a fraction begins with a digit, or with a dot and a digit. -/
theorem floatLit_cases (h : floatLit.Fits cs) :
    ∃ c rest, cs = c :: rest ∧ (Digit c ∨ c = '.' ∧ ∃ d rest', rest = d :: rest' ∧ Digit d) := by
  have hdigits : ∀ {x : Pattern}, x.Fits cs → Starts Digit x → isFull x = true →
      ∃ c rest, cs = c :: rest ∧ (Digit c ∨ c = '.' ∧ ∃ d rest', rest = d :: rest' ∧ Digit d) := by
    intro x hfits hx hfull
    obtain ⟨c, rest, hcs, hc⟩ := hx.exists_cons hfull hfits
    exact ⟨c, rest, hcs, Or.inl hc⟩
  rcases matches_alt.1 h with h | h
  · rcases matches_alt.1 h with h | h
    · rcases matches_alt.1 h with h | h
      · exact hdigits h ⟨⟨⟨starts_digits, Or.inl rfl⟩, Or.inl rfl⟩, Or.inl rfl⟩ rfl
      · exact hdigits h ⟨starts_digits, Or.inl rfl⟩ rfl
    · obtain ⟨u, v, rfl, hu, -⟩ := matches_seq.1 h
      obtain ⟨u, u', rfl, hdot, hfraction⟩ := matches_seq.1 hu
      obtain ⟨c, rfl, hc⟩ := matches_term.1 hdot
      obtain ⟨d, rest, rfl, hd⟩ := starts_digits.exists_cons rfl hfraction
      rw [beq_iff_eq] at hc
      exact ⟨c, d :: rest ++ v, rfl, Or.inr ⟨hc, d, rest ++ v, rfl, hd⟩⟩
  · exact hdigits h ⟨⟨⟨starts_char (by decide), Or.inl rfl⟩, Or.inl rfl⟩, Or.inl rfl⟩ rfl

/-- A string in double quotes ends at the first one that is not written behind a backslash. -/
theorem length_le_of_quotables {q : Char} (hq : q ≠ '\\') {w body rest : List Char}
    (h : Fits (.many (quotable q)) w) (hbody : ∀ c ∈ body, c ≠ q ∧ c ≠ '\\')
    (hpre : w <+: body ++ q :: rest) : w.length ≤ body.length := by
  unfold Fits at h
  generalize hx : Ebnf.many (quotable q) = x at h
  induction h generalizing body with
  | term | rule | seq | left | right | without | within => cases hx
  | done => exact Nat.zero_le _
  | @more x u v hu hv _ ih =>
    cases hx
    -- what stands for one character is that character or begins with a backslash
    have hhead : ∃ c u', u = c :: u' ∧ (c = '\\' ∨ c ≠ q ∧ u' = []) := by
      rcases matches_alt.1 hu with h | h
      · obtain ⟨c, rfl, hc⟩ := matches_term.1 h
        simp only [Bool.and_eq_true, bne_iff_ne, ne_eq] at hc
        exact ⟨c, [], rfl, Or.inr ⟨hc.1.2, rfl⟩⟩
      · obtain ⟨u, u', rfl, hslash, -⟩ := matches_seq.1 h
        obtain ⟨c, rfl, hc⟩ := matches_term.1 hslash
        exact ⟨c, u', rfl, Or.inl (by simpa using hc)⟩
    obtain ⟨c, u', rfl, hc⟩ := hhead
    cases body with
    | nil =>
      have hcq : c = q := (List.cons_prefix_cons.1 hpre).1
      rcases hc with rfl | ⟨hne, -⟩
      · exact absurd hcq.symm hq
      · exact absurd hcq hne
    | cons b body =>
      rw [List.forall_mem_cons] at hbody
      obtain ⟨rfl, htail⟩ := List.cons_prefix_cons.1 hpre
      rcases hc with rfl | ⟨-, rfl⟩
      · exact absurd rfl hbody.1.2
      · exact Nat.succ_le_succ (ih hbody.2 htail rfl)

theorem fits_quotables {q : Char} {body : List Char}
    (h : ∀ c ∈ body, isSource c = true ∧ c ≠ '\n' ∧ c ≠ q ∧ c ≠ '\\') :
    Fits (.many (quotable q)) body := by
  induction body with
  | nil => exact .done
  | cons c body ih =>
    rw [List.forall_mem_cons] at h
    have hc : (isSource c && c != '\n' && c != q && c != '\\') = true := by simp [h.1]
    exact .more (u := [c]) (.left (.term hc)) (ih h.2)

/-- A string in back quotes ends at the next one. -/
theorem forall_ne_of_rawBody {w : List Char}
    (h : Fits (.many (.term fun c => isSource c && c != '`')) w) : '`' ∉ w := by
  have hover : Over (· ≠ '`') (Ebnf.many (Ebnf.term fun c => isSource c && c != '`')) := by
    intro c hc
    rw [Bool.and_eq_true, bne_iff_ne] at hc
    exact hc.2
  exact fun hmem => hover.forall_mem h '`' hmem rfl

theorem fits_rawBody {body : List Char} (h : ∀ c ∈ body, isSource c = true ∧ c ≠ '`') :
    Fits (.many (.term fun c => isSource c && c != '`')) body := by
  induction body with
  | nil => exact .done
  | cons c body ih =>
    rw [List.forall_mem_cons] at h
    have hc : (isSource c && c != '`') = true := by simp [h.1]
    exact .more (u := [c]) (.term hc) (ih h.2)

end Pattern

/-! ## Shapes of tokens -/

open Pattern

def Token.isNumber : Token → Bool
  | int | float | imaginary => true
  | _ => false

/-- What tokens look like, told by their first character. -/
inductive Token.Shape : Token → List Char → Prop
  | ident {c : Char} {cs : List Char} : isLetter c = true → (∀ d ∈ cs, isWordPart d = true) →
      (∀ k : Keyword, c :: cs ≠ k.text.toList) → Shape .ident (c :: cs)
  | keyword (k : Keyword) {c : Char} {cs : List Char} : c :: cs = k.text.toList → isLetter c = true →
      (∀ d ∈ cs, isWordPart d = true) → Shape (.keyword k) (c :: cs)
  | number {t : Token} {c : Char} {cs : List Char} : t.isNumber = true →
      (Digit c ∨ c = '.' ∧ ∃ d rest, cs = d :: rest ∧ Digit d) → (∀ d ∈ c :: cs, NumberPart d) →
      Shape t (c :: cs)
  | rune (cs : List Char) : Shape .rune ('\'' :: cs)
  | raw {body : List Char} : '`' ∉ body → Shape .string ('`' :: (body ++ ['`']))
  | quoted {body : List Char} : Fits (.many (quotable '"')) body →
      Shape .string ('"' :: (body ++ ['"']))
  | operator (m : Operator) {c : Char} {cs : List Char} : c :: cs = m.text.toList →
      Shape (.operator m) (c :: cs)

theorem Keyword.exists_cons (k : Keyword) :
    ∃ c cs, c :: cs = k.text.toList ∧ isLetter c = true ∧ ∀ d ∈ cs, isWordPart d = true := by
  have hall : k.text.toList.head?.any isLetter && k.text.toList.all isWordPart := by
    cases k <;> decide
  cases hk : k.text.toList with
  | nil =>
    rw [hk] at hall
    cases hall
  | cons c cs =>
    rw [hk, Bool.and_eq_true, List.all_cons, Bool.and_eq_true, List.all_eq_true] at hall
    exact ⟨c, cs, rfl, hall.1, hall.2.2⟩

theorem Operator.exists_cons (m : Operator) : ∃ c cs, c :: cs = m.text.toList := by
  have hne : m.text.toList ≠ [] := by cases m <;> decide
  obtain ⟨c, cs, h⟩ := List.exists_cons_of_ne_nil hne
  exact ⟨c, cs, h.symm⟩

/-- The characters that operators begin with. -/
def Operator.starts : List Char := [
  '+', '-', '*', '/', '%', '&', '|', '^', '<', '>', '=', '!', '~', ':', '.', '(', '[', '{', ')', ']',
  '}', ',', ';']

theorem Operator.mem_starts {m : Operator} {c : Char} {cs : List Char} (h : c :: cs = m.text.toList) :
    c ∈ starts := by
  have hall : ∀ m : Operator, m.text.toList.head?.any starts.contains := by
    intro m
    cases m <;> decide
  have hm := hall m
  rw [← h] at hm
  simpa using hm

/-- A word between two quotes. -/
theorem exists_of_quotes {q : Char} {p : Pattern} {cs : List Char}
    (h : Fits (char q ++ p ++ char q) cs) : ∃ body, p.Fits body ∧ cs = q :: (body ++ [q]) := by
  obtain ⟨u, v, rfl, hu, hv⟩ := Ebnf.matches_seq.1 h
  obtain ⟨u, body, rfl, hq, hbody⟩ := Ebnf.matches_seq.1 hu
  obtain ⟨c, rfl, hc⟩ := Ebnf.matches_term.1 hq
  obtain ⟨d, rfl, hd⟩ := Ebnf.matches_term.1 hv
  rw [beq_iff_eq] at hc hd
  exact ⟨body, hbody, by rw [hc, hd]; rfl⟩

theorem Token.Spells.shape {t : Token} {cs : List Char} (h : t.Spells cs) : t.Shape cs := by
  have hnumber : ∀ {t : Token} {p : Pattern}, t.isNumber = true → Over NumberPart p → p.Fits cs →
      (∃ c rest, cs = c :: rest ∧ (Digit c ∨ c = '.' ∧ ∃ d rest', rest = d :: rest' ∧ Digit d)) →
      t.Shape cs := by
    rintro t p ht hp hfits ⟨c, rest, rfl, hc⟩
    exact .number ht hc (hp.forall_mem hfits)
  cases t with
  | ident =>
    obtain ⟨hid, hk⟩ := h
    cases cs with
    | nil => cases hid
    | cons c cs =>
      rw [isIdentifier, Bool.and_eq_true, List.all_eq_true] at hid
      exact .ident hid.1 hid.2 hk
  | int =>
    obtain ⟨c, rest, rfl, hc⟩ := starts_intLit.exists_cons rfl h
    exact hnumber rfl over_intLit h ⟨c, rest, rfl, Or.inl hc⟩
  | float => exact hnumber rfl over_floatLit h (floatLit_cases h)
  | imaginary =>
    refine hnumber rfl over_imaginaryLit h ?_
    obtain ⟨u, v, rfl, hu, -⟩ := Ebnf.matches_seq.1 h
    rcases Ebnf.matches_alt.1 hu with hu | hu
    · rcases Ebnf.matches_alt.1 hu with hu | hu
      · obtain ⟨c, rest, rfl, hc⟩ := starts_digits.exists_cons rfl hu
        exact ⟨c, rest ++ v, rfl, Or.inl hc⟩
      · obtain ⟨c, rest, rfl, hc⟩ := starts_intLit.exists_cons rfl hu
        exact ⟨c, rest ++ v, rfl, Or.inl hc⟩
    · obtain ⟨c, rest, rfl, hc | ⟨hdot, d, rest', rfl, hd⟩⟩ := floatLit_cases hu
      · exact ⟨c, rest ++ v, rfl, Or.inl hc⟩
      · exact ⟨c, d :: rest' ++ v, rfl, Or.inr ⟨hdot, d, rest' ++ v, rfl, hd⟩⟩
  | rune =>
    obtain ⟨body, -, rfl⟩ := exists_of_quotes h
    exact .rune _
  | string =>
    rcases Ebnf.matches_alt.1 h with h | h
    · obtain ⟨body, hbody, rfl⟩ := exists_of_quotes h
      exact .raw (forall_ne_of_rawBody hbody)
    · obtain ⟨body, hbody, rfl⟩ := exists_of_quotes h
      exact .quoted hbody
  | keyword k =>
    obtain ⟨c, rest, hk, hc, hrest⟩ := k.exists_cons
    rw [Token.Spells, ← hk] at h
    exact h ▸ .keyword k hk hc hrest
  | operator m =>
    obtain ⟨c, rest, hm⟩ := m.exists_cons
    rw [Token.Spells, ← hm] at h
    exact h ▸ .operator m hm

/-! ## The longest token -/

/-- A token is not empty. -/
theorem Token.Shape.exists_cons {t : Token} {cs : List Char} (h : t.Shape cs) : ∃ c rest, cs = c :: rest := by
  cases h <;> exact ⟨_, _, rfl⟩

/-- A letter begins a name or a keyword. -/
theorem Token.Shape.word {t : Token} {c : Char} {cs : List Char} (h : t.Shape (c :: cs))
    (hc : isLetter c = true) : (∀ d ∈ cs, isWordPart d = true) ∧ (t = .ident ∨ ∃ k, t = .keyword k) := by
  cases h with
  | ident _ hcs => exact ⟨hcs, Or.inl rfl⟩
  | keyword k _ _ hcs => exact ⟨hcs, Or.inr ⟨k, rfl⟩⟩
  | number _ hnumber =>
    rcases hnumber with hdigit | ⟨rfl, -⟩
    · rw [isLetter_iff_of_lt (Nat.lt_of_le_of_lt hdigit.2 (by decide))] at hc
      have hrange : 48 ≤ c.toNat ∧ c.toNat ≤ 57 := hdigit
      omega
    · exact absurd hc (by decide)
  | rune | raw | quoted => exact absurd hc (by decide)
  | operator m hm =>
    have hstarts : ∀ c ∈ Operator.starts, isLetter c = false := by decide
    rw [hstarts c (Operator.mem_starts hm)] at hc
    cases hc

/-- A quote begins a string or a rune. -/
theorem Token.Shape.quote {t : Token} {q : Char} {cs : List Char} (hq : q ∈ ['"', '`', '\''])
    (h : t.Shape (q :: cs)) : t = if q = '\'' then .rune else .string := by
  have hletter : ∀ q ∈ ['"', '`', '\''], isLetter q = false := by decide
  have hdigit : ∀ q ∈ ['"', '`', '\''], ¬ Digit q ∧ q ≠ '.' := by decide
  have hquotes : ∀ q ∈ ['"', '`', '\''], q ∉ Operator.starts := by decide
  cases h with
  | ident hc | keyword _ _ hc =>
    rw [hletter q hq] at hc
    cases hc
  | number _ hc =>
    rcases hc with hc | ⟨hc, -⟩
    · exact absurd hc (hdigit q hq).1
    · exact absurd hc (hdigit q hq).2
  | rune | raw | quoted => rfl
  | operator m hm => exact absurd (Operator.mem_starts hm) (hquotes q hq)

/-- What is made of some characters ends where another character comes. -/
theorem length_le_of_beginning {p : Char → Bool} {u cs rest : List Char} (hpre : u <+: cs ++ rest)
    (hu : ∀ d ∈ u, p d = true) (hstop : ∀ d, rest.head? = some d → p d = false) :
    u.length ≤ cs.length := by
  rw [← Nat.not_lt]
  intro hlt
  obtain ⟨v, rfl⟩ := List.prefix_of_prefix_length_le (List.prefix_append cs rest) hpre (Nat.le_of_lt hlt)
  rw [List.prefix_append_right_inj] at hpre
  cases v with
  | nil => simp at hlt
  | cons d v =>
    obtain ⟨rest, rfl⟩ : ∃ rest', rest = d :: rest' := by
      obtain ⟨w, rfl⟩ := hpre
      exact ⟨v ++ w, rfl⟩
    have hd := hu d (by simp)
    rw [hstop d rfl] at hd
    cases hd

/-- A word is the longest token if it does not go on. -/
theorem lexeme_word {t : Token} {c : Char} {cs rest : List Char} (ht : t.Spells (c :: cs))
    (hc : isLetter c = true) (hstop : ∀ d, rest.head? = some d → isWordPart d = false) :
    Lexeme t (c :: cs) rest := by
  refine ⟨ht, fun t' text' ht' hpre => ?_⟩
  have hshape := ht'.shape
  obtain ⟨d, u, rfl⟩ := hshape.exists_cons
  rw [List.cons_append] at hpre
  obtain ⟨rfl, htail⟩ := List.cons_prefix_cons.1 hpre
  exact Nat.succ_le_succ (length_le_of_beginning htail (hshape.word hc).1 hstop)

namespace Operator

def all : List Operator := [
  plus, minus, star, slash, percent, amp, bar, caret, shl, shr, ampCaret, plusEq, minusEq, starEq,
  slashEq, percentEq, ampEq, barEq, caretEq, shlEq, shrEq, ampCaretEq, andAnd, orOr, arrow, inc,
  dec, eq, lt, gt, assign, bang, tilde, ne, le, ge, define, ellipsis, lparen, lbrack, lbrace,
  rparen, rbrack, rbrace, comma, semicolon, dot, colon]

theorem mem_all (m : Operator) : m ∈ all := by
  cases m <;> decide

/-- The characters behind the operator that begin a longer one with it. -/
def extensions (m : Operator) : List Char :=
  all.filterMap fun m' =>
    if m.text.toList.isPrefixOf m'.text.toList then (m'.text.toList.drop m.text.toList.length).head?
    else none

/-- A character behind the operator may make a longer one of it, or a number. -/
def goesOn (m : Operator) (c : Char) : Bool := m.extensions.contains c || (m == .dot && c.isDigit)

/-- The first character tells operators from other tokens, but for a dot. -/
theorem shape_cases {m : Operator} {t : Token} {c : Char} {cs cs' : List Char} (hm : c :: cs = m.text.toList)
    (h : t.Shape (c :: cs')) :
    (∃ m', t = .operator m' ∧ c :: cs' = m'.text.toList) ∨
      (c = '.' ∧ ∃ d rest, cs' = d :: rest ∧ d.isDigit = true) := by
  have hstarts : ∀ c ∈ starts, isLetter c = false ∧ c.isDigit = false ∧ c ≠ '\'' ∧ c ≠ '"' ∧ c ≠ '`' := by
    decide
  obtain ⟨hletter, hdigit, hrune, hquote, hraw⟩ := hstarts c (mem_starts hm)
  cases h with
  | ident hc => rw [hletter] at hc; cases hc
  | keyword k _ hc => rw [hletter] at hc; cases hc
  | number _ hc _ =>
    rcases hc with hc | ⟨rfl, d, rest, rfl, hd⟩
    · rw [isDigit_iff.2 hc] at hdigit
      cases hdigit
    · exact Or.inr ⟨rfl, d, rest, rfl, isDigit_iff.2 hd⟩
  | rune => exact absurd rfl hrune
  | raw => exact absurd rfl hraw
  | quoted => exact absurd rfl hquote
  | operator m' hm' => exact Or.inl ⟨m', rfl, hm'⟩

end Operator

/-- An operator is the longest token if it does not go on. -/
theorem lexeme_operator (m : Operator) {rest : List Char}
    (hstop : ∀ d, rest.head? = some d → m.goesOn d = false) :
    Lexeme (.operator m) m.text.toList rest := by
  refine ⟨rfl, fun t' text' ht' hpre => ?_⟩
  have hshape := ht'.shape
  obtain ⟨d, u, rfl⟩ := hshape.exists_cons
  obtain ⟨c, cs, hm⟩ := m.exists_cons
  rw [← hm, List.cons_append] at hpre
  rw [← hm]
  obtain ⟨rfl, htail⟩ := List.cons_prefix_cons.1 hpre
  rw [← Nat.not_lt]
  intro hlt
  rw [List.length_cons, List.length_cons, Nat.succ_lt_succ_iff] at hlt
  -- the next character belongs to the longer token
  obtain ⟨v, rfl⟩ := List.prefix_of_prefix_length_le (List.prefix_append cs rest) htail (Nat.le_of_lt hlt)
  rw [List.prefix_append_right_inj] at htail
  cases v with
  | nil => simp at hlt
  | cons e v =>
    obtain ⟨w, rfl⟩ := htail
    have hnone := hstop e rfl
    rw [Operator.goesOn, Bool.or_eq_false_iff, ← Bool.not_eq_true, List.contains_iff_mem] at hnone
    rcases Operator.shape_cases hm hshape with ⟨m', -, hm'⟩ | ⟨rfl, x, rest, hx, hdigit⟩
    · refine hnone.1 (List.mem_filterMap.2 ⟨m', m'.mem_all, ?_⟩)
      rw [← hm', ← hm, ← List.cons_append, if_pos (List.isPrefixOf_iff_prefix.2 (List.prefix_append _ _)),
        List.drop_left]
      rfl
    · have hdot : ∀ m : Operator, m.text.toList.head? = some '.' → m = .dot ∨ m = .ellipsis := by
        intro m
        cases m <;> decide
      rcases hdot m (by rw [← hm]; rfl) with rfl | rfl
      · have hcs : cs = [] := (List.cons.inj hm).2
        subst hcs
        rw [List.nil_append] at hx
        cases hx
        simp [hdigit] at hnone
      · have hcs : cs = ['.', '.'] := (List.cons.inj hm).2
        subst hcs
        cases hx
        exact absurd hdigit (by decide)

/-- A string in double quotes without backslashes. -/
theorem lexeme_quoted {body : List Char}
    (h : ∀ c ∈ body, isSource c = true ∧ c ≠ '\n' ∧ c ≠ '"' ∧ c ≠ '\\') (rest : List Char) :
    Lexeme .string ('"' :: (body ++ ['"'])) rest := by
  have hquote : Fits (char '"') ['"'] := .term rfl
  refine ⟨.right (.seq (.seq hquote (fits_quotables h)) hquote), fun t' text' ht' hpre => ?_⟩
  have hshape := ht'.shape
  obtain ⟨c, u, rfl⟩ := hshape.exists_cons
  rw [List.cons_append, List.append_assoc, List.singleton_append] at hpre
  obtain ⟨rfl, htail⟩ := List.cons_prefix_cons.1 hpre
  obtain rfl := hshape.quote (by simp)
  cases hshape with
  | number ht => cases ht
  | @quoted w hw =>
    have hle := length_le_of_quotables (by decide) hw (fun c hc => (h c hc).2.2)
      ((List.prefix_append w ['"']).trans htail)
    simpa using hle

theorem lexeme_raw {body : List Char} (h : ∀ c ∈ body, isSource c = true ∧ c ≠ '`') (rest : List Char) :
    Lexeme .string ('`' :: (body ++ ['`'])) rest := by
  have hquote : Fits (char '`') ['`'] := .term rfl
  refine ⟨.left (.seq (.seq hquote (fits_rawBody h)) hquote), fun t' text' ht' hpre => ?_⟩
  have hshape := ht'.shape
  obtain ⟨c, u, rfl⟩ := hshape.exists_cons
  rw [List.cons_append, List.append_assoc, List.singleton_append] at hpre
  obtain ⟨rfl, htail⟩ := List.cons_prefix_cons.1 hpre
  obtain rfl := hshape.quote (by simp)
  cases hshape with
  | number ht => cases ht
  | @raw w hw =>
    -- a longer one would have the closing quote of this one inside
    have hstop : ∀ d, ('`' :: rest).head? = some d → (d != '`') = false := by
      intro d hd
      cases hd
      rfl
    have hparts : ∀ d ∈ w, (d != '`') = true := by
      intro d hd
      exact bne_iff_ne.2 fun heq => hw (heq ▸ hd)
    have hle := length_le_of_beginning ((List.prefix_append w ['`']).trans htail) hparts hstop
    simpa using hle

/-! ## Reading -/

def Keyword.all : List Keyword := [
  break_, case, chan, const, continue_, default, defer, else_, fallthrough, for_, func, go, goto, if_,
  import_, interface, map, package, range, return_, select, struct, switch, type, var]

theorem Keyword.mem_all (k : Keyword) : k ∈ all := by
  cases k <;> decide

theorem Keyword.eq_of_text {k k' : Keyword} (h : k.text.toList = k'.text.toList) : k = k' := by
  have hfind : ∀ k : Keyword, all.find? (fun x => x.text.toList == k.text.toList) = some k := by
    intro k
    cases k <;> decide
  have hk := hfind k
  rw [h, hfind k'] at hk
  exact (Option.some.inj hk).symm

theorem Operator.eq_of_text {m m' : Operator} (h : m.text.toList = m'.text.toList) : m = m' := by
  have hfind : ∀ m : Operator, all.find? (fun x => x.text.toList == m.text.toList) = some m := by
    intro m
    cases m <;> decide
  have hm := hfind m
  rw [h, hfind m'] at hm
  exact (Option.some.inj hm).symm

/-- But for numbers, a text is at most one token. -/
theorem Token.eq_of_spells {t t' : Token} {cs : List Char} (h : t.Spells cs) (h' : t'.Spells cs)
    (hn : t.isNumber = false) : t' = t := by
  have hshape' := h'.shape
  cases hs : h.shape with
  | ident hc _ hk =>
    rcases (hshape'.word hc).2 with rfl | ⟨k, rfl⟩
    · rfl
    · exact absurd h' (hk k)
  | keyword k hk hc =>
    rcases (hshape'.word hc).2 with rfl | ⟨k', rfl⟩
    · exact absurd hk (h'.2 k)
    · have hk' : _ = k'.text.toList := h'
      rw [Keyword.eq_of_text (hk'.symm.trans hk)]
  | number ht => rw [ht] at hn; cases hn
  | operator m hm =>
    rcases Operator.shape_cases hm hshape' with ⟨m', rfl, hm'⟩ | ⟨rfl, d, rest, rfl, hd⟩
    · rw [Operator.eq_of_text (hm'.symm.trans hm)]
    · have hsecond : ∀ m : Operator, (m.text.toList.drop 1).head?.all fun c => !c.isDigit := by
        intro m
        cases m <;> decide
      have hnone := hsecond m
      rw [← hm] at hnone
      simp [hd] at hnone
  | rune | raw | quoted => exact hshape'.quote (by simp)

theorem Lexeme.eq {t t' : Token} {text text' rest rest' : List Char} (h : Lexeme t text rest)
    (h' : Lexeme t' text' rest') (heq : text ++ rest = text' ++ rest') : text' = text ∧ rest' = rest := by
  have hle := h.longest t' text' h'.spells (heq ▸ List.prefix_append text' rest')
  have hle' := h'.longest t text h.spells (heq ▸ List.prefix_append text rest)
  obtain ⟨htext, hrest⟩ := List.append_inj heq (Nat.le_antisymm hle' hle)
  exact ⟨htext.symm, hrest.symm⟩

namespace Reads

variable {ends : Bool} {c : Char} {text rest : List Char} {ts : List Token}

/-- What begins neither with a blank nor with a slash begins with a token. -/
theorem exists_token (hc : c ∉ [' ', '\t', '\r', '\n', '/']) (h : Reads ends (c :: rest) ts) :
    ∃ t u rest' ts', rest = u ++ rest' ∧ ts = t :: ts' ∧ Lexeme t (c :: u) rest' ∧
      Reads t.endsLine rest' ts' := by
  simp only [List.mem_cons, List.not_mem_nil, or_false, not_or] at hc
  generalize hcs : c :: rest = cs at h
  cases h with
  | finished => cases hcs
  | blank hblank =>
    obtain ⟨rfl, -⟩ := List.cons.inj hcs
    rcases hblank with h | h | h
    · exact absurd h hc.1
    · exact absurd h hc.2.1
    · exact absurd h hc.2.2.1
  | newline => exact absurd (List.cons.inj hcs).1 hc.2.2.2.1
  | lineComment => exact absurd (List.cons.inj hcs).1 hc.2.2.2.2
  | generalComment => exact absurd (List.cons.inj hcs).1 hc.2.2.2.2
  | @token _ t text rest' ts' _ hl hrest =>
    obtain ⟨d, u, rfl⟩ := hl.spells.shape.exists_cons
    obtain ⟨rfl, rfl⟩ := List.cons.inj hcs
    exact ⟨t, u, rest', ts', rfl, rfl, hl, hrest⟩

/-- The longest token is read next. -/
theorem of_lexeme {t : Token} (hc : c ∉ [' ', '\t', '\r', '\n', '/']) (hn : t.isNumber = false)
    (hl : Lexeme t (c :: text) rest) (h : Reads ends (c :: (text ++ rest)) ts) :
    ∃ ts', ts = t :: ts' ∧ Reads t.endsLine rest ts' := by
  obtain ⟨t', u, rest', ts', hu, rfl, hl', hrest⟩ := h.exists_token hc
  obtain ⟨htext, rfl⟩ := hl.eq hl' (congrArg (c :: ·) hu)
  rw [htext] at hl'
  obtain rfl := Token.eq_of_spells hl.spells hl'.spells hn
  exact ⟨ts', rfl, hrest⟩

end Reads

/-! ## Blanks -/

/-- The code points of white space. -/
def blankCodes : List Nat := List.range' 0x9 5 ++ [0x20, 0x85, 0xA0, 0x1680] ++ List.range' 0x2000 11 ++
  [0x2028, 0x2029, 0x202F, 0x205F, 0x3000]

theorem mem_blankCodes {c : Char} (h : isBlank c = true) : c.toNat ∈ blankCodes := by
  simp only [isBlank, Bool.or_eq_true, Bool.and_eq_true, decide_eq_true_eq, beq_iff_eq] at h
  simp only [blankCodes, List.mem_append, List.mem_range'_1, List.mem_cons, List.not_mem_nil, or_false]
  omega

theorem isWordPart_of_isBlank {c : Char} (h : isBlank c = true) : isWordPart c = false := by
  have hall : ∀ n ∈ blankCodes, isWordPart (Char.ofNat n) = false := by decide +kernel
  have hc := hall _ (mem_blankCodes h)
  rwa [Char.ofNat_toNat] at hc

/-- No token begins with white space. -/
theorem not_isBlank_of_shape {t : Token} {c : Char} {cs : List Char} (h : t.Shape (c :: cs)) :
    isBlank c = false := by
  rw [← Bool.not_eq_true]
  intro hc
  have hword := isWordPart_of_isBlank hc
  have hmem := mem_blankCodes hc
  simp only [blankCodes, List.mem_append, List.mem_range'_1, List.mem_cons, List.not_mem_nil, or_false]
    at hmem
  cases h with
  | ident hletter | keyword _ _ hletter =>
    rw [isWordPart_of_isLetter hletter] at hword
    cases hword
  | number _ hnumber =>
    rcases hnumber with hdigit | ⟨rfl, -⟩
    · have hrange : 48 ≤ c.toNat ∧ c.toNat ≤ 57 := hdigit
      omega
    · exact absurd hc (by decide)
  | rune | raw | quoted => exact absurd hc (by decide)
  | operator m hm =>
    have hstarts : ∀ c ∈ Operator.starts, isBlank c = false := by decide
    rw [hstarts c (Operator.mem_starts hm)] at hc
    cases hc

/-- Blanks on a line are passed. -/
theorem Reads.of_blanks {ends : Bool} {gap rest : List Char} {ts : List Token}
    (hgap : ∀ c ∈ gap, isBlank c = true ∧ c ≠ '\n') (h : Reads ends (gap ++ rest) ts) :
    Reads ends rest ts := by
  induction gap with
  | nil => exact h
  | cons c gap ih =>
    rw [List.forall_mem_cons] at hgap
    refine ih hgap.2 ?_
    generalize hcs : c :: gap ++ rest = cs at h
    rw [List.cons_append] at hcs
    cases h with
    | finished => cases hcs
    | blank _ hrest =>
      obtain ⟨-, rfl⟩ := List.cons.inj hcs
      exact hrest
    | newline => exact absurd (List.cons.inj hcs).1 hgap.1.2
    | lineComment | generalComment =>
      have hslash := hgap.1.1
      rw [(List.cons.inj hcs).1] at hslash
      exact absurd hslash (by decide)
    | token _ hl =>
      have hshape := hl.spells.shape
      obtain ⟨d, u, rfl⟩ := hshape.exists_cons
      have hblank := hgap.1.1
      rw [(List.cons.inj hcs).1, not_isBlank_of_shape hshape] at hblank
      cases hblank

end Go

end ServiceSchema
