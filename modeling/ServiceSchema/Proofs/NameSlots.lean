/-
  ServiceSchema.Proofs.NameSlots — what the grammar of Go takes where a name is written.

  Behind the word `type`, and at the start of a member of a struct, an identifier is taken
  and then the rest of the declaration. A name that is not an identifier is cut into several
  tokens, and these have to be taken as something else.

  - `takes_behind_type`: what is taken behind the word `type`, wherever in a file it stands.
  - `Slot.takes`: which words of identifiers and dots are taken where a name is written, and that
    a stray operator or a number is taken behind none of them.
  - `eq_ident_of_kind`, `eq_ident_of_type`: only a single identifier is taken before the kind of
    a declared type, or before the type of a member.
-/
import ServiceSchema.Go.Syntax
import ServiceSchema.Proofs.Tokens
import ServiceSchema.TypeExpr

namespace ServiceSchema

/-- Characters that can end a name or begin something else in it. -/
def harsh : List Char :=
  ['"', '\'', '`', '\\', '/', '(', ')', '*', ',', ';', '<', '=', '[', '}', '~', '\n', '\r']

namespace Go

open Ebnf Form

/-! ## Tokens with semicolons left out -/

theorem Completes.of_append {u ts all : List Token} (hu : ∀ t ∈ u, t.closes = false)
    (h : Completes all (u ++ ts)) : ∃ all', all = u ++ all' ∧ Completes all' ts := by
  induction u generalizing all with
  | nil => exact ⟨all, rfl, h⟩
  | cons t u ih =>
    rw [List.forall_mem_cons] at hu
    cases h with
    | kept h =>
      obtain ⟨all', rfl, hrest⟩ := ih hu.2 h
      exact ⟨all', rfl, hrest⟩
    | added ht _ =>
      rw [hu.1] at ht
      cases ht

theorem Completes.split {front ts all : List Token} (h : Completes all (front ++ ts)) :
    ∃ u all', all = u ++ all' ∧ Completes all' ts := by
  induction front generalizing all with
  | nil => exact ⟨[], all, rfl, h⟩
  | cons t front ih =>
    cases h with
    | kept h =>
      obtain ⟨u, all', rfl, hrest⟩ := ih h
      exact ⟨t :: u, all', rfl, hrest⟩
    | added _ h =>
      obtain ⟨u, all', rfl, hrest⟩ := ih h
      exact ⟨semicolon :: t :: u, all', rfl, hrest⟩

/-- With the semicolons that are left out, the tokens are matched by one of the lists and
    something behind it. -/
def Takes (l : List (List Form)) (ts : List Token) : Prop :=
  ∃ all, Completes all ts ∧ ∃ x ∈ l, ∃ k, MatchesAll Eq Production.body (x ++ k) all

theorem Takes.reach {l l' : List (List Form)} {u ts : List Token}
    (hl : Ebnf.reach Production.body l u = some l') (hu : ∀ t ∈ u, t.closes = false)
    (h : Takes l (u ++ ts)) : Takes l' ts := by
  obtain ⟨all, hcompletes, x, hx, k, hmatch⟩ := h
  obtain ⟨all', rfl, hrest⟩ := hcompletes.of_append hu
  obtain ⟨x', hx', hmatch'⟩ := hmatch.reach hl hx
  exact ⟨all', hrest, x', hx', k, hmatch'⟩

theorem Takes.mono {l l' : List (List Form)} {ts : List Token} (h : Takes l ts) (hl : ∀ x ∈ l, x ∈ l') :
    Takes l' ts := by
  obtain ⟨all, hcompletes, x, hx, hmatch⟩ := h
  exact ⟨all, hcompletes, x, hl x hx, hmatch⟩

theorem not_takes_nil (ts : List Token) : ¬ Takes [] ts := by
  rintro ⟨-, -, x, hx, -⟩
  cases hx

/-! ## Behind the word `type` -/

/-- A declared type, or the end of a type switch's guard. -/
def behindType : List (List Form) := [[group (rule .typeSpec), semi], [op .rparen]]

/-- The productions that may end in a declared type. -/
def typeEnds : List Production := [.typeDecl, .declaration, .topLevelDecl, .statement, .labeledStmt]

/-- What may come behind the word `type` in a production. -/
def AfterType (r : Production) (k : List Form) : Prop :=
  (r ∈ typeEnds ∧ k = [group (rule .typeSpec)]) ∨ ∃ x ∈ behindType, ∃ k', k = x ++ k'

/-- A place in a production agrees with `AfterType`. -/
def agreesAfterType (r : Production) (p : (Token ⊕ Production) × List Form) : Bool :=
  match p.1 with
  | .inl t =>
    t != .keyword .type || typeEnds.contains r && p.2 == [group (rule .typeSpec)] ||
      p.2.head? == some (op .rparen)
  | .inr r' => !typeEnds.contains r' || typeEnds.contains r && p.2.isEmpty || p.2.head? == some semi

set_option maxRecDepth 4000 in
theorem spots_agreeAfterType (r : Production) : (Production.body r).spots.all (agreesAfterType r) = true := by
  cases r <;> first | rfl | (rename_i head; cases head <;> rfl)

theorem exists_of_head? {x : Form} {k : List Form} (h : (k.head? == some x) = true) :
    ∃ k', k = [x] ++ k' := by
  cases k with
  | nil => cases h
  | cons y k =>
    rw [List.head?_cons, beq_iff_eq, Option.some.injEq] at h
    exact ⟨k, by rw [h]; rfl⟩

theorem afterType_term (r : Production) (k : List Form)
    (h : (.inl (.keyword .type), k) ∈ (Production.body r).spots) : AfterType r k := by
  have hspot := List.all_eq_true.1 (spots_agreeAfterType r) _ h
  simp only [agreesAfterType, bne_self_eq_false, Bool.false_or, Bool.or_eq_true, Bool.and_eq_true,
    beq_iff_eq, List.contains_iff_mem] at hspot
  rcases hspot with hspot | hspot
  · exact Or.inl hspot
  · obtain ⟨k', rfl⟩ := exists_of_head? (beq_iff_eq.2 hspot)
    exact Or.inr ⟨_, by simp [behindType], k', rfl⟩

theorem afterType_rule (r r' : Production) (k k' : List Form) (h : (.inr r', k) ∈ (Production.body r).spots)
    (hk : AfterType r' k') : AfterType r (k' ++ k) := by
  rcases hk with ⟨hr', rfl⟩ | ⟨x, hx, k', rfl⟩
  · have hspot := List.all_eq_true.1 (spots_agreeAfterType r) _ h
    simp only [agreesAfterType, Bool.or_eq_true, Bool.and_eq_true, Bool.not_eq_true', ← Bool.not_eq_true,
      List.contains_iff_mem, List.isEmpty_iff] at hspot
    rcases hspot with (hspot | ⟨hr, rfl⟩) | hspot
    · exact absurd hr' hspot
    · exact Or.inl ⟨hr, rfl⟩
    · obtain ⟨k', rfl⟩ := exists_of_head? hspot
      exact Or.inr ⟨_, List.mem_cons_self, k', rfl⟩
  · exact Or.inr ⟨x, hx, k' ++ k, List.append_assoc _ _ _⟩

/-- What a file has behind the word `type`. -/
theorem takes_behind_type {front ts all : List Token} (hfits : Form.Fits (.rule .sourceFile) all)
    (hc : Completes all (front ++ .keyword .type :: ts)) : Takes behindType ts := by
  obtain ⟨u, all', rfl, hc'⟩ := hc.split
  obtain ⟨all'', rfl, hrest⟩ := Completes.of_append (u := [.keyword .type]) (by decide) hc'
  obtain ⟨k, ⟨hr, -⟩ | ⟨x, hx, k', rfl⟩, hmatch⟩ := exists_behind afterType_term afterType_rule hfits
  · exact absurd hr (by decide)
  · exact ⟨all'', hrest, x, hx, k', hmatch⟩

/-! ## Where a name is written -/

/-- The tokens that words and dots are read as. -/
def nameTokens : List Token := [.ident, .operator .dot]

/-- Numbers, and all operators but the dot that no harsh character begins. -/
def strays : List Token :=
  [.int, .float, .imaginary] ++
    (Operator.all.filter fun m => m != .dot && !m.text.toList.head?.any harsh.contains).map .operator

/-- What is left of the grammar where a name is written, and the words of identifiers and dots
    behind which something is still left. -/
structure Slot where
  lists : List (List Form)
  alive : List (List Token)

namespace Slot

/-- Behind these tokens nothing is left. -/
def isDead (s : Slot) (u : List Token) : Bool := (reach Production.body s.lists u).any List.isEmpty

/-- All words that go on from those that are `alive` are such words themselves or dead, and so
    is every stray token behind one of them. -/
def isSound (s : Slot) : Bool :=
  s.alive.contains [] && s.alive.all fun u =>
    (nameTokens.all fun t => s.alive.contains (u ++ [t]) || s.isDead (u ++ [t])) &&
      strays.all fun t => s.isDead (u ++ [t])

variable {s : Slot} {u ts : List Token}

theorem not_takes_of_isDead (h : s.isDead u = true) (hu : ∀ t ∈ u, t.closes = false) :
    ¬ Takes s.lists (u ++ ts) := by
  rw [isDead, Option.any_eq_true] at h
  obtain ⟨l, hl, hnil⟩ := h
  rw [List.isEmpty_iff.1 hnil] at hl
  exact fun htakes => not_takes_nil ts (htakes.reach hl hu)

theorem closes_nameTokens (hu : ∀ t ∈ u, t ∈ nameTokens) : ∀ t ∈ u, t.closes = false := by
  have hall : ∀ t ∈ nameTokens, t.closes = false := by decide
  exact fun t ht => hall t (hu t ht)

/-- A word of identifiers and dots that is taken is alive. -/
theorem mem_alive (hs : s.isSound = true) (hu : ∀ t ∈ u, t ∈ nameTokens) (h : Takes s.lists (u ++ ts)) :
    u ∈ s.alive := by
  rw [isSound, Bool.and_eq_true, List.all_eq_true, List.contains_iff_mem] at hs
  -- by induction on what is behind a word that is alive
  have hmore : ∀ v w : List Token, v ∈ s.alive → (∀ t ∈ v ++ w, t ∈ nameTokens) →
      Takes s.lists (v ++ w ++ ts) → v ++ w ∈ s.alive := by
    intro v w
    induction w generalizing v with
    | nil =>
      intro hv _ _
      rwa [List.append_nil]
    | cons t w ih =>
      intro hv hw htakes
      have hcons : v ++ t :: w = v ++ [t] ++ w := by simp
      rw [hcons] at hw htakes ⊢
      refine ih _ ?_ hw htakes
      have hstep := hs.2 v hv
      rw [Bool.and_eq_true, List.all_eq_true] at hstep
      have hlive := hstep.1 t (hw t (by simp))
      rw [Bool.or_eq_true, List.contains_iff_mem] at hlive
      refine hlive.resolve_right fun hdead => ?_
      rw [List.append_assoc] at htakes
      exact not_takes_of_isDead hdead
        (closes_nameTokens fun t' ht' => hw t' (List.mem_append_left w ht')) htakes
  exact hmore [] u hs.1 hu h

/-- No stray token is taken behind such a word. -/
theorem notMem_strays (hs : s.isSound = true) (hu : ∀ t ∈ u, t ∈ nameTokens) {t : Token}
    (h : Takes s.lists (u ++ t :: ts)) : t ∉ strays := by
  intro ht
  have halive := mem_alive hs hu h
  rw [isSound, Bool.and_eq_true, List.all_eq_true] at hs
  have hstep := hs.2 u halive
  rw [Bool.and_eq_true, List.all_eq_true, List.all_eq_true] at hstep
  have hcloses : ∀ t ∈ strays, t.closes = false := by decide +kernel
  have hcons : u ++ t :: ts = u ++ [t] ++ ts := by simp
  rw [hcons] at h
  refine not_takes_of_isDead (hstep.2 t ht) ?_ h
  rw [List.forall_mem_append, List.forall_mem_singleton]
  exact ⟨closes_nameTokens hu, hcloses t ht⟩

end Slot

/-! ## The name of a declared type -/

/-- Behind an identifier a type may be named, with a package in front of it or without. -/
def typeSlot : Slot :=
  ⟨behindType, [[], [.ident], [.ident, .ident], [.ident, .ident, .operator .dot],
    [.ident, .ident, .operator .dot, .ident]]⟩

theorem isSound_typeSlot : typeSlot.isSound = true := by decide +kernel

/-- Only a single identifier is taken before the kind of a type. -/
theorem eq_ident_of_kind {k : Keyword} (hk : k = .struct ∨ k = .interface) {u ts : List Token}
    (hu : ∀ t ∈ u, t ∈ nameTokens) (h : Takes behindType (u ++ .keyword k :: ts)) : u = [.ident] := by
  have hdead : ∀ u ∈ typeSlot.alive, u = [.ident] ∨
      typeSlot.isDead (u ++ [.keyword .struct]) ∧ typeSlot.isDead (u ++ [.keyword .interface]) := by
    decide +kernel
  have hcons : u ++ .keyword k :: ts = u ++ [.keyword k] ++ ts := by simp
  refine (hdead u (Slot.mem_alive (s := typeSlot) isSound_typeSlot hu h)).resolve_right fun hboth => ?_
  have hclose : ∀ t ∈ u ++ [.keyword k], t.closes = false := by
    rw [List.forall_mem_append, List.forall_mem_singleton]
    exact ⟨Slot.closes_nameTokens hu, rfl⟩
  rw [hcons] at h
  rcases hk with rfl | rfl
  · exact Slot.not_takes_of_isDead (s := typeSlot) hboth.1 hclose h
  · exact Slot.not_takes_of_isDead (s := typeSlot) hboth.2 hclose h

/-! ## The members of a struct -/

/-- The members of a struct and its end. -/
def members : List Form := [many (rule .fieldDecl ++ semi), op .rbrace]

/-- What a struct begins with. -/
theorem takes_members {ts : List Token}
    (h : Takes behindType (.ident :: .keyword .struct :: .operator .lbrace :: ts)) : Takes [members] ts := by
  have hreach : reach Production.body behindType [.ident, .keyword .struct, .operator .lbrace] =
      some [members ++ [semi]] := by
    decide +kernel
  obtain ⟨all, hcompletes, x, hx, k, hmatch⟩ := Takes.reach hreach (by decide) h
  rw [List.mem_singleton.1 hx, List.append_assoc] at hmatch
  exact ⟨all, hcompletes, members, List.mem_singleton.2 rfl, _, hmatch⟩

/-- A member may be a type that is named without a name in front of it, so a dot may come behind
    the first identifier too. -/
def memberSlot : Slot :=
  ⟨[members], [[], [.ident], [.ident, .ident], [.ident, .operator .dot], [.ident, .operator .dot, .ident],
    [.ident, .ident, .operator .dot], [.ident, .ident, .operator .dot, .ident]]⟩

theorem isSound_memberSlot : memberSlot.isSound = true := by decide +kernel

end Go

/-- The tokens of a type. -/
def TypeExpr.tokens : TypeExpr → List Go.Token
  | named _ => [.ident]
  | array item => .operator .lbrack :: .operator .rbrack :: item.tokens
  | map _ value => .keyword .map :: .operator .lbrack :: .ident :: .operator .rbrack :: value.tokens

namespace Go

open Ebnf Form

/-- What every type begins with. -/
def typeStarts : List (List Token) :=
  [[.ident], [.operator .lbrack, .operator .rbrack],
    [.keyword .map, .operator .lbrack, .ident, .operator .rbrack]]

theorem exists_typeStart (t : TypeExpr) : ∃ v ∈ typeStarts, ∃ w, t.tokens = v ++ w := by
  cases t with
  | named name => exact ⟨_, List.mem_cons_self, [], rfl⟩
  | array item => exact ⟨_, List.mem_cons_of_mem _ List.mem_cons_self, item.tokens, rfl⟩
  | map key value =>
    exact ⟨_, List.mem_cons_of_mem _ (List.mem_cons_of_mem _ List.mem_cons_self), value.tokens, rfl⟩

/-- Only a single identifier is taken before the type of a member, if it is no dot that stands
    before it. -/
theorem eq_ident_of_type {t : TypeExpr} {u ts : List Token} (hu : ∀ x ∈ u, x ∈ nameTokens) (hne : u ≠ [])
    (hlast : u.getLast? ≠ some (.operator .dot)) (h : Takes [members] (u ++ (t.tokens ++ ts))) :
    u = [.ident] := by
  have hdead : ∀ u ∈ memberSlot.alive, u ≠ [] → u.getLast? ≠ some (.operator .dot) → u ≠ [.ident] →
      ∀ v ∈ typeStarts, memberSlot.isDead (u ++ v) = true := by
    decide +kernel
  have halive := Slot.mem_alive (s := memberSlot) isSound_memberSlot hu h
  by_cases hsingle : u = [.ident]
  · exact hsingle
  obtain ⟨v, hv, w, hvw⟩ := exists_typeStart t
  have hclose : ∀ x ∈ u ++ v, x.closes = false := by
    have hall : ∀ v ∈ typeStarts, ∀ x ∈ v, x.closes = false := by decide
    rw [List.forall_mem_append]
    exact ⟨Slot.closes_nameTokens hu, hall v hv⟩
  rw [hvw, List.append_assoc, ← List.append_assoc] at h
  exact (Slot.not_takes_of_isDead (s := memberSlot) (hdead u halive hne hlast hsingle v hv) hclose h).elim

/-- A type, and what comes behind it in a member. -/
def fieldType : List Form := [rule .type, opt stringLit, semi] ++ members

/-- What is left behind the name of a member, or behind what its type begins with. -/
def atType : List (List Form) := fieldType :: (reach Production.body [members] [.ident]).getD []

/-- A type is taken with the tag behind it, and then the other members. -/
theorem takes_behind_member (t : TypeExpr) {ts : List Token}
    (h : Takes atType (t.tokens ++ .string :: semicolon :: ts)) : Takes [members] ts := by
  have hword : reach Production.body atType [.ident, .string, semicolon] = some [members] := by decide +kernel
  have harray : reach Production.body atType [.operator .lbrack, .operator .rbrack] = some [fieldType] := by
    decide +kernel
  have hmap : reach Production.body atType
      [.keyword .map, .operator .lbrack, .ident, .operator .rbrack] = some [fieldType] := by
    decide +kernel
  have hmore : ∀ x ∈ [fieldType], x ∈ atType := List.forall_mem_singleton.2 List.mem_cons_self
  induction t with
  | named name => exact h.reach hword (by decide)
  | array item ih => exact ih ((h.reach harray (by decide)).mono hmore)
  | map key value ih => exact ih ((h.reach hmap (by decide)).mono hmore)

/-- A member whose name is an identifier. -/
theorem takes_member {t : TypeExpr} {ts : List Token}
    (h : Takes [members] (.ident :: (t.tokens ++ .string :: semicolon :: ts))) : Takes [members] ts := by
  obtain ⟨l, hl⟩ : ∃ l, reach Production.body [members] [.ident] = some l :=
    Option.isSome_iff_exists.1 (by decide +kernel)
  have hname : Takes l (t.tokens ++ .string :: semicolon :: ts) := Takes.reach hl (by decide) h
  refine takes_behind_member t (hname.mono fun x hx => ?_)
  rw [atType, hl]
  exact List.mem_cons_of_mem _ hx

end Go

end ServiceSchema
