/-
  ServiceSchema.Proofs.Matches — words that a grammar matches, read from the left.

  What is still to be matched is a list of expressions (`MatchesAll`), and `reach` computes
  the lists that may be left of some lists behind some letters. So where letters are known
  a word is followed by computation:

  - `MatchesAll.of_leads`: what a list that is left matches is matched behind the letters.
  - `matches_of_leadsAround`: a phrase is matched in the middle of known letters.
  - `MatchesAll.reach`: nothing else is.
  - `exists_behind`: a letter in the middle of a word tells what comes behind it.
-/
import ServiceSchema.Go.Ebnf

namespace ServiceSchema.Go.Ebnf

variable {T R α : Type}

/-! ## Expressions taken apart -/

section

variable {fits : T → α → Prop} {rules : R → Ebnf T R} {x y : Ebnf T R} {w : List α}

theorem matches_term {t : T} : Matches fits rules (.term t) w ↔ ∃ a, w = [a] ∧ fits t a := by
  constructor
  · rintro ⟨h⟩
    exact ⟨_, rfl, h⟩
  · rintro ⟨a, rfl, h⟩
    exact .term h

theorem matches_rule {r : R} : Matches fits rules (.rule r) w ↔ Matches fits rules (rules r) w := by
  constructor
  · rintro ⟨⟩
    assumption
  · exact .rule

theorem matches_seq : Matches fits rules (x ++ y) w ↔
    ∃ u v, w = u ++ v ∧ Matches fits rules x u ∧ Matches fits rules y v := by
  constructor
  · rintro ⟨⟩
    exact ⟨_, _, rfl, ‹_›, ‹_›⟩
  · rintro ⟨u, v, rfl, hx, hy⟩
    exact .seq hx hy

theorem matches_alt : Matches fits rules (x ||| y) w ↔
    Matches fits rules x w ∨ Matches fits rules y w := by
  constructor
  · rintro (_ | _)
    · exact Or.inl ‹_›
    · exact Or.inr ‹_›
  · rintro (h | h)
    · exact .left h
    · exact .right h

theorem matches_opt : Matches fits rules (.opt x) w ↔ w = [] ∨ Matches fits rules x w := by
  constructor
  · rintro (_ | _)
    · exact Or.inl rfl
    · exact Or.inr ‹_›
  · rintro (rfl | h)
    · exact .without
    · exact .within h

/-- An expression that does not match the empty word, as can be seen without the rules. -/
def isFull : Ebnf T R → Bool
  | .term _ => true
  | .seq x y => x.isFull || y.isFull
  | .alt x y => x.isFull && y.isFull
  | .rule _ | .opt _ | .many _ => false

theorem ne_nil_of_isFull (h : Matches fits rules x w) (hx : x.isFull = true) : w ≠ [] := by
  induction h with
  | term => exact List.cons_ne_nil _ _
  | seq _ _ ihx ihy =>
    rw [isFull, Bool.or_eq_true] at hx
    rcases hx with hx | hy
    · exact List.append_ne_nil_of_left_ne_nil (ihx hx) _
    · exact List.append_ne_nil_of_right_ne_nil _ (ihy hy)
  | left _ ih =>
    rw [isFull, Bool.and_eq_true] at hx
    exact ih hx.1
  | right _ ih =>
    rw [isFull, Bool.and_eq_true] at hx
    exact ih hx.2
  | rule | without | within | done | more => cases hx

end

/-! ## Lists of expressions -/

/-- A word is matched by some expressions, one after another. -/
inductive MatchesAll (fits : T → α → Prop) (rules : R → Ebnf T R) : List (Ebnf T R) → List α → Prop
  | nil : MatchesAll fits rules [] []
  | cons {x : Ebnf T R} {k : List (Ebnf T R)} {u v : List α} : Matches fits rules x u →
      MatchesAll fits rules k v → MatchesAll fits rules (x :: k) (u ++ v)

namespace MatchesAll

variable {fits : T → α → Prop} {rules : R → Ebnf T R} {x y : Ebnf T R} {k k' : List (Ebnf T R)}
  {w : List α}

theorem single (h : Matches fits rules x w) : MatchesAll fits rules [x] w := by
  have hx := MatchesAll.cons h .nil
  rwa [List.append_nil] at hx

theorem append {v : List α} (h : MatchesAll fits rules k w) (h' : MatchesAll fits rules k' v) :
    MatchesAll fits rules (k ++ k') (w ++ v) := by
  induction h with
  | nil => exact h'
  | cons hx _ ih =>
    rw [List.cons_append, List.append_assoc]
    exact .cons hx ih

theorem uncons (h : MatchesAll fits rules (x :: k) w) :
    ∃ u v, w = u ++ v ∧ Matches fits rules x u ∧ MatchesAll fits rules k v := by
  cases h with
  | cons hx hk => exact ⟨_, _, rfl, hx, hk⟩

theorem pair (h : MatchesAll fits rules [x, y] w) : Matches fits rules (x ++ y) w := by
  obtain ⟨u, v, rfl, hx, hrest⟩ := h.uncons
  obtain ⟨v, v', rfl, hy, hnil⟩ := hrest.uncons
  cases hnil
  rw [List.append_nil]
  exact .seq hx hy

end MatchesAll

/-! ## The first expression of a list taken apart -/

section

variable {fits : T → α → Prop} {rules : R → Ebnf T R} {x y : Ebnf T R} {k : List (Ebnf T R)} {w : List α}

theorem matchesAll_cons : MatchesAll fits rules (x :: k) w ↔
    ∃ u v, w = u ++ v ∧ Matches fits rules x u ∧ MatchesAll fits rules k v := by
  constructor
  · exact MatchesAll.uncons
  · rintro ⟨u, v, rfl, hx, hk⟩
    exact .cons hx hk

theorem matchesAll_rule {r : R} : MatchesAll fits rules (.rule r :: k) w ↔
    MatchesAll fits rules (rules r :: k) w := by
  simp only [matchesAll_cons, matches_rule]

theorem matchesAll_seq : MatchesAll fits rules (.seq x y :: k) w ↔
    MatchesAll fits rules (x :: y :: k) w := by
  constructor
  · intro h
    obtain ⟨u, v, rfl, hxy, hk⟩ := h.uncons
    obtain ⟨u, u', rfl, hx, hy⟩ := matches_seq.1 hxy
    rw [List.append_assoc]
    exact .cons hx (.cons hy hk)
  · intro h
    obtain ⟨u, v, rfl, hx, hyk⟩ := h.uncons
    obtain ⟨u', v', rfl, hy, hk⟩ := hyk.uncons
    rw [← List.append_assoc]
    exact .cons (.seq hx hy) hk

theorem matchesAll_alt : MatchesAll fits rules (.alt x y :: k) w ↔
    MatchesAll fits rules (x :: k) w ∨ MatchesAll fits rules (y :: k) w := by
  constructor
  · intro h
    obtain ⟨u, v, rfl, hxy, hk⟩ := h.uncons
    exact (matches_alt.1 hxy).imp (fun hx => .cons hx hk) fun hy => .cons hy hk
  · rintro (h | h) <;> obtain ⟨u, v, rfl, hx, hk⟩ := h.uncons
    · exact .cons (.left hx) hk
    · exact .cons (.right hx) hk

theorem matchesAll_opt : MatchesAll fits rules (.opt x :: k) w ↔
    MatchesAll fits rules (x :: k) w ∨ MatchesAll fits rules k w := by
  constructor
  · intro h
    obtain ⟨u, v, rfl, hx, hk⟩ := h.uncons
    rcases matches_opt.1 hx with rfl | hx
    · exact Or.inr hk
    · exact Or.inl (.cons hx hk)
  · rintro (h | h)
    · obtain ⟨u, v, rfl, hx, hk⟩ := h.uncons
      exact .cons (.within hx) hk
    · exact .cons (u := []) .without h

theorem matchesAll_many : MatchesAll fits rules (.many x :: k) w ↔
    MatchesAll fits rules (x :: .many x :: k) w ∨ MatchesAll fits rules k w := by
  constructor
  · intro h
    obtain ⟨u, v, rfl, hx, hk⟩ := h.uncons
    cases hx with
    | done => exact Or.inr hk
    | more hx hmany =>
      rw [List.append_assoc]
      exact Or.inl (.cons hx (.cons hmany hk))
  · rintro (h | h)
    · obtain ⟨u, v, rfl, hx, hmore⟩ := h.uncons
      obtain ⟨u', v', rfl, hmany, hk⟩ := hmore.uncons
      rw [← List.append_assoc]
      exact .cons (.more hx hmany) hk
    · exact .cons (u := []) .done h

end

/-! ## Behind the next letter -/

section

variable [DecidableEq T] (rules : R → Ebnf T R)

/-- What is found on two ways, if both are gone to their end. -/
def either {β : Type} (xs ys : Option (List β)) : Option (List β) := do return (← xs) ++ (← ys)

theorem either_eq_some {β : Type} {xs ys : Option (List β)} {zs : List β} (h : either xs ys = some zs) :
    ∃ xs' ys', xs = some xs' ∧ ys = some ys' ∧ zs = xs' ++ ys' := by
  cases xs with
  | none => cases h
  | some xs =>
    cases ys with
    | none => cases h
    | some ys =>
      cases h
      exact ⟨xs, ys, rfl, rfl, rfl⟩

/-- The lists that may be left of a list behind a letter; none if they are not found in so
    many steps. -/
def after (a : T) : Nat → List (Ebnf T R) → Option (List (List (Ebnf T R)))
  | 0, _ => none
  | _ + 1, [] => some []
  | _ + 1, .term t :: k => some (if t = a then [k] else [])
  | n + 1, .rule r :: k => after a n (rules r :: k)
  | n + 1, .seq x y :: k => after a n (x :: y :: k)
  | n + 1, .alt x y :: k => either (after a n (x :: k)) (after a n (y :: k))
  | n + 1, .opt x :: k => either (after a n (x :: k)) (after a n k)
  | n + 1, .many x :: k => either (after a n (x :: .many x :: k)) (after a n k)

variable {rules} {s k : List (Ebnf T R)} {a : T} {w : List T}

omit [DecidableEq T] in
theorem not_matchesAll_nil (hs : s.any isFull = true) : ¬ MatchesAll Eq rules s [] := by
  intro h
  induction s with
  | nil => cases hs
  | cons x s ih =>
    obtain ⟨u, v, huv, hx, hs'⟩ := h.uncons
    obtain ⟨rfl, rfl⟩ := List.append_eq_nil_iff.1 huv.symm
    rw [List.any_cons, Bool.or_eq_true] at hs
    rcases hs with hfull | hs
    · exact ne_nil_of_isFull hx hfull rfl
    · exact ih hs hs'

/-- Of two ways one is gone: something is found on it, or its end is reached. -/
theorem exists_append_or {β : Type} {P : β → Prop} {h₁ h₂ e₁ e₂ q : Prop} {l₁ l₂ : List β} (h : h₁ ∨ h₂)
    (hleft : h₁ → (∃ s ∈ l₁, P s) ∨ e₁ ∧ q) (hright : h₂ → (∃ s ∈ l₂, P s) ∨ e₂ ∧ q) :
    (∃ s ∈ l₁ ++ l₂, P s) ∨ (e₁ ∨ e₂) ∧ q := by
  rcases h with h | h
  · rcases hleft h with ⟨s, hs, hp⟩ | hr
    · exact Or.inl ⟨s, List.mem_append_left _ hs, hp⟩
    · exact Or.inr ⟨Or.inl hr.1, hr.2⟩
  · rcases hright h with ⟨s, hs, hp⟩ | hr
    · exact Or.inl ⟨s, List.mem_append_right _ hs, hp⟩
    · exact Or.inr ⟨Or.inr hr.1, hr.2⟩

/-- What is matched behind a letter is matched by one of the lists that are left, unless the
    list is matched in front of the letter. -/
theorem exists_after {n : Nat} {l : List (List (Ebnf T R))} (hl : after rules a n s = some l)
    (h : MatchesAll Eq rules (s ++ k) (a :: w)) :
    (∃ s' ∈ l, MatchesAll Eq rules (s' ++ k) w) ∨
      (MatchesAll Eq rules s [] ∧ MatchesAll Eq rules k (a :: w)) := by
  induction n generalizing s l with
  | zero => cases hl
  | succ n ih =>
    cases s with
    | nil => exact Or.inr ⟨.nil, h⟩
    | cons x s =>
      rw [List.cons_append] at h
      cases x with
      | term t =>
        obtain ⟨u, v, huv, hx, hs⟩ := h.uncons
        obtain ⟨b, rfl, rfl⟩ := matches_term.1 hx
        obtain ⟨rfl, rfl⟩ := List.cons.inj huv
        rw [after, if_pos rfl] at hl
        cases hl
        exact Or.inl ⟨s, List.mem_singleton.2 rfl, hs⟩
      | rule r =>
        rw [matchesAll_rule] at h ⊢
        exact ih hl h
      | seq x y =>
        rw [matchesAll_seq] at h ⊢
        exact ih hl h
      | alt x y =>
        obtain ⟨lx, ly, hlx, hly, rfl⟩ := either_eq_some hl
        rw [matchesAll_alt] at h ⊢
        exact exists_append_or h (fun h => ih hlx h) fun h => ih hly h
      | opt x =>
        obtain ⟨lx, ls, hlx, hls, rfl⟩ := either_eq_some hl
        rw [matchesAll_opt] at h ⊢
        exact exists_append_or h (fun h => ih hlx h) fun h => ih hls h
      | many x =>
        obtain ⟨lx, ls, hlx, hls, rfl⟩ := either_eq_some hl
        rw [matchesAll_many] at h ⊢
        exact exists_append_or h (fun h => ih hlx h) fun h => ih hls h

/-- What a list that is left behind a letter matches is matched by the list behind the letter. -/
theorem matchesAll_of_mem_after {n : Nat} {l : List (List (Ebnf T R))} (hl : after rules a n s = some l)
    {s' : List (Ebnf T R)} (hs' : s' ∈ l) (h : MatchesAll Eq rules (s' ++ k) w) :
    MatchesAll Eq rules (s ++ k) (a :: w) := by
  induction n generalizing s l with
  | zero => cases hl
  | succ n ih =>
    cases s with
    | nil =>
      cases hl
      cases hs'
    | cons x s =>
      cases x with
      | term t =>
        rw [after] at hl
        split at hl
        · rename_i hta
          cases hl
          rw [List.mem_singleton.1 hs'] at h
          exact .cons (u := [a]) (.term hta) h
        · cases hl
          cases hs'
      | rule r => exact matchesAll_rule.2 (ih hl hs')
      | seq x y => exact matchesAll_seq.2 (ih hl hs')
      | alt x y =>
        obtain ⟨lx, ly, hlx, hly, rfl⟩ := either_eq_some hl
        exact matchesAll_alt.2 ((List.mem_append.1 hs').imp (ih hlx) (ih hly))
      | opt x =>
        obtain ⟨lx, ls, hlx, hls, rfl⟩ := either_eq_some hl
        exact matchesAll_opt.2 ((List.mem_append.1 hs').imp (ih hlx) (ih hls))
      | many x =>
        obtain ⟨lx, ls, hlx, hls, rfl⟩ := either_eq_some hl
        exact matchesAll_many.2 ((List.mem_append.1 hs').imp (ih hlx) (ih hls))

end

/-! ## Behind some letters -/

section

variable [DecidableEq T] [DecidableEq R] (rules : R → Ebnf T R)

/-- The lists that may be left of some lists behind a letter. -/
def afterAny (a : T) : List (List (Ebnf T R)) → Option (List (List (Ebnf T R)))
  | [] => some []
  | s :: l => if s.any isFull then either (after rules a 64 s) (afterAny a l) else none

/-- The lists that may be left of some lists behind some letters, each once. -/
def reach (l : List (List (Ebnf T R))) : List T → Option (List (List (Ebnf T R)))
  | [] => some l
  | a :: u => (afterAny rules a l).bind fun l' => reach l'.eraseDups u

/-- Behind some letters a list may be left of another one. -/
def leads (s : List (Ebnf T R)) (u : List T) (s' : List (Ebnf T R)) : Bool :=
  (reach rules [s] u).any fun l => l.contains s'

variable {rules} {s s' k : List (Ebnf T R)} {l l' : List (List (Ebnf T R))} {a : T} {u w : List T}

omit [DecidableEq R] in
theorem exists_afterAny (hl : afterAny rules a l = some l') (hs : s ∈ l)
    (h : MatchesAll Eq rules (s ++ k) (a :: w)) : ∃ s' ∈ l', MatchesAll Eq rules (s' ++ k) w := by
  induction l generalizing l' with
  | nil => cases hs
  | cons s₁ l ih =>
    rw [afterAny] at hl
    split at hl
    · rename_i hfull
      obtain ⟨l₁, l₂, hl₁, hl₂, rfl⟩ := either_eq_some hl
      rcases List.mem_cons.1 hs with rfl | hs
      · obtain ⟨s', hs', hm⟩ :=
          (exists_after hl₁ h).resolve_right fun hr => not_matchesAll_nil hfull hr.1
        exact ⟨s', List.mem_append_left _ hs', hm⟩
      · obtain ⟨s', hs', hm⟩ := ih hl₂ hs
        exact ⟨s', List.mem_append_right _ hs', hm⟩
    · cases hl

omit [DecidableEq R] in
theorem exists_of_mem_afterAny (hl : afterAny rules a l = some l') (hs' : s' ∈ l')
    (h : MatchesAll Eq rules (s' ++ k) w) : ∃ s ∈ l, MatchesAll Eq rules (s ++ k) (a :: w) := by
  induction l generalizing l' with
  | nil =>
    cases hl
    cases hs'
  | cons s₁ l ih =>
    rw [afterAny] at hl
    split at hl
    · obtain ⟨l₁, l₂, hl₁, hl₂, rfl⟩ := either_eq_some hl
      rcases List.mem_append.1 hs' with hs' | hs'
      · exact ⟨s₁, List.mem_cons_self, matchesAll_of_mem_after hl₁ hs' h⟩
      · obtain ⟨s, hs, hm⟩ := ih hl₂ hs'
        exact ⟨s, List.mem_cons_of_mem _ hs, hm⟩
    · cases hl

/-- What is matched behind some letters is matched by one of the lists that are left. -/
theorem MatchesAll.reach (hl : Ebnf.reach rules l u = some l') (hs : s ∈ l)
    (h : MatchesAll Eq rules (s ++ k) (u ++ w)) : ∃ s' ∈ l', MatchesAll Eq rules (s' ++ k) w := by
  induction u generalizing l s with
  | nil =>
    cases hl
    exact ⟨s, hs, h⟩
  | cons a u ih =>
    rw [Ebnf.reach, Option.bind_eq_some_iff] at hl
    obtain ⟨l₁, hl₁, hl⟩ := hl
    obtain ⟨s₁, hs₁, h₁⟩ := exists_afterAny hl₁ hs h
    exact ih hl (List.mem_eraseDups.2 hs₁) h₁

theorem exists_of_mem_reach (hl : reach rules l u = some l') (hs' : s' ∈ l')
    (h : MatchesAll Eq rules (s' ++ k) w) : ∃ s ∈ l, MatchesAll Eq rules (s ++ k) (u ++ w) := by
  induction u generalizing l with
  | nil =>
    cases hl
    exact ⟨s', hs', h⟩
  | cons a u ih =>
    rw [reach, Option.bind_eq_some_iff] at hl
    obtain ⟨l₁, hl₁, hl⟩ := hl
    obtain ⟨s₁, hs₁, h₁⟩ := ih hl
    exact exists_of_mem_afterAny hl₁ (List.mem_eraseDups.1 hs₁) h₁

/-- Letters are matched if they lead to a list that matches what is behind them. -/
theorem MatchesAll.of_leads (hu : leads rules s u s' = true) (h : MatchesAll Eq rules (s' ++ k) w) :
    MatchesAll Eq rules (s ++ k) (u ++ w) := by
  rw [leads, Option.any_eq_true] at hu
  obtain ⟨l, hl, hs'⟩ := hu
  obtain ⟨s₁, hs₁, hm⟩ := exists_of_mem_reach hl (List.contains_iff_mem.1 hs') h
  rwa [List.mem_singleton.1 hs₁] at hm

/-- The list, and what is left of it without optional expressions in front. -/
def skips : List (Ebnf T R) → List (List (Ebnf T R))
  | .opt x :: s => (.opt x :: s) :: skips s
  | .many x :: s => (.many x :: s) :: skips s
  | s => [s]

omit [DecidableEq T] [DecidableEq R] in
theorem matchesAll_of_mem_skips (hs : s' ∈ skips s) (h : MatchesAll Eq rules (s' ++ k) w) :
    MatchesAll Eq rules (s ++ k) w := by
  fun_induction skips s with
  | case1 x s ih =>
    rcases List.mem_cons.1 hs with rfl | hs
    · exact h
    · exact .cons (u := []) .without (ih hs)
  | case2 x s ih =>
    rcases List.mem_cons.1 hs with rfl | hs
    · exact h
    · exact .cons (u := []) .done (ih hs)
  | case3 s => exact List.mem_singleton.1 hs ▸ h

variable (rules) in
/-- Behind some letters an expression is left, and behind the expression and some more letters
    a list. -/
def leadsAround (s : List (Ebnf T R)) (u : List T) (x : Ebnf T R) (v : List T) (s' : List (Ebnf T R)) :
    Bool :=
  (reach rules [s] u).any fun l => (l.flatMap skips).any fun
    | [] => false
    | y :: k => y == x && leads rules k v s'

theorem MatchesAll.of_leadsAround {x : Ebnf T R} {v z : List T} (hs : leadsAround rules s u x v s' = true)
    (hx : Matches Eq rules x z) (h : MatchesAll Eq rules (s' ++ k) w) :
    MatchesAll Eq rules (s ++ k) (u ++ (z ++ (v ++ w))) := by
  rw [leadsAround, Option.any_eq_true] at hs
  obtain ⟨l, hl, hs⟩ := hs
  obtain ⟨s₁, hs₁, hs⟩ := List.any_eq_true.1 hs
  obtain ⟨s₂, hs₂, hskip⟩ := List.mem_flatMap.1 hs₁
  cases s₁ with
  | nil => cases hs
  | cons y k₁ =>
    simp only [Bool.and_eq_true, beq_iff_eq] at hs
    have hbehind : MatchesAll Eq rules (y :: k₁ ++ k) (z ++ (v ++ w)) :=
      .cons (hs.1 ▸ hx) (.of_leads hs.2 h)
    obtain ⟨s₃, hs₃, hm⟩ := exists_of_mem_reach hl hs₂ (matchesAll_of_mem_skips hskip hbehind)
    rwa [List.mem_singleton.1 hs₃] at hm

omit [DecidableEq T] [DecidableEq R] in
/-- What is matched in front of a letter. -/
theorem MatchesAll.without_last {x : Ebnf T R} {t : T} (h : MatchesAll Eq rules [x, .term t] (w ++ [t])) :
    Matches Eq rules x w := by
  obtain ⟨u, v, huv, hx, ht⟩ := matches_seq.1 h.pair
  obtain ⟨a, rfl, rfl⟩ := matches_term.1 ht
  rwa [List.append_inj_left' huv rfl]

/-- A phrase of known letters; the letter behind it may be any. -/
theorem matches_of_leads {x : Ebnf T R} {t : T} (h : leads rules [x, .term t] (w ++ [t]) [] = true) :
    Matches Eq rules x w := by
  have hall := MatchesAll.of_leads (k := []) (w := []) h .nil
  rw [List.append_nil, List.append_nil] at hall
  exact hall.without_last

/-- A phrase of known letters around another one. -/
theorem matches_of_leadsAround {x z : Ebnf T R} {t : T} {v : List T}
    (hs : leadsAround rules [x, .term t] u z (v ++ [t]) [] = true) (hz : Matches Eq rules z w) :
    Matches Eq rules x (u ++ (w ++ v)) := by
  have hall := MatchesAll.of_leadsAround (k := []) (w := []) hs hz .nil
  rw [List.append_nil, List.append_nil, ← List.append_assoc, ← List.append_assoc] at hall
  have hx := hall.without_last
  rwa [List.append_assoc] at hx

end

/-! ## Repetitions -/

section

variable {fits : T → α → Prop} {rules : R → Ebnf T R} {x : Ebnf T R} {ws : List (List α)}

theorem matches_many (h : ∀ w ∈ ws, Matches fits rules x w) : Matches fits rules (.many x) ws.flatten := by
  induction ws with
  | nil => exact .done
  | cons w ws ih =>
    rw [List.forall_mem_cons] at h
    exact .more h.1 (ih h.2)

/-- Words with a letter between neighbours. -/
theorem matches_list {t : T} {a : α} (ht : fits t a) (hne : ws ≠ []) (h : ∀ w ∈ ws, Matches fits rules x w) :
    Matches fits rules (list x (.term t)) ([a].intercalate ws) := by
  cases ws with
  | nil => exact absurd rfl hne
  | cons w ws =>
    rw [List.forall_mem_cons] at h
    have hmore : Matches fits rules (.many (.term t ++ x)) (ws.flatMap (a :: ·)) := by
      refine matches_many fun v hv => ?_
      obtain ⟨v, hmem, rfl⟩ := List.mem_map.1 hv
      exact .seq (u := [a]) (.term ht) (h.2 v hmem)
    have hword : [a].intercalate (w :: ws) = w ++ ws.flatMap (a :: ·) := by
      clear h hmore hne
      induction ws generalizing w with
      | nil => simp
      | cons v ws ih =>
        rw [List.intercalate_cons_cons, ih, List.flatMap_cons, List.append_assoc]
        rfl
    rw [hword]
    exact .seq h.1 hmore

end

/-! ## Behind a letter in the middle -/

/-- The terminals and rules of an expression, each with what is to be matched behind it. -/
def spots : Ebnf T R → List ((T ⊕ R) × List (Ebnf T R))
  | .term t => [(.inl t, [])]
  | .rule r => [(.inr r, [])]
  | .seq x y => x.spots.map (fun p => (p.1, p.2 ++ [y])) ++ y.spots
  | .alt x y => x.spots ++ y.spots
  | .opt x => x.spots
  | .many x => x.spots.map fun p => (p.1, p.2 ++ [.many x])

section

variable {rules : R → Ebnf T R} {P : R → List (Ebnf T R) → Prop} {a : T}

/-- What is to be matched behind a letter of an expression, if `P` tells it for the rules. -/
def Behind (P : R → List (Ebnf T R) → Prop) (a : T) (x : Ebnf T R) (k : List (Ebnf T R)) : Prop :=
  ∃ p ∈ x.spots, (p.1 = .inl a ∧ k = p.2) ∨ ∃ r k', p.1 = .inr r ∧ P r k' ∧ k = k' ++ p.2

theorem Behind.map {x y : Ebnf T R} {z k : List (Ebnf T R)}
    (h : ∀ p ∈ x.spots, (p.1, p.2 ++ z) ∈ y.spots) (hk : Behind P a x k) : Behind P a y (k ++ z) := by
  obtain ⟨p, hp, ⟨hpa, rfl⟩ | ⟨r, k', hpr, hr, rfl⟩⟩ := hk
  · exact ⟨_, h p hp, Or.inl ⟨hpa, rfl⟩⟩
  · exact ⟨_, h p hp, Or.inr ⟨r, k', hpr, hr, List.append_assoc _ _ _⟩⟩

theorem Behind.mono {x y : Ebnf T R} {k : List (Ebnf T R)} (h : ∀ p ∈ x.spots, p ∈ y.spots)
    (hk : Behind P a x k) : Behind P a y k := by
  obtain ⟨p, hp, hpk⟩ := hk
  exact ⟨p, h p hp, hpk⟩

/-- A letter of two words is a letter of the second, or of the first with the second behind. -/
theorem append_eq_append_cons {wx wy u v : List T} (h : wx ++ wy = u ++ a :: v) :
    (∃ u', wy = u' ++ a :: v) ∨ ∃ v', wx = u ++ a :: v' ∧ v = v' ++ wy := by
  rcases List.append_eq_append_iff.1 h with ⟨u', -, hwy⟩ | ⟨v', hwx, hv⟩
  · exact Or.inl ⟨u', hwy⟩
  · cases v' with
    | nil => exact Or.inl ⟨[], hv.symm⟩
    | cons b v' =>
      rw [List.cons_append, List.cons.injEq] at hv
      obtain ⟨rfl, hv⟩ := hv
      exact Or.inr ⟨v', hwx, hv⟩

variable (hterm : ∀ r k, (.inl a, k) ∈ (rules r).spots → P r k)
  (hrule : ∀ r r' k k', (.inr r', k) ∈ (rules r).spots → P r' k' → P r (k' ++ k))
include hterm hrule

theorem exists_behind_of_matches {x : Ebnf T R} {w u v : List T} (h : Matches Eq rules x w)
    (hw : w = u ++ a :: v) : ∃ k, Behind P a x k ∧ MatchesAll Eq rules k v := by
  induction h generalizing u v with
  | @term t b hb =>
    cases u with
    | nil =>
      obtain ⟨rfl, rfl⟩ := List.cons.inj hw
      exact ⟨[], ⟨_, List.mem_singleton.2 rfl, Or.inl ⟨by rw [hb], rfl⟩⟩, .nil⟩
    | cons c u => simp at hw
  | @rule r w _ ih =>
    obtain ⟨k, ⟨p, hp, hpk⟩, hk⟩ := ih hw
    refine ⟨k, ⟨(.inr r, []), List.mem_singleton.2 rfl, Or.inr ⟨r, k, rfl, ?_, ?_⟩⟩, hk⟩
    · rcases hpk with ⟨hpa, rfl⟩ | ⟨r', k', hpr, hr', rfl⟩
      · exact hterm r _ (hpa ▸ hp)
      · exact hrule r r' _ _ (hpr ▸ hp) hr'
    · rw [List.append_nil]
  | @seq x y wx wy hx hy ihx ihy =>
    rcases append_eq_append_cons hw with ⟨u', hwy⟩ | ⟨v', hwx, rfl⟩
    · obtain ⟨k, hk, hmatch⟩ := ihy hwy
      exact ⟨k, hk.mono fun p hp => List.mem_append_right _ hp, hmatch⟩
    · obtain ⟨k, hk, hmatch⟩ := ihx hwx
      refine ⟨k ++ [y], hk.map fun p hp => ?_, hmatch.append (.single hy)⟩
      exact List.mem_append_left _ (List.mem_map_of_mem hp)
  | left _ ih =>
    obtain ⟨k, hk, hmatch⟩ := ih hw
    exact ⟨k, hk.mono fun p hp => List.mem_append_left _ hp, hmatch⟩
  | right _ ih =>
    obtain ⟨k, hk, hmatch⟩ := ih hw
    exact ⟨k, hk.mono fun p hp => List.mem_append_right _ hp, hmatch⟩
  | without => simp at hw
  | within _ ih =>
    obtain ⟨k, hk, hmatch⟩ := ih hw
    exact ⟨k, hk, hmatch⟩
  | done => simp at hw
  | @more x wx wy hx hy ihx ihy =>
    rcases append_eq_append_cons hw with ⟨u', hwy⟩ | ⟨v', hwx, rfl⟩
    · exact ihy hwy
    · obtain ⟨k, hk, hmatch⟩ := ihx hwx
      refine ⟨k ++ [.many x], hk.map fun p hp => ?_, hmatch.append (.single hy)⟩
      exact List.mem_map_of_mem hp

/-- Behind a letter of a word of a rule comes what `P` tells. -/
theorem exists_behind {r : R} {u v : List T} (h : Matches Eq rules (.rule r) (u ++ a :: v)) :
    ∃ k, P r k ∧ MatchesAll Eq rules k v := by
  obtain ⟨k, ⟨p, hp, hpk⟩, hk⟩ := exists_behind_of_matches hterm hrule h rfl
  rw [List.mem_singleton.1 hp] at hpk
  rcases hpk with ⟨hpa, -⟩ | ⟨r', k', hpr, hr, rfl⟩
  · cases hpa
  · cases hpr
    exact ⟨k', hr, by simpa using hk⟩

end

end ServiceSchema.Go.Ebnf
