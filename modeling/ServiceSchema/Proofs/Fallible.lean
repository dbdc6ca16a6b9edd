/-
  ServiceSchema.Proofs.Fallible — computations that may fail.

  A sequence of steps succeeds exactly when every step does, and its fault is the fault
  of one of its steps. `FailsOnlyWith P` says that every fault of a computation has `P`;
  it is kept by sequencing and by running over a list.

  A computation that only checks comes down to a flat list of checks, each of which passes
  (`none`) or has a fault, and ends in the first fault of the list (`firstFault`).
-/
import Mathlib.Data.List.Forall2

namespace ServiceSchema.Fallible

variable {ε α β : Type}

/-! ## Success -/

theorem ok_bind (a : α) (f : α → Except ε β) : ((.ok a : Except ε α) >>= f) = f a := rfl

theorem bind_eq_ok {x : Except ε α} {f : α → Except ε β} {b : β} :
    (x >>= f) = .ok b ↔ ∃ a, x = .ok a ∧ f a = .ok b := by
  cases x <;> simp [bind, Except.bind]

theorem pure_eq_ok {a b : α} : (pure a : Except ε α) = .ok b ↔ a = b := by
  simp [pure, Except.pure]

theorem toOption_eq_some {x : Except ε α} {a : α} : x.toOption = some a ↔ x = .ok a := by
  cases x <;> simp [Except.toOption]

theorem seq_eq_ok {x : Except ε Unit} {y : Except ε β} {b : β} :
    (x >>= fun _ => y) = .ok b ↔ x = .ok () ∧ y = .ok b := by
  rw [bind_eq_ok]
  constructor
  · intro h; obtain ⟨⟨⟩, hx, hy⟩ := h; exact ⟨hx, hy⟩
  · intro h; obtain ⟨hx, hy⟩ := h; exact ⟨(), hx, hy⟩

theorem exists_bind_pure_eq_ok {x : Except ε α} {g : α → β} :
    (∃ b, (x >>= fun a => pure (g a)) = .ok b) ↔ ∃ a, x = .ok a := by
  cases x with
  | error e => simp [bind, Except.bind]
  | ok a => exact ⟨fun _ => ⟨a, rfl⟩, fun _ => ⟨g a, rfl⟩⟩

theorem forM_eq_ok {f : α → Except ε Unit} {xs : List α} :
    xs.forM f = .ok () ↔ ∀ x ∈ xs, f x = .ok () := by
  induction xs with
  | nil => simp [List.forM, pure, Except.pure]
  | cons x xs ih =>
    show (f x >>= fun _ => xs.forM f) = .ok () ↔ _
    rw [seq_eq_ok, ih, List.forall_mem_cons]

theorem mapM_cons_eq_ok {f : α → Except ε β} {x : α} {xs : List α} {ys : List β} :
    (x :: xs).mapM f = .ok ys ↔ ∃ y, f x = .ok y ∧ ∃ ys', xs.mapM f = .ok ys' ∧ y :: ys' = ys := by
  rw [List.mapM_cons, bind_eq_ok]
  simp only [bind_eq_ok, pure_eq_ok]

/-- Running over a list gives the same results where each step does. -/
theorem mapM_eq_ok_of_imp {f g : α → Except ε β} {xs : List α} {ys : List β}
    (h : ∀ x ∈ xs, ∀ y, f x = .ok y → g x = .ok y) (hf : xs.mapM f = .ok ys) : xs.mapM g = .ok ys := by
  induction xs generalizing ys with
  | nil => exact hf
  | cons x xs ih =>
    rw [List.forall_mem_cons] at h
    rw [mapM_cons_eq_ok] at hf ⊢
    obtain ⟨y, hy, ys', hys, rfl⟩ := hf
    exact ⟨y, h.1 y hy, ys', ih h.2 hys, rfl⟩

/-- A run over a list succeeds with the results of its steps, in order. -/
theorem mapM_eq_ok {f : α → Except ε β} {xs : List α} {ys : List β} :
    xs.mapM f = .ok ys ↔ List.Forall₂ (fun x y => f x = .ok y) xs ys := by
  induction xs generalizing ys with
  | nil => rw [List.mapM_nil, pure_eq_ok, List.forall₂_nil_left_iff, eq_comm]
  | cons x xs ih =>
    simp only [mapM_cons_eq_ok, List.forall₂_cons_left_iff, ih]
    constructor
    · intro h; obtain ⟨y, hx, ys', hxs, heq⟩ := h; exact ⟨y, ys', hx, hxs, heq.symm⟩
    · intro h; obtain ⟨y, ys', hx, hxs, heq⟩ := h; exact ⟨y, hx, ys', hxs, heq.symm⟩

theorem exists_mapM_eq_ok {f : α → Except ε β} {xs : List α} :
    (∃ ys, xs.mapM f = .ok ys) ↔ ∀ x ∈ xs, ∃ y, f x = .ok y := by
  induction xs with
  | nil => exact ⟨fun _ x hx => (List.not_mem_nil hx).elim, fun _ => ⟨[], rfl⟩⟩
  | cons x xs ih =>
    rw [List.forall_mem_cons, ← ih]
    simp only [mapM_cons_eq_ok]
    constructor
    · intro h; obtain ⟨_, y, hx, ys, hxs, -⟩ := h; exact ⟨⟨y, hx⟩, ys, hxs⟩
    · intro h; obtain ⟨⟨y, hx⟩, ys, hxs⟩ := h; exact ⟨_, y, hx, ys, hxs, rfl⟩

/-- A run over a list whose steps can only give `g x` gives `g` of every element. -/
theorem mapM_eq_map {f : α → Except ε β} {g : α → β} {xs : List α} {ys : List β}
    (hf : ∀ x ∈ xs, ∀ y, f x = .ok y → y = g x) (h : xs.mapM f = .ok ys) : ys = xs.map g := by
  induction xs generalizing ys with
  | nil => exact (pure_eq_ok.1 h).symm
  | cons x xs ih =>
    obtain ⟨y, hx, ys', hxs, rfl⟩ := mapM_cons_eq_ok.1 h
    rw [List.forall_mem_cons] at hf
    rw [hf.1 y hx, ih hf.2 hxs, List.map_cons]

/-! ## Failure -/

theorem bind_eq_error {x : Except ε α} {f : α → Except ε β} {e : ε} :
    (x >>= f) = .error e ↔ x = .error e ∨ ∃ a, x = .ok a ∧ f a = .error e := by
  cases x <;> simp [bind, Except.bind]

theorem bind_pure_eq_error {x : Except ε α} {g : α → β} {e : ε} :
    (x >>= fun a => pure (g a)) = .error e ↔ x = .error e := by
  cases x <;> simp [bind, Except.bind, pure, Except.pure]

/-- A run over a list ends in the fault of the first step that fails. -/
theorem mapM_eq_error {f : α → Except ε β} {xs : List α} {e : ε} :
    xs.mapM f = .error e ↔ ∃ before x after, xs = before ++ x :: after ∧
      (∀ x' ∈ before, ∃ y, f x' = .ok y) ∧ f x = .error e := by
  induction xs with
  | nil => simp [pure, Except.pure]
  | cons x xs ih =>
    rw [List.mapM_cons, bind_eq_error]
    simp only [bind_pure_eq_error, ih]
    constructor
    · intro h
      rcases h with hx | ⟨y, hx, before, x', after, rfl, hbefore, hx'⟩
      · exact ⟨[], x, xs, rfl, List.forall_mem_nil _, hx⟩
      · exact ⟨x :: before, x', after, rfl, List.forall_mem_cons.2 ⟨⟨y, hx⟩, hbefore⟩, hx'⟩
    · intro h
      obtain ⟨before, x', after, heq, hbefore, hx'⟩ := h
      cases before with
      | nil =>
        cases heq
        exact .inl hx'
      | cons first before =>
        cases heq
        obtain ⟨⟨y, hx⟩, hbefore⟩ := List.forall_mem_cons.1 hbefore
        exact .inr ⟨y, hx, before, x', after, rfl, hbefore, hx'⟩

/-- Whatever fault a computation ends in, it has `P`. -/
def FailsOnlyWith (P : ε → Prop) (x : Except ε α) : Prop := ∀ e, x = .error e → P e

variable {P : ε → Prop}

theorem failsOnlyWith_ok (a : α) : FailsOnlyWith P (.ok a : Except ε α) := by
  intro e h; cases h

theorem failsOnlyWith_error {e : ε} (h : P e) : FailsOnlyWith P (.error e : Except ε α) := by
  intro e' h'; cases h'; exact h

theorem FailsOnlyWith.bind {x : Except ε α} {f : α → Except ε β} (hx : FailsOnlyWith P x)
    (hf : ∀ a, FailsOnlyWith P (f a)) : FailsOnlyWith P (x >>= f) := by
  cases x with
  | error e => intro e' h; cases h; exact hx e rfl
  | ok a => exact hf a

theorem failsOnlyWith_forM {f : α → Except ε Unit} (hf : ∀ a, FailsOnlyWith P (f a)) (xs : List α) :
    FailsOnlyWith P (xs.forM f) := by
  induction xs with
  | nil => exact failsOnlyWith_ok ()
  | cons x xs ih => exact (hf x).bind fun _ => ih

theorem failsOnlyWith_mapM {f : α → Except ε β} (hf : ∀ a, FailsOnlyWith P (f a)) (xs : List α) :
    FailsOnlyWith P (xs.mapM f) := by
  induction xs with
  | nil => exact failsOnlyWith_ok []
  | cons x xs ih =>
    rw [List.mapM_cons]
    exact (hf x).bind fun y => ih.bind fun ys => failsOnlyWith_ok (y :: ys)

/-! ## The first fault -/

/-- A computation without its result. -/
def outcome (x : Except ε α) : Except ε Unit := x >>= fun _ => .ok ()

theorem outcome_eq_ok {x : Except ε α} : outcome x = .ok () ↔ ∃ a, x = .ok a := by
  cases x <;> simp [outcome, bind, Except.bind]

theorem outcome_eq_error {x : Except ε α} {e : ε} : outcome x = .error e ↔ x = .error e := by
  cases x <;> simp [outcome, bind, Except.bind]

theorem outcome_unit (x : Except ε Unit) : outcome x = x := by cases x <;> rfl

theorem outcome_bind {x : Except ε α} {f : α → Except ε β} {y : Except ε Unit}
    (h : ∀ a, x = .ok a → outcome (f a) = y) : outcome (x >>= f) = outcome x >>= fun _ => y := by
  cases x with
  | error e => rfl
  | ok a => exact h a rfl

theorem outcome_bind_pure (x : Except ε α) (g : α → β) : outcome (x >>= fun a => pure (g a)) = outcome x := by
  cases x <;> rfl

theorem outcome_mapM (f : α → Except ε β) (xs : List α) :
    outcome (xs.mapM f) = xs.forM fun x => outcome (f x) := by
  induction xs with
  | nil => rfl
  | cons x xs ih =>
    rw [List.mapM_cons]
    refine outcome_bind fun y _ => ?_
    rw [outcome_bind_pure]
    exact ih

/-- The fault of the first check that does not pass. -/
def firstFault : List (Option ε) → Except ε Unit
  | [] => .ok ()
  | none :: rest => firstFault rest
  | some e :: _ => .error e

theorem firstFault_append (xs ys : List (Option ε)) :
    firstFault (xs ++ ys) = firstFault xs >>= fun _ => firstFault ys := by
  induction xs with
  | nil => rfl
  | cons x xs ih =>
    cases x with
    | none => exact ih
    | some e => rfl

theorem firstFault_cons (x : Option ε) (xs : List (Option ε)) :
    firstFault (x :: xs) = firstFault [x] >>= fun _ => firstFault xs := firstFault_append [x] xs

theorem firstFault_flatMap (f : α → List (Option ε)) (xs : List α) :
    firstFault (xs.flatMap f) = xs.forM fun x => firstFault (f x) := by
  induction xs with
  | nil => rfl
  | cons x xs ih =>
    rw [List.flatMap_cons, firstFault_append, ih]
    rfl

theorem firstFault_map (f : α → Option ε) (xs : List α) :
    firstFault (xs.map f) = xs.forM fun x => firstFault [f x] := by
  rw [List.map_eq_flatMap, firstFault_flatMap]

/-- The first fault is that of a check before which all checks pass. -/
theorem firstFault_eq_error {xs : List (Option ε)} {e : ε} :
    firstFault xs = .error e ↔ ∃ before after, xs = before ++ some e :: after ∧ ∀ x ∈ before, x = none := by
  induction xs with
  | nil => simp [firstFault]
  | cons x xs ih =>
    cases x with
    | some e' =>
      constructor
      · intro h
        cases h
        exact ⟨[], xs, rfl, List.forall_mem_nil _⟩
      · intro h
        obtain ⟨before, after, heq, hbefore⟩ := h
        cases before with
        | nil =>
          cases heq
          rfl
        | cons y before =>
          cases heq
          cases hbefore _ List.mem_cons_self
    | none =>
      rw [firstFault, ih]
      constructor
      · intro h
        obtain ⟨before, after, rfl, hbefore⟩ := h
        exact ⟨none :: before, after, rfl, List.forall_mem_cons.2 ⟨rfl, hbefore⟩⟩
      · intro h
        obtain ⟨before, after, heq, hbefore⟩ := h
        cases before with
        | nil => cases heq
        | cons y before =>
          cases heq
          exact ⟨before, after, rfl, (List.forall_mem_cons.1 hbefore).2⟩

end ServiceSchema.Fallible
