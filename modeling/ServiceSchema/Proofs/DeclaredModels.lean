/-
  ServiceSchema.Proofs.DeclaredModels — which models are declared after a run of calls.

  Models are declared one by one or a definition at a time. A call that fails does not end
  the run: the models of a definition stay declared up to the one that is refused, and the
  calls after it start from there. What a run comes to is told by its attempts, each of them
  one name put forward and the answer to it; a definition is attempted up to the first name
  that is refused.

  - `Tracks`: the declared models are the names that were attempted, and every attempt was
    answered by the ones before it. `Tracks.declareAll` is one call, `Tracks.after` a run.
  - `collect_eq_error`: declaring a definition stops at the first model that is there already.
  - `declared_along_run`: all of it for every run from no models.
-/
import Mathlib.Data.List.Dedup
import ServiceSchema.Proofs.Acceptance

namespace ServiceSchema

namespace Models

/-! ## Runs -/

/-- One model declared, or those of a definition. -/
inductive Call where
  | declare (name : String)
  | collect (d : Definition)

def Call.names : Call → List String
  | .declare name => [name]
  | .collect d => d.models.keys

/-- The models after a call, and its answer. A name that is refused leaves them as they are. -/
def call (ms : Models) : Call → Models × Except SchemaFault Unit
  | .declare name =>
    match ms.declare name with
    | .error fault => (ms, .error fault)
    | .ok ms' => (ms', .ok ())
  | .collect d => ms.collect d

def after (ms : Models) : List Call → Models
  | [] => ms
  | c :: rest => (ms.call c).1.after rest

structure Attempt where
  name : String
  answer : Except SchemaFault Unit
  deriving DecidableEq

/-- The attempts made while names are declared in order; one that fails is the last. -/
def attempts (ms : Models) : List String → List Attempt
  | [] => []
  | name :: rest =>
    match ms.declare name with
    | .error fault => [⟨name, .error fault⟩]
    | .ok ms' => ⟨name, .ok ()⟩ :: ms'.attempts rest

def history (ms : Models) : List Call → List Attempt
  | [] => []
  | c :: rest => ms.attempts c.names ++ (ms.call c).1.history rest

/-- The answer to the last attempt. A call without a name succeeds. -/
def lastAnswer (made : List Attempt) : Except SchemaFault Unit :=
  (made.getLast?.map (·.answer)).getD (.ok ())

variable {ms : Models} {name : String}

theorem call_eq_declareAll (ms : Models) (c : Call) : ms.call c = ms.declareAll c.names := by
  cases c with
  | declare name =>
    rw [call, Call.names, declareAll]
    cases ms.declare name <;> rfl
  | collect d => rfl

theorem lastAnswer_cons_ok (name : String) (made : List Attempt) :
    lastAnswer (⟨name, .ok ()⟩ :: made) = lastAnswer made := by
  cases made with
  | nil => rfl
  | cons a rest => rw [lastAnswer, lastAnswer, List.getLast?_cons_cons]

theorem declareAll_snd_eq_lastAnswer (ms : Models) (names : List String) :
    (ms.declareAll names).2 = lastAnswer (ms.attempts names) := by
  induction names generalizing ms with
  | nil => rfl
  | cons name rest ih =>
    rw [declareAll, attempts]
    cases ms.declare name with
    | error fault => rfl
    | ok ms' => exact (ih ms').trans (lastAnswer_cons_ok name _).symm

/-! ## One attempt after the other -/

/-- After earlier attempts a name is refused as a duplicate exactly if one of them added it,
    and added otherwise. -/
structure AnsweredAfter (earlier : List Attempt) (a : Attempt) : Prop where
  refused : a.answer = .error (.duplicateModel a.name) ↔ ⟨a.name, .ok ()⟩ ∈ earlier
  added : a.answer = .ok () ↔ ⟨a.name, .ok ()⟩ ∉ earlier

/-- What models know of the attempts that were made on them. -/
structure Tracks (past : List Attempt) (ms : Models) : Prop where
  distinct : ms.names.Nodup
  attempted : ∀ name, name ∈ ms.names ↔ name ∈ past.map (·.name)
  added : ∀ name, name ∈ ms.names ↔ ⟨name, .ok ()⟩ ∈ past
  answered : ∀ earlier a later, past = earlier ++ a :: later → AnsweredAfter earlier a

namespace Tracks

variable {past : List Attempt}

theorem empty : Tracks [] Models.empty where
  distinct := List.nodup_nil
  attempted name := by simp [Models.empty]
  added name := by simp [Models.empty]
  answered earlier a later h := by simp at h

theorem answered_concat (h : Tracks past ms) {a : Attempt} (ha : AnsweredAfter past a)
    {earlier later : List Attempt} {b : Attempt} (heq : past ++ [a] = earlier ++ b :: later) :
    AnsweredAfter earlier b := by
  rcases List.eq_nil_or_concat' later with rfl | ⟨later, last, rfl⟩
  · obtain ⟨rfl, hb⟩ := List.append_inj' heq rfl
    cases hb
    exact ha
  · rw [← List.cons_append, ← List.append_assoc] at heq
    exact h.answered earlier b later (List.append_inj' heq rfl).1

theorem attempt_new (h : Tracks past ms) (hname : name ∉ ms.names) :
    Tracks (past ++ [⟨name, .ok ()⟩]) ⟨name :: ms.names⟩ where
  distinct := List.nodup_cons.2 ⟨hname, h.distinct⟩
  attempted other := by
    rw [List.map_append, List.map_singleton, List.mem_append, List.mem_singleton, List.mem_cons,
      h.attempted, or_comm]
  added other := by
    rw [List.mem_append, List.mem_singleton, Attempt.mk.injEq, and_iff_left rfl, List.mem_cons,
      h.added, or_comm]
  answered _ _ _ heq := by
    have hnone : ⟨name, .ok ()⟩ ∉ past := fun hmem => hname ((h.added name).2 hmem)
    exact h.answered_concat ⟨by simp [hnone], by simp [hnone]⟩ heq

theorem attempt_known (h : Tracks past ms) (hname : name ∈ ms.names) :
    Tracks (past ++ [⟨name, .error (.duplicateModel name)⟩]) ms where
  distinct := h.distinct
  attempted other := by
    rw [List.map_append, List.map_singleton, List.mem_append, List.mem_singleton, ← h.attempted]
    constructor
    · exact Or.inl
    · rintro (hmem | rfl)
      · exact hmem
      · exact hname
  added other := by simp [h.added]
  answered _ _ _ heq := by
    have hsome : ⟨name, .ok ()⟩ ∈ past := (h.added name).1 hname
    exact h.answered_concat ⟨by simp [hsome], by simp [hsome]⟩ heq

theorem declareAll (h : Tracks past ms) (names : List String) :
    Tracks (past ++ ms.attempts names) (ms.declareAll names).1 := by
  induction names generalizing past ms with
  | nil => rwa [attempts, List.append_nil]
  | cons name rest ih =>
    by_cases hname : name ∈ ms.names
    · rw [attempts, Models.declareAll, declare_of_mem hname]
      exact h.attempt_known hname
    · have hrest := ih (h.attempt_new hname)
      rw [List.append_assoc, List.singleton_append] at hrest
      rwa [attempts, Models.declareAll, declare_of_not_mem hname]

/-- Calls in order. Each starts from what the one before it left, also where that one failed. -/
theorem after (h : Tracks past ms) (calls : List Call) :
    Tracks (past ++ ms.history calls) (ms.after calls) := by
  induction calls generalizing past ms with
  | nil => rwa [history, List.append_nil]
  | cons c rest ih =>
    have hcall : Tracks (past ++ ms.attempts c.names) (ms.call c).1 := by
      rw [call_eq_declareAll]
      exact h.declareAll c.names
    have hrest := ih hcall
    rwa [List.append_assoc] at hrest

theorem size_eq (h : Tracks past ms) : ms.size = (past.map (·.name)).dedup.length := by
  refine List.Perm.length_eq ((List.perm_ext_iff_of_nodup h.distinct (List.nodup_dedup _)).2 fun name => ?_)
  rw [h.attempted, List.mem_dedup]

end Tracks

/-! ## Where a definition stops -/

/-- The first model of a definition that is there already, and those before it. -/
structure StopsAt (ms : Models) (d : Definition) (kept : List String) (name : String) : Prop where
  first : ∃ rest, d.models.keys = kept ++ name :: rest
  new : ∀ k ∈ kept, ms.contains k = false
  present : ms.contains name = true

theorem contains_eq_true : ms.contains name = true ↔ name ∈ ms.names := List.contains_iff_mem

theorem contains_eq_false : ms.contains name = false ↔ name ∉ ms.names := by
  rw [← contains_eq_true, Bool.not_eq_true]

theorem declareAll_append {names : List String} (h : (ms.declareAll names).2 = .ok ())
    (rest : List String) : ms.declareAll (names ++ rest) = (ms.declareAll names).1.declareAll rest := by
  induction names generalizing ms with
  | nil => rfl
  | cons name names ih =>
    rw [declareAll] at h
    rw [List.cons_append, declareAll, declareAll]
    cases hname : ms.declare name with
    | error fault => rw [hname] at h; cases h
    | ok ms' => rw [hname] at h; exact ih h

variable {d : Definition} {kept : List String} {fault : SchemaFault}

theorem StopsAt.collect_eq (h : StopsAt ms d kept name) :
    ms.collect d = (⟨kept.reverse ++ ms.names⟩, .error (.duplicateModel name)) := by
  obtain ⟨rest, hkeys⟩ := h.first
  have hdistinct : (kept ++ name :: rest).Nodup := hkeys ▸ d.models.nodup_keys
  have hok : (ms.declareAll kept).2 = .ok () :=
    declareAll_snd_eq_ok.2 ⟨(List.nodup_append.1 hdistinct).1, fun k hk => contains_eq_false.1 (h.new k hk)⟩
  have hmem : name ∈ kept.reverse ++ ms.names := List.mem_append_right _ (contains_eq_true.1 h.present)
  rw [collect, hkeys, declareAll_append hok, declareAll_fst_of_ok hok, declareAll, declare_of_mem hmem]

theorem collect_eq_error :
    (ms.collect d).2 = .error fault ↔ ∃ kept name, StopsAt ms d kept name ∧ fault = .duplicateModel name := by
  constructor
  · intro h
    cases hfind : d.models.keys.find? ms.contains with
    | none =>
      have hnew : ∀ k ∈ d.models.keys, k ∉ ms.names := fun k hk =>
        fun hmem => List.find?_eq_none.1 hfind k hk (contains_eq_true.2 hmem)
      rw [collect, declareAll_snd_eq_ok.2 ⟨d.models.nodup_keys, hnew⟩] at h
      cases h
    | some name =>
      obtain ⟨hpresent, kept, rest, hkeys, hnew⟩ := List.find?_eq_some_iff_append.1 hfind
      have hstop : StopsAt ms d kept name := ⟨⟨rest, hkeys⟩, fun k hk => by simpa using hnew k hk, hpresent⟩
      rw [hstop.collect_eq] at h
      cases h
      exact ⟨kept, name, hstop, rfl⟩
  · rintro ⟨kept, name, hstop, rfl⟩
    rw [hstop.collect_eq]

/-! ## Every run -/

/-- What is declared, and what is refused, along calls on no models and by the call after them. -/
structure DeclaredAlong (calls : List Call) : Prop where
  /-- A name is refused as a duplicate exactly if an earlier attempt of the run added it. -/
  answered : ∀ earlier a later, empty.history calls = earlier ++ a :: later → AnsweredAfter earlier a
  /-- A call is answered what the last of its attempts is. -/
  reported : ∀ c, ((empty.after calls).call c).2 = lastAnswer ((empty.after calls).attempts c.names)
  /-- A definition fails with the first of its models that is there already. -/
  stopped : ∀ d fault, ((empty.after calls).collect d).2 = .error fault ↔
    ∃ kept name, StopsAt (empty.after calls) d kept name ∧ fault = .duplicateModel name
  /-- Those before it are declared, and nothing else is. -/
  kept : ∀ d kept name, StopsAt (empty.after calls) d kept name → ∀ other,
    ((empty.after calls).collect d).1.contains other = true ↔
      (empty.after calls).contains other = true ∨ other ∈ kept
  /-- The models are the names attempted so far. -/
  known : ∀ name, (empty.after calls).contains name = true ↔ name ∈ (empty.history calls).map (·.name)
  /-- Each of them is counted once. -/
  counted : (empty.after calls).size = ((empty.history calls).map (·.name)).dedup.length

theorem declared_along_run (calls : List Call) : DeclaredAlong calls := by
  have h : Tracks (empty.history calls) (empty.after calls) := Tracks.empty.after calls
  refine ⟨h.answered, fun c => ?_, fun d fault => collect_eq_error, fun d kept name hstop other => ?_,
    fun name => ?_, h.size_eq⟩
  · rw [call_eq_declareAll, declareAll_snd_eq_lastAnswer]
  · rw [hstop.collect_eq, contains_eq_true, contains_eq_true, List.mem_append, List.mem_reverse, or_comm]
  · rw [contains_eq_true, h.attempted]

/-- A definition whose second model is declared before it in `shelfCalls`. -/
def shelf : Definition := ⟨.ofList [("Author", .empty), ("Book", .empty), ("Shelf", .empty)], .empty⟩

def shelfCalls : List Call := [.declare "Book", .collect shelf, .declare "Shelf", .declare "Author"]

/-- The attempts of `shelfCalls` but the last: the definition stopped in front of `Shelf`. -/
def shelfAttempts : List Attempt :=
  [⟨"Book", .ok ()⟩, ⟨"Author", .ok ()⟩, ⟨"Book", .error (.duplicateModel "Book")⟩, ⟨"Shelf", .ok ()⟩]

theorem declared_along_run_shelf :
    empty.history shelfCalls = shelfAttempts ++ [⟨"Author", .error (.duplicateModel "Author")⟩] ∧
      ⟨"Author", .ok ()⟩ ∈ shelfAttempts ∧ (empty.after shelfCalls).size = 3 ∧
      StopsAt (empty.after [.declare "Book"]) shelf ["Author"] "Book" ∧
      ∀ other, ((empty.after [.declare "Book"]).collect shelf).1.contains other = true ↔
        (empty.after [.declare "Book"]).contains other = true ∨ other ∈ ["Author"] := by
  have hhistory : empty.history shelfCalls =
      shelfAttempts ++ [⟨"Author", .error (.duplicateModel "Author")⟩] := by
    decide +kernel
  have hlast := (declared_along_run shelfCalls).answered _ _ _ hhistory
  have hcounted := (declared_along_run shelfCalls).counted
  rw [hhistory] at hcounted
  have hstop : StopsAt (empty.after [.declare "Book"]) shelf ["Author"] "Book" :=
    ⟨⟨["Shelf"], by decide +kernel⟩, by decide +kernel, by decide +kernel⟩
  exact ⟨hhistory, hlast.refused.1 rfl, hcounted.trans (by decide +kernel), hstop,
    (declared_along_run [.declare "Book"]).kept _ _ _ hstop⟩

end Models

end ServiceSchema
