/-
  ServiceSchema.Proofs.Acceptance — which batches of definitions get as far as being formatted.

  A batch is accepted (`Accepted`) when its model names are distinct, every definition is
  well named, and every written type can be read against the models of the whole batch,
  those of later definitions included. `declarations` is what happens before the formatter:
  all checks, and the declarations of the file.

  - `Definition.check_eq_ok`: the check of a definition passes exactly if it is well named.
  - `declareChecked_eq_ok`: checking and declaring a batch passes exactly if every
    definition is well named and no model is declared twice.
  - `exists_sourceOfAll_eq_ok`: there are declarations exactly if every type can be read.
  - `generateAll_formats_iff_accepted`: the formatter is reached exactly by accepted batches.
-/
import ServiceSchema.Generate
import ServiceSchema.Proofs.Fallible

namespace ServiceSchema

open Fallible

/-- The models of a batch, in order. -/
def modelNames (ds : List Definition) : List String := ds.flatMap (·.models.keys)

/-- Neither a keyword of Go nor named like a request struct. -/
def Unreserved (name : String) : Prop := name ∉ goKeywords ∧ ¬ requestSuffix.toList <:+ name.toList

namespace Definition

/-- The methods of all services. -/
def methods (d : Definition) : List (String × Method) := d.services.entries.flatMap (·.2.entries)

/-- All names but the entry `return`: models with their fields, services, and methods with
    their parameters. -/
def names (d : Definition) : List String :=
  d.models.entries.flatMap (fun m => m.1 :: m.2.keys) ++ d.services.keys ++
    d.methods.flatMap fun m => m.1 :: m.2.params.map Prod.fst

/-- The names that stand together: the fields of a model, the entries of a method with
    `return`. -/
def memberGroups (d : Definition) : List (List String) :=
  d.models.entries.map (·.2.keys) ++ d.methods.map (·.2.entries.keys)

/-- The types written for fields, parameters and returns. -/
def rawTypes (d : Definition) : List String :=
  d.models.entries.flatMap (fun m => m.2.entries.map Prod.snd) ++
    d.methods.flatMap fun m => m.2.params.map Prod.snd ++ m.2.returns.toList

/-- The naming rules of one definition. -/
structure WellNamed (d : Definition) : Prop where
  distinctMembers : ∀ group ∈ d.memberGroups, (group.map exportedName).Nodup
  unreserved : ∀ name ∈ d.names, Unreserved name
  nonempty : ∀ m ∈ d.methods, m.2.entries.entries ≠ []

end Definition

/-- What a batch has to be for its file to be written. -/
structure Accepted (ds : List Definition) : Prop where
  distinctModels : (modelNames ds).Nodup
  wellNamed : ∀ d ∈ ds, d.WellNamed
  readable : ∀ d ∈ ds, ∀ raw ∈ d.rawTypes, ∃ t, TypeExpr.read ⟨modelNames ds⟩ raw = .ok t

/-! ## The naming rules -/

theorem isReserved_eq_false {name : String} : isReserved name = false ↔ Unreserved name := by
  rw [isReserved, Bool.or_eq_false_iff, ← Bool.not_eq_true, ← Bool.not_eq_true, List.contains_iff_mem,
    List.isSuffixOf_iff_suffix, Unreserved]

theorem checkName_eq_ok {name : String} : checkName name = .ok () ↔ Unreserved name := by
  rw [← isReserved_eq_false, checkName]
  cases isReserved name <;> simp

theorem checkExported_eq_ok (seen names : List String) :
    checkExported seen names = .ok () ↔
      (names.map exportedName).Nodup ∧ ∀ name ∈ names, exportedName name ∉ seen := by
  induction names generalizing seen with
  | nil => simp [checkExported]
  | cons name rest ih =>
    by_cases h : exportedName name ∈ seen
    · simp [checkExported, h]
    · -- what is seen now is what was seen before and the new name
      have hs : ¬ seen.contains (exportedName name) = true := by rwa [List.contains_iff_mem]
      rw [checkExported, if_neg hs, ih, List.map_cons, List.nodup_cons, List.forall_mem_cons]
      simp only [List.mem_cons, not_or, List.mem_map, not_exists, not_and]
      constructor
      · intro h
        obtain ⟨hd, hs⟩ := h
        exact ⟨⟨fun n hn => (hs n hn).1, hd⟩, h, fun n hn => (hs n hn).2⟩
      · intro h
        obtain ⟨⟨hne, hd⟩, -, hs⟩ := h
        exact ⟨hd, fun n hn => ⟨hne n hn, hs n hn⟩⟩

theorem checkMembers_eq_ok {fields : Fields} :
    fields.checkMembers = .ok () ↔ (fields.keys.map exportedName).Nodup := by
  simp [Table.checkMembers, checkExported_eq_ok]

theorem checkModel_eq_ok {name : String} {model : Model} :
    checkModel name model = .ok () ↔
      (model.keys.map exportedName).Nodup ∧ ∀ n ∈ name :: model.keys, Unreserved n := by
  rw [checkModel, seq_eq_ok, seq_eq_ok, checkName_eq_ok, checkMembers_eq_ok, forM_eq_ok,
    List.forall_mem_cons]
  simp only [checkName_eq_ok]
  exact and_left_comm

/-- The entry `return` is not checked for its name, every other one is. -/
theorem checkEntries_eq_ok {method : Method} :
    (method.entries.keys.forM fun key => if key = returnKey then .ok () else checkName key) = .ok () ↔
      ∀ n ∈ method.params.map Prod.fst, Unreserved n := by
  rw [forM_eq_ok]
  simp only [Method.params, Table.keys, List.mem_map, List.mem_filter, forall_exists_index, and_imp,
    decide_eq_true_eq, ne_eq]
  constructor
  · intro h n e he hne hn
    subst hn
    have := h e.1 e he rfl
    rwa [if_neg hne, checkName_eq_ok] at this
  · intro h n e he hn
    subst hn
    split
    · rfl
    · rename_i hne; exact checkName_eq_ok.2 (h e.1 e he hne rfl)

theorem checkMethod_eq_ok {name : String} {method : Method} :
    checkMethod name method = .ok () ↔
      method.entries.entries ≠ [] ∧ (method.entries.keys.map exportedName).Nodup ∧
        ∀ n ∈ name :: method.params.map Prod.fst, Unreserved n := by
  rw [checkMethod, seq_eq_ok, checkName_eq_ok, List.forall_mem_cons]
  by_cases h : method.entries.entries = []
  · have he : method.entries.isEmpty = true := by rw [Table.isEmpty, h]; rfl
    simp [he, h, bind, Except.bind]
  · have he : ¬ method.entries.isEmpty = true := by rwa [Table.isEmpty, List.isEmpty_iff]
    simp only [if_neg he]
    rw [seq_eq_ok, checkMembers_eq_ok, checkEntries_eq_ok]
    constructor
    · intro h; obtain ⟨hn, hm, hp⟩ := h; exact ⟨h, hm, hn, hp⟩
    · intro h; obtain ⟨-, hm, hn, hp⟩ := h; exact ⟨hn, hm, hp⟩

theorem checkService_eq_ok {name : String} {service : Service} :
    checkService name service = .ok () ↔
      Unreserved name ∧ ∀ m ∈ service.entries, checkMethod m.1 m.2 = .ok () := by
  rw [checkService, seq_eq_ok, checkName_eq_ok, forM_eq_ok]

/-- The check of a definition passes exactly if it is well named. -/
theorem Definition.check_eq_ok {d : Definition} : d.check = .ok () ↔ d.WellNamed := by
  rw [Definition.check, seq_eq_ok, forM_eq_ok, forM_eq_ok]
  simp only [checkModel_eq_ok, checkService_eq_ok, checkMethod_eq_ok]
  constructor
  · intro h
    obtain ⟨hm, hs⟩ := h
    have hmethod : ∀ m ∈ d.methods, m.2.entries.entries ≠ [] ∧
        (m.2.entries.keys.map exportedName).Nodup ∧
        ∀ n ∈ m.1 :: m.2.params.map Prod.fst, Unreserved n := by
      intro m h
      obtain ⟨s, hs', hm'⟩ := List.mem_flatMap.1 h
      exact (hs s hs').2 m hm'
    refine ⟨fun group hg => ?_, fun name hn => ?_, fun m h => (hmethod m h).1⟩
    · rcases List.mem_append.1 hg with hg | hg
      · obtain ⟨m, h, rfl⟩ := List.mem_map.1 hg; exact (hm m h).1
      · obtain ⟨m, h, rfl⟩ := List.mem_map.1 hg; exact (hmethod m h).2.1
    · rcases List.mem_append.1 hn with hn | hn
      · rcases List.mem_append.1 hn with hn | hn
        · obtain ⟨m, h, hn⟩ := List.mem_flatMap.1 hn; exact (hm m h).2 name hn
        · obtain ⟨s, h, rfl⟩ := List.mem_map.1 hn; exact (hs s h).1
      · obtain ⟨m, h, hn⟩ := List.mem_flatMap.1 hn; exact (hmethod m h).2.2 name hn
  · intro h
    obtain ⟨hd, hu, hn⟩ := h
    refine ⟨fun m h => ⟨hd _ ?_, fun n hn => hu n ?_⟩, fun s h => ⟨hu s.1 ?_, fun m hm => ?_⟩⟩
    · exact List.mem_append_left _ (List.mem_map.2 ⟨m, h, rfl⟩)
    · exact List.mem_append_left _ (List.mem_append_left _ (List.mem_flatMap.2 ⟨m, h, hn⟩))
    · exact List.mem_append_left _ (List.mem_append_right _ (List.mem_map.2 ⟨s, h, rfl⟩))
    · have hmem : m ∈ d.methods := List.mem_flatMap.2 ⟨s, h, hm⟩
      exact ⟨hn m hmem, hd _ (List.mem_append_right _ (List.mem_map.2 ⟨m, hmem, rfl⟩)), fun n hn' =>
        hu n (List.mem_append_right _ (List.mem_flatMap.2 ⟨m, hmem, hn'⟩))⟩

/-! ## Declaring the models -/

namespace Models

theorem declare_of_mem {ms : Models} {name : String} (h : name ∈ ms.names) :
    ms.declare name = .error (.duplicateModel name) := by
  have hc : ms.contains name = true := List.contains_iff_mem.2 h
  rw [declare, if_pos hc]

theorem declare_of_not_mem {ms : Models} {name : String} (h : name ∉ ms.names) :
    ms.declare name = .ok ⟨name :: ms.names⟩ := by
  have hc : ¬ ms.contains name = true := fun hc => h (List.contains_iff_mem.1 hc)
  rw [declare, if_neg hc]

theorem declareAll_snd_eq_ok {ms : Models} {names : List String} :
    (ms.declareAll names).2 = .ok () ↔ names.Nodup ∧ ∀ name ∈ names, name ∉ ms.names := by
  induction names generalizing ms with
  | nil => simp [declareAll]
  | cons name rest ih =>
    by_cases h : name ∈ ms.names
    · simp [declareAll, declare_of_mem h, h]
    · rw [declareAll, declare_of_not_mem h]
      show (declareAll ⟨name :: ms.names⟩ rest).2 = .ok () ↔ _
      rw [ih, List.nodup_cons, List.forall_mem_cons]
      simp only [List.mem_cons, not_or]
      constructor
      · intro h
        obtain ⟨hd, hs⟩ := h
        exact ⟨⟨fun hn => (hs name hn).1 rfl, hd⟩, h, fun n hn => (hs n hn).2⟩
      · intro h
        obtain ⟨⟨hn, hd⟩, -, hs⟩ := h
        exact ⟨hd, fun n hn' => ⟨fun he => hn (he ▸ hn'), hs n hn'⟩⟩

theorem declareAll_fst_of_ok {ms : Models} {names : List String}
    (h : (ms.declareAll names).2 = .ok ()) :
    (ms.declareAll names).1 = ⟨names.reverse ++ ms.names⟩ := by
  induction names generalizing ms with
  | nil => rfl
  | cons name rest ih =>
    have hn : name ∉ ms.names := (declareAll_snd_eq_ok.1 h).2 name List.mem_cons_self
    rw [declareAll, declare_of_not_mem hn] at h ⊢
    show (declareAll ⟨name :: ms.names⟩ rest).1 = _
    rw [ih h, List.reverse_cons, List.append_assoc, List.singleton_append]

end Models

/-- Declaring a batch passes exactly if every definition is well named and no model is
    declared twice; the models are then those of the batch, the newest first. -/
theorem declareChecked_eq_ok {ms ms' : Models} {ds : List Definition} :
    declareChecked ms ds = .ok ms' ↔
      (∀ d ∈ ds, d.WellNamed) ∧ (modelNames ds).Nodup ∧ (∀ name ∈ modelNames ds, name ∉ ms.names) ∧
        ms' = ⟨(modelNames ds).reverse ++ ms.names⟩ := by
  induction ds generalizing ms with
  | nil => simp [declareChecked, modelNames, eq_comm]
  | cons d rest ih =>
    rw [declareChecked, seq_eq_ok, Definition.check_eq_ok]
    show d.WellNamed ∧ ((ms.collect d).2 >>= fun _ => declareChecked (ms.collect d).1 rest) =
        .ok ms' ↔ _
    rw [seq_eq_ok, Models.collect, ih, List.forall_mem_cons]
    have hcons : modelNames (d :: rest) = d.models.keys ++ modelNames rest := rfl
    rw [hcons, List.nodup_append]
    constructor
    · intro h
      obtain ⟨hd, hok, hr, hn, hs, rfl⟩ := h
      rw [Models.declareAll_fst_of_ok hok] at hs ⊢
      have hk := Models.declareAll_snd_eq_ok.1 hok
      refine ⟨⟨hd, hr⟩, ⟨hk.1, hn, fun a ha b hb hab => ?_⟩, fun name h => ?_, by simp⟩
      · exact hs b hb (List.mem_append_left _ (List.mem_reverse.2 (hab ▸ ha)))
      · rcases List.mem_append.1 h with h | h
        · exact hk.2 name h
        · exact fun hm => hs name h (List.mem_append_right _ hm)
    · intro h
      obtain ⟨⟨hd, hr⟩, ⟨hk, hn, hne⟩, hs, rfl⟩ := h
      have hok : (ms.declareAll d.models.keys).2 = .ok () :=
        Models.declareAll_snd_eq_ok.2 ⟨hk, fun name h => hs name (List.mem_append_left _ h)⟩
      rw [Models.declareAll_fst_of_ok hok]
      refine ⟨hd, hok, hr, hn, fun name h hm => ?_, by simp⟩
      rcases List.mem_append.1 hm with hm | hm
      · exact hne name (List.mem_reverse.1 hm) name h rfl
      · exact hs name (List.mem_append_right _ h) hm

/-! ## Reading the types -/

/-- Only which models are declared counts for a type, not their order. -/
theorem TypeExpr.readChars_congr {ms ms' : Models} (h : ∀ name, ms.contains name = ms'.contains name)
    (cs : List Char) : readChars ms cs = readChars ms' cs := by
  induction cs using WellFounded.induction (measure List.length).wf with
  | h cs ih =>
    rw [readChars, readChars, h]
    split
    · rfl
    split
    · rfl
    split
    · rename_i item hs
      rw [ih item (length_lt_of_shape_array hs)]
    · rename_i key value hs
      rw [ih value (length_lt_of_shape_map hs)]
    · rfl
    · rfl

theorem TypeExpr.read_reverse (names : List String) (raw : String) :
    read ⟨names.reverse⟩ raw = read ⟨names⟩ raw := by
  refine readChars_congr (fun name => ?_) raw.toList
  rw [Bool.eq_iff_iff]
  simp [Models.contains]

namespace Go

variable {ms : Models}

/-- A type can be read against the models. -/
def Readable (ms : Models) (raw : String) : Prop := ∃ t, TypeExpr.read ms raw = .ok t

theorem exists_membersOf_eq_ok {fields : List (String × String)} :
    (∃ members, membersOf ms fields = .ok members) ↔ ∀ raw ∈ fields.map Prod.snd, Readable ms raw := by
  rw [membersOf, exists_mapM_eq_ok]
  simp only [exists_bind_pure_eq_ok, List.forall_mem_map, Readable]

theorem exists_modelStruct_eq_ok {name : String} {model : Model} :
    (∃ s, modelStruct ms name model = .ok s) ↔ ∀ raw ∈ model.entries.map Prod.snd, Readable ms raw := by
  rw [modelStruct, exists_bind_pure_eq_ok, exists_membersOf_eq_ok]

theorem exists_returns_eq_ok {written : Option String} :
    (∃ r, (written.mapM fun raw => do return (← TypeExpr.read ms raw).render) = .ok r) ↔
      ∀ raw ∈ written.toList, Readable ms raw := by
  cases written with
  | none => simp [pure, Except.pure]
  | some raw =>
    show (∃ r, (some <$> (TypeExpr.read ms raw >>= fun t => pure t.render)) = .ok r) ↔ _
    cases h : TypeExpr.read ms raw <;>
      simp [Readable, h, Functor.map, Except.map, bind, Except.bind, pure, Except.pure]

theorem exists_methodParts_eq_ok {service name : String} {method : Method} :
    (∃ parts, methodParts ms service name method = .ok parts) ↔
      ∀ raw ∈ method.params.map Prod.snd ++ method.returns.toList, Readable ms raw := by
  rw [List.forall_mem_append, ← exists_membersOf_eq_ok, ← exists_returns_eq_ok]
  simp only [methodParts, requestStruct, bind_eq_ok, pure_eq_ok]
  constructor
  · intro h; obtain ⟨_, _, ⟨members, hm, rfl⟩, returns, hr, -⟩ := h; exact ⟨⟨members, hm⟩, returns, hr⟩
  · intro h
    obtain ⟨⟨members, hm⟩, returns, hr⟩ := h
    exact ⟨_, _, ⟨members, hm, rfl⟩, returns, hr, rfl⟩

theorem exists_endpointOf_eq_ok {name : String} {service : Service} :
    (∃ e, endpointOf ms name service = .ok e) ↔
      ∀ m ∈ service.entries, ∀ raw ∈ m.2.params.map Prod.snd ++ m.2.returns.toList,
        Readable ms raw := by
  rw [endpointOf, exists_bind_pure_eq_ok, exists_mapM_eq_ok]
  simp only [exists_methodParts_eq_ok]

theorem exists_sourceOf_eq_ok {d : Definition} :
    (∃ s, sourceOf ms d = .ok s) ↔ ∀ raw ∈ d.rawTypes, Readable ms raw := by
  have hm : (∃ models, d.models.entries.mapM (fun m => modelStruct ms m.1 m.2) = .ok models) ↔
      ∀ raw ∈ d.models.entries.flatMap (fun m => m.2.entries.map Prod.snd), Readable ms raw := by
    rw [exists_mapM_eq_ok]
    simp only [exists_modelStruct_eq_ok, List.forall_mem_flatMap]
  have hs : (∃ endpoints, d.services.entries.mapM (fun s => endpointOf ms s.1 s.2) = .ok endpoints) ↔
      ∀ raw ∈ d.methods.flatMap (fun m => m.2.params.map Prod.snd ++ m.2.returns.toList),
        Readable ms raw := by
    rw [exists_mapM_eq_ok]
    simp only [exists_endpointOf_eq_ok, List.forall_mem_flatMap, Definition.methods]
  rw [Definition.rawTypes, List.forall_mem_append, ← hm, ← hs]
  simp only [sourceOf, bind_eq_ok, pure_eq_ok]
  constructor
  · intro h; obtain ⟨_, models, hm, endpoints, hs, -⟩ := h; exact ⟨⟨models, hm⟩, endpoints, hs⟩
  · intro h; obtain ⟨⟨models, hm⟩, endpoints, hs⟩ := h; exact ⟨_, models, hm, endpoints, hs, rfl⟩

/-- There are declarations exactly if every type can be read. -/
theorem exists_sourceOfAll_eq_ok {ds : List Definition} :
    (∃ s, sourceOfAll ms ds = .ok s) ↔ ∀ d ∈ ds, ∀ raw ∈ d.rawTypes, Readable ms raw := by
  rw [sourceOfAll, exists_bind_pure_eq_ok, exists_mapM_eq_ok]
  simp only [exists_sourceOf_eq_ok]

end Go

/-! ## Faults -/

/-- A fault that lies in the definitions, not in the generated text. -/
def SchemaFault.InDefinitions (fault : SchemaFault) : Prop := ∀ f, fault ≠ .emit f

open SchemaFault

theorem failsOnlyWith_checkName (name : String) : FailsOnlyWith InDefinitions (checkName name) := by
  unfold checkName
  split
  · exact failsOnlyWith_error (by intro f h; cases h)
  · exact failsOnlyWith_ok ()

theorem failsOnlyWith_checkExported (seen names : List String) :
    FailsOnlyWith InDefinitions (checkExported seen names) := by
  induction names generalizing seen with
  | nil => exact failsOnlyWith_ok ()
  | cons name rest ih =>
    rw [checkExported]
    split
    · exact failsOnlyWith_error (by intro f h; cases h)
    · exact ih _

theorem failsOnlyWith_checkMethod (name : String) (method : Method) :
    FailsOnlyWith InDefinitions (checkMethod name method) := by
  apply (failsOnlyWith_checkName name).bind
  intro _
  have hrest : FailsOnlyWith InDefinitions (do
      method.entries.checkMembers
      method.entries.keys.forM fun key => if key = returnKey then .ok () else checkName key) := by
    refine (failsOnlyWith_checkExported _ _).bind fun _ => failsOnlyWith_forM (fun key => ?_) _
    split
    · exact failsOnlyWith_ok ()
    · exact failsOnlyWith_checkName key
  by_cases h : method.entries.isEmpty = true
  · simp only [if_pos h]
    exact (failsOnlyWith_error (by intro f h; cases h)).bind fun _ => hrest
  · simp only [if_neg h]
    exact hrest

theorem failsOnlyWith_check (d : Definition) : FailsOnlyWith InDefinitions d.check := by
  refine (failsOnlyWith_forM (fun m => ?_) _).bind fun _ => failsOnlyWith_forM (fun s => ?_) _
  · exact (failsOnlyWith_checkName m.1).bind fun _ => (failsOnlyWith_checkExported _ _).bind fun _ =>
      failsOnlyWith_forM failsOnlyWith_checkName _
  · refine (failsOnlyWith_checkName s.1).bind fun _ => failsOnlyWith_forM (fun m => ?_) _
    exact failsOnlyWith_checkMethod m.1 m.2

theorem failsOnlyWith_declareAll (ms : Models) (names : List String) :
    FailsOnlyWith InDefinitions (ms.declareAll names).2 := by
  induction names generalizing ms with
  | nil => exact failsOnlyWith_ok ()
  | cons name rest ih =>
    by_cases h : name ∈ ms.names
    · rw [Models.declareAll, Models.declare_of_mem h]
      exact failsOnlyWith_error (by intro f h; cases h)
    · rw [Models.declareAll, Models.declare_of_not_mem h]
      exact ih _

theorem failsOnlyWith_declareChecked (ms : Models) (ds : List Definition) :
    FailsOnlyWith InDefinitions (declareChecked ms ds) := by
  induction ds generalizing ms with
  | nil => exact failsOnlyWith_ok ms
  | cons d rest ih =>
    exact (failsOnlyWith_check d).bind fun _ => (failsOnlyWith_declareAll ms _).bind fun _ => ih _

theorem failsOnlyWith_readChars (ms : Models) (cs : List Char) :
    FailsOnlyWith InDefinitions (TypeExpr.readChars ms cs) := by
  fun_induction TypeExpr.readChars ms cs with
  | case1 cs text _ => exact failsOnlyWith_error (by intro f h; cases h)
  | case2 cs text _ _ => exact failsOnlyWith_ok _
  | case3 cs text _ _ item _ ih => exact ih.bind fun t => failsOnlyWith_ok _
  | case4 cs text _ _ key value _ ih =>
    refine FailsOnlyWith.bind ?_ fun b => ih.bind fun t => failsOnlyWith_ok _
    unfold BaseType.read
    split
    · exact failsOnlyWith_ok _
    · exact failsOnlyWith_error (by intro f h; cases h)
  | case5 cs text _ _ _ => exact failsOnlyWith_error (by intro f h; cases h)
  | case6 cs text _ _ _ => exact failsOnlyWith_error (by intro f h; cases h)

theorem failsOnlyWith_membersOf (ms : Models) (fields : List (String × String)) :
    FailsOnlyWith InDefinitions (Go.membersOf ms fields) := by
  refine failsOnlyWith_mapM (fun f => ?_) fields
  exact (failsOnlyWith_readChars ms f.2.toList).bind fun _ => failsOnlyWith_ok _

theorem failsOnlyWith_methodParts (ms : Models) (service name : String) (method : Method) :
    FailsOnlyWith InDefinitions (Go.methodParts ms service name method) := by
  apply ((failsOnlyWith_membersOf ms _).bind fun _ => failsOnlyWith_ok _).bind
  intro request
  refine FailsOnlyWith.bind ?_ fun _ => failsOnlyWith_ok _
  cases method.returns with
  | none => exact failsOnlyWith_ok none
  | some raw =>
    intro e h
    refine failsOnlyWith_readChars ms raw.toList e ?_
    show TypeExpr.read ms raw = .error e
    have h' : (some <$> (TypeExpr.read ms raw >>= fun t => pure t.render)) = .error e := h
    cases hr : TypeExpr.read ms raw with
    | error e' => rw [hr] at h'; cases h'; rfl
    | ok t => rw [hr] at h'; cases h'

theorem failsOnlyWith_sourceOfAll (ms : Models) (ds : List Definition) :
    FailsOnlyWith InDefinitions (Go.sourceOfAll ms ds) := by
  refine (failsOnlyWith_mapM (fun d => ?_) ds).bind fun _ => failsOnlyWith_ok _
  refine (failsOnlyWith_mapM (fun m => ?_) _).bind fun models => ?_
  · exact (failsOnlyWith_membersOf ms _).bind fun _ => failsOnlyWith_ok _
  refine (failsOnlyWith_mapM (fun s => ?_) _).bind fun endpoints => failsOnlyWith_ok _
  refine (failsOnlyWith_mapM (fun m => ?_) _).bind fun _ => failsOnlyWith_ok _
  exact failsOnlyWith_methodParts ms s.1 m.1 m.2

/-! ## The whole batch -/

/-- What happens before the formatter: the batch is checked, and its declarations are
    put together. -/
def declarations (ds : List Definition) : Except SchemaFault Go.Source := do
  let ms ← declareChecked Models.empty ds
  Go.sourceOfAll ms ds

theorem generateGo_eq (check : Go.Check) (o : GoOptions) (ms : Models) (ds : List Definition) :
    generateGo check o ms ds =
      Go.sourceOfAll ms ds >>= fun source =>
        (Go.format check (source.text o)).mapError SchemaFault.emit := by
  unfold generateGo
  refine congrArg _ (funext fun source => ?_)
  cases Go.format check (source.text o) <;> rfl

/-- The formatter gets the declarations, and nothing comes after it. -/
theorem generateAll_eq (check : Go.Check) (o : Options) (ds : List Definition) :
    generateAll check o ds =
      declarations ds >>= fun source =>
        (Go.format check (source.text o.go)).mapError SchemaFault.emit := by
  unfold generateAll declarations
  rw [bind_assoc]
  exact congrArg _ (funext fun ms => generateGo_eq check o.go ms ds)

theorem exists_declarations_eq_ok {ds : List Definition} :
    (∃ s, declarations ds = .ok s) ↔ Accepted ds := by
  have hreadable : (∃ s, Go.sourceOfAll ⟨(modelNames ds).reverse⟩ ds = .ok s) ↔
      ∀ d ∈ ds, ∀ raw ∈ d.rawTypes, ∃ t, TypeExpr.read ⟨modelNames ds⟩ raw = .ok t := by
    rw [Go.exists_sourceOfAll_eq_ok]
    simp only [Go.Readable, TypeExpr.read_reverse]
  simp only [declarations, bind_eq_ok, declareChecked_eq_ok]
  constructor
  · intro h
    obtain ⟨s, ms, ⟨hw, hd, -, rfl⟩, hs⟩ := h
    rw [show Models.empty.names = [] from rfl, List.append_nil] at hs
    exact ⟨hd, hw, hreadable.1 ⟨s, hs⟩⟩
  · intro h
    obtain ⟨s, hs⟩ := hreadable.2 h.readable
    refine ⟨s, ⟨(modelNames ds).reverse⟩, ⟨h.wellNamed, h.distinctModels, fun _ _ hm => ?_, ?_⟩, hs⟩
    · exact List.not_mem_nil hm
    · rw [show Models.empty.names = [] from rfl, List.append_nil]

/-- Acceptance is decided by running what comes before the formatter. -/
instance (ds : List Definition) : Decidable (Accepted ds) :=
  decidable_of_iff ((declarations ds).toOption.isSome = true) <| by
    rw [← exists_declarations_eq_ok]
    cases declarations ds <;> simp [Except.toOption]

theorem failsOnlyWith_declarations (ds : List Definition) :
    FailsOnlyWith InDefinitions (declarations ds) :=
  (failsOnlyWith_declareChecked _ ds).bind fun ms => failsOnlyWith_sourceOfAll ms ds

/-- A batch gets a file or a fault of the formatter exactly if it is accepted. Any other
    batch ends before the formatter, with a fault that lies in the definitions. -/
theorem generateAll_formats_iff_accepted (check : Go.Check) (o : Options) (ds : List Definition) :
    (((∃ out, generateAll check o ds = .ok out) ∨ ∃ f, generateAll check o ds = .error (.emit f)) ↔
        Accepted ds) ∧
      (¬ Accepted ds → ∃ fault, declarations ds = .error fault ∧ generateAll check o ds = .error fault ∧
        ∀ f, fault ≠ .emit f) := by
  rw [generateAll_eq, ← exists_declarations_eq_ok]
  cases h : declarations ds with
  | error fault =>
    have hf : fault.InDefinitions := failsOnlyWith_declarations ds fault h
    refine ⟨⟨fun h' => ?_, fun h' => ?_⟩, fun _ => ⟨fault, rfl, rfl, hf⟩⟩
    · rcases h' with ⟨out, h'⟩ | ⟨f, h'⟩
      · cases h'
      · cases h'; exact (hf f rfl).elim
    · obtain ⟨s, h'⟩ := h'; cases h'
  | ok source =>
    refine ⟨⟨fun _ => ⟨source, rfl⟩, fun _ => ?_⟩, fun h' => (h' ⟨source, rfl⟩).elim⟩
    rw [ok_bind]
    cases Go.format check (source.text o.go) with
    | ok out => exact Or.inl ⟨out, rfl⟩
    | error f => exact Or.inr ⟨f, rfl⟩

end ServiceSchema
