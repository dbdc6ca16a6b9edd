/-
  ServiceSchema.Proofs.FirstFault — which fault a batch ends in.

  All checks before the formatter form one flat list (`batchChecks`). For each definition in
  order come its naming rules, models first, and then its models against those of earlier
  definitions; behind all of these come the types, definition by definition. A check passes
  or has a fault, and it looks at nothing but its own names and those before them. The fault
  of a batch is that of the first check that does not pass.

  - `outcome_declarations`: what comes before the formatter is a run through the list.
  - `generateAll_firstFault`: a batch ends in a fault that lies in the definitions exactly if
    that fault is the first of the list, whatever the checks behind it and the options are.
-/
import ServiceSchema.Proofs.Acceptance

namespace ServiceSchema

open Fallible

/-! ## The checks -/

/-- Every element of a list with those before it. -/
def withEarlier {α : Type} (earlier : List α) : List α → List (List α × α)
  | [] => []
  | x :: xs => (earlier, x) :: withEarlier (earlier ++ [x]) xs

def nameCheck (name : String) : Option SchemaFault :=
  if isReserved name then some (.reservedName name) else none

/-- A name is compared with earlier ones as they are exported. -/
def memberCheck (earlier : List String) (name : String) : Option SchemaFault :=
  if exportedName name ∈ earlier.map exportedName then some (.duplicateField name (exportedName name))
  else none

def memberChecks (names : List String) : List (Option SchemaFault) :=
  (withEarlier [] names).map fun n => memberCheck n.1 n.2

def modelChecks (name : String) (model : Model) : List (Option SchemaFault) :=
  nameCheck name :: (memberChecks model.keys ++ model.keys.map nameCheck)

def entriesCheck (name : String) (method : Method) : Option SchemaFault :=
  if method.entries.entries = [] then some (.emptyMethod name) else none

/-- The entries of a method are compared with `return` among them, and checked for their names
    without it. -/
def methodChecks (name : String) (method : Method) : List (Option SchemaFault) :=
  nameCheck name :: entriesCheck name method ::
    (memberChecks method.entries.keys ++ (method.params.map Prod.fst).map nameCheck)

def serviceChecks (name : String) (service : Service) : List (Option SchemaFault) :=
  nameCheck name :: service.entries.flatMap fun m => methodChecks m.1 m.2

/-- The naming rules of a definition. -/
def Definition.nameChecks (d : Definition) : List (Option SchemaFault) :=
  d.models.entries.flatMap (fun m => modelChecks m.1 m.2) ++
    d.services.entries.flatMap fun s => serviceChecks s.1 s.2

/-- A model is compared with those of earlier definitions. -/
def declaredCheck (earlier : List Definition) (name : String) : Option SchemaFault :=
  if name ∈ modelNames earlier then some (.duplicateModel name) else none

/-- All checks of a definition but those of its types. -/
def definitionChecks (earlier : List Definition) (d : Definition) : List (Option SchemaFault) :=
  d.nameChecks ++ d.models.keys.map (declaredCheck earlier)

def typeCheck (declared : List String) (raw : String) : Option SchemaFault :=
  match TypeExpr.read ⟨declared⟩ raw with
  | .ok _ => none
  | .error fault => some fault

/-- All checks of a batch. The types come last, and may refer to all models. -/
def batchChecks (ds : List Definition) : List (Option SchemaFault) :=
  (withEarlier [] ds).flatMap (fun d => definitionChecks d.1 d.2) ++
    ds.flatMap fun d => d.rawTypes.map (typeCheck (modelNames ds))

/-! ## Names -/

theorem checkName_eq (name : String) : checkName name = firstFault [nameCheck name] := by
  unfold checkName nameCheck
  split <;> rfl

theorem forM_checkName (names : List String) : names.forM checkName = firstFault (names.map nameCheck) := by
  rw [firstFault_map]
  exact congrArg _ (funext checkName_eq)

/-- What was seen are the exported names of what came before. -/
theorem checkExported_eq {seen earlier : List String} (h : ∀ x, x ∈ seen ↔ x ∈ earlier.map exportedName)
    (names : List String) :
    checkExported seen names = firstFault ((withEarlier earlier names).map fun n => memberCheck n.1 n.2) := by
  induction names generalizing seen earlier with
  | nil => rfl
  | cons name rest ih =>
    rw [checkExported, withEarlier, List.map_cons, memberCheck]
    simp only [List.contains_iff_mem, h]
    split
    · rfl
    · refine ih fun x => ?_
      rw [List.mem_cons, h, List.map_append, List.mem_append, List.map_singleton, List.mem_singleton]
      exact or_comm

theorem checkMembers_eq (fields : Fields) : fields.checkMembers = firstFault (memberChecks fields.keys) :=
  checkExported_eq (fun x => by simp) fields.keys

theorem checkModel_eq (name : String) (model : Model) :
    checkModel name model = firstFault (modelChecks name model) := by
  rw [checkModel, modelChecks, firstFault_cons, firstFault_append, checkName_eq, checkMembers_eq,
    forM_checkName]

/-- Only the entries that are parameters are checked for their names. -/
theorem forM_checkEntry (method : Method) :
    (method.entries.keys.forM fun key => if key = returnKey then .ok () else checkName key) =
      firstFault ((method.params.map Prod.fst).map nameCheck) := by
  rw [← forM_checkName, Method.params, Table.keys]
  induction method.entries.entries with
  | nil => rfl
  | cons e rest ih =>
    by_cases he : e.1 = returnKey
    · rw [List.filter_cons_of_neg (by simpa using he), ← ih, List.map_cons]
      show ((if e.1 = returnKey then .ok () else checkName e.1) >>= fun _ => _) = _
      rw [if_pos he]
      rfl
    · rw [List.filter_cons_of_pos (by simpa using he), List.map_cons, List.map_cons]
      show ((if e.1 = returnKey then .ok () else checkName e.1) >>= fun _ => _) =
        (checkName e.1 >>= fun _ => _)
      rw [if_neg he]
      exact congrArg _ (funext fun _ => ih)

theorem checkMethod_eq (name : String) (method : Method) :
    checkMethod name method = firstFault (methodChecks name method) := by
  rw [methodChecks, firstFault_cons, ← checkName_eq, checkMethod]
  refine congrArg _ (funext fun _ => ?_)
  by_cases h : method.entries.entries = []
  · have he : method.entries.isEmpty = true := by rw [Table.isEmpty, h]; rfl
    rw [entriesCheck, if_pos h, if_pos he]
    rfl
  · have he : ¬ method.entries.isEmpty = true := by rwa [Table.isEmpty, List.isEmpty_iff]
    rw [entriesCheck, if_neg h, if_neg he, firstFault, firstFault_append, ← checkMembers_eq,
      ← forM_checkEntry]

theorem checkService_eq (name : String) (service : Service) :
    checkService name service = firstFault (serviceChecks name service) := by
  rw [checkService, serviceChecks, firstFault_cons, firstFault_flatMap, checkName_eq]
  simp only [checkMethod_eq]

theorem Definition.check_eq (d : Definition) : d.check = firstFault d.nameChecks := by
  rw [Definition.check, Definition.nameChecks, firstFault_append, firstFault_flatMap, firstFault_flatMap]
  simp only [checkModel_eq, checkService_eq]

/-! ## Models -/

/-- The models of one definition have different names, so that they meet only those of earlier
    definitions. -/
theorem declareAll_snd_eq {ms : Models} {earlier : List Definition} {names : List String}
    (h : ∀ name ∈ names, name ∈ ms.names ↔ name ∈ modelNames earlier) (hd : names.Nodup) :
    (ms.declareAll names).2 = firstFault (names.map (declaredCheck earlier)) := by
  induction names generalizing ms with
  | nil => rfl
  | cons name rest ih =>
    rw [List.forall_mem_cons] at h
    rw [List.nodup_cons] at hd
    rw [List.map_cons, Models.declareAll, declaredCheck]
    by_cases hm : name ∈ ms.names
    · rw [Models.declare_of_mem hm, if_pos (h.1.1 hm)]
      rfl
    · rw [Models.declare_of_not_mem hm, if_neg (fun he => hm (h.1.2 he))]
      refine ih (fun other hother => ?_) hd.2
      have hne : other ≠ name := fun heq => hd.1 (heq ▸ hother)
      rw [List.mem_cons, or_iff_right hne]
      exact h.2 other hother

theorem outcome_declareChecked {ms : Models} {earlier : List Definition}
    (h : ∀ name, name ∈ ms.names ↔ name ∈ modelNames earlier) (ds : List Definition) :
    outcome (declareChecked ms ds) =
      firstFault ((withEarlier earlier ds).flatMap fun d => definitionChecks d.1 d.2) := by
  induction ds generalizing ms earlier with
  | nil => rfl
  | cons d rest ih =>
    have hdeclared := declareAll_snd_eq (fun name _ => h name) d.models.nodup_keys
    rw [withEarlier, List.flatMap_cons, firstFault_append, definitionChecks, firstFault_append,
      ← Definition.check_eq, ← hdeclared, bind_assoc, declareChecked]
    rw [outcome_bind (fun _ _ => rfl), outcome_unit]
    refine congrArg _ (funext fun _ => ?_)
    show outcome ((ms.declareAll d.models.keys).2 >>= fun _ =>
      declareChecked (ms.declareAll d.models.keys).1 rest) = _
    rw [outcome_bind (fun u hok => ?_), outcome_unit]
    rw [Models.declareAll_fst_of_ok hok]
    refine ih fun name => ?_
    have hnames : modelNames (earlier ++ [d]) = modelNames earlier ++ d.models.keys := by
      simp [modelNames]
    rw [hnames, List.mem_append, List.mem_append, List.mem_reverse, h, or_comm]

/-! ## Types -/

theorem outcome_read (ms : Models) (raw : String) :
    outcome (TypeExpr.read ms raw) = firstFault [typeCheck ms.names raw] := by
  rw [typeCheck]
  cases TypeExpr.read ms raw <;> rfl

namespace Go

variable (ms : Models)

theorem outcome_membersOf (fields : List (String × String)) :
    outcome (membersOf ms fields) = firstFault ((fields.map Prod.snd).map (typeCheck ms.names)) := by
  rw [membersOf, outcome_mapM, List.map_map, firstFault_map]
  refine congrArg _ (funext fun f => ?_)
  rw [outcome_bind_pure, outcome_read]
  rfl

theorem outcome_modelStruct (name : String) (model : Model) :
    outcome (modelStruct ms name model) =
      firstFault ((model.entries.map Prod.snd).map (typeCheck ms.names)) := by
  rw [modelStruct, outcome_bind_pure, outcome_membersOf]

theorem outcome_returns (written : Option String) :
    outcome (written.mapM fun raw => do return (← TypeExpr.read ms raw).render) =
      firstFault (written.toList.map (typeCheck ms.names)) := by
  cases written with
  | none => rfl
  | some raw =>
    show outcome (some <$> (TypeExpr.read ms raw >>= fun t => pure t.render)) =
      firstFault [typeCheck ms.names raw]
    rw [← outcome_read]
    cases TypeExpr.read ms raw <;> rfl

theorem outcome_methodParts (service name : String) (method : Method) :
    outcome (methodParts ms service name method) =
      firstFault ((method.params.map Prod.snd ++ method.returns.toList).map (typeCheck ms.names)) := by
  rw [methodParts, List.map_append, firstFault_append, ← outcome_membersOf, ← outcome_returns]
  rw [outcome_bind (fun _ _ => outcome_bind_pure _ _), requestStruct, outcome_bind_pure]

theorem outcome_endpointOf (name : String) (service : Service) :
    outcome (endpointOf ms name service) =
      firstFault ((service.entries.flatMap fun m =>
        m.2.params.map Prod.snd ++ m.2.returns.toList).map (typeCheck ms.names)) := by
  rw [endpointOf, outcome_bind_pure, outcome_mapM, List.map_flatMap, firstFault_flatMap]
  simp only [outcome_methodParts]

theorem outcome_sourceOf (d : Definition) :
    outcome (sourceOf ms d) = firstFault (d.rawTypes.map (typeCheck ms.names)) := by
  rw [sourceOf, outcome_bind (fun _ _ => outcome_bind_pure _ _), outcome_mapM, outcome_mapM,
    Definition.rawTypes, Definition.methods, List.map_append, firstFault_append, List.flatMap_assoc,
    List.map_flatMap, List.map_flatMap, firstFault_flatMap, firstFault_flatMap]
  simp only [outcome_modelStruct, outcome_endpointOf]

theorem outcome_sourceOfAll (ds : List Definition) :
    outcome (sourceOfAll ms ds) = firstFault (ds.flatMap fun d => d.rawTypes.map (typeCheck ms.names)) := by
  rw [sourceOfAll, outcome_bind_pure, outcome_mapM, firstFault_flatMap]
  simp only [outcome_sourceOf]

end Go

/-! ## Batches -/

theorem typeCheck_reverse (declared : List String) : typeCheck declared.reverse = typeCheck declared := by
  funext raw
  rw [typeCheck, TypeExpr.read_reverse]
  rfl

/-- What comes before the formatter is a run through the checks. -/
theorem outcome_declarations (ds : List Definition) :
    outcome (declarations ds) = firstFault (batchChecks ds) := by
  have hempty : ∀ name, name ∈ Models.empty.names ↔ name ∈ modelNames [] := fun name => Iff.rfl
  rw [batchChecks, firstFault_append, ← outcome_declareChecked hempty, declarations]
  refine outcome_bind fun ms hms => ?_
  obtain ⟨-, -, -, rfl⟩ := declareChecked_eq_ok.1 hms
  rw [Go.outcome_sourceOfAll, show Models.empty.names = [] from rfl, List.append_nil, typeCheck_reverse]

/-- A batch ends in a fault that lies in its definitions exactly if this is the first fault of
    its checks. -/
theorem generateAll_eq_error_iff (check : Go.Check) (o : Options) (ds : List Definition)
    (fault : SchemaFault) :
    (generateAll check o ds = .error fault ∧ fault.InDefinitions) ↔
      firstFault (batchChecks ds) = .error fault := by
  rw [← outcome_declarations, outcome_eq_error, generateAll_eq, bind_eq_error]
  constructor
  · intro h
    obtain ⟨h | ⟨source, -, hformat⟩, hf⟩ := h
    · exact h
    · cases hfile : Go.format check (source.text o.go) with
      | ok out => rw [hfile] at hformat; cases hformat
      | error f =>
        rw [hfile] at hformat
        cases hformat
        exact absurd rfl (hf f)
  · intro h
    exact ⟨Or.inl h, failsOnlyWith_declarations ds fault h⟩

/-- A batch ends in a fault that lies in its definitions exactly if that check fails and all
    checks before it pass. Batches whose checks agree up to there end in the same fault, whatever
    comes behind it and whatever checks their files. -/
theorem generateAll_firstFault :
    (∀ (check : Go.Check) (o : Options) (ds : List Definition) (fault : SchemaFault),
      (generateAll check o ds = .error fault ∧ ∀ f, fault ≠ .emit f) ↔
        ∃ before after, batchChecks ds = before ++ some fault :: after ∧ ∀ c ∈ before, c = none) ∧
    ∀ (check check' : Go.Check) (o o' : Options) (ds ds' : List Definition) (fault : SchemaFault)
      (before after after' : List (Option SchemaFault)),
      batchChecks ds = before ++ some fault :: after → batchChecks ds' = before ++ some fault :: after' →
        (∀ c ∈ before, c = none) → generateAll check o ds = generateAll check' o' ds' := by
  constructor
  · intro check o ds fault
    rw [← firstFault_eq_error]
    exact generateAll_eq_error_iff check o ds fault
  · intro check check' o o' ds ds' fault before after after' h h' hbefore
    have hfirst :=
      (generateAll_eq_error_iff check o ds fault).2 (firstFault_eq_error.2 ⟨before, after, h, hbefore⟩)
    have hfirst' :=
      (generateAll_eq_error_iff check' o' ds' fault).2 (firstFault_eq_error.2 ⟨before, after', h', hbefore⟩)
    rw [hfirst.1, hfirst'.1]

/-- Fields that collide, in a definition that has no other fault. -/
def collision : Definition := ⟨.ofList [("Book", .ofList [("id", "int32"), ("Id", "text")])], .empty⟩

/-- The same fields, and behind them a reserved field, an empty method and a keyword. -/
def collisionFirst : Definition :=
  ⟨.ofList [("Book", .ofList [("id", "int32"), ("Id", "string"), ("type", "string")])],
    .ofList [("Shelf", .ofList [("list", ⟨.empty⟩), ("go", ⟨.ofList [("a", "string")]⟩)])]⟩

def shopOptions : Options := ⟨"defs", "api", none, ⟨"api", "github.com/gofiber/fiber/v2"⟩⟩

/-- The second field is the first fault of both, in another package too. -/
theorem generateAll_firstFault_collision :
    generateAll (fun _ => .ok ()) shopOptions [collision] = .error (.duplicateField "Id" "Id") ∧
      generateAll (fun _ => .ok ()) shopOptions [collision] =
        generateAll (fun _ => .error "refused") { shopOptions with go := ⟨"shop", "fiber"⟩ }
          [collisionFirst, collision] := by
  have hchecks : batchChecks [collision] = [none, none] ++ some (.duplicateField "Id" "Id") ::
      [none, none, none, none, some (.unparseableType "text")] := by
    decide +kernel
  have hchecks' : batchChecks [collisionFirst, collision] = [none, none] ++
      some (.duplicateField "Id" "Id") :: (batchChecks [collisionFirst, collision]).drop 3 := by
    decide +kernel
  have hbefore : ∀ c ∈ [none, none], c = (none : Option SchemaFault) := by decide
  exact ⟨((generateAll_firstFault.1 _ _ _ _).2 ⟨_, _, hchecks, hbefore⟩).1,
    generateAll_firstFault.2 _ _ _ _ _ _ _ _ _ _ hchecks hchecks' hbefore⟩

end ServiceSchema
