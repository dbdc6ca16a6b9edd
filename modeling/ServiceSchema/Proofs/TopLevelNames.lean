/-
  ServiceSchema.Proofs.TopLevelNames — the identifiers that a generated file declares.

  Models, request structs, interfaces and wiring functions share one scope. The names of
  models are kept apart by a check, and the suffix of request structs keeps these apart
  from everything else, but nothing keeps two services apart, nor a service and a model.

  - `nodup_declared_iff`: for definitions that keep the naming rules the identifiers are
    distinct exactly if the batch is `Separate`.
  - `generateAll_distinct_iff`: so a batch may get its file and still declare a name twice;
    `two_services_redeclare` is such a batch.
-/
import ServiceSchema.Proofs.PlainFile

namespace ServiceSchema

/-- The name of the function that wires a service. -/
def initializerName (service : String) : String := "initializeFiber" ++ service

/-! ## What a source declares -/

namespace Go.Source

/-- The declarations of a source, each with the identifier it declares. -/
def named (s : Source) : List (String × List String) :=
  s.models.map (fun m => (m.name, m.lines)) ++
    s.endpoints.flatMap fun e => e.requests.map (fun r => (r.name, r.lines)) ++
      [(e.interface.name, e.interface.lines), (initializerName e.interface.name, e.wiring)]

/-- The identifiers that are declared at top level: the names as they are pasted into the text. -/
def declared (s : Source) : List String := s.named.map Prod.fst

theorem map_snd_named (s : Source) : s.named.map Prod.snd = s.blocks := by
  simp [named, blocks, List.map_flatMap, Function.comp_def]

/-- The first of some lines declares a type or a function of this name. -/
inductive Declares (name : String) (lines : List String) : Prop
  | type (rest : String) : lines.head? = some ("type " ++ name ++ " " ++ rest) → Declares name lines
  | func (rest : String) : lines.head? = some ("func " ++ name ++ "(" ++ rest) → Declares name lines

theorem declares_of_mem_named {s : Source} {d : String × List String} (h : d ∈ s.named) :
    Declares d.1 d.2 := by
  have hstruct : ∀ t : Struct, Declares t.name t.lines := by
    intro t
    refine .type "struct \x7b" ?_
    show some ("type " ++ t.name ++ (" " ++ "struct \x7b")) = _
    rw [String.append_assoc, String.append_assoc, String.append_assoc]
  rcases List.mem_append.1 h with h | h
  · obtain ⟨m, -, rfl⟩ := List.mem_map.1 h
    exact hstruct m
  · obtain ⟨e, -, h⟩ := List.mem_flatMap.1 h
    rcases List.mem_append.1 h with h | h
    · obtain ⟨r, -, rfl⟩ := List.mem_map.1 h
      exact hstruct r
    · rcases List.mem_cons.1 h with rfl | h
      · refine .type "interface \x7b" ?_
        show some ("type " ++ e.interface.name ++ (" " ++ "interface \x7b")) = _
        rw [String.append_assoc, String.append_assoc, String.append_assoc]
      · rw [List.mem_singleton.1 h]
        have hname : "func " ++ initializerName e.interface.name =
            "func initializeFiber" ++ e.interface.name := by
          rw [initializerName, ← String.append_assoc]
          exact congrArg (· ++ e.interface.name) (by decide)
        have hopen : "(app *fiber.App, service " = "(" ++ "app *fiber.App, service " := by decide
        refine .func ("app *fiber.App, service " ++ e.interface.name ++ ") \x7b") ?_
        show some ("func initializeFiber" ++ e.interface.name ++ "(app *fiber.App, service " ++
            e.interface.name ++ ") \x7b") = _
        rw [hname, hopen]
        simp only [String.append_assoc]

/-- The text has one declaration for each identifier, in this order. -/
theorem forall₂_declares (s : Source) : List.Forall₂ Declares s.declared s.blocks := by
  rw [declared, ← map_snd_named, List.forall₂_map_left_iff, List.forall₂_map_right_iff, List.forall₂_same]
  exact fun d hd => declares_of_mem_named hd

end Go.Source

/-! ## The names of a batch -/

/-- The services of a batch, in order. -/
def serviceEntries (ds : List Definition) : List (String × Service) := ds.flatMap (·.services.entries)

def serviceNames (ds : List Definition) : List String := (serviceEntries ds).map Prod.fst

/-- The methods of all services, in order. -/
def methodNames (ds : List Definition) : List String := (serviceEntries ds).flatMap (·.2.keys)

/-- What keeps the identifiers of a batch apart: no method is in two services, no service is
    in two definitions or named like a model, and nothing is named like a wiring function. -/
structure Separate (ds : List Definition) : Prop where
  methods : (methodNames ds).Nodup
  services : (serviceNames ds).Nodup
  models : ∀ s ∈ serviceNames ds, s ∉ modelNames ds
  initializers : ∀ s ∈ serviceNames ds, initializerName s ∉ modelNames ds ∧
    initializerName s ∉ serviceNames ds

theorem declared_written (ds : List Definition) :
    (Go.writtenSource ds).declared = modelNames ds ++ (serviceEntries ds).flatMap fun s =>
      s.2.keys.map (· ++ requestSuffix) ++ [s.1, initializerName s.1] := by
  simp [Go.Source.declared, Go.Source.named, Go.writtenSource, Go.writtenStruct, Go.writtenEndpoint,
    modelNames, serviceEntries, Table.keys, List.map_flatMap, List.flatMap_assoc, List.flatMap_map,
    Function.comp_def]

/-- The identifiers by families. -/
theorem perm_declared (ds : List Definition) :
    (Go.writtenSource ds).declared.Perm (modelNames ds ++ ((methodNames ds).map (· ++ requestSuffix) ++
      (serviceNames ds ++ (serviceNames ds).map initializerName))) := by
  rw [declared_written, methodNames, serviceNames]
  refine List.Perm.append_left _ (List.perm_iff_count.2 fun name => ?_)
  induction serviceEntries ds with
  | nil => rfl
  | cons s services ih =>
    simp only [List.flatMap_cons, List.map_append, List.map_cons, List.count_append,
      List.count_cons, List.count_nil] at ih ⊢
    omega

/-! ## When they are distinct -/

section

variable {ds : List Definition} (hw : ∀ d ∈ ds, d.WellNamed)
include hw

theorem unreserved_of_model {name : String} (h : name ∈ modelNames ds) : Unreserved name := by
  obtain ⟨d, hd, hn⟩ := List.mem_flatMap.1 h
  obtain ⟨m, hm, rfl⟩ := List.mem_map.1 hn
  refine (hw d hd).unreserved m.1 (List.mem_append_left _ (List.mem_append_left _ ?_))
  exact List.mem_flatMap.2 ⟨m, hm, List.mem_cons_self⟩

theorem unreserved_of_service {name : String} (h : name ∈ serviceNames ds) : Unreserved name := by
  obtain ⟨s, hs, rfl⟩ := List.mem_map.1 h
  obtain ⟨d, hd, hs⟩ := List.mem_flatMap.1 hs
  exact (hw d hd).unreserved s.1
    (List.mem_append_left _ (List.mem_append_right _ (List.mem_map.2 ⟨s, hs, rfl⟩)))

end

/-- The wiring function of a service is not named like a request struct, as the service is
    not: no end of the fixed part of its name begins the suffix. -/
theorem not_suffix_initializerName {name : String} (h : ¬ requestSuffix.toList <:+ name.toList) :
    ¬ requestSuffix.toList <:+ (initializerName name).toList := by
  intro hs
  rw [initializerName, String.toList_append] at hs
  rcases List.suffix_or_suffix_of_suffix hs (List.suffix_append _ _) with hs' | hs'
  · exact h hs'
  · have hall : ∀ k < 7, k ≠ 0 →
        requestSuffix.toList.isSuffixOf ("initializeFiber".toList ++ requestSuffix.toList.drop k) =
          false := by decide
    have hdrop := List.suffix_iff_eq_drop.1 hs'
    have hlen : requestSuffix.toList.length = 6 := by decide
    rw [hdrop, ← List.isSuffixOf_iff_suffix, hall _ (by omega) (fun hk => ?_)] at hs
    · cases hs
    · rw [hk, List.drop_zero] at hdrop
      exact h (hdrop ▸ List.suffix_refl _)

theorem append_suffix_inj {a b : String} (h : a ++ requestSuffix = b ++ requestSuffix) : a = b := by
  have hl := congrArg String.toList h
  rw [String.toList_append, String.toList_append, List.append_cancel_right_eq] at hl
  exact String.toList_inj.1 hl

theorem initializerName_inj {a b : String} (h : initializerName a = initializerName b) : a = b := by
  have hl := congrArg String.toList h
  rw [initializerName, initializerName, String.toList_append, String.toList_append,
    List.append_cancel_left_eq] at hl
  exact String.toList_inj.1 hl

theorem nodup_map_iff {f : String → String} (hf : ∀ {a b}, f a = f b → a = b) (xs : List String) :
    (xs.map f).Nodup ↔ xs.Nodup := by
  unfold List.Nodup
  rw [List.pairwise_map]
  exact ⟨fun h => h.imp fun hne heq => hne (congrArg f heq), fun h => h.imp fun hne heq => hne (hf heq)⟩

/-- Under the naming rules the identifiers of a batch are distinct exactly if it is separate. -/
theorem nodup_declared_iff {ds : List Definition} (hw : ∀ d ∈ ds, d.WellNamed)
    (hm : (modelNames ds).Nodup) :
    (Go.writtenSource ds).declared.Nodup ↔ Separate ds := by
  have hrequest : ∀ name ∈ (methodNames ds).map (· ++ requestSuffix),
      requestSuffix.toList <:+ name.toList := by
    intro name hname
    obtain ⟨m, -, rfl⟩ := List.mem_map.1 hname
    rw [String.toList_append]
    exact List.suffix_append _ _
  have hservice : ∀ s ∈ serviceNames ds, ¬ requestSuffix.toList <:+ s.toList := by
    intro s hs
    exact (unreserved_of_service hw hs).2
  rw [(perm_declared ds).nodup_iff, List.nodup_append, List.nodup_append, List.nodup_append,
    nodup_map_iff append_suffix_inj, nodup_map_iff initializerName_inj]
  constructor
  · intro h
    obtain ⟨-, ⟨hmethods, ⟨hservices, -, hinit⟩, -⟩, hmodels⟩ := h
    refine ⟨hmethods, hservices, fun s hs hmodel => ?_, fun s hs => ⟨fun hmodel => ?_, fun hs' => ?_⟩⟩
    · exact hmodels s hmodel s (List.mem_append_right _ (List.mem_append_left _ hs)) rfl
    · exact hmodels _ hmodel _
        (List.mem_append_right _ (List.mem_append_right _ (List.mem_map.2 ⟨s, hs, rfl⟩))) rfl
    · exact hinit _ hs' _ (List.mem_map.2 ⟨s, hs, rfl⟩) rfl
  · intro h
    refine ⟨hm, ⟨h.methods, ⟨h.services, h.services, fun a ha b hb hab => ?_⟩, fun a ha b hb hab => ?_⟩,
      fun a ha b hb hab => ?_⟩
    · obtain ⟨s, hs, rfl⟩ := List.mem_map.1 hb
      exact (h.initializers s hs).2 (hab ▸ ha)
    · -- a request struct, and an interface or a wiring function
      have hsuffix := hrequest a ha
      rw [hab] at hsuffix
      rcases List.mem_append.1 hb with hb | hb
      · exact hservice b hb hsuffix
      · obtain ⟨s, hs, rfl⟩ := List.mem_map.1 hb
        exact not_suffix_initializerName (hservice s hs) hsuffix
    · subst hab
      rcases List.mem_append.1 hb with hb | hb
      · exact (unreserved_of_model hw ha).2 (hrequest a hb)
      · rcases List.mem_append.1 hb with hb | hb
        · exact h.models a hb ha
        · obtain ⟨s, hs, rfl⟩ := List.mem_map.1 hb
          exact (h.initializers s hs).1 ha

/-- A file is the formatted text of a source that declares its identifiers one by one. They are
    distinct exactly if the batch is separate. -/
theorem generateAll_distinct_iff {check : Go.Check} {o : Options} {ds : List Definition} {out : String}
    (h : generateAll check o ds = .ok out) :
    ∃ s, declarations ds = .ok s ∧ Go.format check (s.text o.go) = .ok out ∧
      List.Forall₂ Go.Source.Declares s.declared s.blocks ∧ (s.declared.Nodup ↔ Separate ds) := by
  have ha := accepted_of_generateAll h
  rw [generateAll_eq, Fallible.bind_eq_ok] at h
  obtain ⟨s, hs, hf⟩ := h
  refine ⟨s, hs, ?_, s.forall₂_declares, ?_⟩
  · cases hformat : Go.format check (s.text o.go) with
    | ok text => rw [hformat] at hf; cases hf; rfl
    | error fault => rw [hformat] at hf; cases hf
  · rw [declarations_eq_written hs]
    exact nodup_declared_iff ha.wellNamed ha.distinctModels

/-- Two services with a method of one name. -/
def clashingBatch : List Definition :=
  [⟨.empty, .ofList [("Books", .ofList [("get", ⟨.ofList [("id", "string")]⟩)]),
    ("Users", .ofList [("get", ⟨.ofList [("id", "string")]⟩)])]⟩]

theorem generateAll_clashingBatch {check : Go.Check} (h : Go.Check.AcceptsFiles check) :
    generateAll check plainOptions clashingBatch = .ok (Printer.file plainOptions.go clashingBatch) := by
  have hp : Plain plainOptions.go clashingBatch := by decide +kernel
  have ha : Accepted clashingBatch := by decide +kernel
  exact generateAll_of_accepted hp.toLegible ha (h _ (Go.isFile_file hp ha))

theorem not_separate_clashingBatch : ¬ Separate clashingBatch := by
  intro h
  exact absurd h.methods (by decide +kernel)

theorem generateAll_distinct_clashingBatch :
    ∃ s, declarations clashingBatch = .ok s ∧ ¬ s.declared.Nodup := by
  obtain ⟨s, hs, -, -, hdistinct⟩ :=
    generateAll_distinct_iff (generateAll_clashingBatch Go.exact_fileCheck.acceptsFiles)
  exact ⟨s, hs, fun h => not_separate_clashingBatch (hdistinct.1 h)⟩

/-- A batch may get its file although the file declares a name twice: no check that accepts all
    Go files prevents it. -/
theorem two_services_redeclare :
    ¬ ∃ check, Go.Check.AcceptsFiles check ∧
      ∀ (o : Options) (ds : List Definition) (out : String) (s : Go.Source),
        generateAll check o ds = .ok out → declarations ds = .ok s → s.declared.Nodup := by
  rintro ⟨check, hfiles, h⟩
  have ha : Accepted clashingBatch := by decide +kernel
  obtain ⟨s, hs⟩ := exists_declarations_eq_ok.2 ha
  have hnodup := h _ _ _ s (generateAll_clashingBatch hfiles) hs
  rw [declarations_eq_written hs, nodup_declared_iff ha.wellNamed ha.distinctModels] at hnodup
  exact not_separate_clashingBatch hnodup

end ServiceSchema
