/-
  ServiceSchema.Proofs.NameClashes — when two identifiers of a generated file coincide.

  Definitions that pass all checks may still clash (`Clash`): through methods of two
  services, services of two definitions, a service and a model, or a name that is the one
  of a wiring function. The request structs take part in the first of these only, as their
  suffix is kept for them.

  - `methodNames_nodup_iff`, `serviceNames_nodup_iff`: names that are distinct in every
    table are distinct in the batch exactly if no two tables share one.
  - `nodup_identifiers_iff`: the identifiers are distinct exactly if nothing clashes.
  - `checked_batch_coincides_iff`: the same for every batch that is checked and whose models
    are declared without a fault, with what request structs never coincide with.
-/
import ServiceSchema.Proofs.TopLevelNames

namespace ServiceSchema

/-- The reasons for two identifiers of a batch to coincide. -/
inductive Clash (ds : List Definition) : Prop
  /-- Two services have a method of one name. -/
  | methods {i j : Nat} {s t : String × Service} {name : String} (hij : i < j)
      (hs : (serviceEntries ds)[i]? = some s) (ht : (serviceEntries ds)[j]? = some t)
      (hname : name ∈ s.2.keys) (hname' : name ∈ t.2.keys) : Clash ds
  /-- Two definitions have a service of one name. -/
  | services {i j : Nat} {d e : Definition} {name : String} (hij : i < j)
      (hd : ds[i]? = some d) (he : ds[j]? = some e)
      (hname : name ∈ d.services.keys) (hname' : name ∈ e.services.keys) : Clash ds
  /-- A service has the name of a model. -/
  | model {name : String} (hs : name ∈ serviceNames ds) (hm : name ∈ modelNames ds) : Clash ds
  /-- A model or a service has the name of the wiring function of a service. -/
  | initializer {service name : String} (hs : service ∈ serviceNames ds)
      (hname : name ∈ modelNames ds ∨ name ∈ serviceNames ds)
      (heq : name = initializerName service) : Clash ds

/-! ## Names of several tables -/

/-- Lists without repeats, put one after another, have none exactly if no two of them have
    an element in common. -/
theorem nodup_flatMap_iff {α : Type} {f : α → List String} {xs : List α} (h : ∀ x ∈ xs, (f x).Nodup) :
    (xs.flatMap f).Nodup ↔
      ∀ (i j : Nat) (x y : α) (name : String), i < j → xs[i]? = some x → xs[j]? = some y →
        name ∈ f x → name ∉ f y := by
  unfold List.Nodup at h ⊢
  rw [List.pairwise_flatMap, List.pairwise_iff_getElem]
  constructor
  · intro hpair i j x y name hij hx hy hname hname'
    obtain ⟨hi, rfl⟩ := List.getElem?_eq_some_iff.1 hx
    obtain ⟨hj, rfl⟩ := List.getElem?_eq_some_iff.1 hy
    exact hpair.2 i j hi hj hij name hname name hname' rfl
  · intro hall
    refine ⟨h, fun i j hi hj hij a ha b hb hab => ?_⟩
    subst hab
    exact hall i j _ _ a hij (List.getElem?_eq_getElem hi) (List.getElem?_eq_getElem hj) ha hb

theorem methodNames_nodup_iff (ds : List Definition) :
    (methodNames ds).Nodup ↔ ∀ (i j : Nat) (s t : String × Service) (name : String), i < j →
      (serviceEntries ds)[i]? = some s → (serviceEntries ds)[j]? = some t →
        name ∈ s.2.keys → name ∉ t.2.keys :=
  nodup_flatMap_iff fun s _ => s.2.nodup_keys

theorem serviceNames_nodup_iff (ds : List Definition) :
    (serviceNames ds).Nodup ↔ ∀ (i j : Nat) (d e : Definition) (name : String), i < j →
      ds[i]? = some d → ds[j]? = some e → name ∈ d.services.keys → name ∉ e.services.keys := by
  have hnames : serviceNames ds = ds.flatMap (·.services.keys) := by
    unfold serviceNames serviceEntries Table.keys
    rw [List.map_flatMap]
  rw [hnames]
  exact nodup_flatMap_iff fun d _ => d.services.nodup_keys

theorem separate_iff_not_clash (ds : List Definition) : Separate ds ↔ ¬ Clash ds := by
  constructor
  · intro h hclash
    cases hclash with
    | methods hij hs ht hname hname' =>
      exact (methodNames_nodup_iff ds).1 h.methods _ _ _ _ _ hij hs ht hname hname'
    | services hij hd he hname hname' =>
      exact (serviceNames_nodup_iff ds).1 h.services _ _ _ _ _ hij hd he hname hname'
    | model hs hm => exact h.models _ hs hm
    | initializer hs hname heq =>
      subst heq
      rcases hname with hname | hname
      · exact (h.initializers _ hs).1 hname
      · exact (h.initializers _ hs).2 hname
  · intro h
    refine ⟨?_, ?_, ?_, ?_⟩
    · rw [methodNames_nodup_iff]
      intro i j s t name hij hs ht hname hname'
      exact h (.methods hij hs ht hname hname')
    · rw [serviceNames_nodup_iff]
      intro i j d e name hij hd he hname hname'
      exact h (.services hij hd he hname hname')
    · intro s hs hm
      exact h (.model hs hm)
    · intro s hs
      exact ⟨fun hm => h (.initializer hs (Or.inl hm) rfl), fun hm => h (.initializer hs (Or.inr hm) rfl)⟩

/-! ## Request structs -/

/-- The names of the request structs of a service. -/
def requestNames (service : Service) : List String := service.keys.map (· ++ requestSuffix)

theorem nodup_requestNames (service : Service) : (requestNames service).Nodup :=
  (nodup_map_iff append_suffix_inj _).2 service.nodup_keys

theorem suffix_of_requestNames {service : Service} {name : String} (h : name ∈ requestNames service) :
    requestSuffix.toList <:+ name.toList := by
  obtain ⟨m, -, rfl⟩ := List.mem_map.1 h
  rw [String.toList_append]
  exact List.suffix_append _ _

/-- The reserved suffix keeps a request struct apart from models, interfaces and wiring
    functions. -/
theorem requestNames_apart {ds : List Definition} (hw : ∀ d ∈ ds, d.WellNamed) {service : Service}
    {name : String} (h : name ∈ requestNames service) :
    name ∉ modelNames ds ∧ name ∉ serviceNames ds ∧ name ∉ (serviceNames ds).map initializerName := by
  have hsuffix := suffix_of_requestNames h
  refine ⟨?_, ?_, ?_⟩
  · intro hm
    exact (unreserved_of_model hw hm).2 hsuffix
  · intro hs
    exact (unreserved_of_service hw hs).2 hsuffix
  · intro hi
    obtain ⟨s, hs, rfl⟩ := List.mem_map.1 hi
    exact not_suffix_initializerName (unreserved_of_service hw hs).2 hsuffix

/-! ## Checked batches -/

/-- The identifiers of a batch, as they are pasted: the models, and for each service its request
    structs, its interface and its wiring function. -/
def identifiers (ds : List Definition) : List String :=
  modelNames ds ++ (serviceEntries ds).flatMap fun s => requestNames s.2 ++ [s.1, initializerName s.1]

theorem nodup_identifiers_iff {ds : List Definition} (hw : ∀ d ∈ ds, d.WellNamed)
    (hm : (modelNames ds).Nodup) : (identifiers ds).Nodup ↔ ¬ Clash ds := by
  have hdeclared : identifiers ds = (Go.writtenSource ds).declared := (declared_written ds).symm
  rw [hdeclared, nodup_declared_iff hw hm, separate_iff_not_clash]

theorem not_nodup_iff {xs : List String} :
    ¬ xs.Nodup ↔ ∃ (i j : Nat) (x : String), i < j ∧ xs[i]? = some x ∧ xs[j]? = some x := by
  unfold List.Nodup
  rw [List.pairwise_iff_getElem]
  constructor
  · intro h
    apply Classical.byContradiction
    intro hnone
    refine h fun i j hi hj hij heq => ?_
    exact hnone ⟨i, j, _, hij, List.getElem?_eq_getElem hi, heq ▸ List.getElem?_eq_getElem hj⟩
  · intro h hall
    obtain ⟨i, j, x, hij, hx, hx'⟩ := h
    obtain ⟨hi, rfl⟩ := List.getElem?_eq_some_iff.1 hx
    obtain ⟨hj, heq⟩ := List.getElem?_eq_some_iff.1 hx'
    exact hall i j hi hj hij heq.symm

/-- Let a batch be checked and its models declared without a fault. Its text declares the
    identifiers of the batch one by one, and two of them coincide exactly if the batch clashes. A
    request struct coincides with no model, no interface and no wiring function, and with
    no other one of its service. -/
theorem checked_batch_coincides_iff {ds : List Definition} {ms : Models}
    (h : declareChecked Models.empty ds = .ok ms) :
    (∀ s, Go.sourceOfAll ms ds = .ok s → s.declared = identifiers ds ∧
        List.Forall₂ Go.Source.Declares (identifiers ds) s.blocks) ∧
      ((∃ (i j : Nat) (name : String),
        i < j ∧ (identifiers ds)[i]? = some name ∧ (identifiers ds)[j]? = some name) ↔ Clash ds) ∧
      ∀ s ∈ serviceEntries ds, (requestNames s.2).Nodup ∧ ∀ name ∈ requestNames s.2,
        name ∉ modelNames ds ∧ name ∉ serviceNames ds ∧
          name ∉ (serviceNames ds).map initializerName := by
  obtain ⟨hw, hm, -, -⟩ := declareChecked_eq_ok.1 h
  refine ⟨?_, ?_, ?_⟩
  · intro s hs
    have hdeclared : s.declared = identifiers ds := by
      rw [Go.sourceOfAll_eq_written hs]
      exact declared_written ds
    exact ⟨hdeclared, hdeclared ▸ s.forall₂_declares⟩
  · rw [← not_nodup_iff, nodup_identifiers_iff hw hm, Classical.not_not]
  · intro s _
    exact ⟨nodup_requestNames s.2, fun name hname => requestNames_apart hw hname⟩

/-- A service in one file, and a model of its name in the other. -/
def namesakeBatch : List Definition :=
  [⟨.ofList [("Shelf", .empty)], .empty⟩,
   ⟨.empty, .ofList [("Shelf", .ofList [("find", ⟨.ofList [("title", "string")]⟩)])]⟩]

theorem checked_namesakeBatch : declareChecked Models.empty namesakeBatch = .ok ⟨["Shelf"]⟩ := rfl

theorem checked_batch_coincides_namesakeBatch :
    declareChecked Models.empty namesakeBatch = .ok ⟨["Shelf"]⟩ ∧ Clash namesakeBatch ∧
      ∃ (i j : Nat) (name : String), i < j ∧ (identifiers namesakeBatch)[i]? = some name ∧
        (identifiers namesakeBatch)[j]? = some name := by
  have hservice : "Shelf" ∈ serviceNames namesakeBatch := by decide +kernel
  have hmodel : "Shelf" ∈ modelNames namesakeBatch := by decide +kernel
  have hclash : Clash namesakeBatch := .model hservice hmodel
  exact ⟨checked_namesakeBatch, hclash, (checked_batch_coincides_iff checked_namesakeBatch).2.1.2 hclash⟩

end ServiceSchema
