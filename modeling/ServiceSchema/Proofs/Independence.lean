/-
  ServiceSchema.Proofs.Independence — what a generated file does not depend on.

  Types stand in the file as they are written. So the declared models decide whether a type
  can be read and nothing else, although a type that is read with more of them may be
  understood otherwise: a name that looks like a list is a list until it is declared. And of
  a batch only the models and the services count, not the definitions that hold them.

  - `Go.Readable.of_more`: what can be read can be read with more models.
  - `generateGo_of_more_models`: further models neither break nor change a file.
  - `accepted_iff_entries`: acceptance, said of the models and the services of all definitions.
  - `generateAll_regrouped`: batches with the same models and services get the same file.
-/
import ServiceSchema.Proofs.Decoding

namespace ServiceSchema

open Fallible

/-! ## More models -/

/-- One step of reading: what is not reserved can be read if it is a name, or a list or a map
    whose parts can be read. -/
theorem TypeExpr.exists_readChars_iff {ms : Models} {cs : List Char} :
    (∃ t, readChars ms cs = .ok t) ↔ isReserved (String.ofList cs) = false ∧
      (isBase (String.ofList cs) = true ∨ ms.contains (String.ofList cs) = true ∨
        (∃ item, shape cs = .array item ∧ ∃ t, readChars ms item = .ok t) ∨
        ∃ key value, shape cs = .map key value ∧ (∃ b, BaseType.read (String.ofList key) = .ok b) ∧
          ∃ t, readChars ms value = .ok t) := by
  rw [readChars]
  by_cases hr : isReserved (String.ofList cs) = true
  · simp [hr]
  by_cases hn : (isBase (String.ofList cs) || ms.contains (String.ofList cs)) = true
  · have hname := Bool.or_eq_true _ _ ▸ hn
    simp only [hr, hn, if_true, if_false, Bool.false_eq_true]
    refine ⟨fun _ => ⟨trivial, ?_⟩, fun _ => ⟨_, rfl⟩⟩
    rcases hname with hb | hm
    · exact Or.inl hb
    · exact Or.inr (Or.inl hm)
  have hnone := Bool.or_eq_false_iff.1 (Bool.not_eq_true _ ▸ hn)
  simp only [hr, hnone.1, hnone.2, Bool.or_self, if_false, Bool.false_eq_true, false_or, true_and]
  split
  · rename_i item hs
    rw [exists_bind_pure_eq_ok]
    simp [hs]
  · rename_i key value hs
    simp only [hs, bind_eq_ok, pure_eq_ok]
    constructor
    · intro h
      obtain ⟨_, b, hb, t, ht, -⟩ := h
      exact Or.inr ⟨key, value, rfl, ⟨b, hb⟩, t, ht⟩
    · intro h
      rcases h with ⟨_, h, -⟩ | ⟨_, _, h, ⟨b, hb⟩, t, ht⟩
      · cases h
      · cases h
        exact ⟨_, b, hb, t, ht, rfl⟩
  · rename_i hs
    simp [hs]
  · rename_i hs
    simp [hs]

theorem TypeExpr.exists_readChars_of_more {ms ms' : Models}
    (h : ∀ name, ms.contains name = true → ms'.contains name = true) (cs : List Char)
    (hr : ∃ t, readChars ms cs = .ok t) : ∃ t, readChars ms' cs = .ok t := by
  induction cs using WellFounded.induction (measure List.length).wf with
  | h cs ih =>
    rw [exists_readChars_iff] at hr ⊢
    obtain ⟨hres, hb | hm | ⟨item, hs, ht⟩ | ⟨key, value, hs, hkey, ht⟩⟩ := hr
    · exact ⟨hres, Or.inl hb⟩
    · exact ⟨hres, Or.inr (Or.inl (h _ hm))⟩
    · have hitem := ih item (length_lt_of_shape_array hs) ht
      exact ⟨hres, Or.inr (Or.inr (Or.inl ⟨item, hs, hitem⟩))⟩
    · have hvalue := ih value (length_lt_of_shape_map hs) ht
      exact ⟨hres, Or.inr (Or.inr (Or.inr ⟨key, value, hs, hkey, hvalue⟩))⟩

/-- What can be read can be read with more models. -/
theorem Go.Readable.of_more {ms ms' : Models}
    (h : ∀ name, ms.contains name = true → ms'.contains name = true) {raw : String}
    (hr : Readable ms raw) : Readable ms' raw :=
  TypeExpr.exists_readChars_of_more h raw.toList hr

/-- Where at most the declarations `w` come out, their format is all that is left to ask. -/
theorem emit_eq_ok {check : Go.Check} {o : GoOptions} {x : Except SchemaFault Go.Source} {w : Go.Source}
    {out : String} (hw : ∀ s, x = .ok s → s = w) :
    (x >>= fun s => (Go.format check (s.text o)).mapError SchemaFault.emit) = .ok out ↔
      (∃ s, x = .ok s) ∧ Go.format check (w.text o) = .ok out := by
  cases x with
  | error fault =>
    constructor
    · intro h
      cases h
    · intro h
      obtain ⟨⟨s, hs⟩, -⟩ := h
      cases hs
  | ok s =>
    rw [hw s rfl, ok_bind]
    cases Go.format check (w.text o) <;> simp [Except.mapError]

/-- There is a file exactly if all types can be read and the declarations can be formatted. -/
theorem generateGo_eq_ok {check : Go.Check} {o : GoOptions} {ms : Models} {ds : List Definition}
    {out : String} :
    generateGo check o ms ds = .ok out ↔ (∀ d ∈ ds, ∀ raw ∈ d.rawTypes, Go.Readable ms raw) ∧
      Go.format check ((Go.writtenSource ds).text o) = .ok out := by
  rw [generateGo_eq, emit_eq_ok fun s => Go.sourceOfAll_eq_written, Go.exists_sourceOfAll_eq_ok]

/-- There is a file exactly if the batch is accepted and its declarations can be formatted. -/
theorem generateAll_eq_ok {check : Go.Check} {o : Options} {ds : List Definition} {out : String} :
    generateAll check o ds = .ok out ↔ Accepted ds ∧
      Go.format check ((Go.writtenSource ds).text o.go) = .ok out := by
  rw [generateAll_eq, emit_eq_ok fun s => declarations_eq_written, exists_declarations_eq_ok]

/-- Further models neither break nor change the file of a batch, and models that give a file
    all give the same one. -/
theorem generateGo_of_more_models (check : Go.Check) (o : GoOptions) (ds : List Definition) :
    (∀ (ms ms' : Models) (out : String), (∀ name, ms.contains name = true → ms'.contains name = true) →
      generateGo check o ms ds = .ok out → generateGo check o ms' ds = .ok out) ∧
    ∀ (ms ms' : Models) (out out' : String),
      generateGo check o ms ds = .ok out → generateGo check o ms' ds = .ok out' → out = out' := by
  simp only [generateGo_eq_ok]
  constructor
  · intro ms ms' out hmore h
    exact ⟨fun d hd raw hraw => (h.1 d hd raw hraw).of_more hmore, h.2⟩
  · intro ms ms' out out' h h'
    exact Except.ok.inj (h.2.symm.trans h'.2)

theorem generateGo_of_more_models_library :
    TypeExpr.read ⟨["book"]⟩ "[]book" ≠ TypeExpr.read ⟨["[]book", "book"]⟩ "[]book" ∧
      ∃ out, generateGo Go.fileCheck plainOptions.go ⟨["book"]⟩ plainBatch = .ok out ∧
        generateGo Go.fileCheck plainOptions.go ⟨["[]book", "book"]⟩ plainBatch = .ok out := by
  have hread : TypeExpr.read ⟨["book"]⟩ "[]book" ≠ TypeExpr.read ⟨["[]book", "book"]⟩ "[]book" := by
    decide +kernel
  have hnames : modelNames plainBatch = ["book"] := by decide +kernel
  have hfile : generateGo Go.fileCheck plainOptions.go ⟨["book"]⟩ plainBatch =
      .ok (Printer.file plainOptions.go plainBatch) := by
    rw [generateGo_eq_ok, ← hnames]
    exact ⟨accepted_plainBatch.readable, (generateAll_eq_ok.1 generateAll_plainBatch).2⟩
  have hmore : ∀ name, Models.contains ⟨["book"]⟩ name = true →
      Models.contains ⟨["[]book", "book"]⟩ name = true := by
    intro name h
    simp only [Models.contains, List.contains_iff_mem] at h ⊢
    exact List.mem_cons_of_mem _ h
  exact ⟨hread, _, hfile, (generateGo_of_more_models _ _ _).1 _ _ _ hmore hfile⟩

/-! ## Other definitions -/

theorem modelNames_eq (ds : List Definition) : modelNames ds = (modelEntries ds).map Prod.fst := by
  rw [modelNames, modelEntries, List.map_flatMap]
  rfl

/-- Acceptance, said of the models and the services of all definitions. -/
theorem accepted_iff_entries {ds : List Definition} :
    Accepted ds ↔ ((modelEntries ds).map Prod.fst).Nodup ∧
      ((∀ m ∈ modelEntries ds, checkModel m.1 m.2 = .ok ()) ∧
        ∀ s ∈ serviceEntries ds, checkService s.1 s.2 = .ok ()) ∧
      (∀ m ∈ modelEntries ds, ∀ raw ∈ m.2.entries.map Prod.snd,
        Go.Readable ⟨(modelEntries ds).map Prod.fst⟩ raw) ∧
        ∀ s ∈ serviceEntries ds, ∀ m ∈ s.2.entries,
          ∀ raw ∈ m.2.params.map Prod.snd ++ m.2.returns.toList,
            Go.Readable ⟨(modelEntries ds).map Prod.fst⟩ raw := by
  have hnamed : (∀ d ∈ ds, d.WellNamed) ↔ (∀ m ∈ modelEntries ds, checkModel m.1 m.2 = .ok ()) ∧
      ∀ s ∈ serviceEntries ds, checkService s.1 s.2 = .ok () := by
    simp only [← Definition.check_eq_ok, Definition.check, seq_eq_ok, forM_eq_ok, modelEntries,
      serviceEntries, List.forall_mem_flatMap, forall_and]
  have hread : ∀ P : String → Prop, (∀ d ∈ ds, ∀ raw ∈ d.rawTypes, P raw) ↔
      (∀ m ∈ modelEntries ds, ∀ raw ∈ m.2.entries.map Prod.snd, P raw) ∧
        ∀ s ∈ serviceEntries ds, ∀ m ∈ s.2.entries,
          ∀ raw ∈ m.2.params.map Prod.snd ++ m.2.returns.toList, P raw := by
    intro P
    simp only [Definition.rawTypes, Definition.methods, modelEntries, serviceEntries,
      List.forall_mem_append, List.forall_mem_flatMap, forall_and]
  rw [← hnamed, ← hread, ← modelNames_eq]
  exact ⟨fun h => ⟨h.distinctModels, h.wellNamed, h.readable⟩, fun h => ⟨h.1, h.2.1, h.2.2⟩⟩

theorem Go.writtenSource_eq (ds : List Definition) :
    writtenSource ds = ⟨(modelEntries ds).map fun m => writtenStruct m.1 m.2.entries,
      (serviceEntries ds).map fun s => writtenEndpoint s.1 s.2⟩ := by
  rw [writtenSource, modelEntries, serviceEntries, List.map_flatMap, List.map_flatMap]

/-- How models and services are divided into definitions does not matter: batches that have
    the same ones, in the same order, get the same file or both none. -/
theorem generateAll_regrouped {check : Go.Check} {o : Options} {ds ds' : List Definition}
    (hm : modelEntries ds = modelEntries ds') (hs : serviceEntries ds = serviceEntries ds')
    (out : String) : generateAll check o ds = .ok out ↔ generateAll check o ds' = .ok out := by
  rw [generateAll_eq_ok, generateAll_eq_ok, accepted_iff_entries, accepted_iff_entries,
    Go.writtenSource_eq, Go.writtenSource_eq, hm, hs]

/-- The models and services of `plainBatch` in one definition, with an empty one before it. -/
def regroupedBatch : List Definition :=
  [.empty,
   ⟨.ofList [("book", .ofList [("title", "string"), ("pages", "map[string]int32")])],
    .ofList [("Shelf", .ofList [("find", ⟨.ofList [("title", "string"), ("return", "[]book")]⟩)])]⟩]

theorem generateAll_regrouped_library :
    plainBatch ≠ regroupedBatch ∧ ∃ out, generateAll Go.fileCheck plainOptions plainBatch = .ok out ∧
      generateAll Go.fileCheck plainOptions regroupedBatch = .ok out := by
  have hm : modelEntries plainBatch = modelEntries regroupedBatch := by decide +kernel
  have hs : serviceEntries plainBatch = serviceEntries regroupedBatch := by decide +kernel
  exact ⟨by decide +kernel, _, generateAll_plainBatch,
    (generateAll_regrouped hm hs _).1 generateAll_plainBatch⟩

end ServiceSchema
