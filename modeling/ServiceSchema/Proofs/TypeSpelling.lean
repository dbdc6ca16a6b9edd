/-
  ServiceSchema.Proofs.TypeSpelling — a type that can be read is spelled as it was written.

  - `TypeExpr.render_of_read`: the spelling of a type that was read is the text it was
    read from.
  - `TypeExpr.leaf_of_read`: the name at its bottom is a base type or a declared model,
    and is not reserved.
  - `declarations_eq_written`: the declarations of a batch are those of its definitions
    with all types as they are written (`Go.writtenSource`).
-/
import ServiceSchema.Proofs.Acceptance

namespace ServiceSchema

open Fallible

theorem BaseType.name_of_ofName? {text : String} {b : BaseType} (h : ofName? text = some b) :
    b.name = text := by
  simpa using List.find?_some h

theorem BaseType.name_of_read {text : String} {b : BaseType} (h : read text = .ok b) :
    b.name = text := by
  unfold read at h
  split at h
  · rename_i b' hb; cases h; exact name_of_ofName? hb
  · cases h

namespace TypeExpr

/-- The name at the bottom of a type. -/
def leaf : TypeExpr → String
  | named name => name
  | array item => item.leaf
  | map _ value => value.leaf

/-- The spelling of a type has the characters of its names, and those of `map[]`. -/
theorem forall_mem_render {P : Char → Prop} (hsigns : ∀ c ∈ ['m', 'a', 'p', '[', ']'], P c)
    (hkey : ∀ (key : BaseType), ∀ c ∈ key.name.toList, P c) {t : TypeExpr}
    (h : ∀ c ∈ t.leaf.toList, P c) : ∀ c ∈ t.render.toList, P c := by
  induction t with
  | named name => exact h
  | array item ih =>
    have hchars : (TypeExpr.array item).render.toList = ['[', ']'] ++ item.render.toList := by
      simp [render]
    rw [hchars, List.forall_mem_append]
    refine ⟨fun c hc => hsigns c ?_, ih h⟩
    exact List.mem_append_right ['m', 'a', 'p'] hc
  | map key value ih =>
    have hchars : (TypeExpr.map key value).render.toList =
        ['m', 'a', 'p', '['] ++ (key.name.toList ++ ([']'] ++ value.render.toList)) := by
      simp [render]
    rw [hchars, List.forall_mem_append, List.forall_mem_append, List.forall_mem_append]
    refine ⟨fun c hc => hsigns c (List.mem_append_left [']'] hc), hkey key, fun c hc => hsigns c ?_, ih h⟩
    exact List.mem_append_right ['m', 'a', 'p', '['] hc

theorem eq_of_shape_array {cs item : List Char} (h : shape cs = .array item) :
    cs = '[' :: ']' :: item := by
  unfold shape at h
  split at h
  · cases h; rfl
  · split at h
    · cases h
    · split at h
      · split at h <;> cases h
      · cases h
  · cases h

theorem eq_of_shape_map {cs key value : List Char} (h : shape cs = .map key value) :
    cs = 'm' :: 'a' :: 'p' :: '[' :: key ++ ']' :: value := by
  unfold shape at h
  split at h
  · cases h
  · split at h
    · cases h
    · split at h
      · rename_i inner _
        split at h
        · rename_i c rest hd
          cases h
          -- the key ends at the first bracket that closes
          have hc : c = ']' := by
            have := List.head?_dropWhile_not (fun x => decide (x ≠ ']')) inner
            rw [hd] at this
            simpa using this
          have hinner : inner.takeWhile (fun x => decide (x ≠ ']')) ++
              inner.dropWhile (fun x => decide (x ≠ ']')) = inner :=
            List.takeWhile_append_dropWhile
          rw [hd, hc] at hinner
          rw [List.cons_append, List.cons_append, List.cons_append, List.cons_append, hinner]
        · cases h
      · cases h
  · cases h

theorem render_of_readChars (ms : Models) (cs : List Char) :
    ∀ t, readChars ms cs = .ok t → t.render.toList = cs := by
  fun_induction readChars ms cs with
  | case1 => intro t h; cases h
  | case2 cs text => intro t h; cases h; exact String.toList_ofList
  | case3 cs text _ _ item hs ih =>
    intro t h
    obtain ⟨t', ht, h⟩ := bind_eq_ok.1 h
    cases h
    rw [render, String.toList_append, ih t' ht, eq_of_shape_array hs]
    rfl
  | case4 cs text _ _ key value hs ih =>
    intro t h
    obtain ⟨b, hb, h⟩ := bind_eq_ok.1 h
    obtain ⟨t', ht, h⟩ := bind_eq_ok.1 h
    cases h
    simp [render, ih t' ht, BaseType.name_of_read hb, eq_of_shape_map hs]
  | case5 => intro t h; cases h
  | case6 => intro t h; cases h

/-- The spelling of a type is what it was read from. -/
theorem render_of_read {ms : Models} {raw : String} {t : TypeExpr} (h : read ms raw = .ok t) :
    t.render = raw :=
  String.toList_inj.1 (render_of_readChars ms raw.toList t h)

theorem leaf_of_readChars (ms : Models) (cs : List Char) :
    ∀ t, readChars ms cs = .ok t → Unreserved t.leaf ∧ (isBase t.leaf = true ∨ t.leaf ∈ ms.names) := by
  fun_induction readChars ms cs with
  | case1 => intro t h; cases h
  | case2 cs text hr hn =>
    intro t h
    cases h
    refine ⟨isReserved_eq_false.1 (Bool.not_eq_true _ ▸ hr), ?_⟩
    rcases Bool.or_eq_true _ _ ▸ hn with hb | hm
    · exact Or.inl hb
    · exact Or.inr (List.contains_iff_mem.1 hm)
  | case3 cs text _ _ item hs ih =>
    intro t h
    obtain ⟨t', ht, h⟩ := bind_eq_ok.1 h
    cases h
    exact ih t' ht
  | case4 cs text _ _ key value hs ih =>
    intro t h
    obtain ⟨b, hb, h⟩ := bind_eq_ok.1 h
    obtain ⟨t', ht, h⟩ := bind_eq_ok.1 h
    cases h
    exact ih t' ht
  | case5 => intro t h; cases h
  | case6 => intro t h; cases h

/-- At the bottom of a type that was read is a base type or a declared model. -/
theorem leaf_of_read {ms : Models} {raw : String} {t : TypeExpr} (h : read ms raw = .ok t) :
    Unreserved t.leaf ∧ (isBase t.leaf = true ∨ t.leaf ∈ ms.names) :=
  leaf_of_readChars ms raw.toList t h

end TypeExpr

/-! ## Declarations with types as written -/

namespace Go

def writtenMember (f : String × String) : Member := ⟨exportedName f.1, f.2, f.1⟩

def writtenStruct (name : String) (fields : List (String × String)) : Struct :=
  ⟨name, fields.map writtenMember⟩

def writtenSignature (name : String) (method : Method) : Signature :=
  ⟨name, method.params, method.returns⟩

def writtenHandler (service name : String) (method : Method) : Handler :=
  ⟨service, name, name ++ requestSuffix, method.params.map fun p => exportedName p.1,
    method.returns.isSome⟩

def writtenEndpoint (name : String) (service : Service) : Endpoint :=
  ⟨service.entries.map fun m => writtenStruct (m.1 ++ requestSuffix) m.2.params,
    ⟨name, service.entries.map fun m => writtenSignature m.1 m.2⟩,
    service.entries.map fun m => writtenHandler name m.1 m.2⟩

/-- The declarations of a batch with all types as they are written. -/
def writtenSource (ds : List Definition) : Source :=
  ⟨ds.flatMap fun d => d.models.entries.map fun m => writtenStruct m.1 m.2.entries,
    ds.flatMap fun d => d.services.entries.map fun s => writtenEndpoint s.1 s.2⟩

variable {ms : Models}

theorem membersOf_eq_written {fields : List (String × String)} {members : List Member}
    (h : membersOf ms fields = .ok members) : members = fields.map writtenMember := by
  refine mapM_eq_map (fun f _ m hm => ?_) h
  obtain ⟨t, ht, hm⟩ := bind_eq_ok.1 hm
  cases hm
  rw [writtenMember, TypeExpr.render_of_read ht]

theorem modelStruct_eq_written {name : String} {model : Model} {s : Struct}
    (h : modelStruct ms name model = .ok s) :
    s = writtenStruct name model.entries := by
  obtain ⟨members, hm, h⟩ := bind_eq_ok.1 h
  cases h
  rw [membersOf_eq_written hm, writtenStruct]

theorem returns_eq_written {written result : Option String}
    (h : (written.mapM fun raw => do return (← TypeExpr.read ms raw).render) = .ok result) :
    result = written := by
  cases written with
  | none => exact (pure_eq_ok.1 h).symm
  | some raw =>
    have h' : (some <$> (TypeExpr.read ms raw >>= fun t => pure t.render)) = .ok result := h
    cases hr : TypeExpr.read ms raw with
    | error e => rw [hr] at h'; cases h'
    | ok t => rw [hr] at h'; cases h'; rw [TypeExpr.render_of_read hr]

theorem methodParts_eq_written {service name : String} {method : Method}
    {parts : Struct × Signature × Handler} (h : methodParts ms service name method = .ok parts) :
    parts = (writtenStruct (name ++ requestSuffix) method.params, writtenSignature name method,
      writtenHandler service name method) := by
  obtain ⟨request, hr, h⟩ := bind_eq_ok.1 h
  obtain ⟨members, hm, hr⟩ := bind_eq_ok.1 hr
  cases hr
  obtain ⟨returns, hret, h⟩ := bind_eq_ok.1 h
  cases h
  rw [membersOf_eq_written hm, returns_eq_written hret]
  simp [writtenStruct, writtenSignature, writtenHandler, writtenMember, Function.comp_def]

theorem endpointOf_eq_written {name : String} {service : Service} {e : Endpoint}
    (h : endpointOf ms name service = .ok e) : e = writtenEndpoint name service := by
  obtain ⟨parts, hp, h⟩ := bind_eq_ok.1 h
  cases h
  rw [mapM_eq_map (fun m _ p hm => methodParts_eq_written hm) hp]
  simp [writtenEndpoint, Function.comp_def]

theorem sourceOf_eq_written {d : Definition} {s : Source} (h : sourceOf ms d = .ok s) :
    s = ⟨d.models.entries.map fun m => writtenStruct m.1 m.2.entries,
      d.services.entries.map fun s => writtenEndpoint s.1 s.2⟩ := by
  obtain ⟨models, hm, h⟩ := bind_eq_ok.1 h
  obtain ⟨endpoints, he, h⟩ := bind_eq_ok.1 h
  cases h
  rw [mapM_eq_map (fun m _ s hs => modelStruct_eq_written hs) hm,
    mapM_eq_map (fun s _ e hs => endpointOf_eq_written hs) he]

theorem sourceOfAll_eq_written {ds : List Definition} {s : Source} (h : sourceOfAll ms ds = .ok s) :
    s = writtenSource ds := by
  obtain ⟨sources, hs, h⟩ := bind_eq_ok.1 h
  cases h
  rw [mapM_eq_map (fun d _ s hd => sourceOf_eq_written hd) hs]
  simp [writtenSource, List.flatMap_map]

end Go

/-- A batch declares what its definitions say, with the types as they are written. -/
theorem declarations_eq_written {ds : List Definition} {s : Go.Source} (h : declarations ds = .ok s) :
    s = Go.writtenSource ds := by
  obtain ⟨ms, -, h⟩ := bind_eq_ok.1 h
  exact Go.sourceOfAll_eq_written h

end ServiceSchema
