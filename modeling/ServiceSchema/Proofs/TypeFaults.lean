/-
  ServiceSchema.Proofs.TypeFaults — why a type cannot be read.

  The reader takes layers off the front of a type, the brackets of a list or `map` with its
  key, as long as what it has before it is no name that it takes or refuses as a whole. What
  is left when it gets stuck decides the fault (`Stuck`): the fault names that rest, or the key
  in it.

  - `Stuck.unique`: a rest has at most one fault.
  - `exists_stuck_of_read`: every fault is that of the rest behind the layers that were taken
    off. A reserved ending is found on the whole text, a keyword at any depth.
-/
import Mathlib.Data.List.TakeWhile
import ServiceSchema.Proofs.TypeRoundTrip

namespace ServiceSchema

open Fallible

theorem BaseType.of_read_eq_error {text : String} {fault : SchemaFault}
    (h : read text = .error fault) : isBase text = false ∧ fault = .notBaseType text := by
  unfold read at h
  split at h
  · cases h
  · rename_i hnone
    cases h
    exact ⟨by rw [isBase, hnone]; rfl, rfl⟩

namespace TypeExpr

/-- What the reader takes off the front of a type. -/
inductive Layer where
  | list
  | map (key : BaseType)
  deriving DecidableEq, Repr

def Layer.spelling : Layer → String
  | list => "[]"
  | map key => "map[" ++ key.name ++ "]"

/-- A text with layers in front of it. -/
def wrap (layers : List Layer) (rest : String) : String :=
  layers.foldr (fun layer text => layer.spelling ++ text) rest

/-- A text that is refused as a name or taken as one. -/
def Settled (ms : Models) (text : String) : Prop :=
  isReserved text = true ∨ isBase text = true ∨ ms.contains text = true

/-- A text that begins like a map and is long enough for one. -/
structure MapLike (text : String) : Prop where
  word : "map".toList <+: text.toList
  long : 7 ≤ text.utf8ByteSize

/-- A text at which the reader gets stuck, with its fault. -/
inductive Stuck (ms : Models) (rest : String) : SchemaFault → Prop
  | reserved (h : isReserved rest = true) : Stuck ms rest (.reservedName rest)
  | missingBracket (hname : ¬ Settled ms rest) (hmap : MapLike rest)
      (hopen : ∀ key value, rest ≠ "map[" ++ key ++ "]" ++ value) : Stuck ms rest (.missingBracket rest)
  | notBaseType {key value : String} (hname : ¬ Settled ms rest) (hmap : MapLike rest)
      (hrest : rest = "map[" ++ key ++ "]" ++ value) (hkey : ']' ∉ key.toList)
      (hbase : isBase key = false) : Stuck ms rest (.notBaseType key)
  | unparseable (hname : ¬ Settled ms rest) (hmap : ¬ MapLike rest)
      (hlist : ∀ item, item ≠ "" → rest ≠ "[]" ++ item) : Stuck ms rest (.unparseableType rest)

/-- Layers in front of a rest at which the reader gets stuck: at none of them the text was
    settled. -/
structure StuckBehind (ms : Models) (raw : String) (layers : List Layer) (rest : String)
    (fault : SchemaFault) : Prop where
  eq_wrap : raw = wrap layers rest
  unsettled : ∀ inner, inner <:+ layers → inner ≠ [] → ¬ Settled ms (wrap inner rest)
  stuck : Stuck ms rest fault

/-! ## Shapes -/

theorem byteLength_eq (cs : List Char) : byteLength cs = (String.ofList cs).utf8ByteSize := by
  induction cs with
  | nil => rfl
  | cons c cs ih =>
    rw [byteLength, ih, ← List.singleton_append, String.ofList_append, String.utf8ByteSize_append]
    simp

theorem mapLike_iff {cs : List Char} :
    MapLike (String.ofList cs) ↔ ∃ rest, cs = 'm' :: 'a' :: 'p' :: rest ∧ ¬ byteLength rest < 4 := by
  have hlong : ∀ rest, ¬ byteLength rest < 4 ↔ 7 ≤ byteLength ('m' :: 'a' :: 'p' :: rest) := by
    intro rest
    have hword : byteLength ('m' :: 'a' :: 'p' :: rest) = 1 + (1 + (1 + byteLength rest)) := rfl
    omega
  constructor
  · intro h
    obtain ⟨rest, hrest⟩ := h.word
    have hcs : cs = 'm' :: 'a' :: 'p' :: rest := by simpa using hrest.symm
    refine ⟨rest, hcs, ?_⟩
    rw [hlong, ← hcs, byteLength_eq]
    exact h.long
  · intro h
    obtain ⟨rest, rfl, hrest⟩ := h
    refine ⟨⟨rest, by simp⟩, ?_⟩
    rwa [← byteLength_eq, ← hlong]

theorem ofList_bracketed (key value : List Char) :
    String.ofList ('m' :: 'a' :: 'p' :: '[' :: key ++ ']' :: value) =
      "map[" ++ String.ofList key ++ "]" ++ String.ofList value :=
  String.toList_inj.1 (by simp)

theorem of_shape_map {cs key value : List Char} (h : shape cs = .map key value) :
    MapLike (String.ofList cs) ∧ ']' ∉ key := by
  unfold shape at h
  split at h
  · cases h
  · rename_i rest
    split at h
    · cases h
    · rename_i hlong
      refine ⟨mapLike_iff.2 ⟨rest, rfl, hlong⟩, ?_⟩
      split at h
      · rename_i inner _
        split at h
        · cases h
          intro hmem
          simpa using List.mem_takeWhile_imp hmem
        · cases h
      · cases h
  · cases h

theorem of_shape_unbracketed {cs : List Char} (h : shape cs = .unbracketed) :
    MapLike (String.ofList cs) ∧ ∀ key value, String.ofList cs ≠ "map[" ++ key ++ "]" ++ value := by
  unfold shape at h
  split at h
  · cases h
  · rename_i rest
    split at h
    · cases h
    · rename_i hlong
      refine ⟨mapLike_iff.2 ⟨rest, rfl, hlong⟩, fun key value heq => ?_⟩
      have hrest : rest = '[' :: (key.toList ++ ']' :: value.toList) := by
        have hchars := congrArg String.toList heq
        simpa using hchars
      subst hrest
      -- the bracket that closes is found behind the one that opens
      have hmem : ']' ∈ key.toList ++ ']' :: value.toList := by simp
      split at h
      · rename_i inner hinner
        cases hinner
        split at h
        · cases h
        · rename_i hdrop
          have hall := List.dropWhile_eq_nil_iff.1 hdrop
          simpa using hall _ hmem
      · rename_i hopen
        exact hopen _ rfl
  · cases h

theorem of_shape_other {cs : List Char} (h : shape cs = .other) :
    ¬ MapLike (String.ofList cs) ∧ ∀ item, item ≠ "" → String.ofList cs ≠ "[]" ++ item := by
  unfold shape at h
  split at h
  · cases h
  · rename_i rest
    split at h
    · rename_i hshort
      constructor
      · intro hmap
        obtain ⟨rest', heq, hlong⟩ := mapLike_iff.1 hmap
        cases heq
        exact hlong hshort
      · intro item _ heq
        have hchars := congrArg String.toList heq
        simp at hchars
    · split at h
      · split at h <;> cases h
      · cases h
  · rename_i hlist hmap
    constructor
    · intro hlike
      obtain ⟨rest, heq, -⟩ := mapLike_iff.1 hlike
      exact hmap rest heq
    · intro item hitem heq
      have hchars : cs = '[' :: ']' :: item.toList := by
        have hchars := congrArg String.toList heq
        simpa using hchars
      cases hcs : item.toList with
      | nil => exact hitem (String.toList_eq_nil_iff.1 hcs)
      | cons c rest =>
        rw [hcs] at hchars
        exact hlist c rest hchars

/-! ## Faults -/

theorem not_settled {ms : Models} {text : String} (hr : ¬ isReserved text = true)
    (hn : ¬ (isBase text || ms.contains text) = true) : ¬ Settled ms text := by
  rw [Bool.or_eq_true, not_or] at hn
  rw [Settled, not_or, not_or]
  exact ⟨hr, hn⟩

namespace StuckBehind

variable {ms : Models} {raw rest : String} {layers : List Layer} {fault : SchemaFault}

theorem nil (h : Stuck ms raw fault) : StuckBehind ms raw [] raw fault := by
  refine ⟨rfl, fun inner hinner hne => ?_, h⟩
  exact absurd (List.suffix_nil.1 hinner) hne

/-- One layer more in front. -/
theorem cons (layer : Layer) (h : StuckBehind ms raw layers rest fault)
    (hname : ¬ Settled ms (layer.spelling ++ raw)) :
    StuckBehind ms (layer.spelling ++ raw) (layer :: layers) rest fault := by
  have hwrap : layer.spelling ++ raw = wrap (layer :: layers) rest := by
    rw [h.eq_wrap]
    rfl
  refine ⟨hwrap, fun inner hinner hne => ?_, h.stuck⟩
  rcases List.suffix_cons_iff.1 hinner with rfl | hinner
  · rwa [← hwrap]
  · exact h.unsettled inner hinner hne

end StuckBehind

/-- The reader takes layers off until it is stuck. -/
theorem exists_stuckBehind (ms : Models) (cs : List Char) :
    ∀ fault, readChars ms cs = .error fault →
      ∃ layers rest, StuckBehind ms (String.ofList cs) layers rest fault := by
  fun_induction readChars ms cs with
  | case1 cs text hr =>
    intro fault h
    cases h
    exact ⟨[], _, .nil (.reserved hr)⟩
  | case2 => intro fault h; cases h
  | case3 cs text hr hn item hs ih =>
    intro fault h
    obtain ⟨layers, rest, hstuck⟩ := ih fault (bind_pure_eq_error.1 h)
    have htext : String.ofList cs = Layer.list.spelling ++ String.ofList item := by
      rw [eq_of_shape_array hs]
      exact String.toList_inj.1 (by simp [Layer.spelling])
    have hname : ¬ Settled ms (String.ofList cs) := not_settled hr hn
    rw [htext] at hname ⊢
    exact ⟨.list :: layers, rest, hstuck.cons .list hname⟩
  | case4 cs text hr hn key value hs ih =>
    intro fault h
    have hname : ¬ Settled ms (String.ofList cs) := not_settled hr hn
    have htext : String.ofList cs = "map[" ++ String.ofList key ++ "]" ++ String.ofList value := by
      rw [eq_of_shape_map hs, ofList_bracketed]
    rcases bind_eq_error.1 h with hkey | ⟨b, hkey, h⟩
    · -- the key is no base type
      obtain ⟨hbase, rfl⟩ := BaseType.of_read_eq_error hkey
      obtain ⟨hmap, hclose⟩ := of_shape_map hs
      refine ⟨[], _, .nil (.notBaseType hname hmap htext ?_ hbase)⟩
      rwa [String.toList_ofList]
    · obtain ⟨layers, rest, hstuck⟩ := ih fault (bind_pure_eq_error.1 h)
      rw [← BaseType.name_of_read hkey] at htext
      have hmap : String.ofList cs = (Layer.map b).spelling ++ String.ofList value := htext
      rw [hmap] at hname ⊢
      exact ⟨.map b :: layers, rest, hstuck.cons (.map b) hname⟩
  | case5 cs text hr hn hs =>
    intro fault h
    cases h
    obtain ⟨hmap, hopen⟩ := of_shape_unbracketed hs
    exact ⟨[], _, .nil (.missingBracket (not_settled hr hn) hmap hopen)⟩
  | case6 cs text hr hn hs =>
    intro fault h
    cases h
    obtain ⟨hmap, hlist⟩ := of_shape_other hs
    exact ⟨[], _, .nil (.unparseable (not_settled hr hn) hmap hlist)⟩

/-- A key ends at the first bracket that closes. -/
theorem takeWhile_key {key value : List Char} (h : ']' ∉ key) :
    (key ++ ']' :: value).takeWhile (· ≠ ']') = key := by
  have hopen : ∀ c ∈ key, decide (c ≠ ']') = true := by
    intro c hc
    rw [decide_eq_true_eq]
    exact fun heq => h (heq ▸ hc)
  rw [List.takeWhile_append_of_pos hopen]
  simp

/-- So a text has only one key in it. -/
theorem key_inj {key key' value value' : String} (h : ']' ∉ key.toList) (h' : ']' ∉ key'.toList)
    (heq : "map[" ++ key ++ "]" ++ value = "map[" ++ key' ++ "]" ++ value') : key = key' := by
  have hchars : key.toList ++ ']' :: value.toList = key'.toList ++ ']' :: value'.toList := by
    simpa using congrArg String.toList heq
  rw [← String.toList_inj, ← takeWhile_key h, hchars, takeWhile_key h']

/-- A rest determines its fault. -/
theorem Stuck.unique {ms : Models} {rest : String} {fault fault' : SchemaFault}
    (h : Stuck ms rest fault) (h' : Stuck ms rest fault') : fault = fault' := by
  cases h with
  | reserved hr =>
    cases h' with
    | reserved _ => rfl
    | missingBracket hname _ _ => exact absurd (Or.inl hr) hname
    | notBaseType hname _ _ _ _ => exact absurd (Or.inl hr) hname
    | unparseable hname _ _ => exact absurd (Or.inl hr) hname
  | missingBracket hname hmap hopen =>
    cases h' with
    | reserved hr => exact absurd (Or.inl hr) hname
    | missingBracket _ _ _ => rfl
    | notBaseType _ _ hrest _ _ => exact absurd hrest (hopen _ _)
    | unparseable _ hmap' _ => exact absurd hmap hmap'
  | notBaseType hname hmap hrest hkey _ =>
    cases h' with
    | reserved hr => exact absurd (Or.inl hr) hname
    | missingBracket _ _ hopen => exact absurd hrest (hopen _ _)
    | notBaseType _ _ hrest' hkey' _ => rw [key_inj hkey hkey' (hrest.symm.trans hrest')]
    | unparseable _ hmap' _ => exact absurd hmap hmap'
  | unparseable hname hmap _ =>
    cases h' with
    | reserved hr => exact absurd (Or.inl hr) hname
    | missingBracket _ hmap' _ => exact absurd hmap' hmap
    | notBaseType _ hmap' _ _ _ => exact absurd hmap' hmap
    | unparseable _ _ _ => rfl

/-- An ending reaches through all layers. -/
theorem suffix_wrap (layers : List Layer) (rest : String) : rest.toList <:+ (wrap layers rest).toList := by
  induction layers with
  | nil => exact List.suffix_refl _
  | cons layer layers ih =>
    rw [wrap, List.foldr_cons, String.toList_append]
    exact List.suffix_append_of_suffix ih

/-- What ends like a request struct is refused before a layer is taken off. -/
theorem StuckBehind.eq_nil {ms : Models} {raw rest : String} {layers : List Layer} {fault : SchemaFault}
    (h : StuckBehind ms raw layers rest fault) (hending : requestSuffix.toList <:+ rest.toList) :
    layers = [] := by
  by_contra hne
  apply h.unsettled layers (List.suffix_refl _) hne
  left
  rw [isReserved, Bool.or_eq_true]
  exact Or.inr (List.isSuffixOf_iff_suffix.2 (hending.trans (suffix_wrap layers rest)))

/-- A type that cannot be read has layers in front of a rest that is no such layer any more,
    no part before that rest is reserved, a base type or a model, and the fault is the one that
    belongs to the rest. A name is refused for its ending only if it is the whole text, and
    behind a layer only if it is a keyword. -/
theorem exists_stuck_of_read {ms : Models} {raw : String} {fault : SchemaFault}
    (h : read ms raw = .error fault) :
    ∃ layers rest, raw = wrap layers rest ∧
      (∀ inner, inner <:+ layers → inner ≠ [] → ¬ Settled ms (wrap inner rest)) ∧
      Stuck ms rest fault ∧ (∀ fault', Stuck ms rest fault' → fault' = fault) ∧
      ∀ name, fault = .reservedName name →
        (requestSuffix.toList <:+ name.toList → layers = [] ∧ name = raw) ∧
          (layers ≠ [] → name ∈ goKeywords) := by
  obtain ⟨layers, rest, hbehind⟩ := exists_stuckBehind ms raw.toList fault h
  rw [String.ofList_toList] at hbehind
  refine ⟨layers, rest, hbehind.eq_wrap, hbehind.unsettled, hbehind.stuck,
    fun fault' h' => h'.unique hbehind.stuck, ?_⟩
  rintro name rfl
  obtain ⟨hr, rfl⟩ : isReserved rest = true ∧ name = rest := by
    cases hbehind.stuck with
    | reserved hr => exact ⟨hr, rfl⟩
  constructor
  · intro hending
    have hnil := hbehind.eq_nil hending
    exact ⟨hnil, by rw [hbehind.eq_wrap, hnil]; rfl⟩
  · intro hne
    rw [isReserved, Bool.or_eq_true, List.contains_iff_mem] at hr
    rcases hr with hkeyword | hending
    · exact hkeyword
    · exact absurd (hbehind.eq_nil (List.isSuffixOf_iff_suffix.1 hending)) hne

/-- A keyword behind a map and a list. -/
theorem exists_stuck_of_read_keyword :
    read ⟨["book"]⟩ "map[string][]type" = .error (.reservedName "type") ∧
      ∃ layers rest, "map[string][]type" = wrap layers rest ∧
        (∀ inner, inner <:+ layers → inner ≠ [] → ¬ Settled ⟨["book"]⟩ (wrap inner rest)) ∧
        Stuck ⟨["book"]⟩ rest (.reservedName "type") := by
  have h : read ⟨["book"]⟩ "map[string][]type" = .error (.reservedName "type") := by decide +kernel
  obtain ⟨layers, rest, heq, hinner, hstuck, -, -⟩ := exists_stuck_of_read h
  exact ⟨h, layers, rest, heq, hinner, hstuck⟩

end TypeExpr

end ServiceSchema
