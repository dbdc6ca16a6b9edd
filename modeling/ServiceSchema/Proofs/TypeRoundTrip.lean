/-
  ServiceSchema.Proofs.TypeRoundTrip — reading a type and spelling it undo each other.

  A text that can be read is the spelling of the type it is read as, whatever the models are
  called. The other way round, a type comes back from its spelling if no model is called like
  a list or a map. The spelling of a list or a map begins with a part in brackets. No name has
  such a part, and a reserved ending cannot reach across it, so at every depth the reader
  takes that part off and goes on with what is inside.

  - `TypeExpr.read_faithful`: what is read is spelled as it was written, and no two texts are
    read as the same type.
  - `TypeExpr.unreserved_render`: the spelling of a type is reserved only if its name is.
  - `TypeExpr.read_render`: every type over declared names is read from its spelling.
-/
import Mathlib.Data.List.Infix
import ServiceSchema.Proofs.TypeSpelling

namespace ServiceSchema

open Fallible

theorem BaseType.brackets_notMem_name (b : BaseType) : '[' ∉ b.name.toList ∧ ']' ∉ b.name.toList := by
  cases b <;> decide

theorem BaseType.read_name (b : BaseType) : read b.name = .ok b := by
  cases b <;> decide

/-- No base type is reserved. -/
theorem BaseType.unreserved {name : String} (h : isBase name = true) : Unreserved name := by
  obtain ⟨b, hb⟩ := Option.isSome_iff_exists.1 h
  rw [← name_of_ofName? hb, ← isReserved_eq_false]
  cases b <;> decide

namespace TypeExpr

/-- Reading loses nothing: a type is spelled as it was written and has a name that may be
    used, so that it is read again from its spelling, and from no other text. -/
theorem read_faithful (ms : Models) :
    (∀ (raw : String) (t : TypeExpr), read ms raw = .ok t →
      t.render = raw ∧ isReserved t.leaf = false ∧
        (isBase t.leaf = true ∨ ms.contains t.leaf = true) ∧ read ms t.render = .ok t) ∧
    ∀ (raw raw' : String) (t : TypeExpr), read ms raw = .ok t → read ms raw' = .ok t → raw = raw' := by
  constructor
  · intro raw t h
    have hraw := render_of_read h
    obtain ⟨hleaf, hname⟩ := leaf_of_read h
    refine ⟨hraw, isReserved_eq_false.2 hleaf, ?_, hraw ▸ h⟩
    rcases hname with hb | hm
    · exact Or.inl hb
    · exact Or.inr (List.contains_iff_mem.2 hm)
  · intro raw raw' t h h'
    rw [← render_of_read h, ← render_of_read h']

/-- A model that is called like a list stands for itself, inside a list too. -/
theorem read_faithful_listName :
    read ⟨["[]book", ""]⟩ "map[string][]book" = .ok (map .string (named "[]book")) ∧
      (map .string (named "[]book")).render = "map[string][]book" ∧
      read ⟨["[]book", ""]⟩ (map .string (named "[]book")).render = .ok (map .string (named "[]book")) := by
  have h : read ⟨["[]book", ""]⟩ "map[string][]book" = .ok (map .string (named "[]book")) := by
    decide +kernel
  obtain ⟨hraw, -, -, hagain⟩ := (read_faithful ⟨["[]book", ""]⟩).1 _ _ h
  exact ⟨h, hraw, hagain⟩

/-! ## Types from their spelling -/

/-- An ending without the sign `c` does not reach across it. -/
theorem suffix_of_suffix_cons {ending front rest : List Char} {c : Char} (hc : c ∉ ending)
    (h : ending <:+ front ++ c :: rest) : ending <:+ rest := by
  rcases List.suffix_or_suffix_of_suffix h (List.suffix_append front (c :: rest)) with hin | hout
  · rcases List.suffix_cons_iff.1 hin with heq | hrest
    · exact absurd (heq ▸ List.mem_cons_self) hc
    · exact hrest
  · exact absurd (hout.subset List.mem_cons_self) hc

/-- A part in brackets makes no text reserved. -/
theorem unreserved_bracketed {front rest : List Char} (hfront : '[' ∈ front)
    (h : Unreserved (String.ofList rest)) : Unreserved (String.ofList (front ++ ']' :: rest)) := by
  constructor
  · intro hmem
    have hkeywords : ∀ word ∈ goKeywords, '[' ∉ word.toList := by decide
    exact hkeywords _ hmem (by simp [hfront])
  · intro hending
    rw [String.toList_ofList] at hending
    have hrest := suffix_of_suffix_cons (by decide) hending
    exact h.2 (by rwa [String.toList_ofList])

theorem toList_render_array (item : TypeExpr) :
    (array item).render.toList = ['['] ++ ']' :: item.render.toList := by
  simp [render]

theorem toList_render_map (key : BaseType) (value : TypeExpr) :
    (map key value).render.toList =
      (['m', 'a', 'p', '['] ++ key.name.toList) ++ ']' :: value.render.toList := by
  simp [render]

/-- The spelling of a type is reserved only if the name at its bottom is. -/
theorem unreserved_render {t : TypeExpr} (h : Unreserved t.leaf) : Unreserved t.render := by
  induction t with
  | named name => exact h
  | array item ih =>
    rw [← String.ofList_toList (s := (array item).render), toList_render_array]
    exact unreserved_bracketed (by simp) (by rw [String.ofList_toList]; exact ih h)
  | map key value ih =>
    rw [← String.ofList_toList (s := (map key value).render), toList_render_map]
    exact unreserved_bracketed (by simp) (by rw [String.ofList_toList]; exact ih h)

/-- A name that may stand at the bottom of a type is not empty. -/
theorem leaf_ne_empty {ms : Models}
    (hms : ∀ name, ms.contains name = true → name ≠ "" ∧ '[' ∉ name.toList) {t : TypeExpr}
    (h : isBase t.leaf = true ∨ ms.contains t.leaf = true) : t.leaf ≠ "" := by
  rcases h with hb | hm
  · intro hempty
    rw [hempty] at hb
    exact absurd hb (by decide)
  · exact (hms _ hm).1

theorem render_ne_nil {t : TypeExpr} (h : t.leaf ≠ "") : t.render.toList ≠ [] := by
  cases t with
  | named name => exact fun hnil => h (String.toList_eq_nil_iff.1 hnil)
  | array item => rw [toList_render_array]; simp
  | map key value => rw [toList_render_map]; simp

/-! ## The reader at a list or a map -/

/-- What has a bracket in it is no name, if no model has one. -/
theorem not_name_of_bracket {ms : Models} (hms : ∀ name, ms.contains name = true → '[' ∉ name.toList)
    {text : String} (h : '[' ∈ text.toList) : (isBase text || ms.contains text) = false := by
  rw [Bool.or_eq_false_iff, ← Bool.not_eq_true, ← Bool.not_eq_true]
  constructor
  · intro hb
    obtain ⟨b, hb⟩ := Option.isSome_iff_exists.1 hb
    rw [← BaseType.name_of_ofName? hb] at h
    exact (b.brackets_notMem_name).1 h
  · intro hm
    exact hms text hm h

/-- A list is read by reading its items. -/
theorem readChars_of_shape_array {ms : Models} {text : String} {item : List Char} {t : TypeExpr}
    (hs : shape text.toList = .array item) (hr : isReserved text = false)
    (hn : (isBase text || ms.contains text) = false) (ht : readChars ms item = .ok t) :
    readChars ms text.toList = .ok (array t) := by
  rw [readChars, String.ofList_toList]
  simp only [hr, hn, Bool.false_eq_true, if_false]
  split
  · rename_i item' hs'
    cases hs.symm.trans hs'
    rw [ht]
    rfl
  all_goals
    rename_i hs'
    cases hs.symm.trans hs'

/-- A map is read by reading its key and its values. -/
theorem readChars_of_shape_map {ms : Models} {text : String} {value : List Char} {b : BaseType}
    {t : TypeExpr} (hs : shape text.toList = .map b.name.toList value) (hr : isReserved text = false)
    (hn : (isBase text || ms.contains text) = false) (ht : readChars ms value = .ok t) :
    readChars ms text.toList = .ok (map b t) := by
  rw [readChars, String.ofList_toList]
  simp only [hr, hn, Bool.false_eq_true, if_false]
  split
  · rename_i item' hs'
    cases hs.symm.trans hs'
  · rename_i key' value' hs'
    cases hs.symm.trans hs'
    rw [String.ofList_toList, BaseType.read_name, ok_bind, ht]
    rfl
  all_goals
    rename_i hs'
    cases hs.symm.trans hs'

theorem shape_array {item : List Char} (h : item ≠ []) : shape (['['] ++ ']' :: item) = .array item := by
  cases item with
  | nil => exact absurd rfl h
  | cons c rest => rfl

theorem length_le_byteLength (cs : List Char) : cs.length ≤ byteLength cs := by
  induction cs with
  | nil => exact Nat.le_refl _
  | cons c rest ih =>
    have hc := c.utf8Size_pos
    simp only [List.length_cons, byteLength]
    omega

/-- The key of a map ends at its first bracket that closes, as no base type has one. -/
theorem shape_map (key : BaseType) (value : List Char) :
    shape ((['m', 'a', 'p', '['] ++ key.name.toList) ++ ']' :: value) = .map key.name.toList value := by
  have hlong : ¬ byteLength ('[' :: (key.name.toList ++ ']' :: value)) < 4 := by
    have hle := length_le_byteLength ('[' :: (key.name.toList ++ ']' :: value))
    have hkey : 4 ≤ key.name.toList.length := by cases key <;> decide
    simp only [List.length_cons, List.length_append] at hle
    omega
  have hopen : ∀ c ∈ key.name.toList, decide (c ≠ ']') = true := by
    intro c hc
    rw [decide_eq_true_eq]
    exact fun h => key.brackets_notMem_name.2 (h ▸ hc)
  simp only [List.cons_append, List.nil_append, shape, if_neg hlong,
    List.dropWhile_append_of_pos hopen, List.takeWhile_append_of_pos hopen]
  simp

/-- A type is read from its spelling at every depth. -/
theorem readChars_render {ms : Models}
    (hms : ∀ name, ms.contains name = true → name ≠ "" ∧ '[' ∉ name.toList) {t : TypeExpr}
    (hname : isBase t.leaf = true ∨ ms.contains t.leaf = true) (hleaf : Unreserved t.leaf) :
    readChars ms t.render.toList = .ok t := by
  have hbrackets : ∀ name, ms.contains name = true → '[' ∉ name.toList := fun name h => (hms name h).2
  have hres := isReserved_eq_false.2 (unreserved_render hleaf)
  induction t with
  | named name =>
    have hn : (isBase name || ms.contains name) = true := Bool.or_eq_true _ _ ▸ hname
    have hr : isReserved name = false := hres
    rw [readChars, render, String.ofList_toList]
    simp only [hr, hn, Bool.false_eq_true, if_false, if_true]
  | array item ih =>
    have hitem := ih hname hleaf (isReserved_eq_false.2 (unreserved_render hleaf))
    have hne : item.render.toList ≠ [] := render_ne_nil (leaf_ne_empty hms hname)
    have hopen : '[' ∈ (array item).render.toList := by
      rw [toList_render_array]
      exact List.mem_cons_self
    refine readChars_of_shape_array ?_ hres (not_name_of_bracket hbrackets hopen) hitem
    rw [toList_render_array, shape_array hne]
  | map key value ih =>
    have hvalue := ih hname hleaf (isReserved_eq_false.2 (unreserved_render hleaf))
    have hopen : '[' ∈ (map key value).render.toList := by
      rw [toList_render_map]
      simp
    refine readChars_of_shape_map ?_ hres (not_name_of_bracket hbrackets hopen) hvalue
    rw [toList_render_map, shape_map]

/-- Every type over base types and declared models is read from its spelling, if models have
    a name and no bracket in it. -/
theorem read_render {ms : Models}
    (hms : ∀ name, ms.contains name = true → name ≠ "" ∧ '[' ∉ name.toList) (t : TypeExpr)
    (ht : isBase t.leaf = true ∨ (ms.contains t.leaf = true ∧ isReserved t.leaf = false)) :
    read ms t.render = .ok t := by
  rcases ht with hb | ⟨hm, hr⟩
  · exact readChars_render hms (Or.inl hb) (BaseType.unreserved hb)
  · exact readChars_render hms (Or.inr hm) (isReserved_eq_false.1 hr)

theorem read_render_library :
    read ⟨["book", "map"]⟩ "map[int64][]map[string][]book" =
      .ok (map .int64 (array (map .string (array (named "book"))))) := by
  have hms : ∀ name, Models.contains ⟨["book", "map"]⟩ name = true → name ≠ "" ∧ '[' ∉ name.toList := by
    intro name h
    rw [Models.contains, List.contains_iff_mem] at h
    have hall : ∀ name ∈ ["book", "map"], name ≠ "" ∧ '[' ∉ name.toList := by decide
    exact hall name h
  exact read_render hms (map .int64 (array (map .string (array (named "book"))))) (Or.inr (by decide))

end TypeExpr

end ServiceSchema
