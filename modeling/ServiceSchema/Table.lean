/-
  ServiceSchema.Table — named entries in the order they were first written.

  Writing a name again keeps its place and takes the new value (`keys_put`), so the
  names of a table are pairwise distinct; that is part of the type.
-/

namespace ServiceSchema

/-- Put a value under a name: in the name's place if it has one, else at the end. -/
def upsert {α : Type} (name : String) (value : α) : List (String × α) → List (String × α)
  | [] => [(name, value)]
  | (k, v) :: rest => if k = name then (name, value) :: rest else (k, v) :: upsert name value rest

theorem map_fst_upsert {α : Type} (name : String) (value : α) (entries : List (String × α)) :
    (upsert name value entries).map Prod.fst =
      if name ∈ entries.map Prod.fst then entries.map Prod.fst
      else entries.map Prod.fst ++ [name] := by
  induction entries with
  | nil => simp [upsert]
  | cons e rest ih =>
    obtain ⟨k, v⟩ := e
    by_cases hk : k = name
    · simp [upsert, hk]
    · have hk' : name ≠ k := fun h => hk h.symm
      by_cases hm : name ∈ rest.map Prod.fst
      · simp only [hm, if_true] at ih
        simp [upsert, hk, ih, List.mem_cons, hm]
      · simp only [hm, if_false] at ih
        simp [upsert, hk, ih, List.mem_cons, hm, hk']

theorem nodup_upsert {α : Type} (name : String) (value : α) {entries : List (String × α)}
    (h : (entries.map Prod.fst).Nodup) : ((upsert name value entries).map Prod.fst).Nodup := by
  rw [map_fst_upsert]
  split
  · exact h
  · rename_i hm
    exact List.nodup_append.2 ⟨h, by simp, fun a ha b hb => by
      rw [List.mem_singleton.1 hb]
      exact fun hab => hm (hab ▸ ha)⟩

/-- Entries with pairwise distinct names, in order. -/
structure Table (α : Type) where
  entries : List (String × α)
  distinct : (entries.map Prod.fst).Nodup
  deriving DecidableEq

namespace Table

variable {α : Type}

def empty : Table α := ⟨[], List.nodup_nil⟩

instance : Inhabited (Table α) := ⟨empty⟩

def put (t : Table α) (name : String) (value : α) : Table α :=
  ⟨upsert name value t.entries, nodup_upsert name value t.distinct⟩

/-- The entries put one after another: a repeated name keeps its first place and takes
    its last value. -/
def ofList (entries : List (String × α)) : Table α :=
  entries.foldl (fun t e => t.put e.1 e.2) empty

def keys (t : Table α) : List String := t.entries.map Prod.fst

def size (t : Table α) : Nat := t.entries.length

def isEmpty (t : Table α) : Bool := t.entries.isEmpty

/-- The value under a name. -/
def get? (t : Table α) (name : String) : Option α := t.entries.lookup name

theorem nodup_keys (t : Table α) : t.keys.Nodup := t.distinct

theorem keys_put (t : Table α) (name : String) (value : α) :
    (t.put name value).keys = if name ∈ t.keys then t.keys else t.keys ++ [name] :=
  map_fst_upsert name value t.entries

end Table

end ServiceSchema
