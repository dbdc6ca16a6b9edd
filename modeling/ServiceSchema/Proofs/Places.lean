/-
  ServiceSchema.Proofs.Places — what stands at which place of a disk.

  A place is seen as nothing, a directory, a file with its content or a link with its target
  (`Disk.kind?`). Putting a node into a directory and taking it away are edits of that
  directory (`Node.edit`), which are seen below it and nowhere else.

  - `Disk.kind?_put`: a node put where no directory was is seen at its own place only.
  - `Disk.erase_put`: taking away what was put under an unused name gives the disk back.
  - `Disk.move_put`: a file that is put under an unused name and then moved within its
    directory leaves the disk as if it had been put under its last name at once.
-/
import ServiceSchema.Disk.Write

namespace ServiceSchema

/-! ## Entries -/

section Entries

variable {α : Type}

theorem lookup_cons_eq_ite (name key : String) (value : α) (rest : List (String × α)) :
    ((name, value) :: rest).lookup key = if key = name then some value else rest.lookup key := by
  rw [List.lookup_cons]
  by_cases h : key = name
  · simp [h]
  · rw [beq_false_of_ne h, if_neg h]

theorem lookup_upsert (name key : String) (value : α) (entries : List (String × α)) :
    (upsert name value entries).lookup key = if key = name then some value else entries.lookup key := by
  induction entries with
  | nil => rw [upsert, lookup_cons_eq_ite, List.lookup_nil]
  | cons e rest ih =>
    obtain ⟨k, v⟩ := e
    by_cases hk : k = name
    · by_cases hkey : key = name <;> simp [upsert, hk, lookup_cons_eq_ite, hkey]
    · by_cases hkey : key = k
      · simp [upsert, hk, hkey]
      · simp only [upsert, hk, if_false, lookup_cons_eq_ite, hkey, ih]

theorem upsert_upsert (name : String) (old new : α) (entries : List (String × α)) :
    upsert name new (upsert name old entries) = upsert name new entries := by
  induction entries with
  | nil => simp [upsert]
  | cons e rest ih => by_cases h : e.1 = name <;> simp [upsert, h, ih]

theorem upsert_eq_self {name : String} {value : α} {entries : List (String × α)}
    (h : entries.lookup name = some value) : upsert name value entries = entries := by
  induction entries with
  | nil => cases h
  | cons e rest ih =>
    rw [lookup_cons_eq_ite] at h
    by_cases he : e.1 = name
    · rw [if_pos he.symm] at h
      cases h
      simp [upsert, ← he]
    · rw [if_neg (Ne.symm he)] at h
      simp [upsert, he, ih h]

theorem lookup_eq_none_of_notMem {name : String} {entries : List (String × α)}
    (h : name ∉ entries.map Prod.fst) : entries.lookup name = none := by
  induction entries with
  | nil => rfl
  | cons e rest ih =>
    rw [List.map_cons, List.mem_cons, not_or] at h
    rw [lookup_cons_eq_ite, if_neg h.1, ih h.2]

theorem lookup_eq_some_iff {name : String} {value : α} {entries : List (String × α)}
    (h : (entries.map Prod.fst).Nodup) : entries.lookup name = some value ↔ (name, value) ∈ entries := by
  induction entries with
  | nil => simp
  | cons e rest ih =>
    obtain ⟨key, first⟩ := e
    rw [List.map_cons, List.nodup_cons] at h
    rw [lookup_cons_eq_ite, List.mem_cons, Prod.mk.injEq]
    by_cases hname : name = key
    · subst hname
      have hnot : (name, value) ∉ rest := fun hmem => h.1 (List.mem_map.2 ⟨_, hmem, rfl⟩)
      simp [hnot, eq_comm]
    · simp [hname, ih h.2]

/-- Taking a new entry away gives the old entries back. -/
theorem filter_upsert {name : String} {entries : List (String × α)}
    (h : name ∉ entries.map Prod.fst) (value : α) :
    (upsert name value entries).filter (fun e => e.1 ≠ name) = entries := by
  induction entries with
  | nil => simp [upsert]
  | cons e rest ih =>
    rw [List.map_cons, List.mem_cons, not_or] at h
    have he : e.1 ≠ name := Ne.symm h.1
    have hrest := ih h.2
    rw [upsert, if_neg he, List.filter_cons, if_pos (decide_eq_true he), hrest]

/-- Taking an entry away does not depend on what is put under another name. -/
theorem filter_upsert_of_ne {name other : String} (h : other ≠ name) (value : α)
    (entries : List (String × α)) :
    (upsert other value entries).filter (fun e => e.1 ≠ name) =
      upsert other value (entries.filter fun e => e.1 ≠ name) := by
  induction entries with
  | nil => simp [upsert, h]
  | cons e rest ih =>
    obtain ⟨k, v⟩ := e
    by_cases ho : k = other
    · simp [upsert, ho, h]
    · simp only [upsert, if_neg ho, List.filter_cons]
      by_cases hn : k = name
      · simp only [hn, ne_eq, not_true, decide_false, Bool.false_eq_true, if_false]
        exact ih
      · simp only [hn, ne_eq, not_false_eq_true, decide_true, if_true, upsert, if_neg ho]
        exact congrArg ((k, v) :: ·) ih

end Entries

namespace Disk

/-- What stands at a place, without what is below it. -/
inductive Kind where
  | file (content : ByteArray)
  | dir
  | link (target : String)

namespace Node

def kind : Node → Kind
  | file content => .file content
  | dir _ => .dir
  | link target => .link target

theorem kind_eq_dir {n : Node} : n.kind = .dir ↔ ∃ entries, n = dir entries := by
  cases n <;> simp [kind]

theorem kind_eq_file {n : Node} {content : ByteArray} : n.kind = .file content ↔ n = file content := by
  cases n <;> simp [kind]

theorem kind_eq_link {n : Node} {target : String} : n.kind = .link target ↔ n = link target := by
  cases n <;> simp [kind]

theorem get?_append (p q : Place) (n : Node) : n.get? (p ++ q) = (n.get? p).bind (get? q) := by
  induction p generalizing n with
  | nil => rfl
  | cons name rest ih =>
    cases n with
    | dir entries =>
      simp only [List.cons_append, get?]
      cases entries.lookup name with
      | none => rfl
      | some m => exact ih m
    | file content => rfl
    | link target => rfl

/-! ## Editing a directory -/

/-- Change the entries of the directory at a place. -/
def edit (change : List (String × Node) → List (String × Node)) : Place → Node → Node
  | [], dir entries => dir (change entries)
  | name :: rest, dir entries =>
    match entries.lookup name with
    | some n => dir (upsert name (edit change rest n) entries)
    | none => dir entries
  | _, n => n

variable {change : List (String × Node) → List (String × Node)}

theorem edit_cons {name : String} {rest : Place} {entries : List (String × Node)} {n : Node}
    (h : entries.lookup name = some n) :
    edit change (name :: rest) (dir entries) = dir (upsert name (edit change rest n) entries) := by
  rw [edit, h]

/-- The first step towards a directory below a node. -/
theorem exists_of_get?_cons {name : String} {rest : Place} {n m : Node}
    (h : n.get? (name :: rest) = some m) :
    ∃ entries inner, n = dir entries ∧ entries.lookup name = some inner ∧ inner.get? rest = some m := by
  cases n with
  | dir entries =>
    rw [get?] at h
    cases hl : entries.lookup name with
    | none => rw [hl] at h; cases h
    | some inner => rw [hl] at h; exact ⟨entries, inner, rfl, hl, h⟩
  | file content => cases h
  | link target => cases h

theorem put_eq_edit (new : Node) (name : String) {place : Place} {n : Node}
    {entries : List (String × Node)} (h : n.get? place = some (dir entries)) :
    put new (place ++ [name]) n = edit (upsert name new) place n := by
  induction place generalizing n with
  | nil => cases h; rfl
  | cons first rest ih =>
    obtain ⟨outer, inner, rfl, hl, hinner⟩ := exists_of_get?_cons h
    rw [edit_cons hl, List.cons_append, put, hl, Option.getD_some, ih hinner]

theorem erase_eq_edit (name : String) (place : Place) (n : Node) :
    erase (place ++ [name]) n = edit (List.filter fun e => e.1 ≠ name) place n := by
  induction place generalizing n with
  | nil => cases n <;> rfl
  | cons first rest ih =>
    cases n with
    | dir entries =>
      cases hrest : rest ++ [name] with
      | nil => simp at hrest
      | cons second more =>
        rw [List.cons_append, hrest, erase, edit]
        · cases entries.lookup first with
          | none => rfl
          | some inner => simp only [← hrest, ih inner]
        · intro h; cases h
    | file content => cases rest <;> rfl
    | link target => cases rest <;> rfl

theorem edit_edit (change' : List (String × Node) → List (String × Node)) (place : Place) (n : Node) :
    edit change' place (edit change place n) = edit (change' ∘ change) place n := by
  induction place generalizing n with
  | nil => cases n <;> rfl
  | cons name rest ih =>
    cases n with
    | dir entries =>
      cases hl : entries.lookup name with
      | none => simp only [edit, hl]
      | some inner =>
        have hl' : (upsert name (edit change rest inner) entries).lookup name =
            some (edit change rest inner) := by
          rw [lookup_upsert, if_pos rfl]
        rw [edit_cons hl, edit_cons hl', edit_cons hl, upsert_upsert, ih]
    | file content => rfl
    | link target => rfl

theorem edit_congr {change' : List (String × Node) → List (String × Node)} {place : Place} {n : Node}
    {entries : List (String × Node)} (h : n.get? place = some (dir entries))
    (hc : change entries = change' entries) : edit change place n = edit change' place n := by
  induction place generalizing n with
  | nil => cases h; exact congrArg dir hc
  | cons name rest ih =>
    obtain ⟨outer, inner, rfl, hl, hinner⟩ := exists_of_get?_cons h
    rw [edit_cons hl, edit_cons hl, ih hinner]

theorem edit_eq_self {place : Place} {n : Node} {entries : List (String × Node)}
    (h : n.get? place = some (dir entries)) (hc : change entries = entries) :
    edit change place n = n := by
  induction place generalizing n with
  | nil => cases h; exact congrArg dir hc
  | cons name rest ih =>
    obtain ⟨outer, inner, rfl, hl, hinner⟩ := exists_of_get?_cons h
    rw [edit_cons hl, ih hinner, upsert_eq_self hl]

/-- Above the directory an edit is an edit of what stands there. -/
theorem get?_edit_of_above {above rest : Place} {n m : Node} (h : n.get? above = some m) :
    (edit change (above ++ rest) n).get? above = some (edit change rest m) := by
  induction above generalizing n with
  | nil => cases h; rfl
  | cons name above ih =>
    obtain ⟨entries, inner, rfl, hl, hinner⟩ := exists_of_get?_cons h
    rw [List.cons_append, edit_cons hl, get?, lookup_upsert, if_pos rfl]
    exact ih hinner

/-- The directory itself has its entries changed. -/
theorem get?_edit_self {place : Place} {n : Node} {entries : List (String × Node)}
    (h : n.get? place = some (dir entries)) :
    (edit change place n).get? place = some (dir (change entries)) := by
  have hself : (edit change (place ++ []) n).get? place = some (edit change [] (dir entries)) :=
    get?_edit_of_above h
  rwa [List.append_nil] at hself

/-- Beside the directory nothing changes. -/
theorem get?_edit_of_apart {place other : Place} {n : Node} (h : ¬ place <+: other) (h' : ¬ other <+: place) :
    (edit change place n).get? other = n.get? other := by
  induction place generalizing other n with
  | nil => exact absurd List.nil_prefix h
  | cons name rest ih =>
    cases other with
    | nil => exact absurd List.nil_prefix h'
    | cons first more =>
      cases n with
      | dir entries =>
        cases hl : entries.lookup name with
        | none => rw [edit, hl]
        | some inner =>
          rw [edit_cons hl, get?, get?, lookup_upsert]
          by_cases hf : first = name
          · subst hf
            rw [List.prefix_cons_inj] at h h'
            simp only [if_true, hl]
            exact ih h h'
          · rw [if_neg hf]
      | file content => rfl
      | link target => rfl

theorem kind_edit (place : Place) (n : Node) : (edit change place n).kind = n.kind := by
  unfold edit
  split
  · rfl
  · split <;> rfl
  · rfl

end Node

/-! ## Disks -/

/-- What is seen at a place. -/
def kind? (d : Disk) (place : Place) : Option Kind := (d.get? place).map Node.kind

variable {d : Disk} {place : Place} {name : String} {entries : List (String × Node)}

theorem kind?_nil (d : Disk) : d.kind? [] = some .dir := rfl

theorem kind?_eq_dir : d.kind? place = some .dir ↔ ∃ entries, d.get? place = some (.dir entries) := by
  simp only [kind?, Option.map_eq_some_iff, Node.kind_eq_dir]
  constructor
  · intro h
    obtain ⟨_, hn, entries, rfl⟩ := h
    exact ⟨entries, hn⟩
  · intro h
    obtain ⟨entries, hn⟩ := h
    exact ⟨_, hn, entries, rfl⟩

theorem kind?_eq_file {content : ByteArray} :
    d.kind? place = some (.file content) ↔ d.get? place = some (.file content) := by
  simp only [kind?, Option.map_eq_some_iff, Node.kind_eq_file, exists_eq_right]

theorem kind?_eq_link {target : String} :
    d.kind? place = some (.link target) ↔ d.get? place = some (.link target) := by
  simp only [kind?, Option.map_eq_some_iff, Node.kind_eq_link, exists_eq_right]

theorem get?_append {n : Node} (h : d.get? place = some n) (rest : Place) :
    d.get? (place ++ rest) = n.get? rest := by
  unfold get? at h ⊢
  rw [Node.get?_append, h, Option.bind_some]

theorem get?_below (h : d.get? place = some (.dir entries)) (name : String) :
    d.get? (place ++ [name]) = entries.lookup name := by
  rw [get?_append h, Node.get?]
  cases entries.lookup name <;> rfl

theorem kind?_below (h : d.get? place = some (.dir entries)) (name : String) :
    d.kind? (place ++ [name]) = (entries.lookup name).map Node.kind := by
  rw [kind?, get?_below h]

/-- Below what is no directory there is nothing. -/
theorem get?_eq_none_of_above {rest : Place} (h : d.kind? place ≠ some .dir) (hrest : rest ≠ []) :
    d.get? (place ++ rest) = none := by
  obtain ⟨first, more, rfl⟩ := List.exists_cons_of_ne_nil hrest
  cases hg : d.get? (place ++ first :: more) with
  | none => rfl
  | some m =>
    unfold get? at hg
    rw [Node.get?_append] at hg
    obtain ⟨n, hn, hm⟩ := Option.bind_eq_some_iff.1 hg
    obtain ⟨outer, -, rfl, -⟩ := Node.exists_of_get?_cons hm
    exact absurd (kind?_eq_dir.2 ⟨outer, hn⟩) h

theorem eq_of_dir_top {d' : Disk} (h : Node.dir d.top = Node.dir d'.top) : d = d' := by
  cases d
  cases d'
  cases h
  rfl

theorem dir_top_put (d : Disk) (place : Place) (name : String) (new : Node) :
    Node.dir (d.put (place ++ [name]) new).top = Node.put new (place ++ [name]) (.dir d.top) := by
  cases place <;> rfl

theorem dir_top_erase (d : Disk) (place : Place) (name : String) :
    Node.dir (d.erase (place ++ [name])).top = Node.erase (place ++ [name]) (.dir d.top) := by
  have hkind : ((Node.dir d.top).erase (place ++ [name])).kind = .dir := by
    rw [Node.erase_eq_edit, Node.kind_edit, Node.kind]
  obtain ⟨entries, he⟩ := Node.kind_eq_dir.1 hkind
  rw [erase, he]

theorem dir_top_put_eq_edit (h : d.get? place = some (.dir entries)) (name : String) (new : Node) :
    Node.dir (d.put (place ++ [name]) new).top = (Node.dir d.top).edit (upsert name new) place := by
  rw [dir_top_put, Node.put_eq_edit new name h]

/-- The directory itself, with the new entry. -/
theorem get?_put_folder (h : d.get? place = some (.dir entries)) (name : String) (new : Node) :
    (d.put (place ++ [name]) new).get? place = some (.dir (upsert name new entries)) := by
  unfold get? at h ⊢
  rw [dir_top_put_eq_edit h, Node.get?_edit_self h]

theorem get?_put_self (h : d.kind? place = some .dir) (name : String) (new : Node) :
    (d.put (place ++ [name]) new).get? (place ++ [name]) = some new := by
  obtain ⟨entries, h⟩ := kind?_eq_dir.1 h
  rw [get?_below (get?_put_folder h name new), lookup_upsert, if_pos rfl]

/-- What has nothing below it, put where no directory was, is seen at its own place only. -/
theorem kind?_put {new : Node} (h : d.kind? place = some .dir) (hold : d.kind? (place ++ [name]) ≠ some .dir)
    (hnew : ∀ rest, rest ≠ [] → new.get? rest = none) (other : Place) :
    (d.put (place ++ [name]) new).kind? other =
      if other = place ++ [name] then some new.kind else d.kind? other := by
  by_cases hself : other = place ++ [name]
  · rw [if_pos hself, hself, kind?, get?_put_self h, Option.map_some]
  rw [if_neg hself]
  obtain ⟨entries, h⟩ := kind?_eq_dir.1 h
  by_cases hbelow : place <+: other
  · -- below the directory: only what is under the name itself could be new
    obtain ⟨rest, rfl⟩ := hbelow
    cases rest with
    | nil => rw [List.append_nil, kind?, kind?, get?_put_folder h, h]; rfl
    | cons first more =>
      rw [kind?, kind?, get?_append (get?_put_folder h name new), get?_append h, Node.get?, Node.get?,
        lookup_upsert]
      by_cases hfirst : first = name
      · subst hfirst
        have hmore : more ≠ [] := fun hnil => hself (by rw [hnil])
        have hnone := get?_eq_none_of_above hold hmore
        rw [List.append_assoc, List.singleton_append, get?_append h, Node.get?] at hnone
        rw [if_pos rfl, hnone]
        simp only [hnew more hmore]
      · rw [if_neg hfirst]
  · by_cases habove : other <+: place
    · obtain ⟨rest, rfl⟩ := habove
      cases ho : d.get? other with
      | none =>
        unfold get? at h ho
        rw [Node.get?_append, ho] at h
        cases h
      | some n =>
        have hput : (d.put (other ++ rest ++ [name]) new).get? other =
            some (n.edit (upsert name new) rest) := by
          unfold get? at ho ⊢
          rw [dir_top_put_eq_edit h, Node.get?_edit_of_above ho]
        rw [kind?, kind?, ho, hput, Option.map_some, Option.map_some, Node.kind_edit]
    · unfold kind? get?
      rw [dir_top_put_eq_edit h, Node.get?_edit_of_apart hbelow habove]

/-! ## Temporary files -/

/-- Taking away what was put under an unused name gives the disk back. -/
theorem erase_put (h : d.get? place = some (.dir entries)) (hname : name ∉ entries.map Prod.fst)
    (new : Node) : (d.put (place ++ [name]) new).erase (place ++ [name]) = d := by
  apply eq_of_dir_top
  rw [dir_top_erase, dir_top_put_eq_edit h, Node.erase_eq_edit, Node.edit_edit]
  exact Node.edit_eq_self h (filter_upsert hname new)

/-- Of two things put at one place the second stays. -/
theorem put_put (h : d.get? place = some (.dir entries)) (old new : Node) :
    (d.put (place ++ [name]) old).put (place ++ [name]) new = d.put (place ++ [name]) new := by
  apply eq_of_dir_top
  rw [dir_top_put_eq_edit (get?_put_folder h name old), dir_top_put_eq_edit h, dir_top_put_eq_edit h,
    Node.edit_edit]
  exact Node.edit_congr h (upsert_upsert name old new entries)

/-- A file put under an unused name and moved within its directory might as well have been
    put under its last name at once. -/
theorem move_put {temporary : String} (h : d.get? place = some (.dir entries))
    (htemp : temporary ∉ entries.map Prod.fst) (name : String) (content : ByteArray) :
    (d.put (place ++ [temporary]) (.file content)).move (place ++ [temporary]) (place ++ [name]) =
      d.put (place ++ [name]) (.file content) := by
  unfold move
  by_cases hname : temporary = name
  · rw [if_pos (by rw [hname]), hname]
  have hplaces : place ++ [temporary] ≠ place ++ [name] := by simpa using hname
  rw [if_neg hplaces, get?_put_self (kind?_eq_dir.2 ⟨entries, h⟩)]
  apply eq_of_dir_top
  have hfolder := get?_put_folder h temporary (.file content)
  rw [dir_top_erase, dir_top_put_eq_edit hfolder, dir_top_put_eq_edit h, dir_top_put_eq_edit h,
    Node.erase_eq_edit, Node.edit_edit, Node.edit_edit]
  refine Node.edit_congr h ?_
  simp only [Function.comp_apply]
  rw [filter_upsert_of_ne (Ne.symm hname), filter_upsert htemp]

/-- Putting what is there already changes nothing. -/
theorem put_eq_self {n : Node} (h : d.kind? place = some .dir)
    (hn : d.get? (place ++ [name]) = some n) : d.put (place ++ [name]) n = d := by
  obtain ⟨entries, h⟩ := kind?_eq_dir.1 h
  apply eq_of_dir_top
  rw [dir_top_put_eq_edit h]
  refine Node.edit_eq_self h (upsert_eq_self ?_)
  rw [← get?_below h, hn]

end Disk

end ServiceSchema
