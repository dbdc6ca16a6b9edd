/-
  ServiceSchema.Proofs.DefinitionFiles — which files below a directory are definitions.

  A file is a definition by the end of its name alone, wherever it is. So what is put into
  a directory leaves its definition files as they are, and in the order they are in, if it
  is no definition itself and takes the place of none: a file with another name, or an
  empty directory whatever its name (`definitions_edit`).

  A walk that goes by names is one walk only (`eq_visits`), so nothing more has to be known
  of it. It sorts the entries of a directory, so a new entry moves others. What each entry
  adds to the list (`share`) is therefore collected first, and entries that add nothing are
  left out before sorting (`definitions_dir`).
-/
import Mathlib.Data.List.Infix
import ServiceSchema.Project
import ServiceSchema.Proofs.Places

namespace ServiceSchema

/-! ## Ends of paths -/

theorem splitOn_of_notMem {name : List Char} (h : '/' ∉ name) : name.splitOn '/' = [name] := by
  rw [List.splitOn_eq_splitOnP, List.splitOnP_eq_singleton]
  intro c hc
  exact beq_false_of_ne fun heq => h (heq ▸ hc)

theorem splitOn_append_cons (front back : List Char) :
    (front ++ '/' :: back).splitOn '/' = front.splitOn '/' ++ back.splitOn '/' := by
  simp only [List.splitOn_eq_splitOnP]
  exact List.splitOnP_append_cons front back (beq_self_eq_true '/')

theorem getLast?_splitOn (front : List Char) {ending : List Char} (h : '/' ∉ ending) :
    ∃ beginning, ((front ++ ending).splitOn '/').getLast? = some (beginning ++ ending) := by
  induction front with
  | nil =>
    refine ⟨[], ?_⟩
    rw [List.nil_append, splitOn_of_notMem h]
    rfl
  | cons c front ih =>
    obtain ⟨beginning, ih⟩ := ih
    rw [List.splitOn_eq_splitOnP] at ih ⊢
    rw [List.cons_append, List.splitOnP_cons_eq_if_modifyHead]
    obtain ⟨outer, hsplit⟩ := List.getLast?_eq_some_iff.1 ih
    rw [hsplit]
    split
    · exact ⟨beginning, by rw [← List.cons_append, List.getLast?_concat]⟩
    · cases outer with
      | nil => exact ⟨c :: beginning, rfl⟩
      | cons first outer => exact ⟨beginning, by simp [List.getLast?_cons]⟩

/-- A path that ends in a text without slashes has a last piece that ends in it. -/
theorem exists_last_piece {path ending : String} (hslash : '/' ∉ ending.toList)
    (h : ending.toList <:+ path.toList) :
    ∃ name, (Path.pieces path).getLast? = some name ∧ ending.toList <:+ name.toList := by
  obtain ⟨front, hfront⟩ := h
  obtain ⟨beginning, hlast⟩ := getLast?_splitOn front hslash
  refine ⟨String.ofList (beginning ++ ending.toList), ?_, ?_⟩
  · rw [Path.pieces, ← hfront, List.getLast?_map, hlast, Option.map_some]
  · rw [String.toList_ofList]
    exact List.suffix_append _ _

/-- What is joined to a path is at its end. -/
theorem suffix_join (base part : String) : part.toList <:+ (Path.join base part).toList := by
  unfold Path.join
  split
  · exact List.suffix_refl _
  · split <;> rw [String.toList_append] <;> exact List.suffix_append _ _

theorem steps_getLast? {path name : String} (h : (Path.pieces path).getLast? = some name)
    (hname : name ≠ "" ∧ name ≠ ".") : (Path.steps path).getLast? = some name := by
  obtain ⟨outer, houter⟩ := List.getLast?_eq_some_iff.1 h
  rw [Path.steps, houter, List.filter_append, List.filter_cons_of_pos (by simpa using hname),
    List.filter_nil, List.getLast?_concat]

/-- A path whose last piece is the name of a definition file. -/
def NamesDefinition (path : String) : Prop :=
  ∃ name, (Path.pieces path).getLast? = some name ∧ isDefinitionFile name = true

theorem isDefinitionFile_iff {name : String} :
    isDefinitionFile name = true ↔ definitionEnding.toList <:+ name.toList :=
  List.isSuffixOf_iff_suffix

theorem namesDefinition_join (base : String) {part : String} (h : isDefinitionFile part = true) :
    NamesDefinition (Path.join base part) := by
  have hend := (isDefinitionFile_iff.1 h).trans (suffix_join base part)
  obtain ⟨name, hlast, hname⟩ := exists_last_piece (by decide) hend
  exact ⟨name, hlast, isDefinitionFile_iff.2 hname⟩

/-- An output that is named after its folder is no definition. -/
theorem isDefinitionFile_outputPath (root : String) {options : Options} (h : options.outputFile = none) :
    (Path.steps (Path.join root (options.outputPath outputExtension))).getLast?.any isDefinitionFile =
      false := by
  have hend : ".go".toList <:+ (Path.join root (options.outputPath outputExtension)).toList := by
    refine List.IsSuffix.trans ?_ (suffix_join root _)
    rw [Options.outputPath, h]
    refine List.IsSuffix.trans ?_ (suffix_join _ _)
    rw [String.append_assoc, String.toList_append]
    exact List.suffix_append _ _
  obtain ⟨name, hlast, hname⟩ := exists_last_piece (by decide) hend
  obtain ⟨front, hfront⟩ := hname
  have hends : name.toList.getLast? = some 'o' := by
    rw [← hfront, List.getLast?_append]
    rfl
  have hne : name ≠ "" ∧ name ≠ "." := by
    constructor <;> intro heq <;> rw [heq] at hends <;> exact absurd hends (by decide)
  rw [steps_getLast? hlast hne, Option.any_some, Bool.eq_false_iff, ne_eq, isDefinitionFile_iff]
  intro hyml
  obtain ⟨front', hfront'⟩ := hyml
  rw [← hfront', List.getLast?_append] at hends
  cases hends

/-! ## Sorting -/

section Sorting

variable {α : Type} {le : α → α → Bool}

theorem mergeSort_cons_eq (htrans : ∀ a b c, le a b = true → le b c = true → le a c = true)
    (htotal : ∀ a b, (le a b || le b a) = true) (a : α) (l : List α) :
    (a :: l).mergeSort le =
      (l.mergeSort le).filter (fun b => !le a b) ++ a :: (l.mergeSort le).filter (le a) := by
  obtain ⟨front, back, hsort, hrest, hfront⟩ := List.mergeSort_cons htrans htotal a l
  have hpairs := List.pairwise_mergeSort htrans htotal (a :: l)
  rw [hsort, List.pairwise_append, List.pairwise_cons] at hpairs
  have hback : ∀ b ∈ back, le a b = true := hpairs.2.1.1
  rw [hsort, hrest, List.filter_append, List.filter_append, List.filter_eq_self.2 hfront,
    List.filter_eq_self.2 hback, List.filter_eq_nil_iff.2, List.filter_eq_nil_iff.2, List.append_nil,
    List.nil_append]
  · intro b hb
    simpa using hfront b hb
  · intro b hb
    simpa using hback b hb

/-- Leaving out before sorting is leaving out after it. -/
theorem filter_mergeSort (htrans : ∀ a b c, le a b = true → le b c = true → le a c = true)
    (htotal : ∀ a b, (le a b || le b a) = true) (p : α → Bool) (l : List α) :
    (l.mergeSort le).filter p = (l.filter p).mergeSort le := by
  induction l with
  | nil => simp
  | cons a l ih =>
    by_cases hp : p a = true
    · rw [List.filter_cons_of_pos hp, mergeSort_cons_eq htrans htotal, mergeSort_cons_eq htrans htotal, ← ih,
        List.filter_append, List.filter_cons_of_pos hp, List.filter_comm p, List.filter_comm p]
    · obtain ⟨front, back, hsort, hrest, -⟩ := List.mergeSort_cons htrans htotal a l
      rw [List.filter_cons_of_neg hp, ← ih, hsort, hrest, List.filter_append, List.filter_append,
        List.filter_cons_of_neg hp]

/-- Entries can be sorted by their names. -/
theorem name_le_trans (a b c : String × α) : decide (a.1 ≤ b.1) = true → decide (b.1 ≤ c.1) = true →
    decide (a.1 ≤ c.1) = true := by
  intro hab hbc
  simp only [decide_eq_true_eq] at hab hbc ⊢
  exact String.le_trans hab hbc

theorem name_le_total (a b : String × α) : (decide (a.1 ≤ b.1) || decide (b.1 ≤ a.1)) = true := by
  simpa using String.le_total a.1 b.1

end Sorting

/-! ## The walk -/

namespace Disk.Node

/-- The files that are visited from a node on. -/
def files (n : Node) : List Place := (n.visits.filter Visit.isFile).map Visit.place

theorem visitsOfEach_eq_map (entries : List (String × Node)) :
    visitsOfEach entries = entries.map fun e => (e.1, e.2.visits) := by
  induction entries with
  | nil => rfl
  | cons e rest ih => rw [visitsOfEach, ih, List.map_cons]

theorem visits_dir (entries : List (String × Node)) : (dir entries).visits = ⟨[], false⟩ ::
    (dir entries).entriesByName.flatMap fun e => e.2.visits.map (Visit.under e.1) := by
  rw [visits, visitsOfEach_eq_map, entriesByName,
    ← List.map_mergeSort (r := fun a b : String × Node => decide (a.1 ≤ b.1)) (fun _ _ _ _ => rfl),
    List.flatMap_map]

theorem inOrder_visits : Walk.InOrder visits := by
  intro n
  cases n with
  | file content => rw [visits]; rfl
  | link target => rw [visits]; rfl
  | dir entries => exact visits_dir entries

/-- The order leaves no choice to a walk. -/
theorem eq_visits {walk : Walk} (h : walk.InOrder) (n : Node) : walk n = n.visits := by
  rw [h n, inOrder_visits n]
  congr 1
  refine List.flatMap_congr fun e he => ?_
  rw [eq_visits h e.2]
termination_by n
decreasing_by
  cases n with
  | file content => cases he
  | link target => cases he
  | dir entries =>
    have hsize := List.sizeOf_lt_of_mem (List.mem_mergeSort.1 he)
    have hentry : sizeOf e.2 < sizeOf e := by
      cases e
      simp only [Prod.mk.sizeOf_spec]
      omega
    simp only [dir.sizeOf_spec]
    omega

theorem files_file (content : ByteArray) : (file content).files = [[]] := by
  rw [files, visits]
  rfl

theorem files_link (target : String) : (link target).files = [] := by
  rw [files, visits]
  rfl

/-- The files in a directory, in the order in which its entries are walked. -/
theorem files_dir (entries : List (String × Node)) : (dir entries).files =
    (entries.mergeSort fun a b => decide (a.1 ≤ b.1)).flatMap fun e => e.2.files.map (e.1 :: ·) := by
  rw [files, visits_dir, List.filter_cons_of_neg Bool.false_ne_true, List.filter_flatMap, List.map_flatMap]
  refine List.flatMap_congr fun e _ => ?_
  rw [List.filter_map, List.map_map, files, List.map_map]
  rfl

theorem nil_notMem_files (entries : List (String × Node)) : [] ∉ (dir entries).files := by
  rw [files_dir, List.mem_flatMap]
  intro h
  obtain ⟨e, -, hplace⟩ := h
  obtain ⟨rest, -, heq⟩ := List.mem_map.1 hplace
  cases heq

/-! ## Below a directory -/

/-- The definition files below a node, in walk order. -/
def definitions (n : Node) : List Place := n.files.filter fun place => place.getLast?.any isDefinitionFile

/-- The definition files that an entry adds to those of its directory. -/
def share (name : String) (n : Node) : List Place :=
  (n.files.map (name :: ·)).filter fun place => place.getLast?.any isDefinitionFile

/-- What the entries of a directory add, without those that add nothing. -/
def shares (entries : List (String × Node)) : List (String × List Place) :=
  (entries.map fun e => (e.1, e.2.share e.1)).filter fun e => !e.2.isEmpty

variable {name : String} {n new : Node} {entries : List (String × Node)}

theorem flatMap_filter_nonempty (l : List (String × List Place)) :
    (l.filter fun e => !e.2.isEmpty).flatMap Prod.snd = l.flatMap Prod.snd := by
  induction l with
  | nil => rfl
  | cons e rest ih =>
    obtain ⟨name, places⟩ := e
    cases places with
    | nil => rw [List.filter_cons_of_neg (by simp), ih, List.flatMap_cons, List.nil_append]
    | cons place more => rw [List.filter_cons_of_pos (by simp), List.flatMap_cons, List.flatMap_cons, ih]

/-- The definition files of a directory are those of its entries, in the order of their
    names, and entries without definition files do not count. -/
theorem definitions_dir (entries : List (String × Node)) : (dir entries).definitions =
    ((shares entries).mergeSort fun a b => decide (a.1 ≤ b.1)).flatMap Prod.snd := by
  rw [shares, ← filter_mergeSort name_le_trans name_le_total, flatMap_filter_nonempty,
    ← List.map_mergeSort (r := fun a b : String × Node => decide (a.1 ≤ b.1)) (fun _ _ _ _ => rfl),
    List.flatMap_map, definitions, files_dir, List.filter_flatMap]
  rfl

/-- An entry that adds what the one before it added changes nothing. -/
theorem shares_upsert (h : new.share name = ((entries.lookup name).map (share name)).getD []) :
    shares (upsert name new entries) = shares entries := by
  induction entries with
  | nil =>
    rw [List.lookup_nil, Option.map_none, Option.getD_none] at h
    simp [upsert, shares, h]
  | cons e rest ih =>
    rw [lookup_cons_eq_ite] at h
    by_cases he : e.1 = name
    · rw [if_pos he.symm, Option.map_some, Option.getD_some] at h
      simp [upsert, shares, he, h]
    · rw [if_neg (Ne.symm he)] at h
      have ih := ih h
      unfold shares at ih ⊢
      rw [upsert, if_neg he, List.map_cons, List.map_cons, List.filter_cons, List.filter_cons, ih]

/-- Below a directory the entry's own name is not the last. -/
theorem share_of_dir (h : n.kind = .dir) (name : String) : n.share name = n.definitions.map (name :: ·) := by
  obtain ⟨entries, rfl⟩ := kind_eq_dir.1 h
  rw [share, definitions, List.filter_map]
  refine congrArg _ (List.filter_congr fun place hplace => ?_)
  cases place with
  | nil => exact absurd hplace (nil_notMem_files entries)
  | cons first rest => rfl

theorem kind_of_get? {place : Place} (h : n.get? place = some (dir entries)) : n.kind = .dir := by
  cases place with
  | nil => cases h; rfl
  | cons first rest =>
    obtain ⟨outer, -, rfl, -⟩ := exists_of_get?_cons h
    rfl

/-- The definition files of a directory stay what they are when an entry somewhere below it
    is replaced by one that adds the same. -/
theorem definitions_edit {place : Place} (h : n.get? place = some (dir entries))
    (hshare : new.share name = ((entries.lookup name).map (share name)).getD []) :
    (edit (upsert name new) place n).definitions = n.definitions := by
  induction place generalizing n with
  | nil =>
    cases h
    rw [edit, definitions_dir, definitions_dir, shares_upsert hshare]
  | cons first rest ih =>
    obtain ⟨outer, inner, rfl, hl, hinner⟩ := exists_of_get?_cons h
    have hdir := kind_of_get? hinner
    rw [edit_cons hl, definitions_dir, definitions_dir, shares_upsert]
    rw [hl, Option.map_some, Option.getD_some, share_of_dir (by rw [kind_edit, hdir]), share_of_dir hdir,
      ih hinner]

theorem share_file (h : isDefinitionFile name = false) (content : ByteArray) :
    (file content).share name = [] := by
  simp [share, files_file, h]

theorem share_empty (name : String) : (dir []).share name = [] := by
  simp [share, files_dir]

end Disk.Node

/-! ## The paths of the definition files -/

namespace Disk

variable {libs : Libraries} {d : Disk}

theorem definitionFiles_of_entry {folder : String} {n : Node} (h : d.entry folder = .ok n)
    (hlink : ∀ target, n ≠ .link target) :
    d.definitionFiles libs folder = .ok (definitionsFrom libs folder n) := by
  rw [definitionFiles, h]
  cases n with
  | file content => rfl
  | dir entries => rfl
  | link target => exact absurd rfl (hlink target)

/-- Below a directory the path of a file ends in the file's own name. -/
theorem definitionsFrom_dir (h : libs.walk.InOrder) (folder : String) (entries : List (String × Node)) :
    definitionsFrom libs folder (.dir entries) =
      (Node.dir entries).definitions.map fun place => place.foldl Path.join folder := by
  have hown : ∀ v ∈ (Node.dir entries).visits, Visit.isDefinition folder v =
      (v.place.getLast?.any isDefinitionFile && v.isFile) := by
    intro v hv
    obtain ⟨place, file⟩ := v
    cases file with
    | false => simp [Visit.isDefinition]
    | true =>
      have hplace : place ∈ (Node.dir entries).files :=
        List.mem_map.2 ⟨⟨place, true⟩, List.mem_filter.2 ⟨hv, rfl⟩, rfl⟩
      have hne : place ≠ [] := fun heq => Node.nil_notMem_files entries (heq ▸ hplace)
      simp [Visit.isDefinition, List.getLast?_append_of_ne_nil _ hne]
  rw [definitionsFrom, Node.eq_visits h, List.filter_congr hown, Node.definitions, Node.files,
    List.filter_map, List.filter_filter, List.map_map]
  rfl

theorem definitionsFrom_file (h : libs.walk.InOrder) (folder : String) (content : ByteArray) :
    definitionsFrom libs folder (.file content) =
      if (Path.steps folder).getLast?.any isDefinitionFile then [folder] else [] := by
  rw [definitionsFrom, Node.eq_visits h, Node.visits, List.filter_singleton, Visit.isDefinition,
    List.append_nil, Bool.true_and]
  cases (Path.steps folder).getLast?.any isDefinitionFile <;> rfl

end Disk

end ServiceSchema
