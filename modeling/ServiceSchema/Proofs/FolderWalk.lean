/-
  ServiceSchema.Proofs.FolderWalk — what is loaded from a folder, and in which order.

  A file below a folder is loaded if its name is that of a definition file, however deep it
  is and whatever the directories above it are called; what is behind a link is not. The
  order is that of the names on the way to a file, compared one after the other by their
  bytes. It is not the order of the paths as texts: what is in a directory `a` comes before
  the file `a.yml` next to it.

  - `Node.mem_files`, `Node.pairwise_files`: the walk finds every file, in this order.
  - `Leads.pathBelow`: the path of a file leads to it, however the folder was reached.
  - `loadFolder_in_order`: both for the definition files, and what is loaded from them.
-/
import Mathlib.Data.List.Nodup
import ServiceSchema.Bundled
import ServiceSchema.Proofs.ByteOrder
import ServiceSchema.Proofs.DefinitionFiles
import ServiceSchema.Proofs.Following

namespace ServiceSchema

open Fallible
open Text (bytes bytes_lt)

namespace Disk.Node

/-- The names in every directory are different, and each can be a piece of a path. -/
inductive WellNamed : Node → Prop
  | file (content : ByteArray) : WellNamed (file content)
  | link (target : String) : WellNamed (link target)
  | dir {entries : List (String × Node)} : (entries.map Prod.fst).Nodup →
      (∀ e ∈ entries, IsName e.1 ∧ '/' ∉ e.1.toList) → (∀ e ∈ entries, WellNamed e.2) →
      WellNamed (dir entries)

variable {n m : Node} {name : String} {place rest : Place} {entries : List (String × Node)}

theorem WellNamed.nodup (h : (Node.dir entries).WellNamed) : (entries.map Prod.fst).Nodup := by
  cases h with
  | dir hnodup _ _ => exact hnodup

/-- What a name in a directory stands for. -/
theorem WellNamed.entry (h : (Node.dir entries).WellNamed) (hm : entries.lookup name = some m) :
    (IsName name ∧ '/' ∉ name.toList) ∧ m.WellNamed := by
  cases h with
  | dir hnodup hnames hbelow =>
    have hmem := (lookup_eq_some_iff hnodup).1 hm
    exact ⟨hnames _ hmem, hbelow _ hmem⟩

/-! ## The walk -/

theorem cons_mem_files :
    name :: rest ∈ (dir entries).files ↔ ∃ m, (name, m) ∈ entries ∧ rest ∈ m.files := by
  rw [files_dir, List.mem_flatMap]
  constructor
  · intro h
    obtain ⟨e, he, hplace⟩ := h
    obtain ⟨rest', hrest, heq⟩ := List.mem_map.1 hplace
    cases heq
    exact ⟨e.2, List.mem_mergeSort.1 he, hrest⟩
  · intro h
    obtain ⟨m, hm, hrest⟩ := h
    exact ⟨(name, m), List.mem_mergeSort.2 hm, List.mem_map_of_mem hrest⟩

/-- The walk finds the files, and nothing else. -/
theorem mem_files (h : n.WellNamed) : place ∈ n.files ↔ ∃ content, n.get? place = some (file content) := by
  induction place generalizing n with
  | nil =>
    cases n with
    | file content => simp [files_file, get?]
    | link target => simp [files_link, get?]
    | dir entries => simp [nil_notMem_files, get?]
  | cons name rest ih =>
    cases n with
    | file content => simp [files_file, get?]
    | link target => simp [files_link, get?]
    | dir entries =>
      rw [cons_mem_files]
      constructor
      · intro hplace
        obtain ⟨m, hm, hrest⟩ := hplace
        have hl := (lookup_eq_some_iff h.nodup).2 hm
        obtain ⟨content, hfile⟩ := (ih (h.entry hl).2).1 hrest
        exact ⟨content, by simp only [get?, hl, hfile]⟩
      · intro hplace
        obtain ⟨content, hfile⟩ := hplace
        obtain ⟨entries', m, heq, hl, hm⟩ := exists_of_get?_cons hfile
        cases heq
        exact ⟨m, (lookup_eq_some_iff h.nodup).1 hl, (ih (h.entry hl).2).2 ⟨content, hm⟩⟩

/-- Different names that are sorted by characters are sorted by bytes. -/
theorem pairwise_bytes_mergeSort (h : (entries.map Prod.fst).Nodup) :
    (entries.mergeSort fun a b => decide (a.1 ≤ b.1)).Pairwise fun a b => bytes a.1 < bytes b.1 := by
  have hsorted := List.pairwise_mergeSort name_le_trans name_le_total entries
  have hdistinct : (entries.mergeSort fun a b => decide (a.1 ≤ b.1)).Pairwise fun a b => a.1 ≠ b.1 :=
    List.pairwise_map.1 ((List.mergeSort_perm entries _).map Prod.fst |>.nodup_iff.2 h)
  refine (hsorted.and hdistinct).imp ?_
  intro a b hab
  exact bytes_lt (lt_of_le_of_ne (of_decide_eq_true hab.1) hab.2)

/-- The walk goes by the names on the way to a file. Within a directory this is the order of
    its entries, and below one entry that of its own walk. -/
theorem pairwise_files (h : n.WellNamed) : n.files.Pairwise fun p q => p.map bytes < q.map bytes := by
  induction h with
  | file content =>
    rw [files_file]
    exact List.pairwise_singleton _ _
  | link target =>
    rw [files_link]
    exact .nil
  | @dir entries hnodup _ _ ih =>
    rw [files_dir, List.pairwise_flatMap]
    constructor
    · intro e he
      rw [List.pairwise_map]
      refine (ih e (List.mem_mergeSort.1 he)).imp ?_
      intro p q hpq
      rw [List.map_cons, List.map_cons, List.cons_lt_cons_iff]
      exact .inr ⟨rfl, hpq⟩
    · refine (pairwise_bytes_mergeSort hnodup).imp ?_
      intro a b hab p hp q hq
      obtain ⟨p', -, rfl⟩ := List.mem_map.1 hp
      obtain ⟨q', -, rfl⟩ := List.mem_map.1 hq
      rw [List.map_cons, List.map_cons, List.cons_lt_cons_iff]
      exact .inl hab

theorem mem_definitions (h : n.WellNamed) : place ∈ n.definitions ↔
    (∃ content, n.get? place = some (file content)) ∧
      ∃ name, place.getLast? = some name ∧ ".yml".toList <:+ name.toList := by
  rw [definitions, List.mem_filter, mem_files h, Option.any_eq_true]
  simp only [isDefinitionFile_iff]
  rfl

theorem pairwise_definitions (h : n.WellNamed) :
    n.definitions.Pairwise fun p q => p.map bytes < q.map bytes :=
  (pairwise_files h).filter _

theorem nodup_definitions (h : n.WellNamed) : n.definitions.Nodup := by
  refine List.Pairwise.imp ?_ (pairwise_definitions h)
  intro p q hlt heq
  rw [heq] at hlt
  exact List.lt_irrefl _ hlt

end Disk.Node

/-! ## Paths -/

namespace Disk

variable {libs : Libraries} {d : Disk} {n m : Node} {folder name : String} {links : Nat} {root place : Place}

/-- Joining a name to a path adds it to the pieces of the path; a last piece that is empty may
    be left out. -/
theorem trimmed_join (hslash : '/' ∉ name.toList) :
    Trimmed (Path.pieces folder ++ [name]) (Path.pieces (Path.join folder name)) := by
  have hpiece : (name.toList.splitOn '/').map String.ofList = [name] := by
    rw [splitOn_of_notMem hslash, List.map_singleton, String.ofList_toList]
  have hrelative : Path.isAbsolute name = false := by
    rw [Path.isAbsolute, beq_eq_false_iff_ne]
    intro hhead
    exact hslash (List.mem_of_mem_head? hhead)
  unfold Path.join
  rw [hrelative, Bool.false_or]
  split
  · rename_i hempty
    rw [String.isEmpty_iff] at hempty
    subst hempty
    rw [Path.pieces, Path.pieces, hpiece]
    exact .drop (.inl rfl) (.keep name .nil)
  split
  · rename_i hend
    obtain ⟨front, hfront⟩ := List.getLast?_eq_some_iff.1 (eq_of_beq hend)
    rw [Path.pieces, Path.pieces, String.toList_append, hfront, List.append_assoc, List.singleton_append,
      splitOn_append_cons, splitOn_append_cons, List.map_append, List.map_append, hpiece, List.append_assoc]
    exact .append_left _ (.drop (.inl rfl) (.keep name .nil))
  · rw [Path.pieces, Path.pieces, String.toList_append, String.toList_append, List.append_assoc]
    rw [show "/".toList ++ name.toList = '/' :: name.toList from rfl, splitOn_append_cons, List.map_append,
      hpiece]
    exact .append_left _ (.keep name .nil)

/-- The path of a place below a folder. -/
def pathBelow (folder : String) (place : Place) : String := place.foldl Path.join folder

/-- A path leads on from a folder to what is below it, unless that is a link. -/
theorem Leads.pathBelow (h : Leads d .followed links [] (Path.pieces folder) root)
    (hroot : d.get? root = some n) (hnames : n.WellNamed) (hm : n.get? place = some m)
    (hlink : ∀ target, m ≠ .link target) :
    Leads d .followed links [] (Path.pieces (Disk.pathBelow folder place)) (root ++ place) := by
  induction place generalizing folder root n with
  | nil =>
    rw [List.append_nil]
    exact h
  | cons first rest ih =>
    obtain ⟨entries, inner, rfl, hl, hinner⟩ := Node.exists_of_get?_cons hm
    obtain ⟨⟨hfirst, hslash⟩, hbelow⟩ := hnames.entry hl
    have hentry : d.get? (root ++ [first]) = some inner := by rw [get?_below hroot, hl]
    have hentered : ∀ target, inner.kind ≠ .link target := by
      intro target hkind
      rw [Node.kind_eq_link.1 hkind] at hinner
      cases rest with
      | nil =>
        cases hinner
        exact hlink target rfl
      | cons second more => cases hinner
    have hkind : d.kind? (root ++ [first]) = some inner.kind := by
      rw [kind?, hentry, Option.map_some]
    have hstep := h.extend (kind?_eq_dir.2 ⟨entries, hroot⟩) hfirst hkind hentered
    rw [List.append_cons]
    exact ih (hstep.trim (trimmed_join hslash)) hentry hbelow hinner

section Definitions

variable (hleads : Leads d .followed links [] (Path.pieces folder) root) (hroot : d.get? root = some n)
  (hnames : n.WellNamed)

include hleads hroot hnames

/-- The path of a definition file leads to that file. -/
theorem leads_definition (h : place ∈ n.definitions) : ∃ content, n.get? place = some (.file content) ∧
    d.get? (root ++ place) = some (.file content) ∧
    Leads d .followed links [] (Path.pieces (pathBelow folder place)) (root ++ place) := by
  obtain ⟨content, hcontent⟩ := ((Node.mem_definitions hnames).1 h).1
  exact ⟨content, hcontent, by rw [get?_append hroot, hcontent],
    hleads.pathBelow hroot hnames hcontent (by simp)⟩

/-- Different definition files have different paths. -/
theorem nodup_paths : (n.definitions.map (pathBelow folder)).Nodup := by
  refine List.Nodup.map_on ?_ (Node.nodup_definitions hnames)
  intro p hp q hq heq
  obtain ⟨-, -, -, hpathp⟩ := leads_definition hleads hroot hnames hp
  obtain ⟨-, -, -, hpathq⟩ := leads_definition hleads hroot hnames hq
  rw [heq] at hpathp
  exact List.append_cancel_left (Except.ok.inj (hpathp.follow.symm.trans hpathq.follow))

end Definitions

/-! ## Loading -/

/-- A folder that leads to a directory is walked from there, whether or not it is a link. -/
theorem definitionFiles_of_find {entries : List (String × Node)} (hwalk : libs.walk.InOrder)
    (h : d.find folder = .ok (.dir entries)) :
    d.definitionFiles libs folder = .ok ((Node.dir entries).definitions.map (pathBelow folder)) := by
  obtain ⟨root, hplace, hroot⟩ := find_eq_ok.1 h
  obtain ⟨hallowed, hleads⟩ := placeOf_eq_ok.1 hplace
  obtain ⟨named, hnamed, hlast⟩ := hleads.unfollowed
  have hresolve : d.resolve .named (Path.pieces folder) = .ok named :=
    (resolve_eq_ok (by simp)).2 ⟨hallowed, hnamed⟩
  rcases hlast with rfl | ⟨target, hlink⟩
  · rw [definitionFiles_of_entry (entry_eq_ok.2 ⟨named, hresolve, hroot⟩) (by simp),
      definitionsFrom_dir hwalk]
    rfl
  · rw [definitionFiles, entry_eq_ok.2 ⟨named, hresolve, kind?_eq_link.1 hlink⟩, ok_bind]
    dsimp only
    rw [h]
    exact congrArg Except.ok (definitionsFrom_dir hwalk folder entries)

/-- What loading a definition file of this content gives. -/
def definitionOf (libs : Libraries) (path : String) (content : ByteArray) :
    Except ProjectFault Definition :=
  match refusal? (Path.pieces path), String.fromUTF8? content with
  | some cause, _ => .error (.read path cause)
  | none, none => .error (.read path .notText)
  | none, some text =>
    match libs.readDefinition text with
    | some definition => .ok definition
    | none => .error (.parse path)

theorem loadDefinition_eq {path : String} {content : ByteArray}
    (h : Leads d .followed maxLinks [] (Path.pieces path) place)
    (hfile : d.get? place = some (.file content)) :
    d.loadDefinition libs path = definitionOf libs path content := by
  unfold definitionOf loadDefinition load readText
  cases hrefusal : refusal? (Path.pieces path) with
  | some cause =>
    have hfind : d.find path = .error cause := by
      rw [find, placeOf, resolve, hrefusal]
      rfl
    rw [hfind]
    rfl
  | none =>
    rw [find_eq_ok.2 ⟨place, placeOf_eq_ok.2 ⟨hrefusal, h⟩, hfile⟩, ok_bind]
    cases htext : String.fromUTF8? content with
    | none =>
      simp only [htext]
      rfl
    | some text => cases hread : libs.readDefinition text <;> simp only [htext, ok_bind, hread]

/-- The file at a place below a node is loaded with this result. -/
def Yields (libs : Libraries) (folder : String) (n : Node) (place : Place)
    (result : Except ProjectFault Definition) : Prop :=
  ∃ content, n.get? place = some (.file content) ∧
    definitionOf libs (pathBelow folder place) content = result

theorem loadDefinition_eq_iff {result : Except ProjectFault Definition}
    (hleads : Leads d .followed maxLinks [] (Path.pieces folder) root) (hroot : d.get? root = some n)
    (hnames : n.WellNamed) (h : place ∈ n.definitions) :
    d.loadDefinition libs (pathBelow folder place) = result ↔ Yields libs folder n place result := by
  obtain ⟨content, hcontent, hfile, hpath⟩ := leads_definition hleads hroot hnames h
  simp only [Yields, hcontent, loadDefinition_eq hpath hfile, Option.some.injEq, Node.file.injEq,
    exists_eq_left']

/-- A folder with a directory behind it is loaded from the files at these places. -/
structure LoadedFrom (libs : Libraries) (d : Disk) (folder : String) (n : Node) (places : List Place) :
    Prop where
  /-- They are the places of the files below the directory whose names have the ending. -/
  complete : ∀ place, place ∈ places ↔ (∃ content, n.get? place = some (.file content)) ∧
    ∃ name, place.getLast? = some name ∧ ".yml".toList <:+ name.toList
  /-- They are in the order of the names on the way, each compared by its bytes. -/
  ordered : places.Pairwise fun p q => p.map bytes < q.map bytes
  /-- Their paths are those of the definition files. -/
  listed : d.definitionFiles libs folder = .ok (places.map (pathBelow folder))
  /-- No path is there twice. -/
  distinct : (places.map (pathBelow folder)).Nodup
  /-- A path that is not refused as a whole leads to its file. -/
  found : ∀ place ∈ places, refusal? (Path.pieces (pathBelow folder place)) = none →
    ∃ content, n.get? place = some (.file content) ∧
      d.find (pathBelow folder place) = .ok (.file content)
  /-- Loading succeeds with the definitions of all files, in their order. -/
  loaded : ∀ definitions, d.loadFolder libs folder = .ok definitions ↔
    List.Forall₂ (fun place definition => Yields libs folder n place (.ok definition)) places definitions
  /-- Loading fails with the fault of the first file that fails. -/
  failed : ∀ fault, d.loadFolder libs folder = .error fault ↔ ∃ before place after,
    places = before ++ place :: after ∧
      (∀ p ∈ before, ∃ definition, Yields libs folder n p (.ok definition)) ∧
      Yields libs folder n place (.error fault)

/-- Whatever the directory, its definition files are walked in order, and a folder that leads to
    it is loaded from them; however the files are read, if only the walk goes by names. -/
theorem loadFolder_in_order {entries : List (String × Node)} (hwalk : libs.walk.InOrder)
    (hfolder : d.find folder = .ok (.dir entries)) (hnames : (Node.dir entries).WellNamed) :
    ∃ places, LoadedFrom libs d folder (.dir entries) places := by
  obtain ⟨root, hplace, hroot⟩ := find_eq_ok.1 hfolder
  have hleads := (placeOf_eq_ok.1 hplace).2
  have hlisted := definitionFiles_of_find hwalk hfolder
  have hload : d.loadFolder libs folder =
      ((Node.dir entries).definitions.map (pathBelow folder)).mapM (d.loadDefinition libs) := by
    rw [loadFolder, hlisted]
  have hyields : ∀ place ∈ (Node.dir entries).definitions, ∀ result,
      d.loadDefinition libs (pathBelow folder place) = result ↔
        Yields libs folder (.dir entries) place result :=
    fun _ hmem _ => loadDefinition_eq_iff hleads hroot hnames hmem
  refine ⟨(Node.dir entries).definitions, ⟨fun place => Node.mem_definitions hnames,
    Node.pairwise_definitions hnames, hlisted, nodup_paths hleads hroot hnames, ?_, ?_, ?_⟩⟩
  · intro place hmem hallowed
    obtain ⟨content, hcontent, hfile, hpath⟩ := leads_definition hleads hroot hnames hmem
    exact ⟨content, hcontent, find_eq_ok.2 ⟨root ++ place, placeOf_eq_ok.2 ⟨hallowed, hpath⟩, hfile⟩⟩
  · intro definitions
    rw [hload, mapM_eq_ok, List.forall₂_map_left_iff]
    constructor
    · intro h
      refine ((List.forall₂_and_left _ _).2 ⟨fun _ hmem => hmem, h⟩).imp ?_
      intro place definition hloaded
      exact (hyields place hloaded.1 _).1 hloaded.2
    · intro h
      refine ((List.forall₂_and_left _ _).2 ⟨fun _ hmem => hmem, h⟩).imp ?_
      intro place definition hloaded
      exact (hyields place hloaded.1 _).2 hloaded.2
  · intro fault
    rw [hload, List.mapM_map, mapM_eq_error]
    refine exists_congr fun before => exists_congr fun place => exists_congr fun after =>
      and_congr_right fun heq => ?_
    rw [heq, List.forall_mem_append, List.forall_mem_cons] at hyields
    refine and_congr (forall₂_congr fun p hp => ?_) (hyields.2.1 _)
    exact exists_congr fun definition => hyields.1 p hp _

/-! ## A folder behind a link -/

/-- A directory next to a file that its name begins, one that is named like a definition, and a
    link that is named so. -/
def layeredEntries : List (String × Node) :=
  [("a.yml", .file "Models: \x7b Foo: \x7b x: int32 \x7d \x7d".toUTF8),
   ("a", .dir [("b.yml", .file "Models: [".toUTF8), ("notes.txt", .file "b".toUTF8)]),
   ("x.yml", .dir [("c.yml", .file "".toUTF8)]),
   ("l.yml", .link "a.yml")]

def layeredDisk : Disk where
  top := [("schemas", .dir layeredEntries), ("defs", .link "schemas")]

theorem wellNamed_layeredEntries : (Node.dir layeredEntries).WellNamed := by
  refine .dir (by decide) (by decide) ?_
  simp only [layeredEntries, List.forall_mem_cons, List.not_mem_nil, false_imp_iff, implies_true, and_true]
  refine ⟨.file _, .dir (by decide) (by decide) ?_, .dir (by decide) (by decide) ?_, .link _⟩
  · simp only [List.forall_mem_cons, List.not_mem_nil, false_imp_iff, implies_true, and_true]
    exact ⟨.file _, .file _⟩
  · simp only [List.forall_mem_cons, List.not_mem_nil, false_imp_iff, implies_true, and_true]
    exact .file _

theorem definitions_layeredEntries : (Node.dir layeredEntries).definitions =
    [["a", "b.yml"], ["a.yml"], ["x.yml", "c.yml"]] := by
  have hfiles : (Node.dir layeredEntries).files =
      [["a", "b.yml"], ["a", "notes.txt"], ["a.yml"], ["x.yml", "c.yml"]] := by
    simp [Node.files_dir, Node.files_file, Node.files_link, layeredEntries, List.mergeSort]
  rw [Node.definitions, hfiles]
  decide

theorem loadFolder_in_order_layered : ∃ places,
    LoadedFrom .bundled layeredDisk "defs" (.dir layeredEntries) places ∧
      places.map (pathBelow "defs") = ["defs/a/b.yml", "defs/a.yml", "defs/x.yml/c.yml"] := by
  have hfolder : layeredDisk.find "defs" = .ok (.dir layeredEntries) :=
    find_eq_ok.2 ⟨["schemas"], by decide +kernel, rfl⟩
  have hwalk : Libraries.bundled.walk.InOrder := Node.inOrder_visits
  obtain ⟨places, h⟩ := loadFolder_in_order hwalk hfolder wellNamed_layeredEntries
  have hlisted := h.listed.symm.trans (definitionFiles_of_find hwalk hfolder)
  rw [definitions_layeredEntries] at hlisted
  exact ⟨places, h, (Except.ok.inj hlisted).trans (by decide +kernel)⟩

end Disk

end ServiceSchema
