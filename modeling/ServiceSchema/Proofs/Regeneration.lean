/-
  ServiceSchema.Proofs.Regeneration — a second run changes nothing.

  What a run writes is not read by the next one. Its output may be anywhere, in the folder
  of the definitions or in a new directory that is named like a definition: as long as the
  output itself is not, every definition file is read as before and in the same order
  (`Rereads`). The same text is then put where it already is.

  - `Rereads.generated`: what is generated from one disk is generated from the other.
  - `generateWith_again`: the second run returns the same path and leaves the disk as it is.
    All that it takes of the libraries is that the walk goes by names.
-/
import ServiceSchema.Proofs.DefinitionFiles
import ServiceSchema.Proofs.ProjectRun

namespace ServiceSchema.Disk

open Fallible

/-- No symbolic link is on the disk. -/
def LinkFree (d : Disk) : Prop := ∀ place target, d.get? place ≠ some (.link target)

/-- Every directory of a disk is a directory of the other, with the same definition files
    below it, and every file is a file, with the same content if it is a definition. -/
structure Rereads (d d' : Disk) : Prop where
  folders : ∀ place entries, d.get? place = some (.dir entries) →
    ∃ entries', d'.get? place = some (.dir entries') ∧
      (Node.dir entries').definitions = (Node.dir entries).definitions
  files : ∀ place content, d.get? place = some (.file content) →
    ∃ content', d'.get? place = some (.file content') ∧
      (place.getLast?.any isDefinitionFile = true → content' = content)

variable {libs : Libraries} {d d' : Disk} {place folder last : Place} {name path text root : String}
  {new : Node} {pieces : List String} {entries : List (String × Node)}

theorem Rereads.refl (d : Disk) : Rereads d d where
  folders _ entries h := ⟨entries, h, rfl⟩
  files _ content h := ⟨content, h, fun _ => rfl⟩

theorem Rereads.trans {d'' : Disk} (h : Rereads d d') (h' : Rereads d' d'') : Rereads d d'' where
  folders place entries hd := by
    obtain ⟨entries', hd', hsame⟩ := h.folders place entries hd
    obtain ⟨later, hlater, hstill⟩ := h'.folders place entries' hd'
    exact ⟨later, hlater, hstill.trans hsame⟩
  files place content hd := by
    obtain ⟨content', hd', hsame⟩ := h.files place content hd
    obtain ⟨later, hlater, hstill⟩ := h'.files place content' hd'
    exact ⟨later, hlater, fun hdef => (hstill hdef).trans (hsame hdef)⟩

/-! ## One step of a write -/

/-- Directories keep their definition files when an entry somewhere is replaced by one that
    adds the same. -/
theorem exists_definitions_put (hdir : d.get? folder = some (.dir entries))
    (hold : d.kind? (folder ++ [name]) ≠ some .dir)
    (hshare : new.share name = ((entries.lookup name).map (Node.share name)).getD [])
    {inner : List (String × Node)} (h : d.get? place = some (.dir inner)) :
    ∃ inner', (d.put (folder ++ [name]) new).get? place = some (.dir inner') ∧
      (Node.dir inner').definitions = (Node.dir inner).definitions := by
  by_cases habove : place <+: folder
  · obtain ⟨rest, rfl⟩ := habove
    have hput : (d.put (place ++ rest ++ [name]) new).get? place =
        some ((Node.dir inner).edit (upsert name new) rest) := by
      unfold get? at hdir h ⊢
      rw [dir_top_put_eq_edit hdir, Node.get?_edit_of_above h]
    have hrest : (Node.dir inner).get? rest = some (.dir entries) := by
      rw [← get?_append h, hdir]
    obtain ⟨inner', hinner'⟩ := Node.kind_eq_dir.1 (Node.kind_edit rest (Node.dir inner))
    exact ⟨inner', by rw [hput, hinner'], by rw [← hinner', Node.definitions_edit hrest hshare]⟩
  refine ⟨inner, ?_, rfl⟩
  by_cases hbelow : folder <+: place
  · -- what is a directory is not below the entry that is replaced
    obtain ⟨rest, rfl⟩ := hbelow
    cases rest with
    | nil => exact absurd (by rw [List.append_nil]) habove
    | cons first more =>
      have hfirst : first ≠ name := by
        intro hfirst
        subst hfirst
        rw [List.append_cons] at h
        cases more with
        | nil => exact hold (kind?_eq_dir.2 ⟨inner, by rwa [List.append_nil] at h⟩)
        | cons second more =>
          rw [get?_eq_none_of_above hold (by simp)] at h
          cases h
      rw [get?_append hdir, Node.get?] at h
      rw [get?_append (get?_put_folder hdir name new), Node.get?, lookup_upsert, if_neg hfirst, h]
  · unfold get? at hdir h ⊢
    rw [dir_top_put_eq_edit hdir, Node.get?_edit_of_apart hbelow habove, h]

/-- A new directory is not read, whatever its name. -/
theorem rereads_put_folder (hdir : d.kind? folder = some .dir) (hnone : d.kind? (folder ++ [name]) = none) :
    Rereads d (d.put (folder ++ [name]) (.dir [])) where
  folders place inner h := by
    obtain ⟨entries, hdir⟩ := kind?_eq_dir.1 hdir
    refine exists_definitions_put hdir (by rw [hnone]; simp) ?_ h
    rw [kind?_below hdir, Option.map_eq_none_iff] at hnone
    rw [hnone, Node.share_empty, Option.map_none, Option.getD_none]
  files place content h := by
    rw [← kind?_eq_file] at h
    have hmore := more_of_put (kind?_put_folder hdir hnone) hnone
    exact ⟨content, kind?_eq_file.1 (hmore place _ h), fun _ => rfl⟩

/-- A file is not read, unless its name is that of a definition. -/
theorem rereads_put_file (content : ByteArray) (hdir : d.kind? folder = some .dir)
    (hold : d.kind? (folder ++ [name]) ≠ some .dir) (hname : isDefinitionFile name = false) :
    Rereads d (d.put (folder ++ [name]) (.file content)) where
  folders place inner h := by
    obtain ⟨entries, hdir⟩ := kind?_eq_dir.1 hdir
    refine exists_definitions_put hdir hold ?_ h
    rw [Node.share_file hname]
    rw [kind?_below hdir] at hold
    cases hl : entries.lookup name with
    | none => rfl
    | some old =>
      cases old with
      | file content => simp [Node.share_file hname]
      | link target => rfl
      | dir inner => simp [hl, Node.kind] at hold
  files place old h := by
    rw [← kind?_eq_file] at h
    simp only [← kind?_eq_file, kind?_put_file hdir hold]
    by_cases hplace : place = folder ++ [name]
    · refine ⟨content, if_pos hplace, fun hdef => ?_⟩
      rw [hplace, List.getLast?_concat, Option.any_some, hname] at hdef
      cases hdef
    · exact ⟨old, by rw [if_neg hplace, h], fun _ => rfl⟩

theorem FoldersMade.rereads {steps : List String} (h : FoldersMade steps d d') : Rereads d d' := by
  induction h with
  | none => exact Rereads.refl _
  | more _ hdir hnone _ _ ih => exact ih.trans (rereads_put_folder hdir hnone)

/-! ## Reading again -/

theorem Rereads.kind?_dir (h : Rereads d d') (p : Place) (hd : d.kind? p = some .dir) :
    d'.kind? p = some .dir := by
  obtain ⟨entries, hd⟩ := kind?_eq_dir.1 hd
  obtain ⟨entries', hd', -⟩ := h.folders p entries hd
  exact kind?_eq_dir.2 ⟨entries', hd'⟩

/-- Without links a path leads where it led. -/
theorem Rereads.leads {target : Target} {links : Nat} (h : Rereads d d') (hfree : LinkFree d)
    (hleads : Leads d target links place pieces last) : Leads d' target links place pieces last := by
  refine hleads.transfer h.kind?_dir (fun p path hlink => absurd (kind?_eq_link.1 hlink) (hfree p path)) ?_
  intro content hfile
  obtain ⟨content', hfile', -⟩ := h.files last content (kind?_eq_file.1 hfile)
  exact ⟨content', kind?_eq_file.2 hfile'⟩

theorem kind?_dropLast (h : d.kind? place = some .dir) : d.kind? place.dropLast = some .dir := by
  rcases List.eq_nil_or_concat' place with rfl | ⟨outer, name, rfl⟩
  · exact h
  rw [List.dropLast_concat]
  by_cases houter : d.kind? outer = some .dir
  · exact houter
  · rw [kind?, get?_eq_none_of_above houter (by simp)] at h
    cases h

/-- Without links the last piece of a path to a file is the file's own name. -/
theorem Leads.exists_last {target : Target} {links : Nat} (hfree : LinkFree d)
    (h : Leads d target links place pieces last) (hplace : d.kind? place = some .dir)
    (hlast : d.kind? last ≠ some .dir) :
    ∃ name, IsName name ∧ pieces.getLast? = some name ∧ last.getLast? = some name := by
  induction h with
  | done => exact absurd hplace hlast
  | stay hd _ _ ih =>
    obtain ⟨name, hname, hp, hl⟩ := ih hd hlast
    exact ⟨name, hname, by rw [List.getLast?_cons, hp, Option.getD_some], hl⟩
  | up hd _ ih =>
    obtain ⟨name, hname, hp, hl⟩ := ih (kind?_dropLast hd) hlast
    exact ⟨name, hname, by rw [List.getLast?_cons, hp, Option.getD_some], hl⟩
  | @enter links place last piece rest k hd hp hk _ hrest ih =>
    by_cases hdir : k = .dir
    · obtain ⟨name, hname, hpieces, hl⟩ := ih (hdir ▸ hk) hlast
      exact ⟨name, hname, by rw [List.getLast?_cons, hpieces, Option.getD_some], hl⟩
    · -- the path goes no further than to this file
      have hentered : d.kind? (place ++ [piece]) ≠ some .dir := by rw [hk]; simpa using hdir
      obtain ⟨rfl, rfl⟩ := hrest.stop hentered
      exact ⟨piece, hp, rfl, List.getLast?_concat⟩
  | link _ _ hk => exact absurd (kind?_eq_link.1 hk) (hfree _ _)
  | named _ _ hk => exact absurd (kind?_eq_link.1 hk) (hfree _ _)

theorem Rereads.readText (h : Rereads d d') (hfree : LinkFree d) (hpath : NamesDefinition path)
    (hread : d.readText path = .ok text) : d'.readText path = .ok text := by
  obtain ⟨place, content, hplace, hfile, htext⟩ := readText_eq_ok.1 hread
  obtain ⟨hallowed, hleads⟩ := placeOf_eq_ok.1 hplace
  obtain ⟨name, -, hlast, hplacelast⟩ := hleads.exists_last hfree (kind?_nil d) (by rw [hfile]; simp)
  obtain ⟨name', hlast', hdef⟩ := hpath
  have hname : name' = name := Option.some.inj (hlast'.symm.trans hlast)
  obtain ⟨content', hfile', hsame⟩ := h.files place content (kind?_eq_file.1 hfile)
  have hcontent : content' = content := hsame (by rw [hplacelast, Option.any_some, ← hname, hdef])
  exact readText_eq_ok.2 ⟨place, content', placeOf_eq_ok.2 ⟨hallowed, h.leads hfree hleads⟩,
    kind?_eq_file.2 hfile', by rw [hcontent, htext]⟩

theorem Rereads.load (h : Rereads d d') (hfree : LinkFree d) (hpath : NamesDefinition path)
    (hload : d.load path = .ok text) : d'.load path = .ok text := by
  have hread : d.readText path = .ok text := by
    unfold Disk.load at hload
    split at hload
    · rename_i read heq
      cases hload
      exact heq
    · cases hload
  rw [Disk.load, h.readText hfree hpath hread]

theorem namesDefinition_foldl {folder : String} (hplace : place.getLast?.any isDefinitionFile = true) :
    NamesDefinition (place.foldl Path.join folder) := by
  rcases List.eq_nil_or_concat' place with rfl | ⟨outer, name, rfl⟩
  · cases hplace
  · rw [List.getLast?_concat, Option.any_some] at hplace
    rw [List.foldl_append]
    exact namesDefinition_join _ hplace

/-- The definition files of a folder are found again, and each is named as one. -/
theorem Rereads.definitionFiles (h : Rereads d d') (hfree : LinkFree d) (hwalk : libs.walk.InOrder)
    {folder : String} {files : List String} (hfiles : d.definitionFiles libs folder = .ok files) :
    d'.definitionFiles libs folder = .ok files ∧ ∀ path ∈ files, NamesDefinition path := by
  obtain ⟨n, hentry, -⟩ := bind_eq_ok.1 hfiles
  obtain ⟨place, hplace, hn⟩ := entry_eq_ok.1 hentry
  obtain ⟨hallowed, hleads⟩ := (resolve_eq_ok (by simp)).1 hplace
  have hplace' : d'.resolve .named (Path.pieces folder) = .ok place :=
    (resolve_eq_ok (by simp)).2 ⟨hallowed, h.leads hfree hleads⟩
  have hlink : ∀ target, n ≠ .link target := fun target heq => hfree place target (heq ▸ hn)
  rw [definitionFiles_of_entry hentry hlink] at hfiles
  obtain rfl := Except.ok.inj hfiles
  cases n with
  | link target => exact absurd rfl (hlink target)
  | file content =>
    obtain ⟨content', hn', -⟩ := h.files place content hn
    rw [definitionFiles_of_entry (entry_eq_ok.2 ⟨place, hplace', hn'⟩) (by simp),
      definitionsFrom_file hwalk, definitionsFrom_file hwalk]
    refine ⟨rfl, fun path hpath => ?_⟩
    have hfile : d.kind? place ≠ some .dir := by
      rw [kind?_eq_file.2 hn]
      simp
    obtain ⟨name, hname, hlast, -⟩ := hleads.exists_last hfree (kind?_nil d) hfile
    rw [steps_getLast? hlast ⟨hname.nonempty, hname.notDot⟩, Option.any_some] at hpath
    split at hpath
    · rename_i hdef
      rw [List.mem_singleton] at hpath
      exact ⟨name, hpath ▸ hlast, hdef⟩
    · cases hpath
  | dir entries =>
    obtain ⟨entries', hn', hsame⟩ := h.folders place entries hn
    rw [definitionFiles_of_entry (entry_eq_ok.2 ⟨place, hplace', hn'⟩) (by simp),
      definitionsFrom_dir hwalk, definitionsFrom_dir hwalk, hsame]
    refine ⟨rfl, fun path hpath => ?_⟩
    obtain ⟨inner, hinner, rfl⟩ := List.mem_map.1 hpath
    exact namesDefinition_foldl (List.mem_filter.1 hinner).2

/-- What is generated from one disk is generated from the other. -/
theorem Rereads.generated (h : Rereads d d') (hfree : LinkFree d) (hwalk : libs.walk.InOrder)
    (hgen : d.generated libs root = .ok (path, text)) : d'.generated libs root = .ok (path, text) := by
  obtain ⟨options, definitions, hoptions, hfolder, htext, hpath⟩ := generated_eq_ok.1 hgen
  refine generated_eq_ok.2 ⟨options, definitions, ?_, ?_, htext, hpath⟩
  · obtain ⟨config, hload, hconfig⟩ := bind_eq_ok.1 hoptions
    rw [loadOptions, h.load hfree (namesDefinition_join root (by decide)) hload, ok_bind]
    exact hconfig
  · obtain ⟨files, hfiles, hdefinitions⟩ := loadFolder_eq_ok.1 hfolder
    obtain ⟨hfiles', hnames⟩ := h.definitionFiles hfree hwalk hfiles
    refine loadFolder_eq_ok.2 ⟨files, hfiles', mapM_eq_ok_of_imp ?_ hdefinitions⟩
    intro path hpath definition hdef
    obtain ⟨content, hload, hcontent⟩ := bind_eq_ok.1 hdef
    rw [loadDefinition, h.load hfree (hnames path hpath) hload, ok_bind]
    exact hcontent

/-! ## Writing again -/

/-- What was written is written again without a change, if nothing is refused. -/
theorem writeFile_again {c c' : Conditions} {content : ByteArray} (hfree : LinkFree d)
    (h : d.writeFile c path content = (d', .ok ())) (hallowed : ∀ step, c'.refuses step = none)
    (hname : (Path.steps path).getLast?.any isDefinitionFile = false) :
    Rereads d d' ∧ d'.writeFile c' path content = (d', .ok ()) := by
  obtain ⟨made, folder, name, hwritten⟩ := writeFile_eq_ok.1 h
  obtain ⟨-, hmake, hroom, htakes, rfl⟩ := hwritten
  have hspec := makeFolders_spec (d := d) (steps_dropLast_reverse path)
  rw [hmake, List.reverse_reverse] at hspec
  obtain ⟨hmade, hisDir⟩ := hspec
  rw [steps_getLast? htakes.last ⟨htakes.isName.nonempty, htakes.isName.notDot⟩, Option.any_some] at hname
  have hput := rereads_put_file content htakes.isFolder htakes.free hname
  have hfree' : LinkFree made := by
    intro place target hlink
    rw [← kind?_eq_link, hmade.grows.kind?_iff (by simp), kind?_eq_link] at hlink
    exact hfree place target hlink
  refine ⟨hmade.rereads.trans hput, writeFile_eq_ok.2
    ⟨made.put (folder ++ [name]) (.file content), folder, name, hallowed, ?_, hroom, ?_, ?_⟩⟩
  · -- the directories are there
    refine makeFolders_of_isDir (steps_dropLast_reverse path) ?_
    rw [List.reverse_reverse]
    obtain ⟨outer, houter, hkind⟩ := isDir_iff.1 (hisDir rfl)
    obtain ⟨hallowed, hleads⟩ := placeOf_eq_ok.1 houter
    have houter' := placeOf_eq_ok.2 ⟨hallowed, hput.leads hfree' hleads⟩
    exact isDir_iff.2 ⟨outer, houter', hput.kind?_dir outer hkind⟩
  · refine ⟨htakes.noNul, htakes.last, htakes.isName, htakes.allowed, hput.leads hfree' htakes.leads,
      hput.kind?_dir folder htakes.isFolder, ?_⟩
    rw [kind?, get?_put_self htakes.isFolder]
    simp [Node.kind]
  · exact (put_eq_self (hput.kind?_dir folder htakes.isFolder) (get?_put_self htakes.isFolder name _)).symm

/-- On a disk without links, a run whose output is not named like a definition can be repeated:
    it returns the same path and leaves the disk as it is, if nothing is refused. With no output
    file in the configuration the output never is named so. -/
theorem generateWith_again (libs : Libraries) (hwalk : libs.walk.InOrder) (c c' : Conditions)
    (hallowed : ∀ step, c'.refuses step = none) (root : String) :
    (∀ d d' path, LinkFree d → d.generateWith libs c root = (d', .ok path) →
      (Path.steps path).getLast?.any isDefinitionFile = false →
      d'.generateWith libs c' root = (d', .ok path)) ∧
    ∀ options : Options, options.outputFile = none →
      (Path.steps (Path.join root (options.outputPath outputExtension))).getLast?.any isDefinitionFile =
        false := by
  refine ⟨?_, fun options hnone => isDefinitionFile_outputPath root hnone⟩
  intro d d' path hfree h hname
  obtain ⟨text, hgen, hwrite⟩ := generateWith_eq_ok.1 h
  obtain ⟨hrereads, hagain⟩ := writeFile_again hfree hwrite hallowed hname
  exact generateWith_eq_ok.2 ⟨text, hrereads.generated hfree hwalk hgen, hagain⟩

/-! ## An output among the definitions -/

/-- The output goes into the folder of the definitions, to a new directory that is named like
    a definition and comes before the one that is there. -/
def nestedProject : Disk where
  top :=
    [("rpcgen.yml", .file ("folder: defs\noutputFolder: api\noutputFile: defs/a.yml/api.go\ngo:\n" ++
      "  package: api\n  fiberImport: github.com/gofiber/fiber/v2\n").toUTF8),
     ("defs", .dir [("z.yml", .file "Models: \x7b Foo: \x7b x: int32 \x7d \x7d".toUTF8)])]

theorem generated_nestedProject : nestedProject.generated .bundled "" =
    .ok ("defs/a.yml/api.go", Printer.file fooTarget [fooDefinition]) := by
  refine generated_eq_ok.2
    ⟨optionsTo "defs/a.yml/api.go", [fooDefinition], by decide +kernel, by decide +kernel, ?_, rfl⟩
  exact generateAll_fooDefinition "defs/a.yml/api.go"

theorem linkFree_nestedProject : LinkFree nestedProject := by
  intro place target h
  rcases place with _ | ⟨first, rest⟩
  · cases h
  simp only [get?, nestedProject, Node.get?, lookup_cons_eq_ite, List.lookup_nil] at h
  split_ifs at h
  · -- the configuration
    cases rest <;> cases h
  · -- the folder of the definitions
    rcases rest with _ | ⟨second, rest⟩
    · cases h
    simp only [Node.get?, lookup_cons_eq_ite, List.lookup_nil] at h
    split_ifs at h
    cases rest <;> cases h

theorem generateWith_again_nestedProject :
    ∃ d', nestedProject.generate .bundled "" = (d', .ok "defs/a.yml/api.go") ∧
      d'.generate .bundled "" = (d', .ok "defs/a.yml/api.go") := by
  have h := generate_eq_of_written generated_nestedProject (by decide +kernel)
  generalize (nestedProject.writeFile .fair "defs/a.yml/api.go" _).1 = d' at h
  have hagain := (generateWith_again .bundled Node.inOrder_visits .fair .fair (fun _ => rfl) "").1 _ d' _
    linkFree_nestedProject h (by decide +kernel)
  exact ⟨d', h, hagain⟩

end ServiceSchema.Disk
