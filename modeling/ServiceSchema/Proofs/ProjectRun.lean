/-
  ServiceSchema.Proofs.ProjectRun — what a run leaves on the disk.

  A run reads everything, generates, and only then writes. If it fails before it writes
  the disk is the same; if the write fails there may be new directories, but every file
  is what it was, and once the fault is dropped there is no other file (`Failed`). If it
  does not fail the generated text is in the file that the output path names, and all else
  that is new are directories on the way to it. This holds for all libraries and whatever
  the operating system decides.

  - `generateWith_outcome`: this for every disk and every project.
  - `replaced_link_and_held_file`: a path can go through the very link that its file
    replaces. Then the file is written, but the path leads to it no more. And what a run
    that fails holds can be seen on the disk until it is dropped.
-/
import Mathlib.Data.List.Infix
import ServiceSchema.Bundled
import ServiceSchema.Proofs.PlainFile
import ServiceSchema.Proofs.Writing

namespace ServiceSchema

namespace Disk

open Fallible

variable {libs : Libraries} {c : Conditions} {d d' : Disk} {root path text : String}

/-! ## The stages of a run -/

theorem loadFolder_eq_ok {folder : String} {definitions : List Definition} :
    d.loadFolder libs folder = .ok definitions ↔
      ∃ paths, d.definitionFiles libs folder = .ok paths ∧
        paths.mapM (d.loadDefinition libs) = .ok definitions := by
  unfold loadFolder
  cases d.definitionFiles libs folder <;> simp

theorem generated_eq_ok : d.generated libs root = .ok (path, text) ↔
    ∃ options definitions, d.loadOptions libs (Path.join root configFile) = .ok options ∧
      d.loadFolder libs (Path.join root options.folder) = .ok definitions ∧
      generateAll libs.check options definitions = .ok text ∧
      path = Path.join root (options.outputPath outputExtension) := by
  unfold generated
  simp only [bind_eq_ok]
  refine exists_congr fun options => ?_
  rw [exists_and_left]
  refine and_congr_right fun _ => exists_congr fun definitions => and_congr_right fun _ => ?_
  cases generateAll libs.check options definitions with
  | ok out => simp [and_comm, eq_comm]
  | error fault => simp

/-- The fault is not one of writing. -/
def Unwritten (fault : ProjectFault) : Prop := ∀ path cause, fault ≠ .write path cause

theorem unwritten_load (d : Disk) (path : String) : FailsOnlyWith Unwritten (d.load path) := by
  unfold load
  cases d.readText path with
  | ok text => exact failsOnlyWith_ok text
  | error cause => exact failsOnlyWith_error fun _ _ => by simp

theorem unwritten_loadFolder (libs : Libraries) (d : Disk) (folder : String) :
    FailsOnlyWith Unwritten (d.loadFolder libs folder) := by
  unfold loadFolder
  cases d.definitionFiles libs folder with
  | error cause => exact failsOnlyWith_error fun _ _ => by simp
  | ok paths =>
    refine failsOnlyWith_mapM (fun path => (unwritten_load d path).bind fun text => ?_) paths
    cases libs.readDefinition text with
    | some definition => exact failsOnlyWith_ok definition
    | none => exact failsOnlyWith_error fun _ _ => by simp

/-- What is read and generated before anything is written has no fault of writing. -/
theorem unwritten_generated (libs : Libraries) (d : Disk) (root : String) :
    FailsOnlyWith Unwritten (d.generated libs root) := by
  refine FailsOnlyWith.bind ((unwritten_load d _).bind fun text => ?_) fun options => ?_
  · cases libs.readOptions text with
    | some options => exact failsOnlyWith_ok options
    | none => exact failsOnlyWith_error fun _ _ => by simp
  · refine (unwritten_loadFolder libs d _).bind fun definitions => ?_
    cases generateAll libs.check options definitions with
    | ok text => exact failsOnlyWith_ok _
    | error fault => exact failsOnlyWith_error fun _ _ => by simp

/-- A run fails before it writes, or when it writes, or not at all. -/
theorem generateWith_cases (libs : Libraries) (d : Disk) (c : Conditions) (root : String) :
    (∃ fault, d.generated libs root = .error fault ∧ d.generateWith libs c root = (d, .error fault)) ∨
    (∃ path text d' fault, d.generated libs root = .ok (path, text) ∧
      d.writeFile c path text.toUTF8 = (d', .error fault) ∧
      d.generateWith libs c root = (d', .error (.write path fault))) ∨
    ∃ path text d', d.generated libs root = .ok (path, text) ∧
      d.writeFile c path text.toUTF8 = (d', .ok ()) ∧ d.generateWith libs c root = (d', .ok path) := by
  unfold generateWith
  cases d.generated libs root with
  | error fault => exact .inl ⟨fault, rfl, rfl⟩
  | ok output =>
    obtain ⟨path, text⟩ := output
    dsimp only
    cases hwrite : d.writeFile c path text.toUTF8 with
    | mk d' result =>
      cases result with
      | error fault => exact .inr (.inl ⟨path, text, d', fault, rfl, hwrite, rfl⟩)
      | ok _ => exact .inr (.inr ⟨path, text, d', rfl, hwrite, rfl⟩)

theorem generateWith_eq_ok : d.generateWith libs c root = (d', .ok path) ↔
    ∃ text, d.generated libs root = .ok (path, text) ∧ d.writeFile c path text.toUTF8 = (d', .ok ()) := by
  constructor
  · intro h
    rcases generateWith_cases libs d c root with ⟨_, -, heq⟩ | ⟨_, _, _, _, -, -, heq⟩ |
      ⟨path', text, d'', hgen, hwrite, heq⟩
    · rw [heq] at h
      cases congrArg Prod.snd h
    · rw [heq] at h
      cases congrArg Prod.snd h
    · rw [heq] at h
      cases h
      exact ⟨text, hgen, hwrite⟩
  · intro h
    obtain ⟨text, hgen, hwrite⟩ := h
    unfold generateWith
    simp only [hgen, hwrite]

/-- A run succeeds if what is generated can be written. -/
theorem generate_eq_of_written (hgen : d.generated libs root = .ok (path, text))
    (hok : (d.writeFile .fair path text.toUTF8).2 = .ok ()) :
    d.generate libs root = ((d.writeFile .fair path text.toUTF8).1, .ok path) :=
  generateWith_eq_ok.2 ⟨text, hgen, Prod.ext rfl hok⟩

theorem generate_eq_of_failed {fault : WriteFault} (hgen : d.generated libs root = .ok (path, text))
    (hfails : (d.writeFile .fair path text.toUTF8).2 = .error fault) :
    d.generate libs root = ((d.writeFile .fair path text.toUTF8).1, .error (.write path fault)) := by
  have hwrite : d.writeFile .fair path text.toUTF8 =
      ((d.writeFile .fair path text.toUTF8).1, .error fault) := Prod.ext rfl hfails
  unfold generate generateWith
  rw [hgen]
  dsimp only
  rw [hwrite]

/-! ## Reading the output -/

theorem fromUTF8?_toUTF8 (text : String) : String.fromUTF8? text.toUTF8 = some text := by
  rw [String.fromUTF8?, String.toUTF8_eq_toByteArray, dif_pos text.isValidUTF8]
  rfl

/-- A text that was put where its path takes it can be read there, or else the path went
    through a link in that place and is cut off. -/
theorem Takes.readText {folder : Place} {name : String} (h : Takes d path folder name) (text : String) :
    (d.put (folder ++ [name]) (.file text.toUTF8)).readText path = .ok text ∨
      (∃ target, d.kind? (folder ++ [name]) = some (.link target)) ∧
        (d.put (folder ++ [name]) (.file text.toUTF8)).readText path = .error .notDirectory := by
  have hput : ∀ p, (d.put (folder ++ [name]) (.file text.toUTF8)).kind? p =
      if p = folder ++ [name] then some (.file text.toUTF8) else d.kind? p :=
    kind?_put_file h.isFolder h.free
  have hself : (d.put (folder ++ [name]) (.file text.toUTF8)).kind? (folder ++ [name]) =
      some (.file text.toUTF8) := by
    rw [hput, if_pos rfl]
  rcases h.leads.extend_or_cut h.isFolder h.isName h.free hself fun other hne => by rw [hput, if_neg hne] with
    hleads | ⟨hlink, hcut⟩
  · rw [← h.pieces_eq] at hleads
    exact .inl (readText_eq_ok.2 ⟨_, _, placeOf_eq_ok.2 ⟨h.allowed, hleads⟩, hself, fromUTF8?_toUTF8 text⟩)
  · rw [← h.pieces_eq] at hcut
    refine .inr ⟨hlink, ?_⟩
    rw [Disk.readText, find, placeOf, resolve, h.allowed]
    simp only [hcut]
    rfl

/-! ## The disk after a run -/

/-- What a run that fails leaves on the disk. -/
structure Failed (d d' : Disk) (fault : ProjectFault) : Prop where
  /-- Every file has the content it had. -/
  kept : ∀ place content, d.get? place = some (.file content) → d'.get? place = some (.file content)
  /-- A file that was not there is the temporary one that the fault holds. -/
  new : ∀ place content, d'.get? place = some (.file content) →
    d.get? place = some (.file content) ∨ fault.held? = some place ∧ d.get? place = none
  /-- Once the fault is dropped, that is gone too. -/
  dropped : ∀ place content, (d'.drop fault).get? place = some (.file content) ↔
    d.get? place = some (.file content)
  /-- Nothing at all is changed unless by writing. -/
  unwritten : Unwritten fault → d' = d
  /-- By writing, all that is new are directories on the way. -/
  folders : ∀ path cause, fault = .write path cause →
    Grows d (d'.drop fault) (Path.steps path).dropLast

theorem Failed.of_unwritten {fault : ProjectFault} (h : Unwritten fault) : Failed d d fault := by
  have hheld : fault.held? = none := by
    cases fault with
    | write path cause => exact absurd rfl (h path cause)
    | read | parse | schema => rfl
  refine ⟨fun _ _ hd => hd, fun _ _ hd => .inl hd, fun _ _ => ?_, fun _ => rfl,
    fun path cause hwrite => absurd hwrite (h path cause)⟩
  rw [drop, hheld]

/-- A fault that holds no file leaves the directories that were made. -/
theorem Failed.of_grows {fault : WriteFault} (h : Grows d d' (Path.steps path).dropLast)
    (hheld : fault.held? = none) : Failed d d' (.write path fault) := by
  have hdrop : d'.drop (.write path fault) = d' := by rw [drop, ProjectFault.held?, hheld]
  have hfile : ∀ place content,
      d'.get? place = some (.file content) ↔ d.get? place = some (.file content) := by
    intro place content
    rw [← kind?_eq_file, ← kind?_eq_file, h.kind?_iff (by simp)]
  refine ⟨fun place content => (hfile place content).2,
    fun place content hd => .inl ((hfile place content).1 hd), ?_,
    fun hwrite => absurd rfl (hwrite path fault), ?_⟩
  · rw [hdrop]
    exact hfile
  · intro path' cause heq
    cases heq
    rwa [hdrop]

/-- A fault that holds a file leaves it besides, for as long as it is there itself. -/
theorem Failed.of_held {made : Disk} {cause : Cause} {held : Place} {content : ByteArray}
    (h : Grows d made (Path.steps path).dropLast) (hheld : Held made d' held content) :
    Failed d d' (.write path (.replace cause held)) := by
  have hdrop : d'.drop (.write path (.replace cause held)) = made := hheld.erase
  have hfile : ∀ place content,
      made.get? place = some (.file content) ↔ d.get? place = some (.file content) := by
    intro place content
    rw [← kind?_eq_file, ← kind?_eq_file, h.kind?_iff (by simp)]
  refine ⟨?_, ?_, ?_, fun hwrite => absurd rfl (hwrite path _), ?_⟩
  · intro place old hd
    rw [← hfile, ← kind?_eq_file] at hd
    rw [← kind?_eq_file, hheld.kind?_eq, if_neg, hd]
    rintro rfl
    rw [hheld.kind?_eq_none] at hd
    cases hd
  · intro place new hd
    rw [← kind?_eq_file, hheld.kind?_eq] at hd
    split at hd
    · rename_i heq
      subst heq
      have hnone : d.kind? place = none := by
        rcases h place with hsame | ⟨hnone, -⟩
        · rw [← hsame, hheld.kind?_eq_none]
        · exact hnone
      exact .inr ⟨rfl, Option.map_eq_none_iff.1 hnone⟩
    · exact .inl ((hfile place new).1 (kind?_eq_file.1 hd))
  · rw [hdrop]
    exact hfile
  · intro path' cause' heq
    cases heq
    rwa [hdrop]

/-- A run that fails leaves every file as it was, and none besides once its fault is dropped;
    unless it was writing, it leaves the disk as it was. A run that does not fail puts the
    generated text at the place that the output path names, and all else that it adds are
    directories on the way. The text can be read from the output path, unless that goes
    through a link which stood in the very place of the file. -/
theorem generateWith_outcome (libs : Libraries) (c : Conditions) (d : Disk) (root : String) :
    match d.generateWith libs c root with
    | (d', .error fault) => Failed d d' fault
    | (d', .ok path) =>
      ∃ options files definitions text made folder name,
        d.loadOptions libs (Path.join root configFile) = .ok options ∧
        d.definitionFiles libs (Path.join root options.folder) = .ok files ∧
        files.mapM (d.loadDefinition libs) = .ok definitions ∧
        generateAll libs.check options definitions = .ok text ∧
        path = Path.join root (options.outputPath outputExtension) ∧
        Grows d made (Path.steps path).dropLast ∧
        Takes made path folder name ∧
        (∀ place, d'.kind? place =
          if place = folder ++ [name] then some (.file text.toUTF8) else made.kind? place) ∧
        (d'.readText path = .ok text ∨
          (∃ target, d.get? (folder ++ [name]) = some (.link target)) ∧
            d'.readText path = .error .notDirectory) := by
  rcases generateWith_cases libs d c root with ⟨fault, hgen, heq⟩ |
    ⟨path, text, d', fault, -, hwrite, heq⟩ | ⟨path, text, d', hgen, hwrite, heq⟩
  · rw [heq]
    exact .of_unwritten (unwritten_generated libs d root fault hgen)
  · rw [heq]
    rcases writeFile_cases d c path text.toUTF8 with ⟨made, fault', hmade, hheld, hends⟩ |
      ⟨made, d'', cause, held, hmade, hheld, hends⟩ | ⟨_, _, _, d'', -, hends⟩
    · rw [hends] at hwrite
      cases hwrite
      exact .of_grows hmade.grows hheld
    · rw [hends] at hwrite
      cases hwrite
      exact .of_held hmade.grows hheld
    · rw [hends] at hwrite
      cases congrArg Prod.snd hwrite
  · rw [heq]
    obtain ⟨options, definitions, hoptions, hfolder, htext, hpath⟩ := generated_eq_ok.1 hgen
    obtain ⟨files, hfiles, hdefinitions⟩ := loadFolder_eq_ok.1 hfolder
    obtain ⟨made, folder, name, hwritten⟩ := writeFile_eq_ok.1 hwrite
    obtain ⟨-, hmake, -, htakes, rfl⟩ := hwritten
    have hgrows := (makeFolders_spec (d := d) (steps_dropLast_reverse path)).1.grows
    rw [hmake, List.reverse_reverse] at hgrows
    refine ⟨options, files, definitions, text, made, folder, name, hoptions, hfiles, hdefinitions, htext,
      hpath, hgrows, htakes, kind?_put_file htakes.isFolder htakes.free, ?_⟩
    rcases htakes.readText text with hread | ⟨⟨target, hlink⟩, hcut⟩
    · exact .inl hread
    · refine .inr ⟨⟨target, ?_⟩, hcut⟩
      rw [← kind?_eq_link, ← hgrows.kind?_iff (by simp), hlink]

/-! ## Two runs with a surprising end -/

def fooDefinition : Definition := ⟨.ofList [("Foo", .ofList [("x", "int32")])], .empty⟩

def fooTarget : GoOptions := ⟨"api", "github.com/gofiber/fiber/v2"⟩

def optionsTo (output : String) : Options := ⟨"defs", "api", some output, fooTarget⟩

theorem generateAll_fooDefinition (output : String) :
    generateAll Libraries.bundled.check (optionsTo output) [fooDefinition] =
      .ok (Printer.file fooTarget [fooDefinition]) := by
  have hlegible : Legible fooTarget [fooDefinition] := by decide +kernel
  have haccepted : Accepted [fooDefinition] := by decide +kernel
  have hcheck : Libraries.bundled.check (Printer.file fooTarget [fooDefinition]).toList = .ok () := by
    decide +kernel
  exact generateAll_of_accepted hlegible haccepted hcheck

/-- The output is to be named as the link is through which its own path goes. -/
def linkedProject : Disk where
  top :=
    [("rpcgen.yml", .file ("folder: defs\noutputFolder: api\noutputFile: l/l\ngo:\n" ++
      "  package: api\n  fiberImport: github.com/gofiber/fiber/v2\n").toUTF8),
     ("defs", .dir [("a.yml", .file "Models: \x7b Foo: \x7b x: int32 \x7d \x7d".toUTF8)]),
     ("l", .link ".")]

/-- The output is to be named as the folder of the definitions. -/
def blockedProject : Disk where
  top :=
    [("rpcgen.yml", .file ("folder: defs\noutputFolder: api\noutputFile: defs\ngo:\n" ++
      "  package: api\n  fiberImport: github.com/gofiber/fiber/v2\n").toUTF8),
     ("defs", .dir [("a.yml", .file "Models: \x7b Foo: \x7b x: int32 \x7d \x7d".toUTF8)])]

theorem generated_linkedProject :
    linkedProject.generated .bundled "" = .ok ("l/l", Printer.file fooTarget [fooDefinition]) := by
  refine generated_eq_ok.2 ⟨optionsTo "l/l", [fooDefinition], by decide +kernel, by decide +kernel, ?_, rfl⟩
  exact generateAll_fooDefinition "l/l"

theorem generated_blockedProject :
    blockedProject.generated .bundled "" = .ok ("defs", Printer.file fooTarget [fooDefinition]) := by
  refine generated_eq_ok.2 ⟨optionsTo "defs", [fooDefinition], by decide +kernel, by decide +kernel, ?_, rfl⟩
  exact generateAll_fooDefinition "defs"

/-- One run succeeds, but the path that it returns leads to no file any more. The other fails,
    and a file is new for as long as its fault is there. -/
theorem replaced_link_and_held_file :
    (∃ d', linkedProject.generate .bundled "" = (d', .ok "l/l") ∧
      d'.readText "l/l" = .error .notDirectory) ∧
    ∃ d' fault held content, blockedProject.generate .bundled "" = (d', .error fault) ∧
      blockedProject.get? held = none ∧ d'.get? held = some (.file content) := by
  constructor
  · exact ⟨_, generate_eq_of_written generated_linkedProject (by decide +kernel), by decide +kernel⟩
  · have hfails : (blockedProject.writeFile .fair "defs"
        (Printer.file fooTarget [fooDefinition]).toUTF8).2 =
        .error (.replace .isDirectory [".rpcgen.ymldefs"]) := by decide +kernel
    have hrun := generate_eq_of_failed generated_blockedProject hfails
    generalize hend : (blockedProject.writeFile .fair "defs" _).1 = d' at hrun
    have hheld : (d'.get? [".rpcgen.ymldefs"]).any Node.isFile = true := by
      rw [← hend]
      decide +kernel
    obtain ⟨n, hn, hfile⟩ := Option.any_eq_true _ _ |>.1 hheld
    cases n with
    | file content => exact ⟨d', _, _, content, hrun, rfl, hn⟩
    | dir entries => cases hfile
    | link target => cases hfile

end Disk

end ServiceSchema
