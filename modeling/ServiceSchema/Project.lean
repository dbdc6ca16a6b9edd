/-
  ServiceSchema.Project — from a project on disk to its generated file.

  A project is a directory with a configuration file, which names the folder of the
  definitions and the place of the output. Everything is read and generated before
  anything is written (`Disk.generated`), so that only a write can leave a trace when
  generating fails (`Disk.generateWith`).

  How documents are read, how directories are walked and which texts are Go files is up
  to the libraries that a project is generated with (`Libraries`).
-/
import ServiceSchema.Disk.Walk
import ServiceSchema.Disk.Write
import ServiceSchema.Generate

namespace ServiceSchema

/-- The libraries that a project is generated with. -/
structure Libraries where
  readOptions : String → Option Options
  readDefinition : String → Option Definition
  walk : Disk.Walk
  check : Go.Check

/-- Why a project yields no file. -/
inductive ProjectFault where
  | read (path : String) (cause : Disk.Cause)
  | parse (path : String)
  | schema (fault : SchemaFault)
  | write (path : String) (fault : Disk.WriteFault)
  deriving DecidableEq, Repr

namespace ProjectFault

def message : ProjectFault → String
  | read path _ => "unable to read " ++ path
  | parse path => "unable to parse " ++ path
  | schema fault => fault.message
  | write path _ => "unable to write file " ++ path

/-- What led to a fault, the nearest cause first. -/
def causes : ProjectFault → List String
  | read _ cause => [cause.message]
  | parse _ => ["not a document of the expected form"]
  | schema _ => []
  | write _ (.replace cause _) =>
    ["failed to persist temporary file: " ++ cause.message, cause.message]
  | write _ fault => [fault.cause.message]

/-- The fault with all its causes. -/
def report (fault : ProjectFault) : String := ": ".intercalate (fault.message :: fault.causes)

/-- The place of the temporary file that a fault holds. -/
def held? : ProjectFault → Option Disk.Place
  | write _ fault => fault.held?
  | _ => none

end ProjectFault

/-- The ending of definition files. -/
def definitionEnding : String := ".yml"

/-- Whether a file of this name is a definition file. -/
def isDefinitionFile (name : String) : Bool := definitionEnding.toList.isSuffixOf name.toList

/-- The disk once a fault is dropped, and with it the file that it holds. -/
def Disk.drop (d : Disk) (fault : ProjectFault) : Disk :=
  match fault.held? with
  | some held => d.erase held
  | none => d

section

variable (libs : Libraries)

namespace Disk

/-- Whether a visit is to a definition file. Where the walk began, the name is that of the
    folder. -/
def Visit.isDefinition (folder : String) (v : Visit) : Bool :=
  v.isFile && (Path.steps folder ++ v.place).getLast?.any isDefinitionFile

/-- The definition files that are visited from a node on, as paths that start with `folder`. -/
def definitionsFrom (folder : String) (n : Node) : List String :=
  ((libs.walk n).filter (Visit.isDefinition folder)).map fun v => v.place.foldl Path.join folder

/-- The definition files of a folder, in walk order. The folder may be a link to a
    directory, and it may be a single file. -/
def definitionFiles (d : Disk) (folder : String) : Except Cause (List String) := do
  match ← d.entry folder with
  | .link _ =>
    match ← d.find folder with
    | .dir entries => return definitionsFrom libs folder (.dir entries)
    | _ => return []
  | n => return definitionsFrom libs folder n

/-- The text of a file; the fault names the file. -/
def load (d : Disk) (path : String) : Except ProjectFault String :=
  match d.readText path with
  | .ok text => .ok text
  | .error cause => .error (.read path cause)

/-- The definition in a file. -/
def loadDefinition (d : Disk) (path : String) : Except ProjectFault Definition := do
  match libs.readDefinition (← d.load path) with
  | some definition => .ok definition
  | none => .error (.parse path)

/-- The definitions of a folder, one for each of its files. -/
def loadFolder (d : Disk) (folder : String) : Except ProjectFault (List Definition) :=
  match d.definitionFiles libs folder with
  | .ok paths => paths.mapM (d.loadDefinition libs)
  | .error cause => .error (.read folder cause)

/-- The configuration in a file. -/
def loadOptions (d : Disk) (path : String) : Except ProjectFault Options := do
  match libs.readOptions (← d.load path) with
  | some options => .ok options
  | none => .error (.parse path)

/-- The path and the text of a project's output. -/
def generated (d : Disk) (root : String) : Except ProjectFault (String × String) := do
  let options ← d.loadOptions libs (Path.join root configFile)
  let definitions ← d.loadFolder libs (Path.join root options.folder)
  match generateAll libs.check options definitions with
  | .ok text => .ok (Path.join root (options.outputPath outputExtension), text)
  | .error fault => .error (.schema fault)

/-- Generate a project's output and write it: the disk afterwards, and the path. -/
def generateWith (d : Disk) (c : Conditions) (root : String) : Disk × Except ProjectFault String :=
  match d.generated libs root with
  | .error fault => (d, .error fault)
  | .ok (path, text) =>
    match d.writeFile c path text.toUTF8 with
    | (d', .ok ()) => (d', .ok path)
    | (d', .error fault) => (d', .error (.write path fault))

/-- Generate a project's output where nothing is refused. -/
def generate (d : Disk) (root : String) : Disk × Except ProjectFault String :=
  d.generateWith libs .fair root

end Disk

end

end ServiceSchema
