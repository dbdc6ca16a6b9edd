/-
  ServiceSchema.Main — the program.

  The configuration and the definitions are copied from the file system into a `Disk`,
  on which everything is decided. Then the generated text is written under a temporary
  name beside its place and renamed, so that nobody sees half a file.
-/
import ServiceSchema.Bundled
import ServiceSchema.Command
import ServiceSchema.Disk.Edit

namespace ServiceSchema.Main

/-- Keep the file at a path, if there is one. -/
def copyFile (d : Disk) (path : String) : IO Disk := do
  let here ← IO.currentDir
  match ← (here.join path).metadata.toBaseIO with
  | .error _ => return d
  | .ok info =>
    match info.type with
    | .file =>
      let content ← IO.FS.readBinFile path
      return (d.save path content).1
    | .dir => return (d.makeFolders (Path.steps path).reverse).1
    | _ => return d

/-- Keep a directory with everything below it that is not a link. -/
partial def copyFolder (d : Disk) (path : String) : IO Disk := do
  let here ← IO.currentDir
  let folder := here.join path
  let mut d := (d.makeFolders (Path.steps path).reverse).1
  for item in ← folder.readDir do
    let inner := Path.join path item.fileName
    match (← (here.join inner).symlinkMetadata).type with
    | .dir => d ← copyFolder d inner
    | .file => if isDefinitionFile item.fileName then d ← copyFile d inner
    | _ => pure ()
  return d

/-- Keep the folder of the definitions, whatever it is. -/
def copyDefinitions (d : Disk) (path : String) : IO Disk := do
  let here ← IO.currentDir
  if ← (here.join path).isDir then copyFolder d path else copyFile d path

/-- The cause of a failure as the file system tells it. -/
def causeOf : IO.Error → Option Disk.Cause
  | .noFileOrDirectory .. => some .notFound
  | .alreadyExists .. => some .alreadyExists
  | .resourceBusy .. => some .busy
  | .permissionDenied .. => some .noPermission
  | .resourceExhausted .. => some .noSpace
  | .inappropriateType _ code _ => some (if code = 20 then .notDirectory else .isDirectory)
  | _ => none

/-- Do one step of writing; a failure that has no cause here is passed on. -/
def attempt (action : IO Unit) : IO (Except Disk.Cause Unit) := do
  match ← action.toBaseIO with
  | .ok () => return .ok ()
  | .error e =>
    match causeOf e with
    | some cause => return .error cause
    | none => throw e

/-- Do one step on a temporary file, which goes if the step fails. -/
def attemptOn (temporary : String) (action : IO Unit) : IO (Except Disk.Cause Unit) := do
  match ← attempt action with
  | .ok () => return .ok ()
  | .error cause =>
    IO.FS.removeFile temporary
    return .error cause

/-- Write a file in one step. The file that a fault holds goes with it. -/
def writeFile (path text : String) : IO (Except Disk.WriteFault Unit) := do
  let steps := (Path.steps path).dropLast
  let folder := "/" ++ "/".intercalate steps
  if let .error cause ← attempt (IO.FS.createDirAll folder) then return .error (.folder cause)
  let temporary := Path.join folder ".generated.tmp"
  if let .error cause ← attempt (IO.FS.writeFile temporary "") then return .error (.temporary cause)
  if let .error cause ← attemptOn temporary (IO.FS.writeFile temporary text) then
    return .error (.content cause)
  let rights : IO.FileRight := ⟨{ read := true, write := true }, { read := true }, { read := true }⟩
  if let .error cause ← attemptOn temporary (IO.setAccessRights temporary rights) then
    return .error (.permissions cause)
  if let .error cause ← attemptOn temporary (IO.FS.rename temporary path) then
    return .error (.replace cause (steps ++ [".generated.tmp"]))
  return .ok ()

/-- Generate the project in a directory. -/
def generate (root : String) : IO (Except ProjectFault String) := do
  let config := Path.join root configFile
  let d ← copyFile Disk.empty config
  match d.loadOptions .bundled config with
  | .error fault => return .error fault
  | .ok options =>
    let d ← copyDefinitions d (Path.join root options.folder)
    match d.generated .bundled root with
    | .error fault => return .error fault
    | .ok (path, text) =>
      match ← writeFile path text with
      | .ok () => return .ok path
      | .error fault => return .error (.write path fault)

/-- What the help says. -/
def helpText : String :=
  "Generate Go RPC types and Fiber wiring from YAML\n\n" ++
  "Usage: rpcgen <COMMAND>\n\n" ++
  "Commands:\n" ++
  "  generate  Generate code from the definitions named in rpcgen.yml\n" ++
  "  help      Print this message or the help of the given subcommand(s)\n\n" ++
  "Options:\n" ++
  "  -h, --help     Print help\n" ++
  "  -V, --version  Print version"

def run (args : List String) : IO UInt32 := do
  match Command.read args with
  | .usage usage =>
    match usage with
    | .help => IO.println helpText
    | .version => IO.println Command.banner
    | .missingCommand => IO.eprintln helpText
    | .unknownCommand => IO.eprintln "error: unrecognized subcommand"
    | .unknownArgument => IO.eprintln "error: unexpected argument"
    | .unexpectedValue => IO.eprintln "error: unexpected value"
    return UInt32.ofNat usage.exitCode
  | .generate =>
    let root ← IO.currentDir
    let (code, text) := Command.outcome (← generate root.toString)
    IO.eprint text
    return UInt32.ofNat code

end ServiceSchema.Main

def main (args : List String) : IO UInt32 := ServiceSchema.Main.run args
