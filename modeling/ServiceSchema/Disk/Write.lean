/-
  ServiceSchema.Disk.Write — making directories and replacing files.

  `makeFolders` makes a directory and those above it that are missing. Directories it
  has made stay even if it fails later. A file is written as a whole under a temporary
  name and then moved to its own in one step (`moveFile`): whatever stood there before, a
  link included, is gone, unless it is a directory.

  A temporary file is removed when its owner is dropped. Until it is to be moved that is
  the write itself, so that a failure leaves none. If it cannot be moved, the fault owns
  it: the file is there for as long as the fault is (`WriteFault.held?`, `Disk.drop`).
-/
import ServiceSchema.Disk.Follow

namespace ServiceSchema.Disk

/-- The place of a name in the directory that pieces lead to, and what stands there. -/
def slot (d : Disk) (pieces : List String) (name : String) : Except Cause (Place × Option Node) := do
  if let some cause := refusal? (pieces ++ [name]) then .error cause
  let place ← d.placeOf pieces
  match d.get? place with
  | some (.dir entries) =>
    if maxName < name.utf8ByteSize then .error .nameTooLong
    else .ok (place ++ [name], entries.lookup name)
  | _ => .error .notDirectory

/-- Make one directory, named by its steps with the innermost first. -/
def makeFolder (d : Disk) : List String → Except Cause Disk
  | [] => .error .alreadyExists
  | name :: outer => do
    let (place, found) ← d.slot outer.reverse name
    if name = ".." || found.isSome then .error .alreadyExists
    else .ok (d.put place (.dir []))

/-- Make a directory and those above it. -/
def makeFolders (d : Disk) : List String → Disk × Except Cause Unit
  | [] => (d, .ok ())
  | name :: outer =>
    let steps := (name :: outer).reverse
    match d.makeFolder (name :: outer) with
    | .ok d' => (d', .ok ())
    | .error .notFound =>
      match d.makeFolders outer with
      | (d', .error cause) => (d', .error cause)
      | (d', .ok ()) =>
        match d'.makeFolder (name :: outer) with
        | .ok d'' => (d'', .ok ())
        | .error cause => (d', if d'.isDir steps then .ok () else .error cause)
    | .error cause => (d, if d.isDir steps then .ok () else .error cause)

/-- The step at which writing failed. -/
inductive WriteStep where
  | folder
  | temporary
  | content
  | permissions
  | replace
  deriving DecidableEq, Repr

/-- What the operating system decides while a file is written. -/
structure Conditions where
  /-- The name of a temporary file: any name that is not in use. -/
  pick : List String → String
  unused : ∀ used, pick used ∉ used
  /-- The steps that are refused for a cause that is not on the disk: no rights, or no space. -/
  refuses : WriteStep → Option Cause
  /-- How many directories are made before that is refused. -/
  reach : Nat

/-- A name that has all names in use behind its beginning is longer than each of them. -/
theorem not_mem_of_all_behind (beginning : Char) (used : List String) :
    String.ofList (beginning :: used.flatMap String.toList) ∉ used := by
  intro h
  have hlength := (List.sublist_flatten_of_mem (List.mem_map.2 ⟨_, h, String.toList_ofList⟩)).length_le
  rw [← List.flatMap_def, List.length_cons] at hlength
  omega

/-- Nothing is refused, and temporary names are longer than all others in their directory. -/
def Conditions.fair : Conditions where
  pick used := String.ofList ('.' :: used.flatMap String.toList)
  unused := not_mem_of_all_behind '.'
  refuses _ := none
  reach := 0

/-- How many bytes the name of a temporary file has. -/
def temporaryBytes : Nat := 10

/-- Make the directory that steps lead to, unless that is refused on the way. -/
def makeWay (d : Disk) (c : Conditions) (steps : List String) : Disk × Except Cause Unit :=
  match c.refuses .folder with
  | some cause => ((d.makeFolders (steps.take c.reach).reverse).1, .error cause)
  | none => d.makeFolders steps.reverse

/-- Make an empty file under a temporary name in the directory that pieces lead to: its place,
    and the disk with it. -/
def addTemporary (d : Disk) (c : Conditions) (pieces : List String) : Except Cause (Place × Disk) := do
  if let some cause := c.refuses .temporary then .error cause
  if maxPath < ("/".intercalate pieces).utf8ByteSize + 1 + temporaryBytes then .error .nameTooLong
  let place ← d.placeOf pieces
  match d.get? place with
  | some (.dir entries) =>
    let temporary := place ++ [c.pick (entries.map Prod.fst)]
    .ok (temporary, d.put temporary (.file .empty))
  | _ => .error .notDirectory

/-- Put what stands at one place at another, and nothing where it stood. -/
def move (d : Disk) (source target : Place) : Disk :=
  if source = target then d
  else
    match d.get? source with
    | some n => (d.put target n).erase source
    | none => d

/-- Move the file at a place to where a path says. Here a NUL character in the path is a bad
    argument. -/
def moveFile (d : Disk) (source : Place) (path : String) : Except Cause Disk :=
  if path.toList.contains '\x00' then .error .invalidArgument else
  let pieces := (Path.pieces path).reverse
  match pieces.dropWhile (· = "") with
  | [] => .error .busy
  | name :: outer => do
    let (place, found) ← d.slot outer.reverse name
    if name = "." || name = ".." then .error .busy
    else if pieces.head? = some "" then .error .notDirectory
    else
      match found with
      | some (.dir _) => .error .isDirectory
      | _ => .ok (d.move source place)

/-- Move the file at a place to where a path says, unless that is refused. -/
def persist (d : Disk) (c : Conditions) (temporary : Place) (path : String) : Except Cause Disk :=
  match c.refuses .replace with
  | some cause => .error cause
  | none => d.moveFile temporary path

/-- Why a file is not written. If it could not be moved to its place, the fault holds the
    temporary file. -/
inductive WriteFault where
  | folder (cause : Cause)
  | temporary (cause : Cause)
  | content (cause : Cause)
  | permissions (cause : Cause)
  | replace (cause : Cause) (held : Place)
  deriving DecidableEq, Repr

namespace WriteFault

def cause : WriteFault → Cause
  | folder cause | temporary cause | content cause | permissions cause | replace cause _ => cause

/-- The place of the file that a fault holds. -/
def held? : WriteFault → Option Place
  | replace _ held => some held
  | _ => none

end WriteFault

/-- Write a file: its directory is made, the content goes to a temporary file there, whose
    permissions are set, and that file is moved to where the path says. -/
def writeFile (d : Disk) (c : Conditions) (path : String) (content : ByteArray) :
    Disk × Except WriteFault Unit :=
  let folder := (Path.steps path).dropLast
  match d.makeWay c folder with
  | (made, .error cause) => (made, .error (.folder cause))
  | (made, .ok ()) =>
    match made.addTemporary c folder with
    | .error cause => (made, .error (.temporary cause))
    | .ok (temporary, added) =>
      match c.refuses .content with
      | some cause => (added.erase temporary, .error (.content cause))
      | none =>
        let filled := added.put temporary (.file content)
        match c.refuses .permissions with
        | some cause => (filled.erase temporary, .error (.permissions cause))
        | none =>
          match filled.persist c temporary path with
          | .ok d' => (d', .ok ())
          | .error cause => (filled, .error (.replace cause temporary))

end ServiceSchema.Disk
