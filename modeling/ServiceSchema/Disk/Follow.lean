/-
  ServiceSchema.Disk.Follow — from a path to the place it leads to.

  A path is followed piece by piece. Every piece but the last has to lead to a
  directory: `.` and empty pieces stay in it, `..` leaves it, and a name enters what
  it stands for. A symbolic link is followed where it stands, and no path may follow
  more than `maxLinks` of them. Paths without a leading slash start at the top as well.
  A path with a NUL character and a path that is too long lead nowhere, and neither
  does a name that is too long for a directory.
-/
import ServiceSchema.Disk.Node
import ServiceSchema.Path

namespace ServiceSchema.Disk

inductive Cause where
  | notFound
  | alreadyExists
  | notDirectory
  | isDirectory
  | busy
  | tooManyLinks
  | nameTooLong
  | nulInPath
  | invalidArgument
  | notText
  | noPermission
  | noSpace
  deriving DecidableEq, Repr

def Cause.message : Cause → String
  | notFound => "No such file or directory (os error 2)"
  | alreadyExists => "File exists (os error 17)"
  | notDirectory => "Not a directory (os error 20)"
  | isDirectory => "Is a directory (os error 21)"
  | busy => "Device or resource busy (os error 16)"
  | tooManyLinks => "Too many levels of symbolic links (os error 40)"
  | nameTooLong => "File name too long (os error 36)"
  | nulInPath => "file name contained an unexpected NUL byte"
  | invalidArgument => "Invalid argument (os error 22)"
  | notText => "stream did not contain valid UTF-8"
  | noPermission => "Permission denied (os error 13)"
  | noSpace => "No space left on device (os error 28)"

def maxLinks : Nat := 40

def maxName : Nat := 255

def maxPath : Nat := 4095

/-- What is wanted at the end of a path. -/
inductive Target where
  /-- What is there, and if that is a link, what it leads to. -/
  | followed
  /-- What is there, even if it is a link. -/
  | named
  /-- As `followed`, but the last name need not be there yet. -/
  | fresh
  deriving DecidableEq, Repr

/-- Follow pieces from a place, with links followed by `jump`: it is told where the link is and
    what there is to follow from there, the link's own pieces first. -/
def followWith (d : Disk) (target : Target) (jump : Place → List String → Except Cause Place) :
    Place → List String → Except Cause Place
  | place, [] => .ok place
  | place, piece :: rest =>
    match d.get? place with
    | some (.dir entries) =>
      if piece = "" || piece = "." then d.followWith target jump place rest
      else if piece = ".." then d.followWith target jump place.dropLast rest
      else if maxName < piece.utf8ByteSize then .error .nameTooLong
      else
        match entries.lookup piece with
        | none => if rest.isEmpty && target = .fresh then .ok (place ++ [piece]) else .error .notFound
        | some (.link path) =>
          if rest.isEmpty && target = .named then .ok (place ++ [piece])
          else jump (if Path.isAbsolute path then [] else place) (Path.pieces path ++ rest)
        | some _ => d.followWith target jump (place ++ [piece]) rest
    | _ => .error .notDirectory

/-- Follow pieces from a place, and so many links at most. -/
def follow (d : Disk) (target : Target) : Nat → Place → List String → Except Cause Place
  | 0 => d.followWith target fun _ _ => .error .tooManyLinks
  | links + 1 => d.followWith target (d.follow target links)

/-- A path is refused as a whole, whatever is on the disk. -/
def refusal? (pieces : List String) : Option Cause :=
  if pieces.any (·.toList.contains '\x00') then some .nulInPath
  else if maxPath < ("/".intercalate pieces).utf8ByteSize then some .nameTooLong
  else none

def resolve (d : Disk) (target : Target) (pieces : List String) : Except Cause Place :=
  match refusal? pieces with
  | some cause => .error cause
  | none => d.follow target maxLinks [] pieces

def placeOf (d : Disk) (pieces : List String) : Except Cause Place := d.resolve .followed pieces

/-- What a path leads to, with all links followed. -/
def find (d : Disk) (path : String) : Except Cause Node := do
  match d.get? (← d.placeOf (Path.pieces path)) with
  | some n => .ok n
  | none => .error .notFound

/-- What a path names: a link at its end is not followed. -/
def entry (d : Disk) (path : String) : Except Cause Node := do
  match d.get? (← d.resolve .named (Path.pieces path)) with
  | some n => .ok n
  | none => .error .notFound

def isDir (d : Disk) (pieces : List String) : Bool :=
  match d.placeOf pieces with
  | .ok place =>
    match d.get? place with
    | some (.dir _) => true
    | _ => false
  | .error _ => false

def readText (d : Disk) (path : String) : Except Cause String := do
  match ← d.find path with
  | .file content =>
    match String.fromUTF8? content with
    | some text => .ok text
    | none => .error .notText
  | _ => .error .isDirectory

end ServiceSchema.Disk
