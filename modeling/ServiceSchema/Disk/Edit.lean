/-
  ServiceSchema.Disk.Edit — the changes a user makes to a disk.

  Saving a file makes the directories above it and writes through a link, making a
  link gives a name a target whether or not it leads anywhere, and removing takes away
  what a path names together with everything below it.
-/
import ServiceSchema.Disk.Write

namespace ServiceSchema.Disk

/-- Save a file under a path. Directories it has made stay even if it fails later. -/
def save (d : Disk) (path : String) (content : ByteArray) : Disk × Except Cause Unit :=
  match d.makeFolders (Path.steps path).reverse.tail with
  | (d', .error cause) => (d', .error cause)
  | (d', .ok ()) =>
    if path.toList.getLast? = some '/' then (d', .error .isDirectory)
    else
      match d'.resolve .fresh (Path.pieces path) with
      | .error cause => (d', .error cause)
      | .ok place =>
        match d'.get? place with
        | some (.dir _) => (d', .error .isDirectory)
        | _ => (d'.put place (.file content), .ok ())

/-- Make a symbolic link. -/
def makeLink (d : Disk) (path target : String) : Except Cause Disk := do
  if let some cause := refusal? [target] then .error cause
  if target.isEmpty then .error .notFound
  match (Path.steps path).reverse with
  | [] => .error .alreadyExists
  | name :: outer =>
    let (place, found) ← d.slot outer.reverse name
    if name = ".." || found.isSome then .error .alreadyExists
    else .ok (d.put place (.link target))

/-- Remove what a path names. -/
def remove (d : Disk) (path : String) : Except Cause Disk := do
  return d.erase (← d.resolve .named (Path.pieces path))

end ServiceSchema.Disk
