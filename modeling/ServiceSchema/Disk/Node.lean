/-
  ServiceSchema.Disk.Node — a file system as a value.

  A disk is a tree of directories, files and symbolic links. A place is the list of
  names that leads from the top to an entry through directories only; it says where
  something is, while a path is a text that has to be followed to find a place
  (`ServiceSchema.Disk.Follow`).
-/
import ServiceSchema.Table

namespace ServiceSchema

namespace Disk

/-- What a name in a directory stands for. -/
inductive Node where
  | file (content : ByteArray)
  | dir (entries : List (String × Node))
  | link (target : String)
  deriving Inhabited

/-- Names from the top down. -/
abbrev Place := List String

namespace Node

/-- What stands at a place below a node. -/
def get? : Place → Node → Option Node
  | [], n => some n
  | name :: rest, dir entries =>
    match entries.lookup name with
    | some n => get? rest n
    | none => none
  | _ :: _, _ => none

/-- Put a node at a place. Directories that are missing on the way are made; nothing
    happens if something else is in the way. -/
def put (new : Node) : Place → Node → Node
  | [], _ => new
  | name :: rest, dir entries =>
    dir (upsert name (put new rest ((entries.lookup name).getD (dir []))) entries)
  | _ :: _, n => n

/-- Take away what stands at a place. -/
def erase : Place → Node → Node
  | [name], dir entries => dir (entries.filter (·.1 ≠ name))
  | name :: rest, dir entries =>
    match entries.lookup name with
    | some n => dir (upsert name (erase rest n) entries)
    | none => dir entries
  | _, n => n

/-- The permission bits: files are readable by all and writable by their owner, and
    directories can be entered too. -/
def permissions : Node → Nat
  | file _ => 0o644
  | dir _ => 0o755
  | link _ => 0o777

end Node

end Disk

/-- A file system: the entries of its top directory. -/
structure Disk where
  top : List (String × Disk.Node)

namespace Disk

def empty : Disk := ⟨[]⟩

instance : Inhabited Disk := ⟨empty⟩

/-- What stands at a place. -/
def get? (d : Disk) (place : Place) : Option Node := (Node.dir d.top).get? place

/-- The disk with a node put at a place below the top. -/
def put (d : Disk) (place : Place) (new : Node) : Disk :=
  match Node.put new place (.dir d.top) with
  | .dir entries => ⟨entries⟩
  | _ => d

/-- The disk without what stood at a place. -/
def erase (d : Disk) (place : Place) : Disk :=
  match (Node.dir d.top).erase place with
  | .dir entries => ⟨entries⟩
  | _ => d

end Disk

end ServiceSchema
