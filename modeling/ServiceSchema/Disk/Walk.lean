/-
  ServiceSchema.Disk.Walk — what is below a directory.

  A walk visits a node and all that is below it. `Walk.InOrder` says in which order: the
  entries of a directory by their names, and a directory with all that is in it at its
  place in that order. A link is visited but not followed. `Node.visits` is such a walk.
-/
import ServiceSchema.Disk.Node

namespace ServiceSchema.Disk

/-- What a walk comes to: its place from where the walk began, and whether it is a file. -/
structure Visit where
  place : Place
  isFile : Bool
  deriving DecidableEq, Repr

/-- The visit of something in a directory, as seen from outside that directory. -/
def Visit.under (name : String) (v : Visit) : Visit := { v with place := name :: v.place }

def Node.isFile : Node → Bool
  | file _ => true
  | _ => false

/-- The entries of a directory, by name. -/
def Node.entriesByName : Node → List (String × Node)
  | dir entries => entries.mergeSort fun a b => decide (a.1 ≤ b.1)
  | _ => []

/-- All that is visited from a node on. -/
abbrev Walk := Node → List Visit

/-- The walk visits a node before what is in it, and that by name. -/
def Walk.InOrder (walk : Walk) : Prop :=
  ∀ n, walk n = ⟨[], n.isFile⟩ ::
    n.entriesByName.flatMap fun e => (walk e.2).map (Visit.under e.1)

namespace Node

mutual

/-- A node and all that is below it. -/
def visits : Node → List Visit
  | file _ => [⟨[], true⟩]
  | link _ => [⟨[], false⟩]
  | dir entries =>
    ⟨[], false⟩ :: ((visitsOfEach entries).mergeSort fun a b => decide (a.1 ≤ b.1)).flatMap fun e =>
      e.2.map (Visit.under e.1)

/-- The names of a directory, each with what is visited from there on. -/
def visitsOfEach : List (String × Node) → List (String × List Visit)
  | [] => []
  | e :: rest => (e.1, visits e.2) :: visitsOfEach rest

end

mutual

/-- Every name below a node, written as a path: a directory ends in a slash, and a
    link in an at sign. -/
def listing : Node → List String
  | dir entries => listingOfEach entries
  | _ => []

def listingOfEach : List (String × Node) → List String
  | [] => []
  | (name, n) :: rest =>
    (match n with
      | file _ => [name]
      | link _ => [name ++ "@"]
      | dir entries => (name ++ "/") :: (listing (dir entries)).map (name ++ "/" ++ ·)) ++
      listingOfEach rest

end

end Node

end ServiceSchema.Disk
