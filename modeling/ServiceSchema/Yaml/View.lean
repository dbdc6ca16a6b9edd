/-
  ServiceSchema.Yaml.View — what a node is taken for.

  This and the reader below it are what the program runs with; what is proved of a project
  does not depend on how its documents are read.

  Any scalar is a text, whatever its tag and style. A plain scalar without a tag that is
  empty or spells null is no value where one may be missing. A mapping is a list of
  pairs, and an empty plain scalar is an empty one. An alias is taken for its node. A
  short document could be made to stand for a huge one by aliases inside anchored
  nodes, so only so many aliases are followed as its size allows.
-/
import ServiceSchema.Yaml.Node

namespace ServiceSchema.Yaml

/-- A step of reading a document. The state is how many aliases may still be followed;
    no result means that the document is not of the expected form. -/
abbrev Reading := StateT Nat Option

namespace Document

/-- How many aliases may be followed while a document is read. -/
def maxAliases (d : Document) : Nat := 100 * d.root.size

/-- What a document is read as. -/
def read? {α : Type} (d : Document) (step : Reading α) : Option α := step.run' d.maxAliases

/-- The node that is meant. -/
def deref (d : Document) : Node → Reading Node
  | .alias anchor => fun left =>
    match left with
    | 0 => none
    | left + 1 => some ((d.anchors.lookup anchor).getD Node.absent, left)
  | n => pure n

/-- The text of a scalar. -/
def text (d : Document) (n : Node) : Reading String := do
  match ← d.deref n with
  | .scalar text _ _ => return text
  | _ => failure

/-- The pairs of a mapping. -/
def pairs (d : Document) (n : Node) : Reading (List (Node × Node)) := do
  match ← d.deref n with
  | .mapping entries => return entries
  | .scalar "" true _ => return []
  | _ => failure

def nullTag : String := "tag:yaml.org,2002:null"

def spellsNull (text : String) : Bool := ["null", "Null", "NULL", "~"].contains text

/-- A value that may be missing. One that is tagged as null has to spell it. -/
def optional (d : Document) (n : Node) : Reading (Option Node) := do
  let n ← d.deref n
  match n with
  | .scalar text true none => return if text.isEmpty || spellsNull text then none else some n
  | .scalar text true (some tag) =>
    if tag ≠ nullTag then return some n else if spellsNull text then return none else failure
  | _ => return some n

/-- The pairs of a mapping, with their keys as texts. -/
def keyed (d : Document) (n : Node) : Reading (List (String × Node)) := do
  (← d.pairs n).mapM fun p => do return (← d.text p.1, p.2)

/-- A mapping that may be missing, with its keys as texts. -/
def optionalKeyed (d : Document) (n : Node) : Reading (List (String × Node)) := do
  match ← d.optional n with
  | none => return []
  | some n => d.keyed n

/-- Look for a key among pairs: it may be there at most once. -/
def field (pairs : List (String × Node)) (key : String) : Reading (Option Node) :=
  match pairs.filter (·.1 = key) with
  | [] => return none
  | [p] => return some p.2
  | _ => failure

end Document

end ServiceSchema.Yaml
