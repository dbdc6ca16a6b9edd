/-
  ServiceSchema.Yaml.Node — the document that tokens spell.

  A text holds at most one document, and a document is one node. An alias stands for
  the node whose anchor was the last of that name before it. Anchors are numbered by
  how many different names there were, so a name that is used again takes a new number,
  and the node that took a number last is the one an alias finds under it.
-/
import ServiceSchema.Yaml.Token

namespace ServiceSchema.Yaml

inductive Node where
  | scalar (text : String) (plain : Bool) (tag : Option String)
  | sequence (items : List Node)
  | mapping (entries : List (Node × Node))
  | alias (anchor : Nat)
  deriving Repr, Inhabited

/-- An empty plain scalar, which stands for a node that was left out. -/
def Node.absent : Node := .scalar "" true none

namespace Node

mutual

/-- How much is written for a node: a scalar and an alias count once, and a collection
    twice, for where it starts and where it ends, and with all that is in it. -/
def size : Node → Nat
  | .scalar .. => 1
  | .sequence items => sizeOfItems items + 2
  | .mapping entries => sizeOfEntries entries + 2
  | .alias _ => 1

def sizeOfItems : List Node → Nat
  | [] => 0
  | n :: rest => n.size + sizeOfItems rest

def sizeOfEntries : List (Node × Node) → Nat
  | [] => 0
  | (k, v) :: rest => k.size + v.size + sizeOfEntries rest

end

end Node

/-- The node of a document, and the nodes of its anchors. -/
structure Document where
  root : Node
  anchors : List (Nat × Node)
  deriving Repr

/-! ## Reading nodes -/

/-- The reader: tokens that are left, shorthands of tags, numbers of anchor names, the
    order in which anchored nodes began, and those that are complete. -/
structure NodeReader where
  tokens : List Token
  shorthands : List (String × String)
  names : List (String × Nat)
  /-- Anchor numbers with the anchored nodes, which are numbered too, newest first. -/
  begun : List (Nat × Nat)
  nodes : List (Nat × Node)
  deriving Repr

namespace NodeReader

def next? (r : NodeReader) : Option Token := r.tokens.head?

def skip (r : NodeReader) : NodeReader := { r with tokens := r.tokens.drop 1 }

/-- Number an anchor, and the node that has it. -/
def begin (r : NodeReader) (anchor : Option String) : Option Nat × NodeReader :=
  match anchor with
  | none => (none, r)
  | some name =>
    let number := r.names.length
    let known := r.names.filter (·.1 ≠ name)
    let node := r.begun.length
    (some node, { r with names := (name, number) :: known, begun := (number, node) :: r.begun })

/-- Note a complete node under its number. -/
def complete (r : NodeReader) (number : Option Nat) (n : Node) : NodeReader :=
  match number with
  | none => r
  | some k => { r with nodes := (k, n) :: r.nodes }

/-- An anchor and a tag in front of a node, in either order. -/
def properties (r : NodeReader) : Option String × Option (String × String) × NodeReader :=
  match r.tokens with
  | .anchor name :: .tag handle suffix :: rest =>
    (some name, some (handle, suffix), { r with tokens := rest })
  | .tag handle suffix :: .anchor name :: rest =>
    (some name, some (handle, suffix), { r with tokens := rest })
  | .anchor name :: rest => (some name, none, { r with tokens := rest })
  | .tag handle suffix :: rest => (none, some (handle, suffix), { r with tokens := rest })
  | _ => (none, none, r)

/-- The whole tag that a handle and a suffix stand for. -/
def resolveTag? (r : NodeReader) : String × String → Option String
  | (handle, suffix) =>
    if handle.isEmpty then some suffix else (r.shorthands.lookup handle).map (· ++ suffix)

/-- Where a node stands. -/
structure Place where
  block : Bool
  /-- Whether entries of a sequence may follow without being indented. -/
  entries : Bool

mutual

/-- Read a node. -/
def node? : Nat → Place → NodeReader → Option (Node × NodeReader)
  | 0, _, _ => none
  | fuel + 1, place, r =>
    match r.tokens with
    | .alias name :: rest => do
      let number ← r.names.lookup name
      return (.alias number, { r with tokens := rest })
    | _ => do
      let (anchor, tag, r) := r.properties
      let tag ← match tag with
        | some t => (r.resolveTag? t).map some
        | none => some none
      let (number, r) := r.begin anchor
      let (n, r) ← match r.next? with
        | some (.scalar text plain) => some (.scalar text plain tag, r.skip)
        | some .blockEntry =>
          if place.entries then (entries? fuel r).map fun x => (.sequence x.1, x.2)
          else if anchor.isSome || tag.isSome then some (.scalar "" true tag, r)
          else none
        | some .flowSequenceStart =>
          (flowItems? fuel true r.skip).map fun x => (.sequence x.1, x.2)
        | some .flowMappingStart =>
          (flowEntries? fuel true r.skip).map fun x => (.mapping x.1, x.2)
        | some .sequenceStart =>
          if place.block then (items? fuel r.skip).map fun x => (.sequence x.1, x.2)
          else if anchor.isSome || tag.isSome then some (.scalar "" true tag, r)
          else none
        | some .mappingStart =>
          if place.block then (pairs? fuel r.skip).map fun x => (.mapping x.1, x.2)
          else if anchor.isSome || tag.isSome then some (.scalar "" true tag, r)
          else none
        | _ => if anchor.isSome || tag.isSome then some (.scalar "" true tag, r) else none
      return (n, r.complete number n)

/-- Items of a block sequence up to its end. -/
def items? : Nat → NodeReader → Option (List Node × NodeReader)
  | 0, _ => none
  | fuel + 1, r =>
    match r.tokens with
    | .blockEnd :: _ => some ([], r.skip)
    | .blockEntry :: _ => do
      let r := r.skip
      let (n, r) ← match r.next? with
        | some .blockEntry | some .blockEnd => some (Node.absent, r)
        | _ => node? fuel ⟨true, false⟩ r
      let (more, r) ← items? fuel r
      return (n :: more, r)
    | _ => none

/-- Items of a sequence that is not indented. -/
def entries? : Nat → NodeReader → Option (List Node × NodeReader)
  | 0, _ => none
  | fuel + 1, r =>
    match r.tokens with
    | .blockEntry :: _ => do
      let r := r.skip
      let (n, r) ← match r.next? with
        | some .blockEntry | some .key | some .value | some .blockEnd => some (Node.absent, r)
        | _ => node? fuel ⟨true, false⟩ r
      let (more, r) ← entries? fuel r
      return (n :: more, r)
    | _ => some ([], r)

/-- Entries of a block mapping up to its end. -/
def pairs? : Nat → NodeReader → Option (List (Node × Node) × NodeReader)
  | 0, _ => none
  | fuel + 1, r =>
    match r.tokens with
    | .blockEnd :: _ => some ([], r.skip)
    | .key :: _ => do
      let r := r.skip
      let (k, r) ← match r.next? with
        | some .key | some .value | some .blockEnd => some (Node.absent, r)
        | _ => node? fuel ⟨true, true⟩ r
      let (v, r) ← match r.next? with
        | some .value =>
          let r := r.skip
          match r.next? with
          | some .key | some .value | some .blockEnd => some (Node.absent, r)
          | _ => node? fuel ⟨true, true⟩ r
        | _ => some (Node.absent, r)
      let (more, r) ← pairs? fuel r
      return ((k, v) :: more, r)
    | _ => none

/-- Items of a flow sequence up to its end. -/
def flowItems? : Nat → Bool → NodeReader → Option (List Node × NodeReader)
  | 0, _, _ => none
  | fuel + 1, first, r =>
    match r.tokens with
    | .flowSequenceEnd :: _ => some ([], r.skip)
    | t :: _ => do
      if !first && t ≠ .flowEntry then none
      let r := if first then r else r.skip
      match r.next? with
      | some .flowSequenceEnd => return ([], r.skip)
      | some .key =>
        let (n, r) ← flowPair? fuel r.skip
        let (more, r) ← flowItems? fuel false r
        return (n :: more, r)
      | _ =>
        let (n, r) ← node? fuel ⟨false, false⟩ r
        let (more, r) ← flowItems? fuel false r
        return (n :: more, r)
    | [] => none

/-- A single pair in a flow sequence, after its key mark. A missing key takes the token
    after the mark with it. -/
def flowPair? : Nat → NodeReader → Option (Node × NodeReader)
  | 0, _ => none
  | fuel + 1, r => do
    let (k, r) ← match r.next? with
      | some .value | some .flowEntry | some .flowSequenceEnd => some (Node.absent, r.skip)
      | _ => node? fuel ⟨false, false⟩ r
    let (v, r) ← match r.next? with
      | some .value =>
        let r := r.skip
        match r.next? with
        | some .flowEntry | some .flowSequenceEnd => some (Node.absent, r)
        | _ => node? fuel ⟨false, false⟩ r
      | _ => some (Node.absent, r)
    return (.mapping [(k, v)], r)

/-- Entries of a flow mapping up to its end. -/
def flowEntries? : Nat → Bool → NodeReader → Option (List (Node × Node) × NodeReader)
  | 0, _, _ => none
  | fuel + 1, first, r =>
    match r.tokens with
    | .flowMappingEnd :: _ => some ([], r.skip)
    | t :: _ => do
      if !first && t ≠ .flowEntry then none
      let r := if first then r else r.skip
      match r.next? with
      | some .flowMappingEnd => return ([], r.skip)
      | some .key =>
        let r := r.skip
        let (k, r) ← match r.next? with
          | some .value | some .flowEntry | some .flowMappingEnd => some (Node.absent, r)
          | _ => node? fuel ⟨false, false⟩ r
        let (v, r) ← match r.next? with
          | some .value =>
            let r := r.skip
            match r.next? with
            | some .flowEntry | some .flowMappingEnd => some (Node.absent, r)
            | _ => node? fuel ⟨false, false⟩ r
          | _ => some (Node.absent, r)
        let (more, r) ← flowEntries? fuel false r
        return ((k, v) :: more, r)
      | _ =>
        let (k, r) ← node? fuel ⟨false, false⟩ r
        let (more, r) ← flowEntries? fuel false r
        return ((k, Node.absent) :: more, r)
    | [] => none

end

/-! ## Documents -/

/-- The shorthands that every document knows. -/
def defaultShorthands : List (String × String) := [("!", "!"), ("!!", "tag:yaml.org,2002:")]

/-- Directives in front of a document: at most one version, which is 1.1 or 1.2, and
    each shorthand at most once. -/
def directives? (version : Bool) (r : NodeReader) : List Token → Option NodeReader
  | .version major minor :: rest =>
    if version || major ≠ 1 || (minor ≠ 1 && minor ≠ 2) then none else directives? true r rest
  | .tagShort handle whole :: rest =>
    if (r.shorthands.lookup handle).isSome then none
    else directives? version { r with shorthands := (handle, whole) :: r.shorthands } rest
  | rest => some { r with tokens := rest }

/-- The nodes of the anchors, by number. -/
def anchored (r : NodeReader) : List (Nat × Node) :=
  r.begun.filterMap fun b => (r.nodes.lookup b.2).map fun n => (b.1, n)

end NodeReader

/-- The document of a text: no result if the text is not YAML or has several documents,
    and no document if it is empty. -/
def document? (cs : List Char) : Option (Option Document) := do
  let ts ← tokens? cs
  if ts.isEmpty then return none
  let fuel := 2 * ts.length + 2
  let r ← NodeReader.directives? false ⟨[], [], [], [], []⟩ ts
  let explicit := r.next? == some .documentStart
  if !explicit && r.tokens.length ≠ ts.length then none
  let r := { if explicit then r.skip else r with shorthands := r.shorthands ++ NodeReader.defaultShorthands }
  let (root, r) ← match r.next? with
    | none => some (Node.absent, r)
    | some t =>
      if explicit && (t = .documentStart || t = .documentEnd || t matches .version .. ||
          t matches .tagShort ..) then
        some (Node.absent, r)
      else NodeReader.node? fuel ⟨true, false⟩ r
  if (r.tokens.dropWhile (· = .documentEnd)).isEmpty then return some ⟨root, r.anchored⟩
  else none

end ServiceSchema.Yaml
