/-
  ServiceSchema.TypeExpr — type expressions and how they are read and written.

    type  ::= name | [] type | map[ base ] type
    name  ::= base | a declared model

  The written form is also the Go spelling, so `render` gives back what `read` was
  given. A reserved name is refused before anything else is tried, and a name that is
  declared is a name even if it looks like a list or a map.
-/
import ServiceSchema.Models

namespace ServiceSchema

/-- The scalar types; only they can be keys of a map. -/
inductive BaseType where
  | string
  | int32
  | int64
  | uint32
  | uint64
  | float32
  | float64
  deriving DecidableEq, Repr

namespace BaseType

def all : List BaseType := [string, int32, int64, uint32, uint64, float32, float64]

def name : BaseType → String
  | string => "string"
  | int32 => "int32"
  | int64 => "int64"
  | uint32 => "uint32"
  | uint64 => "uint64"
  | float32 => "float32"
  | float64 => "float64"

def ofName? (text : String) : Option BaseType := all.find? (·.name = text)

/-- The place of a base type among all of them. -/
def index (b : BaseType) : Nat := all.idxOf b

def read (text : String) : Except SchemaFault BaseType :=
  match ofName? text with
  | some b => .ok b
  | none => .error (.notBaseType text)

end BaseType

/-- A name of a base type. -/
def isBase (name : String) : Bool := (BaseType.ofName? name).isSome

/-- A type as it is understood. -/
inductive TypeExpr where
  | named (name : String)
  | array (item : TypeExpr)
  | map (key : BaseType) (value : TypeExpr)
  deriving DecidableEq, Repr

namespace TypeExpr

/-- The Go spelling of a type. -/
def render : TypeExpr → String
  | named name => name
  | array item => "[]" ++ item.render
  | map key value => "map[" ++ key.name ++ "]" ++ value.render

/-- Length in bytes of the UTF-8 form. -/
def byteLength : List Char → Nat
  | [] => 0
  | c :: rest => c.utf8Size + byteLength rest

/-- How a text that is no name goes on. -/
inductive Shape where
  | array (item : List Char)
  | map (key value : List Char)
  | unbracketed
  | other
  deriving DecidableEq, Repr

/-- A list has something after its brackets. What starts with `map` and has at least
    four more bytes must be a map, whose key ends at the first closing bracket. -/
def shape : List Char → Shape
  | '[' :: ']' :: c :: item => .array (c :: item)
  | 'm' :: 'a' :: 'p' :: rest =>
    if byteLength rest < 4 then .other
    else
      match rest with
      | '[' :: inner =>
        match inner.dropWhile (· ≠ ']') with
        | _ :: value => .map (inner.takeWhile (· ≠ ']')) value
        | [] => .unbracketed
      | _ => .unbracketed
  | _ => .other

theorem length_lt_of_shape_array {cs item : List Char} (h : shape cs = .array item) :
    item.length < cs.length := by
  unfold shape at h
  split at h
  · cases h; simp
  · split at h
    · cases h
    · split at h
      · split at h <;> cases h
      · cases h
  · cases h

theorem length_lt_of_shape_map {cs key value : List Char} (h : shape cs = .map key value) :
    value.length < cs.length := by
  unfold shape at h
  split at h
  · cases h
  · split at h
    · cases h
    · split at h
      · rename_i inner _
        split at h
        · rename_i c rest hd
          cases h
          have hle := (List.dropWhile_sublist (fun x => decide (x ≠ ']')) (l := inner)).length_le
          rw [hd] at hle
          simp only [List.length_cons] at hle ⊢
          omega
        · cases h
      · cases h
  · cases h

/-- Read a type against the declared models. -/
def readChars (ms : Models) (cs : List Char) : Except SchemaFault TypeExpr :=
  let text := String.ofList cs
  if isReserved text then .error (.reservedName text)
  else if isBase text || ms.contains text then .ok (named text)
  else
    match _shape : shape cs with
    | .array item => do return array (← readChars ms item)
    | .map key value => do
      let base ← BaseType.read (String.ofList key)
      return map base (← readChars ms value)
    | .unbracketed => .error (.missingBracket text)
    | .other => .error (.unparseableType text)
termination_by cs.length
decreasing_by
  · exact length_lt_of_shape_array _shape
  · exact length_lt_of_shape_map _shape

/-- Read a written type against the declared models. -/
def read (ms : Models) (raw : String) : Except SchemaFault TypeExpr := readChars ms raw.toList

end TypeExpr

end ServiceSchema
