/-
  ServiceSchema.Models — the model names that types may refer to.

  Names are declared one by one, and declaring a name twice is a fault. Declaring the
  models of a definition stops at the first name that is already there and keeps the
  ones before it.
-/
import ServiceSchema.Definition
import ServiceSchema.Fault

namespace ServiceSchema

/-- Declared model names, the newest first. -/
structure Models where
  names : List String
  deriving DecidableEq, Repr

namespace Models

def empty : Models := ⟨[]⟩

instance : Inhabited Models := ⟨empty⟩

def contains (ms : Models) (name : String) : Bool := ms.names.contains name

def size (ms : Models) : Nat := ms.names.length

def isEmpty (ms : Models) : Bool := ms.names.isEmpty

/-- Declare one name. -/
def declare (ms : Models) (name : String) : Except SchemaFault Models :=
  if ms.contains name then .error (.duplicateModel name) else .ok ⟨name :: ms.names⟩

/-- Declare names in order up to the first repeat: the names declared now, and the
    fault if there was one. -/
def declareAll (ms : Models) : List String → Models × Except SchemaFault Unit
  | [] => (ms, .ok ())
  | name :: rest =>
    match ms.declare name with
    | .error fault => (ms, .error fault)
    | .ok ms' => ms'.declareAll rest

/-- Declare the models of a definition. -/
def collect (ms : Models) (d : Definition) : Models × Except SchemaFault Unit :=
  ms.declareAll d.models.keys

end Models

end ServiceSchema
