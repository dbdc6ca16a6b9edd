/-
  ServiceSchema.Definition — what one definition file declares.

  A model is a record of named fields. A service is a collection of methods, and a
  method has its parameters and, under the key `return`, the type it returns. Types
  are kept as written. All orders are those of the document.
-/
import ServiceSchema.Name
import ServiceSchema.Table

namespace ServiceSchema

/-- Names with the types written for them. -/
abbrev Fields := Table String

/-- A method's entries: its parameters and, possibly, `return`. -/
structure Method where
  entries : Fields
  deriving DecidableEq, Inhabited

namespace Method

/-- The parameters in order, without `return`. -/
def params (m : Method) : List (String × String) := m.entries.entries.filter (·.1 ≠ returnKey)

/-- The type written for `return`, if there is one. -/
def returns (m : Method) : Option String := m.entries.get? returnKey

end Method

abbrev Model := Fields

abbrev Service := Table Method

/-- The models and services of one file. -/
structure Definition where
  models : Table Model
  services : Table Service
  deriving DecidableEq

namespace Definition

def empty : Definition := ⟨Table.empty, Table.empty⟩

instance : Inhabited Definition := ⟨empty⟩

end Definition

end ServiceSchema
