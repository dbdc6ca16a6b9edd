/-
  ServiceSchema.Check — the naming rules of a definition.

  No model, field, service, method or parameter has a reserved name, the entry
  `return` of a method apart. The fields of a model, and the entries of a method, stay
  distinct when they are exported. A method has at least one entry. The first rule
  that is broken, in document order with models first, is the fault.
-/
import ServiceSchema.Definition
import ServiceSchema.Fault

namespace ServiceSchema

def checkName (name : String) : Except SchemaFault Unit :=
  if isReserved name then .error (.reservedName name) else .ok ()

/-- Exported names are distinct from each other and from those already seen. -/
def checkExported (seen : List String) : List String → Except SchemaFault Unit
  | [] => .ok ()
  | name :: rest =>
    let exported := exportedName name
    if seen.contains exported then .error (.duplicateField name exported)
    else checkExported (exported :: seen) rest

/-- Field names stay distinct as members of a struct. -/
def Table.checkMembers (fields : Fields) : Except SchemaFault Unit := checkExported [] fields.keys

def checkModel (name : String) (model : Model) : Except SchemaFault Unit := do
  checkName name
  model.checkMembers
  model.keys.forM checkName

def checkMethod (name : String) (method : Method) : Except SchemaFault Unit := do
  checkName name
  if method.entries.isEmpty then .error (.emptyMethod name)
  method.entries.checkMembers
  method.entries.keys.forM fun key => if key = returnKey then .ok () else checkName key

def checkService (name : String) (service : Service) : Except SchemaFault Unit := do
  checkName name
  service.entries.forM fun m => checkMethod m.1 m.2

/-- All naming rules of one definition. -/
def Definition.check (d : Definition) : Except SchemaFault Unit := do
  d.models.entries.forM fun m => checkModel m.1 m.2
  d.services.entries.forM fun s => checkService s.1 s.2

end ServiceSchema
