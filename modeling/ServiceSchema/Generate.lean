/-
  ServiceSchema.Generate — from definitions to the generated file.

  `generateGo` writes the file for definitions and declared models that are taken as
  they are. `generateAll` first checks every definition and declares its models, so
  that types may refer to the models of all definitions. Both take the check that the
  finished file has to pass.
-/
import ServiceSchema.Check
import ServiceSchema.Go.Format
import ServiceSchema.Go.Source

namespace ServiceSchema

/-- The name of the generator. -/
def generatorName : String := "go-fiber"

/-- The extension of generated files. -/
def outputExtension : String := "go"

/-- The generated file for a batch of definitions. -/
def generateGo (check : Go.Check) (o : GoOptions) (ms : Models) (ds : List Definition) :
    Except SchemaFault String := do
  let source ← Go.sourceOfAll ms ds
  match Go.format check (source.text o) with
  | .ok text => return text
  | .error fault => throw (.emit fault)

/-- Check definitions one after another and declare their models. -/
def declareChecked (ms : Models) : List Definition → Except SchemaFault Models
  | [] => .ok ms
  | d :: rest => do
    d.check
    let (ms', declared) := ms.collect d
    declared
    declareChecked ms' rest

/-- Check a batch of definitions and generate its file. -/
def generateAll (check : Go.Check) (o : Options) (ds : List Definition) :
    Except SchemaFault String := do
  let ms ← declareChecked Models.empty ds
  generateGo check o.go ms ds

end ServiceSchema
