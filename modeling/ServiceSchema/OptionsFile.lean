/-
  ServiceSchema.OptionsFile — a project's configuration as it is written in YAML.

    folder: defs
    outputFolder: api
    go:
      package: api
      fiberImport: github.com/gofiber/fiber/v2

  All keys but `outputFile` have to be there, none may be repeated, and other keys are
  ignored.
-/
import ServiceSchema.Options
import ServiceSchema.Yaml.View

namespace ServiceSchema

namespace Yaml.Document

variable (d : Document)

/-- A text that has to be there. -/
def required (pairs : List (String × Node)) (key : String) : Reading String := do
  match ← field pairs key with
  | some n => d.text n
  | none => failure

/-- A text that may be left out. -/
def omissible (pairs : List (String × Node)) (key : String) : Reading (Option String) := do
  match ← field pairs key with
  | none => return none
  | some n =>
    match ← d.optional n with
    | none => return none
    | some n => return some (← d.text n)

def goOptions (n : Node) : Reading GoOptions := do
  let pairs ← d.keyed n
  return ⟨← d.required pairs "package", ← d.required pairs "fiberImport"⟩

def options : Reading Options := do
  let pairs ← d.keyed d.root
  let go ← match ← field pairs "go" with
    | some n => d.goOptions n
    | none => failure
  return ⟨← d.required pairs "folder", ← d.required pairs "outputFolder",
    ← d.omissible pairs "outputFile", go⟩

end Yaml.Document

/-- The configuration that a text describes. -/
def Options.ofText? (text : String) : Option Options := do
  match ← Yaml.document? text.toList with
  | some d => d.read? d.options
  | none => none

end ServiceSchema
