/-
  ServiceSchema.DefinitionFile — definitions as they are written in YAML.

    Models:
      User: { id: string, tags: "[]string" }
    Services:
      Users:
        get: { id: string, return: User }

  A blank text, and a document that is null, declares nothing. So does any part that is
  left out. Keys other than the two sections are ignored. A name that is repeated keeps
  its first place and takes its last value, but a section may not be repeated.
-/
import ServiceSchema.Definition
import ServiceSchema.Text.Blank
import ServiceSchema.Yaml.View

namespace ServiceSchema

namespace Yaml.Document

variable (d : Document)

/-- A table of whatever `read` makes of the values. -/
def table {α : Type} (read : Node → Reading α) (n : Node) : Reading (Table α) := do
  let entries ← (← d.optionalKeyed n).mapM fun p => do return (p.1, ← read p.2)
  return Table.ofList entries

/-- Names with their types. -/
def fields (n : Node) : Reading Fields := d.table d.text n

def method (n : Node) : Reading Method := do return ⟨← d.fields n⟩

def service (n : Node) : Reading Service := d.table d.method n

/-- A section of the file, empty if it is left out. -/
def sectionOf {α : Type} (read : Node → Reading α) (pairs : List (String × Node)) (key : String) :
    Reading (Table α) := do
  match ← field pairs key with
  | none => return Table.empty
  | some n => d.table read n

def definition : Reading Definition := do
  let pairs ← d.optionalKeyed d.root
  return ⟨← d.sectionOf d.fields pairs "Models", ← d.sectionOf d.service pairs "Services"⟩

end Yaml.Document

/-- The definition that a text declares. -/
def Definition.ofText? (text : String) : Option Definition := do
  if (Text.trim text.toList).isEmpty then return Definition.empty
  match ← Yaml.document? text.toList with
  | none => return Definition.empty
  | some d => d.read? d.definition

end ServiceSchema
