/-
  ServiceSchema.Options — what a project's configuration says.

  The output goes to the named file; with no file named it goes into the output
  folder, whose own path is also the file's stem.
-/
import ServiceSchema.Path
import ServiceSchema.Text.Blank

namespace ServiceSchema

/-- Options of the generated Go file. -/
structure GoOptions where
  package : String
  fiberImport : String
  deriving DecidableEq, Repr

/-- A project's configuration. -/
structure Options where
  folder : String
  outputFolder : String
  outputFile : Option String
  go : GoOptions
  deriving DecidableEq, Repr

/-- The configuration file, in the project's folder. -/
def configFile : String := "rpcgen.yml"

namespace GoOptions

/-- The import path in double quotes; one that has its quotes already keeps them. -/
def quotedImport (o : GoOptions) : String :=
  let path := Text.trim o.fiberImport.toList
  match path with
  | '"' :: rest => if rest.getLast? = some '"' then String.ofList path else "\"" ++ String.ofList path ++ "\""
  | _ => "\"" ++ String.ofList path ++ "\""

end GoOptions

/-- Where the generated file goes, seen from the project's folder. -/
def Options.outputPath (o : Options) (extension : String) : String :=
  match o.outputFile with
  | some file => file
  | none => Path.join o.outputFolder (o.outputFolder ++ "." ++ extension)

end ServiceSchema
