/-
  ServiceSchema.Bundled — the libraries that the program runs with.

  A reader of the YAML documents that projects are written in, a walk in the order of
  names, and a check of the grammar that the tree-sitter parser of Go files follows. What
  is proved of a project holds for other libraries as well.
-/
import ServiceSchema.DefinitionFile
import ServiceSchema.Go.Program
import ServiceSchema.OptionsFile
import ServiceSchema.Project

namespace ServiceSchema

def Libraries.bundled : Libraries where
  readOptions := Options.ofText?
  readDefinition := Definition.ofText?
  walk := Disk.Node.visits
  check := Go.checkGrammar

end ServiceSchema
