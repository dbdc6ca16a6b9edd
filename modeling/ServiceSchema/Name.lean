/-
  ServiceSchema.Name — the lexical rules of names.

  Names end up in Go source as they are written, so the keywords of Go are off limits.
  The suffix `Params` is kept for the request structs that are made up per method.
  A field or parameter becomes a struct member under its exported name: the same name
  with its first character in upper case.
-/
import ServiceSchema.Text.Upper

namespace ServiceSchema

/-- The keywords of Go. -/
def goKeywords : List String :=
  ["break", "default", "func", "interface", "select", "case", "defer", "go", "map", "struct",
   "chan", "else", "goto", "package", "switch", "const", "fallthrough", "if", "range", "type",
   "continue", "for", "import", "return", "var"]

/-- The ending of the request structs. -/
def requestSuffix : String := "Params"

/-- The method entry that holds the return type instead of a parameter. -/
def returnKey : String := "return"

/-- A keyword, or a name that ends like a request struct. -/
def isReserved (name : String) : Bool :=
  goKeywords.contains name || requestSuffix.toList.isSuffixOf name.toList

/-- The name with its first character in upper case; the rest is untouched. -/
def exportedName (name : String) : String :=
  match name.toList with
  | [] => ""
  | c :: rest => String.ofList (Text.upper c ++ rest)

end ServiceSchema
