/-
  ServiceSchema.Proofs.Printer — the generated file of a plain batch, printed directly.

  A batch is legible (`Legible`) when its names and the package are ASCII identifiers, and the path
  of the import is made of the characters of such paths. It is plain (`Plain`) if the package is
  no keyword either.

  `Printer.file` prints the file line by line from the definitions, with its tabs and its
  columns, and with the types as they are written: no text is laid out, parsed or aligned
  afterwards. That the generator prints the same is the subject of
  `ServiceSchema.Proofs.PlainFile`.
-/
import ServiceSchema.Proofs.Acceptance
import ServiceSchema.Text.Letter

namespace ServiceSchema

/-! ## Plain batches -/

/-- A letter of ASCII or an underscore. -/
def isPlainStart (c : Char) : Bool := c.isAlpha || c == '_'

/-- A letter or digit of ASCII or an underscore. -/
def isPlainPart (c : Char) : Bool := c.isAlphanum || c == '_'

/-- An identifier in ASCII. -/
def isPlain (name : String) : Bool :=
  match name.toList with
  | [] => false
  | c :: rest => isPlainStart c && rest.all isPlainPart

/-- A character of an import path: a letter, digit or underscore, a dot, a slash or a dash. -/
def isPathPart (c : Char) : Bool := Text.isWordPart c || c == '.' || c == '/' || c == '-'

/-- A text without the double quotes around it, if it has both. -/
def unquoted : List Char → List Char
  | '"' :: rest => if rest.getLast? = some '"' then rest.dropLast else '"' :: rest
  | path => path

/-- The import path without blanks and quotes around it. -/
def GoOptions.importPath (o : GoOptions) : List Char := unquoted (Text.trim o.fiberImport.toList)

/-- All names and the package are ASCII identifiers, and the import path is one. -/
structure Legible (o : GoOptions) (ds : List Definition) : Prop where
  names : ∀ d ∈ ds, ∀ name ∈ d.names, isPlain name = true
  package : isPlain o.package = true
  pathNonempty : o.importPath ≠ []
  pathParts : ∀ c ∈ o.importPath, isPathPart c = true

/-- A legible batch whose package is no keyword. -/
structure Plain (o : GoOptions) (ds : List Definition) : Prop extends Legible o ds where
  noKeyword : o.package ∉ goKeywords

instance (o : GoOptions) (ds : List Definition) : Decidable (Legible o ds) :=
  decidable_of_iff ((∀ d ∈ ds, ∀ name ∈ d.names, isPlain name = true) ∧ isPlain o.package = true ∧
      o.importPath ≠ [] ∧ o.importPath.all isPathPart = true)
    ⟨fun h => ⟨h.1, h.2.1, h.2.2.1, List.all_eq_true.1 h.2.2.2⟩,
     fun h => ⟨h.names, h.package, h.pathNonempty, List.all_eq_true.2 h.pathParts⟩⟩

instance (o : GoOptions) (ds : List Definition) : Decidable (Plain o ds) :=
  decidable_of_iff (Legible o ds ∧ o.package ∉ goKeywords)
    ⟨fun h => ⟨h.1, h.2⟩, fun h => ⟨h.toLegible, h.noKeyword⟩⟩

/-! ## The printer -/

namespace Printer

/-- The width of the widest of some texts. -/
def widest (texts : List String) : Nat := (texts.map String.length).foldl max 0

/-- A text filled up to a width, and one space. -/
def padded (width : Nat) (text : String) : String :=
  text ++ String.ofList (List.replicate (width + 1 - text.length) ' ')

/-- The members of a struct in their columns. -/
def members (fields : List (String × String)) : List String :=
  let names := widest (fields.map fun f => exportedName f.1)
  let types := widest (fields.map Prod.snd)
  fields.map fun f => "\t" ++ padded names (exportedName f.1) ++ padded types f.2 ++ "`json:\"" ++
    f.1 ++ "\"`"

def struct (name : String) (fields : List (String × String)) : List String :=
  ("type " ++ name ++ " struct \x7b") :: members fields ++ ["\x7d"]

example : struct "book" [("title", "string"), ("pages", "map[string]int32")] =
    ["type book struct \x7b", "\tTitle string           `json:\"title\"`",
      "\tPages map[string]int32 `json:\"pages\"`", "\x7d"] := by decide +kernel

def signature (name : String) (method : Method) : String :=
  "\t" ++ name ++ "(" ++ ", ".intercalate (method.params.map fun p => p.1 ++ " " ++ p.2) ++
    match method.returns with
    | some type => ") (" ++ type ++ ", error)"
    | none => ") error"

def interface (name : String) (service : Service) : List String :=
  ("type " ++ name ++ " interface \x7b") :: service.entries.map (fun m => signature m.1 m.2) ++ ["\x7d"]

/-- The registration of a method: decode the request, call the service, answer. -/
def handler (service name : String) (method : Method) : List String :=
  let args := ", ".intercalate (method.params.map fun p => "v." ++ exportedName p.1)
  let respond :=
    "\t\t\treturn c.Status(fiber.StatusInternalServerError).JSON(fiber.Map\x7b\"message\": err.Error()\x7d)"
  ["\tapp.Post(\"/" ++ service ++ "." ++ name ++ "\", func(c *fiber.Ctx) error \x7b",
   "\t\tv := new(" ++ name ++ "Params)",
   "\t\tif err := c.BodyParser(v); err != nil \x7b",
   respond,
   "\t\t\x7d",
   (if method.returns.isSome then "\t\tret, err := service." else "\t\terr := service.") ++ name ++
     "(" ++ args ++ ")",
   "\t\tif err != nil \x7b",
   respond,
   "\t\t\x7d",
   if method.returns.isSome then "\t\treturn c.JSON(ret)" else "\t\treturn nil",
   "\t\x7d)"]

/-- The function that registers all methods, with an empty line between neighbours. -/
def wiring (name : String) (service : Service) : List String :=
  ("func initializeFiber" ++ name ++ "(app *fiber.App, service " ++ name ++ ") \x7b") ::
    [""].intercalate (service.entries.map fun m => handler name m.1 m.2) ++ ["\x7d"]

/-- The declarations of a service, each a list of lines. -/
def service (name : String) (service : Service) : List (List String) :=
  service.entries.map (fun m => struct (m.1 ++ "Params") m.2.params) ++
    [interface name service, wiring name service]

/-- All declarations: the models of all definitions, then the services of all. -/
def blocks (ds : List Definition) : List (List String) :=
  (ds.flatMap fun d => d.models.entries.map fun m => struct m.1 m.2.entries) ++
    ds.flatMap fun d => d.services.entries.flatMap fun s => service s.1 s.2

/-- The whole file, with one empty line before each declaration. -/
def file (o : GoOptions) (ds : List Definition) : String :=
  let lines :=
    ["// THIS CODE WAS AUTO GENERATED", "package " ++ o.package, "",
     "import \"" ++ String.ofList o.importPath ++ "\""] ++ (blocks ds).flatMap ("" :: ·)
  String.join (lines.map (· ++ "\n"))

end Printer

end ServiceSchema
