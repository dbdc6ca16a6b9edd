/-
  ServiceSchema.Go.Source — the Go text of a batch of definitions, before formatting.

  A model becomes a struct with exported members and tags that keep the names. A
  method becomes a request struct with one member per parameter. A service becomes an
  interface, and a function that registers one handler per method. All models come
  before all services.
-/
import ServiceSchema.Options
import ServiceSchema.TypeExpr

namespace ServiceSchema.Go

/-- A struct member: its exported name, its type, and the name that its tag keeps. -/
structure Member where
  name : String
  type : String
  tag : String
  deriving DecidableEq, Repr

structure Struct where
  name : String
  members : List Member
  deriving DecidableEq, Repr

/-- A method of an interface. -/
structure Signature where
  name : String
  params : List (String × String)
  returns : Option String
  deriving DecidableEq, Repr

structure Interface where
  name : String
  methods : List Signature
  deriving DecidableEq, Repr

/-- The registration of one method. -/
structure Handler where
  service : String
  method : String
  request : String
  /-- Members of the request struct that are passed on, in order. -/
  args : List String
  hasReturn : Bool
  deriving DecidableEq, Repr

/-- Everything that is written for one service. -/
structure Endpoint where
  requests : List Struct
  interface : Interface
  handlers : List Handler
  deriving DecidableEq, Repr

/-- The declarations of a generated file. -/
structure Source where
  models : List Struct
  endpoints : List Endpoint
  deriving DecidableEq, Repr

/-! ## From definitions -/

/-- Members for named types, each type read against the declared models. -/
def membersOf (ms : Models) (fields : List (String × String)) : Except SchemaFault (List Member) :=
  fields.mapM fun f => do
    let type ← TypeExpr.read ms f.2
    return ⟨exportedName f.1, type.render, f.1⟩

def modelStruct (ms : Models) (name : String) (model : Model) : Except SchemaFault Struct := do
  return ⟨name, ← membersOf ms model.entries⟩

/-- The struct that a method's request is decoded into. -/
def requestStruct (ms : Models) (name : String) (method : Method) : Except SchemaFault Struct := do
  return ⟨name ++ requestSuffix, ← membersOf ms method.params⟩

/-- What one method adds to its service. -/
def methodParts (ms : Models) (service : String) (name : String) (method : Method) :
    Except SchemaFault (Struct × Signature × Handler) := do
  let request ← requestStruct ms name method
  let returns ← method.returns.mapM fun raw => do return (← TypeExpr.read ms raw).render
  return (request,
    ⟨name, request.members.map fun m => (m.tag, m.type), returns⟩,
    ⟨service, name, request.name, request.members.map Member.name, returns.isSome⟩)

def endpointOf (ms : Models) (name : String) (service : Service) : Except SchemaFault Endpoint := do
  let parts ← service.entries.mapM fun m => methodParts ms name m.1 m.2
  return ⟨parts.map (·.1), ⟨name, parts.map (·.2.1)⟩, parts.map (·.2.2)⟩

/-- The declarations of one definition, models first. -/
def sourceOf (ms : Models) (d : Definition) : Except SchemaFault Source := do
  let models ← d.models.entries.mapM fun m => modelStruct ms m.1 m.2
  let endpoints ← d.services.entries.mapM fun s => endpointOf ms s.1 s.2
  return ⟨models, endpoints⟩

/-- The declarations of a batch of definitions, in order. -/
def sourceOfAll (ms : Models) (ds : List Definition) : Except SchemaFault Source := do
  let sources ← ds.mapM (sourceOf ms)
  return ⟨sources.flatMap Source.models, sources.flatMap Source.endpoints⟩

/-! ## Text

A declaration is a list of lines, and ends in a closing brace. -/

def Member.line (m : Member) : String :=
  m.name ++ " " ++ m.type ++ " `json:\"" ++ m.tag ++ "\"`"

def Struct.lines (s : Struct) : List String :=
  ("type " ++ s.name ++ " struct \x7b") :: s.members.map Member.line ++ ["\x7d"]

def Signature.line (s : Signature) : String :=
  s.name ++ "(" ++ ", ".intercalate (s.params.map fun p => p.1 ++ " " ++ p.2) ++
    match s.returns with
    | some type => ") (" ++ type ++ ", error)"
    | none => ") error"

def Interface.lines (i : Interface) : List String :=
  ("type " ++ i.name ++ " interface \x7b") :: i.methods.map Signature.line ++ ["\x7d"]

/-- The statement that answers a request with its error. -/
def respondError : String :=
  "return c.Status(fiber.StatusInternalServerError).JSON(fiber.Map\x7b\"message\": err.Error()\x7d)"

def Handler.lines (h : Handler) : List String :=
  let call := "service." ++ h.method ++ "(" ++ ", ".intercalate (h.args.map ("v." ++ ·)) ++ ")"
  ["app.Post(\"/" ++ h.service ++ "." ++ h.method ++ "\", func(c *fiber.Ctx) error \x7b",
   "v := new(" ++ h.request ++ ")",
   "if err := c.BodyParser(v); err != nil \x7b",
   respondError,
   "\x7d",
   (if h.hasReturn then "ret, err := " else "err := ") ++ call,
   "if err != nil \x7b",
   respondError,
   "\x7d",
   if h.hasReturn then "return c.JSON(ret)" else "return nil",
   "\x7d)"]

/-- Handlers with one empty line between neighbours; no handlers leave one empty line. -/
def handlerLines : List Handler → List String
  | [] => [""]
  | [h] => h.lines
  | h :: rest => h.lines ++ "" :: handlerLines rest

/-- The function that registers a service's handlers. -/
def Endpoint.wiring (e : Endpoint) : List String :=
  let name := e.interface.name
  ("func initializeFiber" ++ name ++ "(app *fiber.App, service " ++ name ++ ") \x7b") ::
    handlerLines e.handlers ++ ["\x7d"]

/-- The declarations of a source, each a list of lines. -/
def Source.blocks (s : Source) : List (List String) :=
  s.models.map Struct.lines ++
    s.endpoints.flatMap fun e => e.requests.map Struct.lines ++ [e.interface.lines, e.wiring]

/-- The whole file: banner, package, import, and the declarations with an empty line
    after each. -/
def Source.lines (o : GoOptions) (s : Source) : List String :=
  ["// THIS CODE WAS AUTO GENERATED", "package " ++ o.package, "", "import " ++ o.quotedImport, ""] ++
    s.blocks.flatMap (· ++ [""])

def Source.text (o : GoOptions) (s : Source) : String :=
  String.join ((s.lines o).map (· ++ "\n"))

end ServiceSchema.Go
