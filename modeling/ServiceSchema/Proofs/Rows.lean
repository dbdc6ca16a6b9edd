/-
  ServiceSchema.Proofs.Rows — the generated file of a plain batch as rows of pieces.

  Every line of the file is given once, as pieces. The text before formatting has the
  characters of these pieces (`chars_fieldPieces` and its neighbours), line by line; blocks
  of rows say how deep the lines stand in the printed text.
-/
import ServiceSchema.Proofs.Blocks
import ServiceSchema.Proofs.TypeSpelling

namespace ServiceSchema

/-- A type as pieces. -/
def TypeExpr.pieces : TypeExpr → List Go.Piece
  | named name => [.word name]
  | array item => Go.bracketed .square [] ++ item.pieces
  | map key value => .word "map" :: Go.bracketed .square [.word key.name] ++ value.pieces

theorem TypeExpr.chars_pieces (t : TypeExpr) : Go.pieceChars t.pieces = t.render.toList := by
  induction t with
  | named name => simp [pieces, render, Go.Piece.chars]
  | array item ih => simp [pieces, render, ih, Go.Bracket.opener, Go.Bracket.closer]
  | map key value ih => simp [pieces, render, ih, Go.Bracket.opener, Go.Bracket.closer, Go.Piece.chars]

namespace Go

/-! ## Pieces of lines -/

open Piece hiding raw

/-- Groups of pieces with commas between them. -/
def commaList (groups : List (List Piece)) : List Piece := [sign .comma, gap 1].intercalate groups

/-- A name and one behind it, with a dot between them. -/
def selector (name other : String) : List Piece := [word name, sign .dot, word other]

def typeHead (kind name : String) : List Piece :=
  [word "type", gap 1, word name, gap 1, word kind, gap 1, opener .brace]

def wiringHead (name : String) : List Piece :=
  [word "func", gap 1, word ("initializeFiber" ++ name)] ++
    bracketed .paren ([word "app", gap 1, sign .star] ++ selector "fiber" "App" ++
      [sign .comma, gap 1, word "service", gap 1, word name]) ++ [gap 1, opener .brace]

/-- `app.Post("/service.method", func(c *fiber.Ctx) error {` -/
def postHead (service method : String) : List Piece :=
  selector "app" "Post" ++ [opener .paren, quoted ("/" ++ service ++ "." ++ method), sign .comma, gap 1,
    word "func"] ++ bracketed .paren ([word "c", gap 1, sign .star] ++ selector "fiber" "Ctx") ++
    [gap 1, word "error", gap 1, opener .brace]

/-- `v := new(methodParams)` -/
def requestPieces (method : String) : List Piece :=
  [word "v", gap 1, sign .define, gap 1, word "new"] ++ bracketed .paren [word (method ++ "Params")]

/-- `if err := c.BodyParser(v); err != nil {` -/
def decodeHead : List Piece :=
  [word "if", gap 1, word "err", gap 1, sign .define, gap 1] ++ selector "c" "BodyParser" ++
    bracketed .paren [word "v"] ++
    [sign .semi, gap 1, word "err", gap 1, sign .ne, gap 1, word "nil", gap 1, opener .brace]

/-- `return c.Status(fiber.StatusInternalServerError).JSON(fiber.Map{"message": err.Error()})` -/
def respondPieces : List Piece :=
  [word "return", gap 1] ++ selector "c" "Status" ++
    bracketed .paren (selector "fiber" "StatusInternalServerError") ++ [sign .dot, word "JSON"] ++
    bracketed .paren (selector "fiber" "Map" ++
      bracketed .brace ([quoted "message", sign .colon, gap 1] ++ selector "err" "Error" ++
        bracketed .paren []))

/-- `ret, err := service.method(v.A, v.B)` -/
def callPieces (hasReturn : Bool) (method : String) (args : List String) : List Piece :=
  (if hasReturn then [word "ret", sign .comma, gap 1] else []) ++
    [word "err", gap 1, sign .define, gap 1] ++ selector "service" method ++
    bracketed .paren (commaList (args.map fun arg => selector "v" arg))

/-- `if err != nil {` -/
def failedHead : List Piece :=
  [word "if", gap 1, word "err", gap 1, sign .ne, gap 1, word "nil", gap 1, opener .brace]

/-- `return c.JSON(ret)` or `return nil` -/
def answerPieces (hasReturn : Bool) : List Piece :=
  [word "return", gap 1] ++
    if hasReturn then selector "c" "JSON" ++ bracketed .paren [word "ret"] else [word "nil"]

section

variable (ms : Models)

/-- A written type as pieces. -/
def typePieces (raw : String) : List Piece :=
  match TypeExpr.read ms raw with
  | .ok t => t.pieces
  | .error _ => []

/-- A member of a struct, with the widths of its two gaps. -/
def fieldPieces (gaps : Nat × Nat) (f : String × String) : List Piece :=
  word (exportedName f.1) :: gap gaps.1 :: typePieces ms f.2 ++
    [gap gaps.2, Piece.raw ("json:\"" ++ f.1 ++ "\"")]

def paramPieces (p : String × String) : List Piece := word p.1 :: gap 1 :: typePieces ms p.2

def resultPieces : Option String → List Piece
  | some raw => bracketed .paren (typePieces ms raw ++ [sign .comma, gap 1, word "error"])
  | none => [word "error"]

def signaturePieces (name : String) (method : Method) : List Piece :=
  word name :: bracketed .paren (commaList (method.params.map (paramPieces ms))) ++
    gap 1 :: resultPieces ms method.returns

/-! ## Rows of declarations -/

/-- A struct, `gaps` being the widths of the gaps in its members. -/
def structRows (gaps : String × String → Nat × Nat) (name : String)
    (fields : List (String × String)) : List Row :=
  block (typeHead "struct" name) [] (fields.map fun f => ⟨0, fieldPieces ms (gaps f) f⟩)

def interfaceRows (name : String) (service : Service) : List Row :=
  block (typeHead "interface" name) [] (service.entries.map fun m => ⟨0, signaturePieces ms m.1 m.2⟩)

end

/-- What the handler of a method does. -/
def bodyRows (name : String) (method : Method) : List Row :=
  ⟨0, requestPieces name⟩ :: block decodeHead [] [⟨0, respondPieces⟩] ++
    ⟨0, callPieces method.returns.isSome name (method.params.map fun p => exportedName p.1)⟩ ::
    block failedHead [] [⟨0, respondPieces⟩] ++ [⟨0, answerPieces method.returns.isSome⟩]

def handlerRows (service name : String) (method : Method) : List Row :=
  block (postHead service name) [.paren] (bodyRows name method)

/-- The handlers of a service, with an empty row between neighbours. -/
def handlersRows (name : String) (service : Service) : List Row :=
  [⟨0, []⟩].intercalate (service.entries.map fun m => handlerRows name m.1 m.2)

def wiringRows (name : String) (service : Service) : List Row :=
  block (wiringHead name) [] (handlersRows name service)

/-! ## The text before formatting

The characters of each row are those of the line that is written for it. -/

section

variable {ms : Models}

theorem chars_typePieces {raw : String} (h : Readable ms raw) :
    pieceChars (typePieces ms raw) = raw.toList := by
  obtain ⟨t, ht⟩ := h
  rw [typePieces, ht]
  show pieceChars t.pieces = raw.toList
  rw [TypeExpr.chars_pieces, TypeExpr.render_of_read ht]

@[simp] theorem chars_selector (name other : String) :
    pieceChars (selector name other) = name.toList ++ '.' :: other.toList := by
  simp [selector, Piece.chars, Sign.chars]

theorem chars_commaList (groups : List (List Piece)) :
    pieceChars (commaList groups) = [',', ' '].intercalate (groups.map pieceChars) := by
  induction groups with
  | nil => rfl
  | cons g gs ih =>
    cases gs with
    | nil => simp [commaList, List.intercalate]
    | cons g' gs =>
      simp only [commaList, List.intercalate, List.map_cons, List.intersperse_cons_cons,
        List.flatten_cons, pieceChars_append, List.append_cancel_left_eq] at ih ⊢
      rw [ih]
      rfl

theorem chars_typeHead (kind name : String) :
    pieceChars (typeHead kind name) = ("type " ++ name ++ " " ++ kind ++ " \x7b").toList := by
  simp [typeHead, Piece.chars, Bracket.opener]

theorem chars_fieldPieces {f : String × String} (h : Readable ms f.2) :
    pieceChars (fieldPieces ms (1, 1) f) = (writtenMember f).line.toList := by
  simp [fieldPieces, Piece.chars, chars_typePieces h, Member.line, writtenMember]

theorem chars_paramPieces {p : String × String} (h : Readable ms p.2) :
    pieceChars (paramPieces ms p) = (p.1 ++ " " ++ p.2).toList := by
  simp [paramPieces, Piece.chars, chars_typePieces h]

theorem chars_params {params : List (String × String)} (h : ∀ p ∈ params, Readable ms p.2) :
    pieceChars (commaList (params.map (paramPieces ms))) =
      (", ".intercalate (params.map fun p => p.1 ++ " " ++ p.2)).toList := by
  rw [chars_commaList, String.toList_intercalate, List.map_map, List.map_map]
  exact congrArg _ (List.map_congr_left fun p hp => chars_paramPieces (h p hp))

theorem chars_signaturePieces {name : String} {method : Method}
    (hp : ∀ p ∈ method.params, Readable ms p.2) (hr : ∀ raw ∈ method.returns.toList, Readable ms raw) :
    pieceChars (signaturePieces ms name method) = (writtenSignature name method).line.toList := by
  cases hm : method.returns with
  | none =>
    simp [signaturePieces, writtenSignature, Signature.line, Piece.chars, Bracket.opener,
      Bracket.closer, chars_params hp, hm, resultPieces]
  | some raw =>
    rw [hm] at hr
    simp [signaturePieces, writtenSignature, Signature.line, Piece.chars, Bracket.opener,
      Bracket.closer, Sign.chars, chars_params hp, hm, resultPieces,
      chars_typePieces (hr raw (by simp))]

theorem chars_wiringHead (name : String) : pieceChars (wiringHead name) =
    ("func initializeFiber" ++ name ++ "(app *fiber.App, service " ++ name ++ ") \x7b").toList := by
  simp [wiringHead, Piece.chars, Sign.chars, Bracket.opener, Bracket.closer]

theorem chars_postHead (service method : String) : pieceChars (postHead service method) =
    ("app.Post(\"/" ++ service ++ "." ++ method ++ "\", func(c *fiber.Ctx) error \x7b").toList := by
  simp [postHead, Piece.chars, Sign.chars, Bracket.opener, Bracket.closer]

theorem chars_requestPieces (method : String) :
    pieceChars (requestPieces method) = ("v := new(" ++ (method ++ requestSuffix) ++ ")").toList := by
  simp [requestPieces, Piece.chars, Sign.chars, Bracket.opener, Bracket.closer, requestSuffix]

theorem chars_decodeHead :
    pieceChars decodeHead = "if err := c.BodyParser(v); err != nil \x7b".toList := by
  simp [decodeHead, Piece.chars, Sign.chars, Bracket.opener, Bracket.closer]

theorem chars_respondPieces : pieceChars respondPieces = respondError.toList := by
  simp [respondPieces, Piece.chars, Sign.chars, Bracket.opener, Bracket.closer, respondError]

theorem chars_args (args : List String) :
    pieceChars (commaList (args.map fun arg => selector "v" arg)) =
    (", ".intercalate (args.map ("v." ++ ·))).toList := by
  rw [chars_commaList, String.toList_intercalate, List.map_map, List.map_map]
  refine congrArg _ (List.map_congr_left fun arg _ => ?_)
  simp

theorem chars_callPieces (hasReturn : Bool) (method : String) (args : List String) :
    pieceChars (callPieces hasReturn method args) =
      ((if hasReturn then "ret, err := " else "err := ") ++
        ("service." ++ method ++ "(" ++ ", ".intercalate (args.map ("v." ++ ·)) ++ ")")).toList := by
  cases hasReturn <;>
    simp [callPieces, Piece.chars, Sign.chars, Bracket.opener, Bracket.closer, chars_args]

theorem chars_failedHead : pieceChars failedHead = "if err != nil \x7b".toList := by
  simp [failedHead, Piece.chars, Sign.chars, Bracket.opener]

theorem chars_answerPieces (hasReturn : Bool) :
    pieceChars (answerPieces hasReturn) =
      (if hasReturn then "return c.JSON(ret)" else "return nil").toList := by
  cases hasReturn <;> simp [answerPieces, Piece.chars, Bracket.opener, Bracket.closer]

end

end Go

end ServiceSchema
