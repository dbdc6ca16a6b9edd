/-
  ServiceSchema.Proofs.PlainLayout — the text of a plain batch, laid out and written.

  The text before formatting is made of the rows of its declarations (`lines_struct` and its
  neighbours), and what the printer prints is made of the same rows with their columns
  filled up (`Declaration.shown`).

  - `write_layout`: a plain batch is laid out without a fault and written as the printer
    prints it.
  - `file_eq_rows`: what is printed, row by row.
-/
import ServiceSchema.Proofs.PlainBlocks

namespace ServiceSchema.Go

/-! ## Rows of the text before formatting -/

section

variable {ms : Models}

theorem lines_struct {name : String} {fields : List (String × String)}
    (h : ∀ f ∈ fields, PlainField ms f) :
    (writtenStruct name fields).lines.map String.toList =
      (structRows ms (fun _ => (1, 1)) name fields).map Row.chars := by
  have hfields : (fields.map writtenMember).map (fun m => m.line.toList) =
      fields.map fun f => pieceChars (fieldPieces ms (1, 1) f) := by
    rw [List.map_map]
    exact List.map_congr_left fun f hf => (chars_fieldPieces (h f hf).type.readable).symm
  simp only [Struct.lines, writtenStruct, structRows, block, List.map_append, List.map_cons,
    List.map_map, List.map_nil, Function.comp_def, Row.chars, Row.deeper, chars_typeHead] at hfields ⊢
  rw [hfields]
  simp [closers, Piece.chars, Bracket.closer]

theorem lines_interface {s : String × Service} (h : PlainService ms s) :
    (writtenEndpoint s.1 s.2).interface.lines.map String.toList =
      (interfaceRows ms s.1 s.2).map Row.chars := by
  have hmethods : (s.2.entries.map fun m => writtenSignature m.1 m.2).map (fun m => m.line.toList) =
      s.2.entries.map fun m => pieceChars (signaturePieces ms m.1 m.2) := by
    rw [List.map_map]
    refine List.map_congr_left fun m hm => (chars_signaturePieces ?_ ?_).symm
    · exact fun p hp => ((h.methods m hm).params p hp).type.readable
    · exact fun raw hr => ((h.methods m hm).returns raw hr).readable
  simp only [Interface.lines, writtenEndpoint, interfaceRows, block, List.map_append, List.map_cons,
    List.map_map, List.map_nil, Function.comp_def, Row.chars, Row.deeper, chars_typeHead] at hmethods ⊢
  rw [hmethods]
  simp [closers, Piece.chars, Bracket.closer]

end

theorem lines_handler (service name : String) (method : Method) :
    (writtenHandler service name method).lines.map String.toList =
      (handlerRows service name method).map Row.chars := by
  simp only [Handler.lines, writtenHandler, handlerRows, bodyRows, block, List.map_cons, List.map_nil,
    List.cons_append, List.nil_append, Row.chars, Row.deeper, chars_postHead, chars_requestPieces,
    chars_decodeHead,
    chars_respondPieces, chars_callPieces, chars_failedHead, chars_answerPieces]
  rfl

/-- Handlers before formatting are their rows, unless there are none. -/
theorem lines_handlers (name : String) {methods : List (String × Method)} (h : methods ≠ []) :
    (handlerLines (methods.map fun m => writtenHandler name m.1 m.2)).map String.toList =
      ([⟨0, []⟩].intercalate (methods.map fun m => handlerRows name m.1 m.2)).map Row.chars := by
  induction methods with
  | nil => exact absurd rfl h
  | cons m methods ih =>
    cases methods with
    | nil =>
      rw [List.map_singleton, List.map_singleton, List.intercalate_singleton]
      exact lines_handler name m.1 m.2
    | cons m' methods =>
      have htail := ih (List.cons_ne_nil _ _)
      simp only [List.map_cons, List.intercalate_cons_cons, handlerLines, List.map_append,
        lines_handler] at htail ⊢
      rw [htail]
      simp [Row.chars]

theorem lines_wiring {name : String} {service : Service} (h : service.entries ≠ []) :
    (writtenEndpoint name service).wiring.map String.toList =
      (wiringRows name service).map Row.chars := by
  have hbody := lines_handlers name h
  simp only [Endpoint.wiring, writtenEndpoint, wiringRows, handlersRows, block, List.map_append,
    List.map_cons, List.map_nil, List.map_map, hbody, Row.chars, chars_wiringHead]
  rfl

theorem lines_wiring_empty {name : String} {service : Service} (h : service.entries = []) :
    (writtenEndpoint name service).wiring.map String.toList =
      (block (wiringHead name) [] [⟨0, []⟩]).map Row.chars := by
  simp only [Endpoint.wiring, writtenEndpoint, h, List.map_nil, handlerLines, block,
    List.map_append, List.map_cons, Row.chars, chars_wiringHead]
  rfl

/-! ## Rows of the printed text -/

/-- The row as it is written, without the end of its line. -/
def Row.shown (r : Row) : List Char :=
  if r.chars.isEmpty then [] else List.replicate r.depth '\t' ++ r.chars

theorem unlines_shown (rows : List Row) :
    Text.unlines (rows.map Row.shown) = rows.flatMap Row.text := by
  rw [Text.unlines, List.flatMap_map]
  rfl

theorem shown_of_isLine {ps : List Piece} (h : IsLine ps) (depth : Nat) :
    Row.shown ⟨depth, ps⟩ = List.replicate depth '\t' ++ pieceChars ps := by
  obtain ⟨c, cs, hc, -⟩ := h.exists_head
  rw [Row.shown, Row.chars, hc]
  rfl

theorem shown_closers (outer : List Bracket) (depth : Nat) :
    Row.shown ⟨depth, closers outer⟩ = List.replicate depth '\t' ++ pieceChars (closers outer) := rfl

section

variable {ms : Models}

theorem shown_struct {name : String} {fields : List (String × String)} (hn : isPlain name = true)
    (h : ∀ f ∈ fields, PlainField ms f) :
    (structRows ms (alignedGaps fields) name fields).map Row.shown =
      (Printer.struct name fields).map String.toList := by
  have hfields : (fields.map fun f => Row.shown ⟨1, fieldPieces ms (alignedGaps fields f) f⟩) =
      (Printer.members fields).map String.toList := by
    rw [Printer.members, List.map_map]
    apply List.map_congr_left
    intro f hf
    rw [shown_of_isLine (isLine_fieldPieces (h f hf) _), chars_field (h f hf)]
    simp [alignedGaps, Printer.padded]
  have hhead := shown_of_isLine (isLine_typeHead "struct" (by decide) hn) 0
  simp only [structRows, block, List.map_append, List.map_cons, List.map_nil, List.map_map,
    Function.comp_def, Row.deeper, shown_closers, hhead, hfields, chars_typeHead, Printer.struct]
  simp [closers, Piece.chars, Bracket.closer]

theorem shown_interface {s : String × Service} (h : PlainService ms s) :
    (interfaceRows ms s.1 s.2).map Row.shown = (Printer.interface s.1 s.2).map String.toList := by
  have hmethods : (s.2.entries.map fun m => Row.shown ⟨1, signaturePieces ms m.1 m.2⟩) =
      (s.2.entries.map fun m => Printer.signature m.1 m.2).map String.toList := by
    rw [List.map_map]
    apply List.map_congr_left
    intro m hm
    have hm' := h.methods m hm
    rw [shown_of_isLine (isLine_signaturePieces hm'),
      chars_signaturePieces (fun p hp => (hm'.params p hp).type.readable)
      (fun raw hr => (hm'.returns raw hr).readable)]
    cases hr : m.2.returns <;> simp [writtenSignature, Signature.line, Printer.signature, hr]
  have hhead := shown_of_isLine (isLine_typeHead "interface" (by decide) h.name.plain) 0
  simp only [interfaceRows, block, List.map_append, List.map_cons, List.map_nil, List.map_map,
    Function.comp_def, Row.deeper, shown_closers, hhead, chars_typeHead,
    Printer.interface] at hmethods ⊢
  rw [hmethods]
  simp [closers, Piece.chars, Bracket.closer]

end

theorem printed_respond :
    "\t\t\treturn c.Status(fiber.StatusInternalServerError).JSON(fiber.Map\x7b\"message\": err.Error()\x7d)".toList =
      '\t' :: '\t' :: '\t' :: respondError.toList := by
  simp [respondError]

/-- The rows of a handler in its function, one tab deep. -/
theorem shown_handler (service name : String) (method : Method) :
    (handlerRows service name method).map (fun r => r.deeper.shown) =
      (Printer.handler service name method).map String.toList := by
  simp only [handlerRows, bodyRows, block, List.map_cons, List.map_nil, List.cons_append,
    List.nil_append, Row.shown, Row.chars, Row.deeper, chars_postHead, chars_requestPieces,
    chars_decodeHead, chars_respondPieces, chars_callPieces, chars_failedHead, chars_answerPieces,
    Printer.handler, printed_respond]
  have hrespond : respondError.toList.isEmpty = false := rfl
  cases method.returns.isSome <;>
    simp [hrespond, closers, Piece.chars, Bracket.closer, requestSuffix, Function.comp_def]

theorem shown_handlers (name : String) (methods : List (String × Method)) :
    ([⟨0, []⟩].intercalate (methods.map fun m => handlerRows name m.1 m.2)).map
      (fun r => r.deeper.shown) =
      ([""].intercalate (methods.map fun m => Printer.handler name m.1 m.2)).map String.toList := by
  induction methods with
  | nil => rfl
  | cons m methods ih =>
    cases methods with
    | nil =>
      rw [List.map_singleton, List.map_singleton, List.intercalate_singleton,
        List.intercalate_singleton]
      exact shown_handler name m.1 m.2
    | cons m' methods =>
      simp only [List.map_cons, List.intercalate_cons_cons, List.map_append, shown_handler] at ih ⊢
      rw [ih]
      rfl

theorem shown_wiring {name : String} (hn : isPlain name = true) (service : Service) :
    (wiringRows name service).map Row.shown = (Printer.wiring name service).map String.toList := by
  have hhead := shown_of_isLine (isLine_wiringHead hn) 0
  have hbody := shown_handlers name service.entries
  simp only [wiringRows, handlersRows, block, List.map_append, List.map_cons, List.map_nil,
    List.map_map, Function.comp_def, shown_closers, hhead, hbody, chars_wiringHead, Printer.wiring]
  rfl

/-! ## Declarations -/

/-- A declaration of the generated file. -/
inductive Declaration where
  | struct (name : String) (fields : List (String × String))
  | interface (name : String) (service : Service)
  | wiring (name : String) (service : Service)

/-- The declarations for a service. -/
def serviceDeclarations (name : String) (service : Service) : List Declaration :=
  service.entries.map (fun m => Declaration.struct (m.1 ++ requestSuffix) m.2.params) ++
    [Declaration.interface name service, Declaration.wiring name service]

/-- The declarations of a batch in their order. -/
def batchDeclarations (ds : List Definition) : List Declaration :=
  (ds.flatMap fun d => d.models.entries.map fun m => Declaration.struct m.1 m.2.entries) ++
    ds.flatMap fun d => d.services.entries.flatMap fun s => serviceDeclarations s.1 s.2

theorem mem_batchDeclarations {ds : List Definition} {x : Declaration} :
    x ∈ batchDeclarations ds ↔ ∃ d ∈ ds, (∃ m ∈ d.models.entries, x = .struct m.1 m.2.entries) ∨
      ∃ s ∈ d.services.entries, (∃ m ∈ s.2.entries, x = .struct (m.1 ++ requestSuffix) m.2.params) ∨
        x = .interface s.1 s.2 ∨ x = .wiring s.1 s.2 := by
  constructor
  · intro hx
    rcases List.mem_append.1 hx with hx | hx
    · obtain ⟨d, hd, hx⟩ := List.mem_flatMap.1 hx
      obtain ⟨m, hm, rfl⟩ := List.mem_map.1 hx
      exact ⟨d, hd, Or.inl ⟨m, hm, rfl⟩⟩
    · obtain ⟨d, hd, hx⟩ := List.mem_flatMap.1 hx
      obtain ⟨s, hs, hx⟩ := List.mem_flatMap.1 hx
      refine ⟨d, hd, Or.inr ⟨s, hs, ?_⟩⟩
      rcases List.mem_append.1 hx with hx | hx
      · obtain ⟨m, hm, rfl⟩ := List.mem_map.1 hx
        exact Or.inl ⟨m, hm, rfl⟩
      · exact Or.inr (by simpa using hx)
  · rintro ⟨d, hd, ⟨m, hm, rfl⟩ | ⟨s, hs, hx⟩⟩
    · exact List.mem_append_left _ (List.mem_flatMap.2 ⟨d, hd, List.mem_map.2 ⟨m, hm, rfl⟩⟩)
    · refine List.mem_append_right _ (List.mem_flatMap.2 ⟨d, hd, List.mem_flatMap.2 ⟨s, hs, ?_⟩⟩)
      rcases hx with ⟨m, hm, rfl⟩ | hx
      · exact List.mem_append_left _ (List.mem_map.2 ⟨m, hm, rfl⟩)
      · exact List.mem_append_right _ (by simpa using hx)

namespace Declaration

/-- The lines before formatting. -/
def lines : Declaration → List String
  | struct name fields => (writtenStruct name fields).lines
  | interface name service => (writtenEndpoint name service).interface.lines
  | wiring name service => (writtenEndpoint name service).wiring

/-- The lines that the printer prints. -/
def printed : Declaration → List String
  | struct name fields => Printer.struct name fields
  | interface name service => Printer.interface name service
  | wiring name service => Printer.wiring name service

/-- The printed lines as rows. -/
def rows (ms : Models) : Declaration → List Row
  | struct name fields => structRows ms (alignedGaps fields) name fields
  | interface name service => interfaceRows ms name service
  | wiring name service => wiringRows name service

/-- All names and types of the declaration are plain. -/
def IsPlain (ms : Models) : Declaration → Prop
  | struct name fields => PlainName name ∧ ∀ f ∈ fields, PlainField ms f
  | interface name service => PlainService ms (name, service)
  | wiring name service => PlainService ms (name, service)

variable {ms : Models} {d : Declaration}

theorem formats (h : d.IsPlain ms) :
    Formats (d.lines.map String.toList) ((d.rows ms).flatMap Row.text) := by
  cases d with
  | struct name fields =>
    rw [lines, rows, lines_struct h.2]
    exact formats_struct h.1.plain h.2
  | interface name service =>
    rw [lines, rows, lines_interface h]
    exact formats_interface (s := (name, service)) h
  | wiring name service =>
    by_cases he : service.entries = []
    · rw [lines, rows, lines_wiring_empty he]
      exact formats_wiring_empty (s := (name, service)) h he
    · rw [lines, rows, lines_wiring he]
      exact formats_wiring (s := (name, service)) h he

theorem shown (h : d.IsPlain ms) : (d.rows ms).map Row.shown = d.printed.map String.toList := by
  cases d with
  | struct name fields => exact shown_struct h.1.plain h.2
  | interface name service => exact shown_interface (s := (name, service)) h
  | wiring name service => exact shown_wiring h.name.plain service

end Declaration

theorem blocks_written (ds : List Definition) :
    (writtenSource ds).blocks = (batchDeclarations ds).map Declaration.lines := by
  simp [Source.blocks, writtenSource, batchDeclarations, serviceDeclarations, Declaration.lines,
    writtenEndpoint, List.map_flatMap, List.flatMap_assoc, List.flatMap_map, Function.comp_def]

theorem blocks_printed (ds : List Definition) :
    Printer.blocks ds = (batchDeclarations ds).map Declaration.printed := by
  simp [Printer.blocks, Printer.service, batchDeclarations, serviceDeclarations,
    Declaration.printed, requestSuffix, List.map_flatMap, Function.comp_def]

/-! ## The whole file -/

theorem toList_joinLines (lines : List String) :
    (String.join (lines.map (· ++ "\n"))).toList = Text.unlines (lines.map String.toList) := by
  rw [String.toList_join, List.flatMap_map, Text.unlines, List.flatMap_map]
  simp

/-- The first line. -/
def banner : String := "// THIS CODE WAS AUTO GENERATED"

theorem toList_banner :
    banner.toList = '/' :: '/' :: (" THIS CODE WAS AUTO GENERATE".toList ++ ['D']) := by
  unfold banner
  simp

/-- A line comment without blanks around it stays as it is. -/
theorem layoutLine_comment {rest : List Char} {last : Char} (hl : Text.isBlank last = false)
    (nb k : Nat) :
    layoutLine ⟨.code, [], nb⟩ k ('/' :: '/' :: (rest ++ [last])) =
      .ok (⟨0, '/' :: '/' :: (rest ++ [last]), none, false⟩, ⟨.code, [], nb⟩) := by
  have htrim : Text.trim ('/' :: '/' :: (rest ++ [last])) = '/' :: '/' :: (rest ++ [last]) :=
    Text.trim_eq_self rfl (by decide) (show _ = ('/' :: '/' :: rest) ++ [last] from rfl) hl
  unfold layoutLine
  simp only [keptText, htrim]
  rfl

def packagePieces (o : GoOptions) : List Piece := [.word "package", .gap 1, .word o.package]

def importPieces (o : GoOptions) : List Piece :=
  [.word "import", .gap 1, .quoted (String.ofList o.importPath)]

/-- The rows of the file below its first line. -/
def fileRows (ms : Models) (o : GoOptions) (ds : List Definition) : List Row :=
  [⟨0, packagePieces o⟩, ⟨0, []⟩, ⟨0, importPieces o⟩] ++ (batchDeclarations ds).flatMap fun d =>
    ⟨0, []⟩ :: d.rows ms

section

variable {o : GoOptions} {ds : List Definition} (hp : Legible o ds)
include hp

theorem isLine_packagePieces : IsLine (packagePieces o) := by
  refine ⟨?_, ⟨_, rfl, by decide, by simp⟩, ⟨_, rfl, hp.package⟩⟩
  simp +decide [packagePieces, Piece.isSound, hp.package]

theorem isQuotable_path : ∀ c ∈ o.importPath, Piece.isQuotable c = true := by
  intro c hc
  have hne := ne_of_class (hp.pathParts c hc)
  simp [Piece.isQuotable, Pattern.isSource, hne '"' (by decide), hne '\\' (by decide),
    hne '\n' (by decide), hne '\r' (by decide), hne '\x00' (by decide), hne '\ufeff' (by decide +kernel)]

theorem isLine_importPieces : IsLine (importPieces o) := by
  have hquoted : (Piece.quoted (String.ofList o.importPath)).isSound = true := by
    rw [Piece.isSound, String.toList_ofList, List.all_eq_true]
    exact isQuotable_path hp
  refine ⟨?_, ⟨_, rfl, by decide, by simp⟩, ⟨_, rfl, hquoted⟩⟩
  rw [importPieces, List.forall_mem_cons, List.forall_mem_cons, List.forall_mem_singleton]
  exact ⟨by decide, rfl, hquoted⟩

omit hp in
/-- The import is written in one pair of quotes, with or without quotes in the options. -/
theorem quotedImport_of_quotable (hparts : ∀ c ∈ o.importPath, Piece.isQuotable c = true) :
    o.quotedImport = "\"" ++ String.ofList o.importPath ++ "\"" := by
  unfold GoOptions.quotedImport
  rw [GoOptions.importPath] at hparts ⊢
  generalize Text.trim o.fiberImport.toList = path at hparts ⊢
  unfold unquoted at hparts ⊢
  split
  · rename_i rest
    simp only at hparts ⊢
    split at hparts
    · rename_i hlast
      rw [if_pos hlast, if_pos hlast]
      obtain ⟨front, rfl⟩ := List.getLast?_eq_some_iff.1 hlast
      rw [List.dropLast_concat, ← String.toList_inj]
      simp
    · have hquote := hparts '"' List.mem_cons_self
      cases hquote
  · rename_i hpath
    dsimp only
    split
    · exact absurd rfl (hpath _)
    · rfl

theorem quotedImport_eq : o.quotedImport = "\"" ++ String.ofList o.importPath ++ "\"" :=
  quotedImport_of_quotable (isQuotable_path hp)

theorem isPlain_of_mem (ha : Accepted ds) : ∀ d ∈ batchDeclarations ds, d.IsPlain ⟨modelNames ds⟩ := by
  intro d hd
  obtain ⟨def', hdef, ⟨m, hm, rfl⟩ | ⟨s, hs, hd⟩⟩ := mem_batchDeclarations.1 hd
  · have hmodel := hp.plainModel ha hdef hm
    exact ⟨hmodel.name, hmodel.fields⟩
  · have hservice := hp.plainService ha hdef hs
    rcases hd with ⟨m, hm, rfl⟩ | rfl | rfl
    · have hmethod := hservice.methods m hm
      exact ⟨plainName_request hmethod.name.plain, hmethod.params⟩
    · exact hservice
    · exact hservice

/-- The printed file as rows. -/
theorem file_eq_rows (ha : Accepted ds) :
    (Printer.file o ds).toList = banner.toList ++
      '\n' :: (fileRows ⟨modelNames ds⟩ o ds).flatMap Row.text := by
  have hblocks : ((Printer.blocks ds).flatMap ("" :: ·)).map String.toList =
      ((batchDeclarations ds).flatMap fun d => ⟨0, []⟩ :: d.rows ⟨modelNames ds⟩).map Row.shown := by
    rw [blocks_printed, List.flatMap_map, List.map_flatMap, List.map_flatMap, List.flatMap_def,
      List.flatMap_def]
    refine congrArg List.flatten (List.map_congr_left fun d hd => ?_)
    rw [List.map_cons, List.map_cons, Declaration.shown (isPlain_of_mem hp ha d hd)]
    rfl
  have hpackage : ("package " ++ o.package).toList = Row.shown ⟨0, packagePieces o⟩ := by
    rw [shown_of_isLine (isLine_packagePieces hp)]
    simp [packagePieces, Piece.chars]
  have himport : ("import \"" ++ String.ofList o.importPath ++ "\"").toList =
      Row.shown ⟨0, importPieces o⟩ := by
    rw [shown_of_isLine (isLine_importPieces hp)]
    simp [importPieces, Piece.chars]
  have hempty : "".toList = Row.shown ⟨0, []⟩ := by simp [Row.shown, Row.chars]
  have hfile : Printer.file o ds = String.join ((banner :: ("package " ++ o.package) :: "" ::
      ("import \"" ++ String.ofList o.importPath ++ "\"") ::
        (Printer.blocks ds).flatMap ("" :: ·)).map (· ++ "\n")) := rfl
  rw [hfile, toList_joinLines]
  simp only [List.map_cons, hblocks, hpackage, himport, hempty, fileRows, ← unlines_shown,
    List.map_append, List.map_nil]
  simp [Text.unlines]

omit hp in
/-- The lines of the text before formatting: after the head, each declaration has an empty line
    before it, and one is left at the end. -/
theorem lines_source (s : Source) : s.lines o =
    [banner, "package " ++ o.package, "", "import " ++ o.quotedImport] ++
      (s.blocks.flatMap ("" :: ·) ++ [""]) := by
  have hrotate : ∀ blocks : List (List String),
      "" :: blocks.flatMap (· ++ [""]) = blocks.flatMap ("" :: ·) ++ [""] := by
    intro blocks
    induction blocks with
    | nil => rfl
    | cons b blocks ih => simp [← ih]
  rw [Source.lines, ← hrotate]
  rfl

/-- The lines of the head as they are laid out. -/
def headLines (o : GoOptions) : List Line :=
  [⟨0, banner.toList, none, false⟩, ⟨0, pieceChars (packagePieces o), none, false⟩, Line.empty,
    ⟨0, pieceChars (importPieces o), none, false⟩]

theorem layoutLines_head :
    layoutLines ⟨.code, [], 0⟩ 1
      [banner.toList, pieceChars (packagePieces o), [], pieceChars (importPieces o)] =
      .ok (headLines o, ⟨.code, [], 0⟩) := by
  have hbanner : layoutLine ⟨.code, [], 0⟩ 1 banner.toList =
      .ok (⟨0, banner.toList, none, false⟩, ⟨.code, [], 0⟩) := by
    rw [toList_banner]
    exact layoutLine_comment (by decide) 0 1
  have hpackage := layoutLine_flat (isLine_packagePieces hp) (fun _ _ => rfl) [] 0 2
  have himport := layoutLine_flat (isLine_importPieces hp) (fun _ _ => rfl) [] 0 4
  exact layoutLines_cons hbanner (layoutLines_cons hpackage
    (layoutLines_cons (layoutLine_top_empty 0 3) (layoutLines_singleton himport)))

theorem keepLines_head : (headLines o).foldl keepLine [] = (headLines o).reverse := by
  have hpackage := isLine_packagePieces hp
  have himport := isLine_importPieces hp
  have hbanner : keepLine [] ⟨0, banner.toList, none, false⟩ = [⟨0, banner.toList, none, false⟩] := by
    rw [toList_banner]
    rfl
  have hkeep : ∀ {ps : List Piece}, IsLine ps → ∀ kept,
      keepLine kept ⟨0, pieceChars ps, none, false⟩ = ⟨0, pieceChars ps, none, false⟩ :: kept := by
    intro ps hl kept
    have hblank : Line.isBlank ⟨0, pieceChars ps, none, false⟩ = false :=
      (Row.solid_of_isLine hl 0).isBlank 0
    exact keepLine_of_text hblank (Or.inl (startsWithCloser_line hl 0 0))
  have hends : Line.Ends ⟨0, pieceChars (packagePieces o), none, false⟩ :=
    ⟨(Row.solid_of_isLine hpackage 0).isBlank 0, rfl⟩
  rw [headLines, List.foldl_cons, hbanner, List.foldl_cons, hkeep hpackage, List.foldl_cons,
    keepLine_empty hends, List.foldl_cons, hkeep himport]
  rfl

theorem oneLine_head :
    ∀ raw ∈ [banner.toList, pieceChars (packagePieces o), [], pieceChars (importPieces o)],
      Text.OneLine raw := by
  have hbanner : Text.OneLine banner.toList := by
    unfold Text.OneLine banner
    simp
  rw [List.forall_mem_cons, List.forall_mem_cons, List.forall_mem_cons, List.forall_mem_singleton]
  refine ⟨hbanner, (Row.solid_of_isLine (isLine_packagePieces hp) 0).oneLine, ?_, ?_⟩
  · intro c hc
    cases hc
  · exact (Row.solid_of_isLine (isLine_importPieces hp) 0).oneLine

omit hp in
/-- The lines of the text before formatting, below the first. -/
def sourceLines (o : GoOptions) (ds : List Definition) : List String :=
  ["package " ++ o.package, "", "import " ++ o.quotedImport] ++
    ((batchDeclarations ds).flatMap (fun d => "" :: d.lines) ++ [""])

omit hp in
theorem toList_source (o : GoOptions) (ds : List Definition) :
    ((writtenSource ds).text o).toList =
      Text.unlines (banner.toList :: (sourceLines o ds).map String.toList) := by
  rw [Source.text, toList_joinLines, lines_source, blocks_written, List.flatMap_map]
  rfl

theorem map_sourceLines : banner.toList :: (sourceLines o ds).map String.toList =
    [banner.toList, pieceChars (packagePieces o), [], pieceChars (importPieces o)] ++
      (((batchDeclarations ds).flatMap fun d => [] :: d.lines.map String.toList) ++ [[]]) := by
  rw [sourceLines, quotedImport_eq hp]
  simp [packagePieces, importPieces, Piece.chars, List.map_flatMap]

theorem oneLine_sourceLines (ha : Accepted ds) :
    ∀ l ∈ banner.toList :: (sourceLines o ds).map String.toList, Text.OneLine l := by
  have hempty : Text.OneLine [] := List.forall_mem_nil _
  rw [map_sourceLines hp, List.forall_mem_append, List.forall_mem_append, List.forall_mem_flatMap]
  refine ⟨oneLine_head hp, fun d hd => ?_, List.forall_mem_singleton.2 hempty⟩
  exact List.forall_mem_cons.2 ⟨hempty, (Declaration.formats (isPlain_of_mem hp ha d hd)).oneLine⟩

/-- A plain batch is laid out without a fault, and written as it is printed. -/
theorem write_layout (ha : Accepted ds) :
    ∃ ls, layout ((writtenSource ds).text o).toList = .ok ls ∧
      write ls = (Printer.file o ds).toList := by
  have hbs : ∀ b ∈ (batchDeclarations ds).map fun d =>
      (d.lines.map String.toList, (d.rows ⟨modelNames ds⟩).flatMap Row.text), Formats b.1 b.2 := by
    intro b hb
    obtain ⟨d, hd, rfl⟩ := List.mem_map.1 hb
    exact Declaration.formats (isPlain_of_mem hp ha d hd)
  have hends : Line.Ends ⟨0, pieceChars (importPieces o), none, false⟩ :=
    ⟨(Row.solid_of_isLine (isLine_importPieces hp) 0).isBlank 0, rfl⟩
  have hwrite : ∀ rest, writeLines ((headLines o).reverse.reverse ++ rest) =
      (headLines o).flatMap (fun l => writeLine l.indent l.text) ++ writeLines rest := by
    intro rest
    rw [List.reverse_reverse]
    refine writeLines_append_none (fun l hl => ?_) rest
    simp only [headLines, List.mem_cons, List.not_mem_nil, or_false] at hl
    rcases hl with rfl | rfl | rfl | rfl <;> rfl
  obtain ⟨ls, hls, hw⟩ :=
    layout_blocks (oneLine_head hp) (layoutLines_head hp) (keepLines_head hp) hends hwrite hbs
  refine ⟨ls, ?_, ?_⟩
  · rw [← hls, toList_source, map_sourceLines hp, List.flatMap_map]
  · rw [hw, file_eq_rows hp ha]
    simp [headLines, fileRows, Row.text, Row.chars, writeLine, Line.empty, List.flatMap_map,
      List.flatMap_assoc]

end

end ServiceSchema.Go
