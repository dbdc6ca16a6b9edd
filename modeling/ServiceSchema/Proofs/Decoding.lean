/-
  ServiceSchema.Proofs.Decoding — a batch read back from its file.

  The lines of a generated file are cut into words at blanks, brackets, commas and quotes. The
  words of a member, of a signature and of the head of a declaration are few, and each has its
  place, so `decode` finds the names and the written types again; a line that is a closing
  brace ends a declaration and nothing else. Request structs are told from models by their
  ending.

  - `decode_file`: what is printed for a batch of ASCII names is decoded to its schema.
  - `generateAll_injective`: files that are equal are files of one schema.
-/
import ServiceSchema.Proofs.TopLevelNames

namespace ServiceSchema

/-! ## What a batch says -/

/-- The models of a batch, in order. -/
def modelEntries (ds : List Definition) : List (String × Model) := ds.flatMap (·.models.entries)

/-- A method without the place of its `return`. -/
structure SpelledMethod where
  name : String
  params : List (String × String)
  returns : Option String
  deriving DecidableEq, Repr

structure SpelledService where
  name : String
  methods : List SpelledMethod
  deriving DecidableEq, Repr

def Method.spelled (m : String × Method) : SpelledMethod := ⟨m.1, m.2.params, m.2.returns⟩

def Service.spelled (s : String × Service) : SpelledService := ⟨s.1, s.2.entries.map Method.spelled⟩

/-- What the generated file keeps of the options and of a batch. -/
structure Schema where
  package : String
  importPath : String
  models : List (String × List (String × String))
  services : List SpelledService
  deriving DecidableEq, Repr

def Schema.of (o : GoOptions) (ds : List Definition) : Schema :=
  ⟨o.package, String.ofList o.importPath, (modelEntries ds).map fun m => (m.1, m.2.entries),
    (serviceEntries ds).map Service.spelled⟩

/-! ## The decoder -/

namespace Decoding

/-- A character between words. -/
def isBreak (c : Char) : Bool := Text.isBlank c || ['(', ')', ',', ':', '"', '`'].contains c

def words (line : List Char) : List String := ((line.splitOnP isBreak).filter (· ≠ [])).map String.ofList

example : words "\tfind(title string, page int32) ([]book, error)".toList =
    ["find", "title", "string", "page", "int32", "[]book", "error"] := by decide +kernel

/-- A declaration of a type. -/
inductive Block where
  | struct (name : String) (fields : List (String × String))
  | interface (service : SpelledService)
  deriving DecidableEq, Repr

/-- A member from the words of its line: the tag has its name. -/
def readField : List String → Option (String × String)
  | [_, type, _, name] => some (name, type)
  | _ => none

/-- Parameters and the return type, from the words behind a method's name. The last word is
    `error`; a type that stands alone before it is returned. -/
def readParams : List String → List (String × String) × Option String
  | [] | [_] => ([], none)
  | [type, _] => ([], some type)
  | name :: type :: rest => ((name, type) :: (readParams rest).1, (readParams rest).2)

def readMethod : List String → Option SpelledMethod
  | name :: rest => some ⟨name, (readParams rest).1, (readParams rest).2⟩
  | [] => none

/-- A type declaration from the empty line before it, its head and its body; functions are
    read over. -/
def readBlock : List (List Char) → Option Block
  | _ :: head :: body =>
    match words head with
    | [_, name, kind, _] =>
      if kind = "struct" then some (.struct name (body.filterMap fun l => readField (words l)))
      else some (.interface ⟨name, body.filterMap fun l => readMethod (words l)⟩)
    | _ => none
  | _ => none

/-- A struct that is no request. -/
def Block.model? : Block → Option (String × List (String × String))
  | struct name fields =>
    if requestSuffix.toList.isSuffixOf name.toList then none else some (name, fields)
  | interface _ => none

def Block.service? : Block → Option SpelledService
  | struct _ _ => none
  | interface service => some service

/-- The schema that a file was generated from. -/
def decode (text : List Char) : Option Schema :=
  match Text.lines text with
  | _ :: package :: _ :: path :: rest =>
    match words package, words path with
    | [_, package], [_, path] =>
      let blocks := (rest.splitOn ['}']).filterMap readBlock
      some ⟨package, path, blocks.filterMap Block.model?, blocks.filterMap Block.service?⟩
    | _, _ => none
  | _ => none

/-! ## Words -/

theorem words_nil : words [] = [] := by simp [words]

theorem words_append {c : Char} (hc : isBreak c = true) (a b : List Char) :
    words (a ++ c :: b) = words a ++ words b := by
  rw [words, List.splitOnP_append_cons a b hc, List.filter_append, List.map_append]
  rfl

theorem words_cons {c : Char} (hc : isBreak c = true) (b : List Char) : words (c :: b) = words b :=
  words_append hc [] b

/-- A text without breaks. -/
def IsWord (text : String) : Prop := text ≠ "" ∧ ∀ c ∈ text.toList, isBreak c = false

theorem IsWord.words_eq {text : String} (h : IsWord text) : words text.toList = [text] := by
  have hne : text.toList ≠ [] := fun hnil => h.1 (String.toList_eq_nil_iff.1 hnil)
  rw [words, List.splitOnP_eq_singleton h.2, List.filter_singleton]
  simp [hne, String.ofList_toList]

theorem IsWord.words_cons {text : String} (h : IsWord text) {c : Char} (hc : isBreak c = true)
    (rest : List Char) : words (text.toList ++ c :: rest) = text :: words rest := by
  rw [words_append hc, h.words_eq, List.singleton_append]

theorem words_intercalate (groups : List (List Char)) :
    words ([',', ' '].intercalate groups) = groups.flatMap words := by
  induction groups with
  | nil => rfl
  | cons g gs ih =>
    cases gs with
    | nil => rw [List.intercalate_singleton, List.flatMap_cons, List.flatMap_nil, List.append_nil]
    | cons g' gs =>
      rw [List.intercalate_cons_cons, List.append_assoc, List.cons_append, words_append (by decide),
        List.cons_append, words_cons (by decide), List.nil_append, ih]
      rfl

theorem words_padded {width : Nat} {text : String} (hw : IsWord text) (h : text.length ≤ width)
    (rest : List Char) :
    words ((Printer.padded width text).toList ++ rest) = text :: words rest := by
  have hgap : ∀ k, words (List.replicate k ' ' ++ rest) = words rest := by
    intro k
    induction k with
    | zero => rfl
    | succ k ih => rw [List.replicate_succ, List.cons_append, words_cons (by decide), ih]
  have hwidth : width + 1 - text.length = (width - text.length) + 1 := by omega
  rw [Printer.padded, String.toList_append, String.toList_ofList, List.append_assoc, hwidth,
    List.replicate_succ, List.cons_append, hw.words_cons (by decide), hgap]

/-! ## Names and types are words -/

theorem isBreak_of_isPlainPart {c : Char} (h : isPlainPart c = true) : isBreak c = false := by
  have hne := ne_of_class h
  simp [isBreak, isBlank_of_isPlainPart h, hne '(' (by decide), hne ')' (by decide), hne ',' (by decide),
    hne ':' (by decide), hne '"' (by decide), hne '`' (by decide)]

theorem isBreak_of_isPathPart {c : Char} (h : isPathPart c = true) : isBreak c = false := by
  rw [← Bool.not_eq_true]
  intro hbreak
  simp only [isBreak, Bool.or_eq_true, List.contains_iff_mem, List.mem_cons, List.not_mem_nil,
    or_false] at hbreak
  rcases hbreak with hblank | rfl | rfl | rfl | rfl | rfl | rfl
  · -- neither a part of a word nor a sign of a path is blank
    have hpart := Go.isWordPart_of_isBlank hblank
    simp only [isPathPart, Bool.or_eq_true, beq_iff_eq] at h
    rcases h with ((hword | rfl) | rfl) | rfl
    · rw [hword] at hpart
      cases hpart
    all_goals exact absurd hblank (by decide)
  all_goals exact absurd h (by decide)

theorem isWord_of_isPlain {name : String} (h : isPlain name = true) : IsWord name := by
  refine ⟨?_, fun c hc => isBreak_of_isPlainPart (isPlainPart_of_mem h c hc)⟩
  rintro rfl
  cases h

theorem isWord_render {t : TypeExpr} (h : isPlain t.leaf = true) : IsWord t.render := by
  refine ⟨?_, ?_⟩
  · induction t with
    | named name => exact (isWord_of_isPlain h).1
    | array item ih => exact fun he => ih h (String.append_eq_empty_iff.1 he).2
    | map key value ih => exact fun he => ih h (String.append_eq_empty_iff.1 he).2
  · exact TypeExpr.forall_mem_render (by decide) (fun key => (isWord_of_isPlain key.plainName.plain).2)
      (isWord_of_isPlain h).2

theorem isWord_of_plainType {ms : Models} {raw : String} (h : Go.PlainType ms raw) : IsWord raw := by
  obtain ⟨t, ht, hleaf⟩ := h
  rw [← TypeExpr.render_of_read ht]
  exact isWord_render hleaf.plain

/-! ## Lines -/

theorem words_typeHead {kind name : String} (hk : IsWord kind) (hn : IsWord name) :
    words ("type " ++ name ++ " " ++ kind ++ " \x7b").toList = ["type", name, kind, "\x7b"] := by
  have htype : IsWord "type" := ⟨by decide, by decide⟩
  have hbrace : IsWord "\x7b" := ⟨by decide, by decide⟩
  have hline : ("type " ++ name ++ " " ++ kind ++ " \x7b").toList =
      "type".toList ++ ' ' :: (name.toList ++ ' ' :: (kind.toList ++ ' ' :: "\x7b".toList)) := by
    simp
  rw [hline, htype.words_cons (by decide), hn.words_cons (by decide), hk.words_cons (by decide),
    hbrace.words_eq]

section

variable {ms : Models}

/-- The words of a member's line: the exported name, the type, and the tag. -/
theorem words_member {f : String × String} (h : Go.PlainField ms f) {names types : Nat}
    (hnames : (exportedName f.1).length ≤ names) (htypes : f.2.length ≤ types) :
    words ("\t" ++ Printer.padded names (exportedName f.1) ++ Printer.padded types f.2 ++ "`json:\"" ++
      f.1 ++ "\"`").toList = [exportedName f.1, f.2, "json", f.1] := by
  have hname := isWord_of_isPlain h.name.plain
  have hexported := isWord_of_isPlain (plainName_exportedName h.name.plain).plain
  have htype := isWord_of_plainType h.type
  have hjson : IsWord "json" := ⟨by decide, by decide⟩
  have htab : "\t".toList = ['\t'] := by simp
  have htag : "`json:\"".toList ++ (f.1.toList ++ "\"`".toList) =
      '`' :: ("json".toList ++ ':' :: '"' :: (f.1.toList ++ '"' :: ['`'])) := by
    simp
  simp only [String.toList_append, List.append_assoc]
  rw [htab, List.singleton_append, words_cons (by decide), words_padded hexported hnames,
    words_padded htype htypes, htag, words_cons (by decide), hjson.words_cons (by decide),
    words_cons (by decide), hname.words_cons (by decide), words_cons (by decide), words_nil]

/-- The members of a struct are read back. -/
theorem readField_members {fields : List (String × String)} (h : ∀ f ∈ fields, Go.PlainField ms f) :
    ((Printer.members fields).map String.toList).filterMap (fun l => readField (words l)) = fields := by
  rw [Printer.members, List.map_map, List.filterMap_map]
  refine (List.filterMap_congr fun f hf => ?_).trans List.filterMap_some
  have hnames := Go.le_widest (List.mem_map_of_mem (f := fun f => exportedName f.1) hf)
  have htypes := Go.le_widest (List.mem_map_of_mem (f := Prod.snd) hf)
  simp only [Function.comp_apply, words_member (h f hf) hnames htypes]
  rfl

/-- Parameters are read back, with what follows them. -/
theorem readParams_append (params : List (String × String)) {rest : List String} (hrest : rest ≠ []) :
    readParams (params.flatMap (fun p => [p.1, p.2]) ++ rest) =
      (params ++ (readParams rest).1, (readParams rest).2) := by
  induction params with
  | nil => rfl
  | cons p params ih =>
    have hne : params.flatMap (fun p => [p.1, p.2]) ++ rest ≠ [] := by simp [hrest]
    obtain ⟨w, ws, hws⟩ := List.exists_cons_of_ne_nil hne
    rw [hws] at ih
    rw [List.flatMap_cons, List.append_assoc, hws]
    show readParams (p.1 :: p.2 :: w :: ws) = _
    rw [readParams, ih]
    · rfl
    · simp

theorem words_params {params : List (String × String)} (h : ∀ p ∈ params, Go.PlainField ms p) :
    words (", ".intercalate (params.map fun p => p.1 ++ " " ++ p.2)).toList =
      params.flatMap fun p => [p.1, p.2] := by
  have hparam : ∀ p ∈ params, words (p.1 ++ " " ++ p.2).toList = [p.1, p.2] := by
    intro p hp
    have hline : (p.1 ++ " " ++ p.2).toList = p.1.toList ++ ' ' :: p.2.toList := by simp
    rw [hline, (isWord_of_isPlain (h p hp).name.plain).words_cons (by decide),
      (isWord_of_plainType (h p hp).type).words_eq]
  have hcomma : ", ".toList = [',', ' '] := by simp
  rw [String.toList_intercalate, hcomma, words_intercalate, List.map_map, List.flatMap_map,
    List.flatMap_def, List.flatMap_def]
  exact congrArg List.flatten (List.map_congr_left hparam)

/-- The words of a signature: the name, names and types of the parameters, and what it gives. -/
theorem words_signature {m : String × Method} (h : Go.PlainMethod ms m) :
    words (Printer.signature m.1 m.2).toList =
      m.1 :: (m.2.params.flatMap (fun p => [p.1, p.2]) ++ (m.2.returns.toList ++ ["error"])) := by
  have herror : IsWord "error" := ⟨by decide, by decide⟩
  have hhead : ∀ (params : String) (tail : List Char),
      words ('\t' :: (m.1.toList ++ '(' :: (params.toList ++ ')' :: tail))) =
        m.1 :: (words params.toList ++ words tail) := by
    intro params tail
    rw [words_cons (by decide), (isWord_of_isPlain h.name.plain).words_cons (by decide),
      words_append (by decide)]
  cases hr : m.2.returns with
  | none =>
    have hline : (Printer.signature m.1 m.2).toList = '\t' :: (m.1.toList ++ '(' ::
        ((", ".intercalate (m.2.params.map fun p => p.1 ++ " " ++ p.2)).toList ++ ')' ::
          ' ' :: "error".toList)) := by
      simp [Printer.signature, hr]
    rw [hline, hhead, words_params h.params, words_cons (by decide), herror.words_eq]
    rfl
  | some raw =>
    have hraw : IsWord raw := by
      apply isWord_of_plainType (h.returns raw ?_)
      rw [hr]
      exact Option.mem_toList.2 rfl
    have hline : (Printer.signature m.1 m.2).toList = '\t' :: (m.1.toList ++ '(' ::
        ((", ".intercalate (m.2.params.map fun p => p.1 ++ " " ++ p.2)).toList ++ ')' ::
          ' ' :: '(' :: (raw.toList ++ ',' :: ' ' :: ("error".toList ++ ')' :: [])))) := by
      simp [Printer.signature, hr]
    rw [hline, hhead, words_params h.params, words_cons (by decide), words_cons (by decide),
      hraw.words_cons (by decide), words_cons (by decide), herror.words_cons (by decide), words_nil]
    rfl

theorem readMethod_signature {m : String × Method} (h : Go.PlainMethod ms m) :
    readMethod (words (Printer.signature m.1 m.2).toList) = some (Method.spelled m) := by
  have hresult : readParams (m.2.returns.toList ++ ["error"]) = ([], m.2.returns) := by
    cases m.2.returns <;> rfl
  rw [words_signature h, readMethod, readParams_append _ (by simp), hresult, List.append_nil,
    Method.spelled]

end

/-! ## Declarations -/

/-- What is read of a declaration. -/
def blockOf : Go.Declaration → Option Block
  | .struct name fields => some (.struct name fields)
  | .interface name service => some (.interface (Service.spelled (name, service)))
  | .wiring _ _ => none

/-- No line inside a declaration is a closing brace alone, and what is read of the declaration
    up to that brace is the declaration itself. -/
def Reads (lines : List String) (block : Option Block) : Prop :=
  ∃ head body, lines = head :: body ++ ["\x7d"] ∧ (∀ l ∈ head :: body, l ≠ "\x7d") ∧
    readBlock ([] :: (head :: body).map String.toList) = block

theorem ne_brace_of_head {c : Char} {cs : List Char} {l : String} (h : l.toList = c :: cs) (hc : c ≠ '}') :
    l ≠ "\x7d" := by
  rintro rfl
  have hbrace : "\x7d".toList = ['}'] := by simp
  rw [hbrace] at h
  exact hc (List.cons.inj h).1.symm

variable {ms : Models}

theorem reads_struct {name : String} {fields : List (String × String)} (hn : isPlain name = true)
    (h : ∀ f ∈ fields, Go.PlainField ms f) :
    Reads (Printer.struct name fields) (some (.struct name fields)) := by
  have hhead : "type " ++ name ++ " struct \x7b" = "type " ++ name ++ " " ++ "struct" ++ " \x7b" := by
    rw [← String.toList_inj]
    simp
  refine ⟨_, _, rfl, ?_, ?_⟩
  · rw [List.forall_mem_cons]
    refine ⟨ne_brace_of_head (c := 't') (by simp; rfl) (by decide), fun l hl => ?_⟩
    obtain ⟨f, -, rfl⟩ := List.mem_map.1 hl
    exact ne_brace_of_head (c := '\t') (by simp; rfl) (by decide)
  · rw [List.map_cons, readBlock, hhead, words_typeHead ⟨by decide, by decide⟩ (isWord_of_isPlain hn)]
    simp only [if_true, readField_members h]

theorem reads_interface {s : String × Service} (h : Go.PlainService ms s) :
    Reads (Printer.interface s.1 s.2) (some (.interface (Service.spelled s))) := by
  have hhead : "type " ++ s.1 ++ " interface \x7b" = "type " ++ s.1 ++ " " ++ "interface" ++ " \x7b" := by
    rw [← String.toList_inj]
    simp
  have hmethods : ((s.2.entries.map fun m => Printer.signature m.1 m.2).map String.toList).filterMap
      (fun l => readMethod (words l)) = s.2.entries.map Method.spelled := by
    rw [List.map_map, List.filterMap_map, ← List.filterMap_eq_map]
    exact List.filterMap_congr fun m hm => readMethod_signature (h.methods m hm)
  refine ⟨_, _, rfl, ?_, ?_⟩
  · rw [List.forall_mem_cons]
    refine ⟨ne_brace_of_head (c := 't') (by simp; rfl) (by decide), fun l hl => ?_⟩
    obtain ⟨m, -, rfl⟩ := List.mem_map.1 hl
    exact ne_brace_of_head (c := '\t') (by simp [Printer.signature]; rfl) (by decide)
  · rw [List.map_cons, readBlock, hhead,
      words_typeHead ⟨by decide, by decide⟩ (isWord_of_isPlain h.name.plain)]
    simp only [hmethods, Service.spelled, if_neg (show ¬ "interface" = "struct" by decide)]

theorem ne_brace_of_handler {service name l : String} {method : Method}
    (hl : l ∈ Printer.handler service name method) : l ≠ "\x7d" := by
  have hcall : (if method.returns.isSome then "\t\tret, err := service."
      else "\t\terr := service.").toList.head? = some '\t' := by
    split <;> decide
  have hanswer : (if method.returns.isSome then "\t\treturn c.JSON(ret)"
      else "\t\treturn nil").toList.head? = some '\t' := by
    split <;> decide
  have htab : l.toList.head? = some '\t' := by
    simp only [Printer.handler, List.mem_cons, List.not_mem_nil, or_false] at hl
    rcases hl with rfl | rfl | rfl | rfl | rfl | rfl | rfl | rfl | rfl | rfl | rfl
    case inr.inr.inr.inr.inr.inl => simp [List.head?_append, hcall]
    case inr.inr.inr.inr.inr.inr.inr.inr.inr.inl => exact hanswer
    all_goals simp
  obtain ⟨cs, hcs⟩ := List.head?_eq_some_iff.1 htab
  exact ne_brace_of_head hcs (by decide)

/-- A function has more words in its head than a type. -/
theorem reads_wiring {s : String × Service} (h : Go.PlainService ms s) :
    Reads (Printer.wiring s.1 s.2) none := by
  have hfunc : IsWord "func" := ⟨by decide, by decide⟩
  have hinit := isWord_of_isPlain (isPlain_initializer h.name.plain)
  have happ : IsWord "app" := ⟨by decide, by decide⟩
  have htype : IsWord "*fiber.App" := ⟨by decide, by decide⟩
  have hservice : IsWord "service" := ⟨by decide, by decide⟩
  have hname := isWord_of_isPlain h.name.plain
  have hbrace : IsWord "\x7b" := ⟨by decide, by decide⟩
  have hhead : ("func initializeFiber" ++ s.1 ++ "(app *fiber.App, service " ++ s.1 ++ ") \x7b").toList =
      "func".toList ++ ' ' :: (("initializeFiber" ++ s.1).toList ++ '(' :: ("app".toList ++ ' ' ::
        ("*fiber.App".toList ++ ',' :: ' ' :: ("service".toList ++ ' ' :: (s.1.toList ++ ')' :: ' ' ::
          "\x7b".toList))))) := by
    simp
  refine ⟨_, _, rfl, ?_, ?_⟩
  · rw [List.forall_mem_cons]
    refine ⟨ne_brace_of_head (c := 'f') (by simp; rfl) (by decide), fun l hl => ?_⟩
    rcases Go.mem_intercalate hl with hl | ⟨g, hg, hl⟩
    · rw [List.mem_singleton.1 hl]
      decide
    · obtain ⟨m, -, rfl⟩ := List.mem_map.1 hg
      exact ne_brace_of_handler hl
  · rw [List.map_cons, readBlock, hhead, hfunc.words_cons (by decide), hinit.words_cons (by decide),
      happ.words_cons (by decide), htype.words_cons (by decide), words_cons (by decide),
      hservice.words_cons (by decide), hname.words_cons (by decide), words_cons (by decide), hbrace.words_eq]

theorem reads_printed {d : Go.Declaration} (h : d.IsPlain ms) : Reads d.printed (blockOf d) := by
  cases d with
  | struct name fields => exact reads_struct h.1.plain h.2
  | interface name service => exact reads_interface (s := (name, service)) h
  | wiring name service => exact reads_wiring (s := (name, service)) h

/-- The declarations of a file are read one by one. -/
theorem readBlock_declarations {decls : List Go.Declaration} (h : ∀ d ∈ decls, d.IsPlain ms) :
    ((decls.flatMap fun d => [] :: d.printed.map String.toList).splitOn ['}']).filterMap readBlock =
      decls.filterMap blockOf := by
  induction decls with
  | nil => rfl
  | cons d decls ih =>
    rw [List.forall_mem_cons] at h
    obtain ⟨head, body, hlines, hinner, hread⟩ := reads_printed h.1
    have hbrace : "\x7d".toList = ['}'] := by simp
    have hnone : ∀ l ∈ [] :: (head :: body).map String.toList, (l == ['}']) = false := by
      rw [List.forall_mem_cons]
      refine ⟨rfl, fun l hl => ?_⟩
      obtain ⟨line, hline, rfl⟩ := List.mem_map.1 hl
      rw [beq_eq_false_iff_ne, ← hbrace]
      exact fun heq => hinner line hline (String.toList_inj.1 heq)
    have hsplit : (d :: decls).flatMap (fun d => [] :: d.printed.map String.toList) =
        ([] :: (head :: body).map String.toList) ++ ['}'] ::
          decls.flatMap fun d => [] :: d.printed.map String.toList := by
      rw [List.flatMap_cons, hlines, List.map_append, List.map_singleton, hbrace]
      simp
    rw [List.splitOn_eq_splitOnP] at ih ⊢
    rw [hsplit, List.splitOnP_append_cons_of_forall_mem hnone _ (by decide), List.filterMap_cons, hread,
      ih h.2, List.filterMap_cons]

/-! ## The whole file -/

theorem batchDeclarations_eq (ds : List Definition) : Go.batchDeclarations ds =
    (modelEntries ds).map (fun m => .struct m.1 m.2.entries) ++
      (serviceEntries ds).flatMap fun s => Go.serviceDeclarations s.1 s.2 := by
  rw [Go.batchDeclarations, modelEntries, serviceEntries, List.map_flatMap, List.flatMap_assoc]

/-- The models are the structs that do not end like a request. -/
theorem models_of_declarations {ds : List Definition} (hw : ∀ d ∈ ds, d.WellNamed) :
    ((Go.batchDeclarations ds).filterMap blockOf).filterMap Block.model? =
      (modelEntries ds).map fun m => (m.1, m.2.entries) := by
  have hmodel : ∀ m ∈ modelEntries ds,
      (blockOf (.struct m.1 m.2.entries)).bind Block.model? = some (m.1, m.2.entries) := by
    intro m hm
    have hname : m.1 ∈ modelNames ds := by
      obtain ⟨d, hd, hm⟩ := List.mem_flatMap.1 hm
      exact List.mem_flatMap.2 ⟨d, hd, List.mem_map_of_mem hm⟩
    -- no accepted model ends like a request
    have hsuffix := (unreserved_of_model hw hname).2
    rw [← List.isSuffixOf_iff_suffix] at hsuffix
    exact if_neg hsuffix
  have hrequest : ∀ s : String × Service,
      (Go.serviceDeclarations s.1 s.2).filterMap (fun d => (blockOf d).bind Block.model?) = [] := by
    intro s
    rw [List.filterMap_eq_nil_iff]
    intro d hd
    rcases List.mem_append.1 hd with hd | hd
    · obtain ⟨m, -, rfl⟩ := List.mem_map.1 hd
      refine if_pos (List.isSuffixOf_iff_suffix.2 ?_)
      rw [String.toList_append]
      exact List.suffix_append _ _
    · simp only [List.mem_cons, List.not_mem_nil, or_false] at hd
      rcases hd with rfl | rfl <;> rfl
  rw [List.filterMap_filterMap, batchDeclarations_eq, List.filterMap_append, List.filterMap_map,
    List.filterMap_flatMap, List.flatMap_eq_nil_iff.2 fun s _ => hrequest s, List.append_nil]
  rw [← List.filterMap_eq_map]
  exact List.filterMap_congr hmodel

theorem services_of_declarations (ds : List Definition) :
    ((Go.batchDeclarations ds).filterMap blockOf).filterMap Block.service? =
      (serviceEntries ds).map Service.spelled := by
  have hmodel : (modelEntries ds).filterMap
      (fun m => (blockOf (.struct m.1 m.2.entries)).bind Block.service?) = [] :=
    List.filterMap_eq_nil_iff.2 fun m _ => rfl
  have hservice : ∀ s : String × Service,
      (Go.serviceDeclarations s.1 s.2).filterMap (fun d => (blockOf d).bind Block.service?) =
        [Service.spelled s] := by
    intro s
    have hrequests : (s.2.entries.map fun m =>
        Go.Declaration.struct (m.1 ++ requestSuffix) m.2.params).filterMap
        (fun d => (blockOf d).bind Block.service?) = [] := by
      rw [List.filterMap_map]
      exact List.filterMap_eq_nil_iff.2 fun m _ => rfl
    rw [Go.serviceDeclarations, List.filterMap_append, hrequests]
    rfl
  rw [List.filterMap_filterMap, batchDeclarations_eq, List.filterMap_append, List.filterMap_map,
    List.filterMap_flatMap]
  simp only [hservice]
  exact (congrArg (· ++ _) hmodel).trans (List.map_eq_flatMap).symm

section

variable {o : GoOptions} {ds : List Definition} (hp : Legible o ds) (ha : Accepted ds)
include hp ha

theorem lines_file : Text.lines (Printer.file o ds).toList =
    Go.banner.toList :: (Go.fileRows ⟨modelNames ds⟩ o ds).map Go.Row.shown := by
  have htext : (Printer.file o ds).toList =
      Text.unlines (Go.banner.toList :: (Go.fileRows ⟨modelNames ds⟩ o ds).map Go.Row.shown) := by
    rw [Go.file_eq_rows hp ha, ← Go.unlines_shown]
    simp [Text.unlines]
  rw [htext, Text.lines_unlines]
  rw [List.forall_mem_cons]
  refine ⟨Go.oneLine_head hp _ List.mem_cons_self, fun l hl => ?_⟩
  obtain ⟨r, hr, rfl⟩ := List.mem_map.1 hl
  intro c hc
  unfold Go.Row.shown at hc
  split at hc
  · cases hc
  · rcases List.mem_append.1 hc with hc | hc
    · rw [List.eq_of_mem_replicate hc]
      decide
    · obtain ⟨p, hp', hc⟩ := List.mem_flatMap.1 hc
      exact Go.Piece.oneLine ((Go.cut_of_mem hp ha r hr).sound p hp') c hc

/-- What is printed for a batch of ASCII names is decoded to its schema. -/
theorem decode_file : decode (Printer.file o ds).toList = some (Schema.of o ds) := by
  have hword : ∀ name : String, isPlain name = true → IsWord name := fun name hn => isWord_of_isPlain hn
  have hpackage : words (Go.Row.shown ⟨0, Go.packagePieces o⟩) = ["package", o.package] := by
    have hchars : Go.pieceChars (Go.packagePieces o) = "package".toList ++ ' ' :: o.package.toList := by
      simp [Go.packagePieces, Go.Piece.chars]
    rw [Go.shown_of_isLine (Go.isLine_packagePieces hp), hchars]
    show words ("package".toList ++ ' ' :: o.package.toList) = _
    rw [(hword "package" (by decide)).words_cons (by decide), (hword _ hp.package).words_eq]
  have hpath : words (Go.Row.shown ⟨0, Go.importPieces o⟩) = ["import", String.ofList o.importPath] := by
    have hpath : IsWord (String.ofList o.importPath) := by
      refine ⟨fun he => hp.pathNonempty ?_, fun c hc => ?_⟩
      · rw [← String.toList_ofList (l := o.importPath), he]
        rfl
      · rw [String.toList_ofList] at hc
        exact isBreak_of_isPathPart (hp.pathParts c hc)
    have hchars : Go.pieceChars (Go.importPieces o) =
        "import".toList ++ ' ' :: '"' :: ((String.ofList o.importPath).toList ++ '"' :: []) := by
      simp [Go.importPieces, Go.Piece.chars]
    rw [Go.shown_of_isLine (Go.isLine_importPieces hp), hchars]
    show words ("import".toList ++ ' ' :: '"' :: ((String.ofList o.importPath).toList ++ '"' :: [])) = _
    rw [(hword "import" (by decide)).words_cons (by decide), words_cons (by decide),
      hpath.words_cons (by decide), words_nil]
  have hrest : ((Go.batchDeclarations ds).flatMap fun d =>
      ⟨0, []⟩ :: d.rows ⟨modelNames ds⟩).map Go.Row.shown =
      (Go.batchDeclarations ds).flatMap fun d => [] :: d.printed.map String.toList := by
    rw [List.map_flatMap, List.flatMap_def, List.flatMap_def]
    refine congrArg List.flatten (List.map_congr_left fun d hd => ?_)
    rw [List.map_cons, Go.Declaration.shown (Go.isPlain_of_mem hp ha d hd)]
    rfl
  unfold decode
  rw [lines_file hp ha, Go.fileRows, List.map_append, hrest]
  simp only [List.map_cons, List.map_nil, List.cons_append, List.nil_append, hpackage, hpath]
  rw [readBlock_declarations (Go.isPlain_of_mem hp ha), models_of_declarations ha.wellNamed,
    services_of_declarations]
  rfl

end

end Decoding

/-! ## Equal files -/

/-- The file of a batch of ASCII names is decoded to its schema. -/
theorem decode_of_generateAll {check : Go.Check} {o : Options} {ds : List Definition} {out : String}
    (hp : Legible o.go ds) (h : generateAll check o ds = .ok out) :
    Decoding.decode out.toList = some (Schema.of o.go ds) := by
  rw [generateAll_eq_printed hp h]
  exact Decoding.decode_file hp (accepted_of_generateAll h)

/-- Batches whose names are ASCII identifiers and that get the same file have the same package
    and the same import, and they declare the same models and the same services. What may
    differ is how they are divided into definitions, and the place of `return` in a method. -/
theorem generateAll_injective {check : Go.Check} {o o' : Options} {ds ds' : List Definition} {out : String}
    (hl : Legible o.go ds) (hl' : Legible o'.go ds') (h : generateAll check o ds = .ok out)
    (h' : generateAll check o' ds' = .ok out) :
    o.go.package = o'.go.package ∧ o.go.quotedImport = o'.go.quotedImport ∧
      modelEntries ds = modelEntries ds' ∧
      (serviceEntries ds).map Service.spelled = (serviceEntries ds').map Service.spelled := by
  have hdecode := decode_of_generateAll hl h
  rw [decode_of_generateAll hl' h'] at hdecode
  obtain ⟨hpackage, hpath, hmodels, hservices⟩ := Schema.mk.inj (Option.some.inj hdecode)
  refine ⟨hpackage.symm, ?_, ?_, hservices.symm⟩
  · rw [Go.quotedImport_eq hl, Go.quotedImport_eq hl', hpath]
  · refine List.map_injective_iff.2 ?_ hmodels.symm
    rintro ⟨name, ⟨entries, hdistinct⟩⟩ ⟨name', ⟨entries', hdistinct'⟩⟩ heq
    cases heq
    rfl

/-- The library of `plainBatch` in one file, with `return` before the parameters. -/
def mergedBatch : List Definition :=
  [⟨.ofList [("book", .ofList [("title", "string"), ("pages", "map[string]int32")])],
    .ofList [("Shelf", .ofList [("find", ⟨.ofList [("return", "[]book"), ("title", "string")]⟩)])]⟩]

def bareOptions : Options := ⟨"", "out", none, ⟨"library", "github.com/gofiber/fiber/v2"⟩⟩

theorem generateAll_injective_mergedBatch :
    plainBatch ≠ mergedBatch ∧ ∃ out, generateAll Go.fileCheck plainOptions plainBatch = .ok out ∧
      generateAll Go.fileCheck bareOptions mergedBatch = .ok out ∧
      modelEntries plainBatch = modelEntries mergedBatch ∧
      (serviceEntries plainBatch).map Service.spelled =
        (serviceEntries mergedBatch).map Service.spelled := by
  have hmerged : Legible bareOptions.go mergedBatch := by decide +kernel
  have hfile : Printer.file bareOptions.go mergedBatch = Printer.file plainOptions.go plainBatch := by
    decide +kernel
  have hcheck : Go.fileCheck (Printer.file plainOptions.go plainBatch).toList = .ok () :=
    Go.exact_fileCheck.acceptsFiles _ (Go.isFile_file plain_plainBatch accepted_plainBatch)
  have h' : generateAll Go.fileCheck bareOptions mergedBatch =
      .ok (Printer.file plainOptions.go plainBatch) := by
    rw [← hfile] at hcheck ⊢
    exact generateAll_of_accepted hmerged (by decide +kernel) hcheck
  have hsame := generateAll_injective plain_plainBatch.toLegible hmerged generateAll_plainBatch h'
  exact ⟨by decide +kernel, _, generateAll_plainBatch, h', hsame.2.2⟩

end ServiceSchema
