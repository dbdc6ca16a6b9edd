/-
  ServiceSchema.Proofs.PlainFile — an accepted plain batch gets the file that is printed for it.

  The rows of the file are read as their tokens (`cut_of_mem`), and these are a phrase of Go
  (`fits_file`), so the printed file is a Go file.

  - `generateAll_eq_printed`: a file of ASCII names is the printed one, to the byte, whatever
    checks it.
  - `exists_generateAll_of_plain`: neither the layout nor a check that accepts all Go files
    refuses the file of an accepted plain batch.
-/
import ServiceSchema.Generate
import ServiceSchema.Proofs.Phrases

namespace ServiceSchema.Go

/-! ## Pieces that are kept apart -/

/-- The pieces are kept apart, and what may stand behind a word may stand behind them. -/
def Neat (ps : List Piece) : Prop :=
  ∀ rest, spaced (.word "" :: rest) = true → spaced (ps ++ rest) = true

theorem spaced_tail {p : Piece} {ps : List Piece} (h : spaced (p :: ps) = true) : spaced ps = true := by
  cases ps with
  | nil => rfl
  | cons q ps =>
    rw [spaced, Bool.and_eq_true] at h
    exact h.2

theorem spaced_next {p q : Piece} {ps : List Piece} (hp : p.parts q = true)
    (h : spaced (q :: ps) = true) :
    spaced (p :: q :: ps) = true := by
  rw [spaced, hp, h]
  rfl

/-- Anything may stand behind brackets, strings and gaps. -/
theorem spaced_cons {p : Piece} (hp : ∀ q, p.parts q = true) {ps : List Piece} (h : spaced ps = true) :
    spaced (p :: ps) = true := by
  cases ps with
  | nil => rfl
  | cons q ps => exact spaced_next (hp q) h

theorem spaced_word {text : String} {ps : List Piece} (h : spaced (.word "" :: ps) = true) :
    spaced (.word text :: ps) = true := by
  cases ps with
  | nil => rfl
  | cons q ps =>
    have hparts : (Piece.word text).parts q = (Piece.word "").parts q := by cases q <;> rfl
    rw [spaced, hparts]
    exact h

theorem neat_nil : Neat [] := fun _ h => spaced_tail h

theorem neat_word (text : String) : Neat [.word text] := fun _ h => spaced_word h

theorem neat_pieces (t : TypeExpr) : Neat t.pieces := by
  induction t with
  | named name => exact neat_word name
  | array item ih =>
    intro rest h
    exact spaced_cons (fun _ => rfl) (spaced_cons (fun _ => rfl) (ih rest h))
  | map key value ih =>
    intro rest h
    have hvalue := spaced_cons (p := .closer .square) (fun _ => rfl) (ih rest h)
    have hkey : spaced (.word key.name :: .closer .square :: (value.pieces ++ rest)) = true :=
      spaced_next rfl hvalue
    exact spaced_next (p := .word "map") rfl (spaced_cons (p := .opener .square) (fun _ => rfl) hkey)

theorem neat_typePieces (ms : Models) (raw : String) : Neat (typePieces ms raw) := by
  unfold typePieces
  split
  · exact neat_pieces _
  · exact neat_nil

theorem neat_commaList {gs : List (List Piece)} (h : ∀ g ∈ gs, Neat g) : Neat (commaList gs) := by
  induction gs with
  | nil => exact neat_nil
  | cons g gs ih =>
    rw [List.forall_mem_cons] at h
    cases gs with
    | nil => simpa [commaList, List.intercalate] using h.1
    | cons g' gs =>
      intro rest hrest
      rw [commaList_cons_cons, List.append_assoc]
      refine h.1 _ ?_
      have htail := spaced_cons (p := .gap 1) (fun _ => rfl) (ih h.2 rest hrest)
      exact spaced_next rfl (spaced_next (p := .sign .comma) rfl htail)

/-! ## Rows that are read as their tokens -/

section

variable {ms : Models}

theorem le_widest {texts : List String} {text : String} (h : text ∈ texts) :
    text.length ≤ Printer.widest texts := by
  have hall : ∀ (ns : List Nat) (i : Nat), i ≤ ns.foldl max i ∧ ∀ n ∈ ns, n ≤ ns.foldl max i := by
    intro ns
    induction ns with
    | nil => exact fun i => ⟨Nat.le_refl i, List.forall_mem_nil _⟩
    | cons n ns ih =>
      intro i
      have hi := ih (max i n)
      refine ⟨by simp only [List.foldl_cons]; omega, List.forall_mem_cons.2 ⟨?_, hi.2⟩⟩
      simp only [List.foldl_cons]
      omega
  exact (hall (texts.map String.length) 0).2 _ (List.mem_map.2 ⟨text, h, rfl⟩)

theorem spaced_field {fields : List (String × String)} {f : String × String} (hf : f ∈ fields) :
    spaced (fieldPieces ms (alignedGaps fields f) f) = true := by
  have hname :=
    le_widest (List.mem_map.2 ⟨f, hf, rfl⟩ : exportedName f.1 ∈ fields.map fun f => exportedName f.1)
  have htype := le_widest (List.mem_map.2 ⟨f, hf, rfl⟩ : f.2 ∈ fields.map Prod.snd)
  have hgaps : (alignedGaps fields f).1 ≠ 0 ∧ (alignedGaps fields f).2 ≠ 0 := by
    unfold alignedGaps
    exact ⟨by simp only; omega, by simp only; omega⟩
  have htag : spaced [.word "", .gap (alignedGaps fields f).2, .raw ("json:\"" ++ f.1 ++ "\"")] =
      true :=
    spaced_next (bne_iff_ne.2 hgaps.2) rfl
  have hmembers := neat_typePieces ms f.2 _ htag
  exact spaced_next (p := .word (exportedName f.1)) (bne_iff_ne.2 hgaps.1)
    (spaced_cons (fun _ => rfl) hmembers)

theorem neat_paramPieces (p : String × String) : Neat (paramPieces ms p) := fun rest h =>
  spaced_next (p := .word p.1) rfl
    (spaced_cons (p := .gap 1) (fun _ => rfl) (neat_typePieces ms p.2 rest h))

theorem spaced_result (returns : Option String) : spaced (resultPieces ms returns) = true := by
  cases returns with
  | none => rfl
  | some raw =>
    have hresult := neat_typePieces ms raw [.sign .comma, .gap 1, .word "error", .closer .paren] rfl
    rw [resultPieces, bracketed, List.cons_append, List.append_assoc]
    exact spaced_cons (fun _ => rfl) hresult

theorem spaced_signature (name : String) (method : Method) :
    spaced (signaturePieces ms name method) = true := by
  have hparams : Neat (commaList (method.params.map (paramPieces ms))) := by
    apply neat_commaList
    intro g hg
    obtain ⟨p, -, rfl⟩ := List.mem_map.1 hg
    exact neat_paramPieces p
  have hresult : spaced (.gap 1 :: resultPieces ms method.returns) = true :=
    spaced_cons (fun _ => rfl) (spaced_result method.returns)
  have hrest : spaced (.word "" :: .closer .paren :: .gap 1 :: resultPieces ms method.returns) = true :=
    spaced_next rfl (spaced_cons (fun _ => rfl) hresult)
  have hall := hparams _ hrest
  rw [signaturePieces, bracketed, List.cons_append, List.cons_append, List.cons_append,
    List.append_assoc]
  exact spaced_next (p := .word name) rfl (spaced_cons (p := .opener .paren) (fun _ => rfl) hall)

theorem spaced_call (hasReturn : Bool) (method : String) (args : List String) :
    spaced (callPieces hasReturn method args) = true := by
  have hargs : Neat (commaList (args.map fun arg => selector "v" arg)) := by
    apply neat_commaList
    intro g hg
    obtain ⟨arg, -, rfl⟩ := List.mem_map.1 hg
    exact fun rest h => spaced_next rfl (spaced_next (p := .sign .dot) rfl (spaced_word h))
  have hopen := spaced_cons (p := .opener .paren) (fun _ => rfl) (hargs [.closer .paren] rfl)
  have hmethod : spaced
      (.word method :: bracketed .paren (commaList (args.map fun arg => selector "v" arg))) = true :=
    spaced_next rfl hopen
  have hcall : spaced
      ([Piece.word "err", Piece.gap 1, Piece.sign .define, Piece.gap 1] ++ selector "service" method ++
      bracketed .paren (commaList (args.map fun arg => selector "v" arg))) = true :=
    spaced_next rfl
      (spaced_next rfl (spaced_next rfl (spaced_next rfl (spaced_next rfl (spaced_next rfl hmethod)))))
  cases hasReturn with
  | false => exact hcall
  | true =>
    exact spaced_next (p := .word "ret") rfl
      (spaced_next (p := .sign .comma) rfl (spaced_cons (p := .gap 1) (fun _ => rfl) hcall))

end

namespace Row

theorem cut_empty : Cut ⟨0, []⟩ := ⟨List.forall_mem_nil _, rfl⟩

theorem cut_of_isLine {ps : List Piece} (hl : IsLine ps) (hs : Go.spaced ps = true) (depth : Nat) :
    Cut ⟨depth, ps⟩ :=
  ⟨hl.sound, hs⟩

end Row

theorem cut_block {head : List Piece} {outer : List Bracket} {body : List Row} (hl : IsLine head)
    (hs : spaced head = true) (hc : Row.Cut ⟨0, closers outer⟩) (hb : ∀ r ∈ body, r.Cut) :
    ∀ r ∈ block head outer body, r.Cut := by
  intro r hr
  rw [block, List.cons_append, List.mem_cons, List.mem_append, List.mem_singleton] at hr
  rcases hr with rfl | hr | rfl
  · exact Row.cut_of_isLine hl hs 0
  · obtain ⟨r', hr', rfl⟩ := List.mem_map.1 hr
    exact (hb r' hr').deeper
  · exact hc

theorem cut_brace : Row.Cut ⟨0, closers []⟩ := ⟨by decide, rfl⟩

theorem cut_call : Row.Cut ⟨0, closers [.paren]⟩ := ⟨by decide, rfl⟩

section

variable {ms : Models}

theorem cut_body {m : String × Method} (h : PlainMethod ms m) : ∀ r ∈ bodyRows m.1 m.2, r.Cut := by
  have hrespond : ∀ r ∈ [Row.mk 0 respondPieces], r.Cut :=
    List.forall_mem_singleton.2 (Row.cut_of_isLine isLine_respondPieces rfl 0)
  rw [bodyRows, List.forall_mem_append, List.forall_mem_append, List.forall_mem_cons,
    List.forall_mem_cons, List.forall_mem_singleton]
  refine ⟨⟨⟨?_, cut_block isLine_decodeHead rfl cut_brace hrespond⟩, ?_,
    cut_block isLine_failedHead rfl cut_brace hrespond⟩, ?_⟩
  · exact Row.cut_of_isLine (isLine_requestPieces h.name.plain) rfl 0
  · exact Row.cut_of_isLine (isLine_call h) (spaced_call _ _ _) 0
  · exact Row.cut_of_isLine (isLine_answerPieces _) (by cases m.2.returns.isSome <;> rfl) 0

theorem cut_wiring {s : String × Service} (h : PlainService ms s) :
    ∀ r ∈ wiringRows s.1 s.2, r.Cut := by
  apply cut_block (isLine_wiringHead h.name.plain) rfl cut_brace
  intro r hr
  rcases mem_intercalate hr with hr | ⟨g, hg, hr⟩
  · rw [List.mem_singleton.1 hr]
    exact Row.cut_empty
  · obtain ⟨m, hm, rfl⟩ := List.mem_map.1 hg
    have hm' := h.methods m hm
    exact cut_block (isLine_postHead h.name.plain hm'.name.plain) rfl cut_call (cut_body hm') r hr

/-- All rows of a plain declaration are read as their tokens. -/
theorem Declaration.cut {d : Declaration} (h : d.IsPlain ms) : ∀ r ∈ d.rows ms, r.Cut := by
  cases d with
  | struct name fields =>
    apply cut_block (isLine_typeHead "struct" (by decide) h.1.plain) rfl cut_brace
    intro r hr
    obtain ⟨f, hf, rfl⟩ := List.mem_map.1 hr
    exact Row.cut_of_isLine (isLine_fieldPieces (h.2 f hf) _) (spaced_field hf) 0
  | interface name service =>
    apply cut_block (isLine_typeHead "interface" (by decide) h.name.plain) rfl cut_brace
    intro r hr
    obtain ⟨m, hm, rfl⟩ := List.mem_map.1 hr
    exact Row.cut_of_isLine (isLine_signaturePieces (h.methods m hm)) (spaced_signature m.1 m.2) 0
  | wiring name service => exact cut_wiring (s := (name, service)) h

end

/-! ## The printed file is a Go file -/

theorem Declaration.phrased {ms : Models} {d : Declaration} (h : d.IsPlain ms) :
    Phrased (.rule .topLevelDecl) (⟨0, []⟩ :: d.rows ms) := by
  cases d with
  | struct name fields => exact phrased_struct h.1 h.2 _
  | interface name service => exact phrased_interface (s := (name, service)) h
  | wiring name service => exact phrased_wiring (s := (name, service)) h

/-- A text that leaves out no semicolon. -/
theorem Completes.refl (ts : List Token) : Completes ts ts := by
  induction ts with
  | nil => exact .nil
  | cons t ts ih => exact .kept ih

section

variable {o : GoOptions} {ds : List Definition}

def packageClause : Sentence := ⟨.rule .packageClause, [.keyword .package, .ident], by decide +kernel⟩

theorem phrased_package (hp : Plain o ds) : Phrased (.rule .packageClause) [⟨0, packagePieces o⟩] := by
  have hword : pieceTokens (packagePieces o) =
      [Token.ofWord "package".toList, Token.ofWord o.package.toList] := rfl
  rw [ofWord_plain ⟨hp.package, hp.noKeyword⟩] at hword
  refine .of_line ?_ ?_ 0
  · rw [hword]
    rfl
  · rw [hword]
    exact packageClause.fits

def importDecl : Sentence := ⟨.rule .importDecl, [.keyword .import_, .string], by decide +kernel⟩

theorem phrased_import : Phrased (.rule .importDecl) [⟨0, importPieces o⟩] := by
  have hword : pieceTokens (importPieces o) = [Token.ofWord "import".toList, .string] := rfl
  refine .of_line ?_ ?_ 0
  · rw [hword]
    rfl
  · rw [hword]
    exact importDecl.fits

theorem fits_file (hp : Plain o ds) (ha : Accepted ds) :
    Form.Fits (.rule .sourceFile) ((fileRows ⟨modelNames ds⟩ o ds).flatMap Row.tokens) := by
  obtain ⟨package, hpackage, hpackageRow⟩ := phrased_package hp
  have himports := fits_groups [[⟨0, importPieces o⟩]] (List.forall_mem_singleton.2 phrased_import)
  have hdecls := fits_groups (x := .rule .topLevelDecl)
      ((batchDeclarations ds).map fun d => ⟨0, []⟩ :: d.rows ⟨modelNames ds⟩) fun g hg => by
    obtain ⟨d, hd, rfl⟩ := List.mem_map.1 hg
    exact Declaration.phrased (isPlain_of_mem hp.toLegible ha d hd)
  have hrows : (fileRows ⟨modelNames ds⟩ o ds).flatMap Row.tokens = package ++ [semicolon] ++
      [[⟨0, importPieces o⟩]].flatten.flatMap Row.tokens ++
      ((batchDeclarations ds).map fun d => ⟨0, []⟩ :: d.rows ⟨modelNames ds⟩).flatten.flatMap Row.tokens := by
    have hempty : Row.tokens ⟨0, []⟩ = [] := rfl
    rw [← hpackageRow, fileRows, List.flatMap_append, ← List.flatMap_def]
    simp [hempty]
  rw [hrows]
  exact .rule (.seq (.seq (.seq hpackage (.term rfl)) himports) hdecls)

/-- All rows of the file are read as their tokens. -/
theorem cut_of_mem (hp : Legible o ds) (ha : Accepted ds) : ∀ r ∈ fileRows ⟨modelNames ds⟩ o ds, r.Cut := by
  rw [fileRows, List.forall_mem_append, List.forall_mem_cons, List.forall_mem_cons,
    List.forall_mem_singleton]
  refine ⟨⟨?_, Row.cut_empty, ?_⟩, fun r hr => ?_⟩
  · exact Row.cut_of_isLine (isLine_packagePieces hp) rfl 0
  · exact Row.cut_of_isLine (isLine_importPieces hp) rfl 0
  · obtain ⟨d, hd, hr⟩ := List.mem_flatMap.1 hr
    rcases List.mem_cons.1 hr with rfl | hr
    · exact Row.cut_empty
    · exact Declaration.cut (isPlain_of_mem hp ha d hd) r hr

/-- The banner is a comment. -/
theorem reads_banner {rest : List Char} {ts : List Token} (h : Reads false rest ts) :
    Reads false (banner.toList ++ '\n' :: rest) ts := by
  have hbanner : ∀ c ∈ " THIS CODE WAS AUTO GENERATE".toList ++ ['D'],
      c ≠ '\n' ∧ Pattern.isSource c = true := by
    decide
  rw [toList_banner]
  exact .lineComment hbanner (by simp) (.newline h)

/-- The printed file is a Go file. -/
theorem isFile_file (hp : Plain o ds) (ha : Accepted ds) : IsFile (Printer.file o ds).toList := by
  have hrows := reads_rows (cut_of_mem hp.toLegible ha) (.finished false)
  rw [List.append_nil, lineEnd, if_neg (by decide), List.append_nil] at hrows
  refine ⟨_, _, ?_, Completes.refl _, fits_file hp ha⟩
  rw [file_eq_rows hp.toLegible ha]
  exact reads_banner hrows

end

end ServiceSchema.Go

namespace ServiceSchema

open Fallible

variable {check : Go.Check} {o : Options} {ds : List Definition} {out : String}

/-- An accepted batch of ASCII names gets its printed file, if the file passes the check. -/
theorem generateAll_eq_of_accepted (check : Go.Check) (hp : Legible o.go ds) (ha : Accepted ds) :
    generateAll check o ds =
      match check (Printer.file o.go ds).toList with
      | .ok () => .ok (Printer.file o.go ds)
      | .error message => .error (.emit (.grammar message)) := by
  obtain ⟨s, hs⟩ := exists_declarations_eq_ok.2 ha
  obtain ⟨ls, hlayout, hwrite⟩ := Go.write_layout hp ha
  rw [generateAll_eq, hs, ok_bind, declarations_eq_written hs]
  unfold Go.format Go.formatChars
  simp only [hlayout, hwrite]
  cases check (Printer.file o.go ds).toList with
  | error message => rfl
  | ok u => exact congrArg Except.ok String.ofList_toList

theorem generateAll_of_accepted (hp : Legible o.go ds) (ha : Accepted ds)
    (hcheck : check (Printer.file o.go ds).toList = .ok ()) :
    generateAll check o ds = .ok (Printer.file o.go ds) := by
  rw [generateAll_eq_of_accepted check hp ha, hcheck]

theorem accepted_of_generateAll (h : generateAll check o ds = .ok out) : Accepted ds := by
  rw [generateAll_eq, bind_eq_ok] at h
  obtain ⟨s, hs, -⟩ := h
  exact exists_declarations_eq_ok.1 ⟨s, hs⟩

/-- The file of a batch of ASCII names is the printed one, to the byte, whatever checks it. -/
theorem generateAll_eq_printed (hp : Legible o.go ds) (h : generateAll check o ds = .ok out) :
    out = Printer.file o.go ds := by
  rw [generateAll_eq_of_accepted check hp (accepted_of_generateAll h)] at h
  split at h
  · exact (Except.ok.inj h).symm
  · cases h

/-- Neither the layout nor a check that accepts all Go files refuses the file of a plain batch
    whose definitions keep the naming rules, whose models are distinct and whose types can be
    read. -/
theorem exists_generateAll_of_plain (hfiles : Go.Check.AcceptsFiles check) (hp : Plain o.go ds)
    (hrules : ∀ d ∈ ds, d.check = .ok ()) (hmodels : (modelNames ds).Nodup)
    (htypes : ∀ d ∈ ds, ∀ raw ∈ d.rawTypes, ∃ t, TypeExpr.read ⟨modelNames ds⟩ raw = .ok t) :
    ∃ out, generateAll check o ds = .ok out := by
  have ha : Accepted ds := ⟨hmodels, fun d hd => Definition.check_eq_ok.1 (hrules d hd), htypes⟩
  exact ⟨_, generateAll_of_accepted hp.toLegible ha (hfiles _ (Go.isFile_file hp ha))⟩

/-! ## A plain batch of two files -/

open Classical in
/-- The check that accepts the Go files and nothing else. -/
noncomputable def Go.fileCheck : Go.Check := fun text =>
  if Go.IsFile text then .ok () else .error "no Go file"

theorem Go.exact_fileCheck : Go.Check.Exact Go.fileCheck := by
  intro text
  rw [Go.fileCheck]
  split
  · rename_i h
    exact iff_of_true rfl h
  · rename_i h
    exact iff_of_false (fun hok => by cases hok) h

theorem Go.Check.Exact.acceptsFiles (h : Go.Check.Exact check) : Go.Check.AcceptsFiles check :=
  fun text => (h text).2

/-- A library with a model that a type of the other file refers to. -/
def plainBatch : List Definition :=
  [⟨.empty,
    .ofList [("Shelf", .ofList [("find", ⟨.ofList [("title", "string"), ("return", "[]book")]⟩)])]⟩,
   ⟨.ofList [("book", .ofList [("title", "string"), ("pages", "map[string]int32")])], .empty⟩]

def plainOptions : Options := ⟨"", "out", none, ⟨"library", " \"github.com/gofiber/fiber/v2\" "⟩⟩

theorem plain_plainBatch : Plain plainOptions.go plainBatch := by decide +kernel

theorem accepted_plainBatch : Accepted plainBatch := by decide +kernel

/-- The exact check accepts its file. -/
theorem generateAll_plainBatch :
    generateAll Go.fileCheck plainOptions plainBatch = .ok (Printer.file plainOptions.go plainBatch) :=
  generateAll_of_accepted plain_plainBatch.toLegible accepted_plainBatch
    (Go.exact_fileCheck.acceptsFiles _ (Go.isFile_file plain_plainBatch accepted_plainBatch))

theorem generateAll_eq_printed_plainBatch :
    ∃ out, generateAll Go.fileCheck plainOptions plainBatch = .ok out ∧
      out = Printer.file plainOptions.go plainBatch :=
  ⟨_, generateAll_plainBatch, generateAll_eq_printed plain_plainBatch.toLegible generateAll_plainBatch⟩

theorem exists_generateAll_plainBatch :
    Plain plainOptions.go plainBatch ∧ (∀ d ∈ plainBatch, d.check = .ok ()) ∧
      ∃ out, generateAll Go.fileCheck plainOptions plainBatch = .ok out := by
  have hrules : ∀ d ∈ plainBatch, d.check = .ok () := by
    intro d hd
    exact Definition.check_eq_ok.2 (accepted_plainBatch.wellNamed d hd)
  exact ⟨plain_plainBatch, hrules, exists_generateAll_of_plain Go.exact_fileCheck.acceptsFiles
    plain_plainBatch hrules accepted_plainBatch.distinctModels accepted_plainBatch.readable⟩

end ServiceSchema
