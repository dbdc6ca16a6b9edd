/-
  ServiceSchema.Proofs.SourceWalk — the tokens of a generated file at its declarations.

  The lines of a batch that gets its file are read one after another. So the tokens of a
  declaration begin where its first line begins, as soon as nothing before it can hide it in a
  string or in a comment (`Tame`, for the texts that are pasted into the lines).

  - `walks_of_generateAll`: the lines are read from the package on.
  - `exists_walks_of_mem`: the tokens of a file at the first line of each declaration.
-/
import ServiceSchema.Proofs.PlainFile
import ServiceSchema.Proofs.Walk

namespace ServiceSchema.Go

open Text

section

variable {check : Check} {o : Options} {ds : List Definition} {out : String}

/-- The lines of a batch that gets its file are read one after another. -/
theorem walks_of_generateAll (hexact : Check.Exact check) (h : generateAll check o ds = .ok out)
    (hone : ∀ l ∈ sourceLines o.go ds, OneLine l.toList) :
    ∃ ts all, Walks ((sourceLines o.go ds).map String.toList) ts ∧ Completes all ts ∧
      Form.Fits (.rule .sourceFile) all := by
  rw [generateAll_eq, Fallible.bind_eq_ok] at h
  obtain ⟨s, hs, hf⟩ := h
  obtain ⟨out, hout⟩ : ∃ out, formatChars check ((writtenSource ds).text o.go).toList = .ok out := by
    rw [declarations_eq_written hs] at hf
    unfold format at hf
    cases hc : formatChars check ((writtenSource ds).text o.go).toList with
    | ok out => exact ⟨out, rfl⟩
    | error fault =>
      rw [hc] at hf
      cases hf
  obtain ⟨-, -, -, hcheck⟩ := exists_of_formatChars hout
  have hfirst : OneLine banner.toList := oneLine_of_all (by decide)
  have hlines : ∀ l ∈ banner.toList :: (sourceLines o.go ds).map String.toList, OneLine l := by
    rw [List.forall_mem_cons]
    refine ⟨hfirst, fun l hl => ?_⟩
    obtain ⟨line, hline, rfl⟩ := List.mem_map.1 hl
    exact hone line hline
  have hcomment : banner.toList = '/' :: '/' :: ' ' :: "THIS CODE WAS AUTO GENERATED".toList := by
    unfold banner
    simp
  rw [toList_source, hcomment] at hout
  rw [hcomment] at hlines
  obtain ⟨ts, all, hwalks, hrest⟩ := walks_of_formatChars hlines hout ((hexact out).1 hcheck)
  exact ⟨ts, all, (hwalks.left rfl).comment, hrest⟩

end

/-! ## Lines that are passed -/

/-- A character that neither quotes nor comments nor strings give a meaning to. -/
def isTamePart (c : Char) : Bool := isCalmPart c && c != '\\'

/-- A text that can stand outside of strings and inside of them. -/
def Tame (text : String) : Prop := ∀ c ∈ text.toList, isTamePart c = true

instance (text : String) : Decidable (Tame text) :=
  inferInstanceAs (Decidable (∀ c ∈ text.toList, isTamePart c = true))

theorem tame_append {a b : String} : Tame (a ++ b) ↔ Tame a ∧ Tame b := by
  unfold Tame
  rw [String.toList_append, List.forall_mem_append]

theorem tame_intercalate {texts : List String} (h : ∀ text ∈ texts, Tame text) :
    Tame (", ".intercalate texts) := by
  unfold Tame
  rw [String.toList_intercalate]
  intro c hc
  rcases mem_intercalate hc with hc | ⟨g, hg, hc⟩
  · exact (by decide : Tame ", ") c hc
  · obtain ⟨text, htext, rfl⟩ := List.mem_map.1 hg
    exact h text htext c hc

theorem Tame.calm {text : String} (h : Tame text) : Calm text.toList := by
  apply Calm.of_parts
  intro c hc
  have hc' := h c hc
  rw [isTamePart, Bool.and_eq_true] at hc'
  exact hc'.1

theorem Tame.oneLine {text : String} (h : Tame text) : OneLine text.toList := h.calm.oneLine

theorem Tame.ne_of_mem {text : String} (h : Tame text) :
    ∀ c ∈ text.toList, c ≠ '"' ∧ c ≠ '\\' ∧ c ≠ '`' := by
  intro c hc
  have hne := ne_of_class (h c hc)
  exact ⟨hne '"' (by decide), hne '\\' (by decide), hne '`' (by decide)⟩

/-- A field or a parameter whose texts are tame. -/
structure TameField (f : String × String) : Prop where
  name : Tame f.1
  exported : Tame (exportedName f.1)
  type : Tame f.2

structure TameMethod (m : String × Method) : Prop where
  name : Tame m.1
  params : ∀ p ∈ m.2.params, TameField p
  returns : ∀ raw ∈ m.2.returns.toList, Tame raw

/-- All texts of a declaration are tame. -/
def Declaration.IsTame : Declaration → Prop
  | struct name fields => Tame name ∧ ∀ f ∈ fields, TameField f
  | interface name service | wiring name service => Tame name ∧ ∀ m ∈ service.entries, TameMethod m

theorem calm_typeHead {name : String} (h : Tame name) {kind : String} (hk : Tame kind) :
    Calm ("type " ++ name ++ kind).toList :=
  (tame_append.2 ⟨tame_append.2 ⟨by decide, h⟩, hk⟩).calm

theorem toList_memberLine (f : String × String) : (writtenMember f).line.toList =
    (exportedName f.1).toList ++ ' ' :: (f.2.toList ++ ' ' :: '`' ::
      (("json:\"" ++ f.1 ++ "\"").toList ++ '`' :: [])) := by
  simp [Member.line, writtenMember]

/-- A tag is a string between back quotes. -/
theorem tag_of_tame {name : String} (h : Tame name) :
    OneLine ("json:\"" ++ name ++ "\"").toList ∧ '`' ∉ ("json:\"" ++ name ++ "\"").toList := by
  rw [String.toList_append, String.toList_append, OneLine, List.forall_mem_append,
    List.forall_mem_append, List.mem_append, List.mem_append, not_or, not_or]
  have hquote : '`' ∉ name.toList := fun hc => (h.ne_of_mem _ hc).2.2 rfl
  exact ⟨⟨⟨by decide, h.oneLine⟩, by decide⟩, ⟨by decide, hquote⟩, by decide⟩

theorem calm_memberLine {f : String × String} (h : TameField f) : Calm (writtenMember f).line.toList := by
  rw [toList_memberLine]
  refine h.exported.calm.append (.char (by decide) (h.type.calm.append (.char (by decide) ?_)))
  exact .raw (tag_of_tame h.name).1 (tag_of_tame h.name).2 .nil

theorem tame_signature {m : String × Method} (h : TameMethod m) : Tame (writtenSignature m.1 m.2).line := by
  have hparams : Tame (", ".intercalate (m.2.params.map fun p => p.1 ++ " " ++ p.2)) := by
    apply tame_intercalate
    intro text htext
    obtain ⟨p, hp, rfl⟩ := List.mem_map.1 htext
    exact tame_append.2 ⟨tame_append.2 ⟨(h.params p hp).name, by decide⟩, (h.params p hp).type⟩
  have hhead := tame_append.2 ⟨tame_append.2 ⟨h.name, (by decide : Tame "(")⟩, hparams⟩
  unfold Signature.line
  apply tame_append.2
  refine ⟨hhead, ?_⟩
  cases hr : m.2.returns with
  | none =>
    simp only [writtenSignature, hr]
    decide
  | some raw =>
    simp only [writtenSignature, hr]
    have hraw : Tame raw := h.returns raw (by rw [hr]; exact Option.mem_toList.2 rfl)
    exact tame_append.2 ⟨tame_append.2 ⟨by decide, hraw⟩, by decide⟩

theorem calm_respondError : Calm respondError.toList := by
  have hline : respondError.toList =
      "return c.Status(fiber.StatusInternalServerError).JSON(fiber.Map\x7b".toList ++
        '"' :: ("message".toList ++ '"' :: ": err.Error()\x7d)".toList) := by
    unfold respondError
    simp
  have hbefore : Tame "return c.Status(fiber.StatusInternalServerError).JSON(fiber.Map\x7b" := by decide
  have hbehind : Tame ": err.Error()\x7d)" := by decide
  have hmessage : Tame "message" := by decide
  rw [hline]
  exact hbefore.calm.append (.quoted hmessage.oneLine (by decide) hbehind.calm)

theorem calm_route {service name : String} (hs : Tame service) (hn : Tame name) :
    Calm ("app.Post(\"/" ++ service ++ "." ++ name ++ "\", func(c *fiber.Ctx) error \x7b").toList := by
  have hline : ("app.Post(\"/" ++ service ++ "." ++ name ++ "\", func(c *fiber.Ctx) error \x7b").toList =
      "app.Post(".toList ++ '"' :: (("/" ++ service ++ "." ++ name).toList ++
        '"' :: ", func(c *fiber.Ctx) error \x7b".toList) := by
    simp
  have hbody : OneLine ("/" ++ service ++ "." ++ name).toList ∧
      ∀ c ∈ ("/" ++ service ++ "." ++ name).toList, c ≠ '"' ∧ c ≠ '\\' := by
    have hparts : ∀ {text : String}, Tame text → ∀ c ∈ text.toList, c ≠ '"' ∧ c ≠ '\\' :=
      fun h c hc => ⟨(h.ne_of_mem c hc).1, (h.ne_of_mem c hc).2.1⟩
    rw [String.toList_append, String.toList_append, String.toList_append, OneLine]
    simp only [List.forall_mem_append]
    exact ⟨⟨⟨⟨by decide, hs.oneLine⟩, by decide⟩, hn.oneLine⟩,
      ⟨⟨by decide, hparts hs⟩, by decide⟩, hparts hn⟩
  have hbefore : Tame "app.Post(" := by decide
  have hbehind : Tame ", func(c *fiber.Ctx) error \x7b" := by decide
  rw [hline]
  exact hbefore.calm.append (.quoted hbody.1 hbody.2 hbehind.calm)

theorem tame_call {m : String × Method} (h : TameMethod m) : Tame ("service." ++ m.1 ++ "(" ++
    ", ".intercalate ((m.2.params.map fun p => exportedName p.1).map ("v." ++ ·)) ++ ")") := by
  have hargs :
      Tame (", ".intercalate ((m.2.params.map fun p => exportedName p.1).map ("v." ++ ·))) := by
    apply tame_intercalate
    intro text htext
    obtain ⟨arg, harg, rfl⟩ := List.mem_map.1 htext
    obtain ⟨p, hp, rfl⟩ := List.mem_map.1 harg
    exact tame_append.2 ⟨by decide, (h.params p hp).exported⟩
  have hhead : Tame ("service." ++ m.1 ++ "(") :=
    tame_append.2 ⟨tame_append.2 ⟨by decide, h.name⟩, by decide⟩
  exact tame_append.2 ⟨tame_append.2 ⟨hhead, hargs⟩, by decide⟩

theorem calm_handler {service : String} (hs : Tame service) {m : String × Method} (h : TameMethod m) :
    ∀ l ∈ (writtenHandler service m.1 m.2).lines, Calm l.toList := by
  have hrequest : Tame ("v := new(" ++ (m.1 ++ requestSuffix) ++ ")") :=
    tame_append.2 ⟨tame_append.2 ⟨by decide, tame_append.2 ⟨h.name, by decide⟩⟩, by decide⟩
  have hassign : Tame (if m.2.returns.isSome then "ret, err := " else "err := ") := by
    split <;> decide
  have hanswer : Tame (if m.2.returns.isSome then "return c.JSON(ret)" else "return nil") := by
    split <;> decide
  intro l hl
  simp only [Handler.lines, writtenHandler, List.mem_cons, List.not_mem_nil, or_false] at hl
  rcases hl with rfl | rfl | rfl | rfl | rfl | rfl | rfl | rfl | rfl | rfl | rfl
  · exact calm_route hs h.name
  · exact hrequest.calm
  · exact Tame.calm (by decide)
  · exact calm_respondError
  · exact Tame.calm (by decide)
  · exact (tame_append.2 ⟨hassign, tame_call h⟩).calm
  · exact Tame.calm (by decide)
  · exact calm_respondError
  · exact Tame.calm (by decide)
  · exact hanswer.calm
  · exact Tame.calm (by decide)

theorem calm_handlers {handlers : List Handler} (h : ∀ x ∈ handlers, ∀ l ∈ x.lines, Calm l.toList) :
    ∀ l ∈ handlerLines handlers, Calm l.toList := by
  have hempty : Calm "".toList := Tame.calm (by decide)
  induction handlers with
  | nil => exact List.forall_mem_singleton.2 hempty
  | cons x handlers ih =>
    rw [List.forall_mem_cons] at h
    cases handlers with
    | nil => exact h.1
    | cons y handlers =>
      show ∀ l ∈ x.lines ++ "" :: handlerLines (y :: handlers), Calm l.toList
      rw [List.forall_mem_append, List.forall_mem_cons]
      exact ⟨h.1, hempty, ih h.2⟩

/-- All lines of a tame declaration are passed. -/
theorem Declaration.calm_lines {d : Declaration} (h : d.IsTame) : ∀ l ∈ d.lines, Calm l.toList := by
  have hbrace : Calm "\x7d".toList := Tame.calm (by decide)
  cases d with
  | struct name fields =>
    rw [lines, writtenStruct, Struct.lines, List.cons_append, List.forall_mem_cons, List.forall_mem_append,
      List.forall_mem_singleton]
    refine ⟨calm_typeHead h.1 (by decide), ?_, hbrace⟩
    intro l hl
    rw [List.map_map] at hl
    obtain ⟨f, hf, rfl⟩ := List.mem_map.1 hl
    exact calm_memberLine (h.2 f hf)
  | interface name service =>
    rw [lines, writtenEndpoint, Interface.lines, List.cons_append, List.forall_mem_cons,
      List.forall_mem_append, List.forall_mem_singleton]
    refine ⟨calm_typeHead h.1 (by decide), ?_, hbrace⟩
    intro l hl
    rw [List.map_map] at hl
    obtain ⟨m, hm, rfl⟩ := List.mem_map.1 hl
    exact (tame_signature (h.2 m hm)).calm
  | wiring name service =>
    rw [lines, writtenEndpoint, Endpoint.wiring, List.cons_append, List.forall_mem_cons,
      List.forall_mem_append, List.forall_mem_singleton]
    refine ⟨?_, calm_handlers ?_, hbrace⟩
    · have hhead := tame_append.2 ⟨tame_append.2 ⟨(by decide : Tame "func initializeFiber"), h.1⟩,
        (by decide : Tame "(app *fiber.App, service ")⟩
      exact (tame_append.2 ⟨tame_append.2 ⟨hhead, h.1⟩, by decide⟩).calm
    · intro x hx
      obtain ⟨m, hm, rfl⟩ := List.mem_map.1 hx
      exact calm_handler h.1 (h.2 m hm)

/-- Options whose package and import are passed. -/
structure CalmOptions (o : GoOptions) : Prop where
  package : ∀ c ∈ o.package.toList, isCalmPart c = true
  path : ∀ c ∈ o.importPath, Piece.isQuotable c = true

section

variable {check : Check} {o : Options} {ds : List Definition} (ho : CalmOptions o.go)
  (hds : ∀ d ∈ batchDeclarations ds, d.IsTame)
include ho hds

theorem calm_sourceLines : ∀ l ∈ sourceLines o.go ds, Calm l.toList := by
  have hempty : Calm "".toList := Tame.calm (by decide)
  have hpackage : Calm ("package " ++ o.go.package).toList := by
    rw [String.toList_append]
    exact (Tame.calm (by decide)).append (Calm.of_parts ho.package)
  have himport : Calm ("import " ++ o.go.quotedImport).toList := by
    have hline : ("import " ++ o.go.quotedImport).toList =
        "import ".toList ++ '"' :: (o.go.importPath ++ '"' :: []) := by
      rw [quotedImport_of_quotable ho.path]
      simp
    have hpath : ∀ c ∈ o.go.importPath, c ≠ '"' ∧ c ≠ '\\' ∧ c ≠ '\n' ∧ c ≠ '\r' := by
      intro c hc
      have hne := ne_of_class (ho.path c hc)
      exact ⟨hne '"' (by decide), hne '\\' (by decide), hne '\n' (by decide), hne '\r' (by decide)⟩
    rw [hline]
    exact (Tame.calm (by decide)).append (.quoted (fun c hc => (hpath c hc).2.2)
      (fun c hc => ⟨(hpath c hc).1, (hpath c hc).2.1⟩) .nil)
  intro l hl
  simp only [sourceLines, List.mem_append, List.mem_cons, List.not_mem_nil, or_false] at hl
  rcases hl with (rfl | rfl | rfl) | hl | rfl
  · exact hpackage
  · exact hempty
  · exact himport
  · obtain ⟨d, hd, hl⟩ := List.mem_flatMap.1 hl
    rcases List.mem_cons.1 hl with rfl | hl
    · exact hempty
    · exact Declaration.calm_lines (hds d hd) l hl
  · exact hempty

/-- Among the tokens of the file those of a declaration begin at its first line. -/
theorem exists_walks_of_mem {out : String} (hexact : Check.Exact check)
    (h : generateAll check o ds = .ok out) {d : Declaration} (hd : d ∈ batchDeclarations ds) :
    ∃ src front ts all, Walks (d.lines.map String.toList ++ src) ts ∧ Completes all (front ++ ts) ∧
      Form.Fits (.rule .sourceFile) all := by
  have hcalm := calm_sourceLines ho hds
  obtain ⟨before, behind, hsplit⟩ := List.append_of_mem hd
  have hlines : sourceLines o.go ds =
      (["package " ++ o.go.package, "", "import " ++ o.go.quotedImport] ++
        before.flatMap (fun d => "" :: d.lines) ++ [""]) ++
        (d.lines ++ (behind.flatMap (fun d => "" :: d.lines) ++ [""])) := by
    rw [sourceLines, hsplit]
    simp
  obtain ⟨ts, all, hwalks, hrest⟩ := walks_of_generateAll hexact h fun l hl => (hcalm l hl).oneLine
  rw [hlines] at hcalm hwalks
  rw [List.map_append] at hwalks
  obtain ⟨front, ts', rfl, hpassed⟩ := hwalks.passAll fun l hl => by
    obtain ⟨line, hline, rfl⟩ := List.mem_map.1 hl
    exact hcalm line (List.mem_append_left _ hline)
  rw [List.map_append] at hpassed
  exact ⟨_, front, ts', all, hpassed, hrest⟩

end

end ServiceSchema.Go
