/-
  ServiceSchema.Proofs.PlainBlocks — the declarations of a plain batch, formatted one by one.

  - `formats_struct`: a struct formats to the rows with their columns filled up.
  - `formats_interface`, `formats_wiring`: the other declarations only get their tabs; a
    service without methods loses the empty line in its function.

  That these rows are what the printer prints is the subject of
  `ServiceSchema.Proofs.PlainLayout`.
-/
import ServiceSchema.Proofs.PlainLines

namespace ServiceSchema.Go

/-! ## Rows that are not empty -/

theorem Piece.oneLine {p : Piece} (h : p.isSound = true) : Text.OneLine p.chars := by
  intro c hc
  cases p with
  | word text =>
    have hne := ne_of_class (isPlainPart_of_mem h c hc)
    exact ⟨hne '\n' (by decide), hne '\r' (by decide)⟩
  | opener kind => exact Text.oneLine_of_all (by cases kind <;> decide) c hc
  | closer kind => exact Text.oneLine_of_all (by cases kind <;> decide) c hc
  | sign sign => exact Text.oneLine_of_all (by cases sign <;> decide) c hc
  | gap width =>
    rw [List.eq_of_mem_replicate hc]
    decide
  | quoted body =>
    rcases List.mem_cons.1 hc with rfl | hc
    · decide
    rcases List.mem_append.1 hc with hc | hc
    · have hq := List.all_eq_true.1 h c hc
      simp only [isQuotable, Bool.and_eq_true, bne_iff_ne, ne_eq] at hq
      exact ⟨hq.1.1.2, hq.1.2⟩
    · rw [List.mem_singleton.1 hc]
      decide
  | raw body =>
    rcases List.mem_cons.1 hc with rfl | hc
    · decide
    rcases List.mem_append.1 hc with hc | hc
    · have hq := List.all_eq_true.1 h c hc
      simp only [isRawPart, Bool.and_eq_true, bne_iff_ne, ne_eq] at hq
      exact ⟨hq.1.1.2, hq.1.2⟩
    · rw [List.mem_singleton.1 hc]
      decide

/-- A row of sound pieces that is not empty. -/
structure Row.Solid (r : Row) : Prop where
  sound : ∀ p ∈ r.pieces, p.isSound = true
  nonempty : r.chars ≠ []

namespace Row

variable {r : Row}

theorem Solid.oneLine (h : r.Solid) : Text.OneLine r.chars := by
  intro c hc
  obtain ⟨p, hp, hc⟩ := List.mem_flatMap.1 hc
  exact Piece.oneLine (h.sound p hp) c hc

theorem Solid.deeper (h : r.Solid) : r.deeper.Solid := ⟨h.sound, h.nonempty⟩

theorem Solid.isBlank (h : r.Solid) (base : Nat) : (r.line base).isBlank = false := by
  rw [← Bool.not_eq_true]
  intro hb
  exact h.nonempty (List.isEmpty_iff.1 hb)

theorem solid_of_isLine {ps : List Piece} (h : IsLine ps) (depth : Nat) : Solid ⟨depth, ps⟩ := by
  obtain ⟨c, cs, hc, -⟩ := h.exists_head
  refine ⟨h.sound, ?_⟩
  rw [chars, hc]
  exact List.cons_ne_nil c cs

theorem solid_closers (outer : List Bracket) (depth : Nat) : Solid ⟨depth, closers outer⟩ := by
  refine ⟨fun p hp => ?_, List.cons_ne_nil _ _⟩
  rcases List.mem_cons.1 hp with rfl | hp
  · rfl
  · obtain ⟨k, -, rfl⟩ := List.mem_map.1 hp
    rfl

end Row

theorem solid_block {head : List Piece} {outer : List Bracket} {body : List Row} (hl : IsLine head)
    (hb : ∀ r ∈ body, r.Solid) : ∀ r ∈ block head outer body, r.Solid := by
  intro r hr
  rw [block, List.cons_append, List.mem_cons, List.mem_append, List.mem_singleton] at hr
  rcases hr with rfl | hr | rfl
  · exact Row.solid_of_isLine hl 0
  · obtain ⟨r', hr', rfl⟩ := List.mem_map.1 hr
    exact (hb r' hr').deeper
  · exact Row.solid_closers outer 0

theorem ends_closers (outer : List Bracket) (base : Nat) : (Row.line base ⟨0, closers outer⟩).Ends := by
  refine ⟨(Row.solid_closers outer 0).isBlank base, beq_eq_false_iff_ne.2 fun h => ?_⟩
  have hmem := List.mem_of_getLast? h
  simp [closers] at hmem

theorem line_block (head : List Piece) (outer : List Bracket) (body : List Row) (base : Nat) :
    (block head outer body).map (Row.line base) =
      Row.line base ⟨0, head⟩ :: body.map (Row.line (base + 1)) ++
        [Row.line base ⟨0, closers outer⟩] := by
  have hdeeper : Row.line base ∘ Row.deeper = Row.line (base + 1) :=
    funext fun r => Row.line_deeper base r
  simp only [block, List.map_cons, List.map_append, List.map_nil, List.map_map, hdeeper]

theorem startsWithCloser_line {ps : List Piece} (h : IsLine ps) (base depth : Nat) :
    startsWithCloser (Row.line base ⟨depth, ps⟩).text = false := by
  obtain ⟨c, cs, hc, -, hk⟩ := h.exists_head
  show startsWithCloser (pieceChars ps) = false
  rw [hc]
  exact hk

/-- A block without empty rows keeps all its lines. -/
theorem stable_block {head : List Piece} {outer : List Bracket} {body : List Row} (hl : IsLine head)
    (hb : ∀ r ∈ body, r.Solid) (base : Nat) : Stable ((block head outer body).map (Row.line base)) := by
  have hblank : ∀ l ∈ (block head outer body).map (Row.line base), l.isBlank = false := by
    intro l hmem
    obtain ⟨r, hr, rfl⟩ := List.mem_map.1 hmem
    exact (solid_block hl hb r hr).isBlank base
  rw [line_block] at hblank ⊢
  refine stable_of_text (startsWithCloser_line hl base 0) hblank ?_
  exact ⟨Row.line base ⟨0, head⟩ :: body.map (Row.line (base + 1)), _, rfl, ends_closers outer base⟩

/-- A block keeps all its lines if its body does. -/
theorem stable_block_of_body {head : List Piece} {outer : List Bracket} {body : List Row}
    (hl : IsLine head) {base : Nat} (hb : Stable (body.map (Row.line (base + 1)))) :
    Stable ((block head outer body).map (Row.line base)) := by
  rw [line_block]
  have hblank := (Row.solid_of_isLine hl 0).isBlank base
  exact hb.close (startsWithCloser_line hl base 0) hblank (ends_closers outer base)

/-! ## Groups of rows with an empty row between them -/

theorem lays_intercalate {gs : List (List Row)} (h : ∀ g ∈ gs, Lays g) :
    Lays ([⟨0, []⟩].intercalate gs) := by
  induction gs with
  | nil => exact lays_nil
  | cons g gs ih =>
    rw [List.forall_mem_cons] at h
    cases gs with
    | nil => rw [List.intercalate_singleton]; exact h.1
    | cons g' gs =>
      rw [List.intercalate_cons_cons]
      exact (h.1.append lays_empty).append (ih h.2)

theorem stable_intercalate {base : Nat} {gs : List (List Row)} (hne : gs ≠ [])
    (h : ∀ g ∈ gs, Stable (g.map (Row.line base))) :
    Stable (([⟨0, []⟩].intercalate gs).map (Row.line base)) := by
  induction gs with
  | nil => exact absurd rfl hne
  | cons g gs ih =>
    rw [List.forall_mem_cons] at h
    cases gs with
    | nil => rw [List.intercalate_singleton]; exact h.1
    | cons g' gs =>
      have htail := ih (List.cons_ne_nil _ _) h.2
      have hempty : (Row.line base ⟨0, []⟩).isBlank = true := rfl
      rw [List.intercalate_cons_cons, List.map_append, List.map_append, List.append_assoc]
      exact h.1.separated htail hempty

theorem mem_intercalate {α : Type} {sep : List α} {gs : List (List α)} {a : α}
    (h : a ∈ sep.intercalate gs) :
    a ∈ sep ∨ ∃ g ∈ gs, a ∈ g := by
  induction gs with
  | nil => cases h
  | cons g gs ih =>
    cases gs with
    | nil => exact Or.inr ⟨g, List.mem_cons_self, by rwa [List.intercalate_singleton] at h⟩
    | cons g' gs =>
      rw [List.intercalate_cons_cons, List.mem_append, List.mem_append] at h
      rcases h with (h | h) | h
      · exact Or.inr ⟨g, List.mem_cons_self, h⟩
      · exact Or.inl h
      rcases ih h with h | ⟨g'', hg, h⟩
      · exact Or.inl h
      · exact Or.inr ⟨g'', List.mem_cons_of_mem _ hg, h⟩

/-! ## Interfaces -/

variable {ms : Models}

theorem lays_interface {s : String × Service} (h : PlainService ms s) :
    Lays (interfaceRows ms s.1 s.2) := by
  refine Lays.block (isLine_typeHead _ (by decide) h.name.plain) (opens_typeHead _ _) rfl
    (opensFields_interface s.1)
    closes_brace ?_
  exact lays_map fun m hm => lays_flat (isLine_signaturePieces (h.methods m hm))
    (flat_signaturePieces m.1 m.2)

theorem solid_interface {s : String × Service} (h : PlainService ms s) :
    ∀ r ∈ interfaceRows ms s.1 s.2, r.Solid := by
  apply solid_block (isLine_typeHead _ (by decide) h.name.plain)
  intro r hr
  obtain ⟨m, hm, rfl⟩ := List.mem_map.1 hr
  exact Row.solid_of_isLine (isLine_signaturePieces (h.methods m hm)) 0

theorem formats_interface {s : String × Service} (h : PlainService ms s) :
    Formats ((interfaceRows ms s.1 s.2).map Row.chars)
      ((interfaceRows ms s.1 s.2).flatMap Row.text) := by
  refine formats_of_stable (fun r hr => (solid_interface h r hr).oneLine) (lays_interface h) ?_
  refine stable_block (isLine_typeHead _ (by decide) h.name.plain) (fun r hr => ?_) 0
  obtain ⟨m, hm, rfl⟩ := List.mem_map.1 hr
  exact Row.solid_of_isLine (isLine_signaturePieces (h.methods m hm)) 0

/-! ## Handlers and their function -/

section

variable {m : String × Method} (h : PlainMethod ms m)
include h

theorem isLine_call :
    IsLine (callPieces m.2.returns.isSome m.1 (m.2.params.map fun p => exportedName p.1)) := by
  apply isLine_callPieces _ h.name.plain
  intro arg harg
  obtain ⟨p, hp, rfl⟩ := List.mem_map.1 harg
  exact (plainName_exportedName (h.params p hp).name.plain).plain

theorem lays_body : Lays (bodyRows m.1 m.2) := by
  have hrespond : Lays [⟨0, respondPieces⟩] := lays_flat isLine_respondPieces fun _ _ => rfl
  have hdecode : Lays (block decodeHead [] [⟨0, respondPieces⟩]) :=
    Lays.block isLine_decodeHead (fun _ _ => rfl) rfl (by decide) closes_brace hrespond
  have hfailed : Lays (block failedHead [] [⟨0, respondPieces⟩]) :=
    Lays.block isLine_failedHead (fun _ _ => rfl) rfl (by decide) closes_brace hrespond
  have hrequest := lays_flat (isLine_requestPieces h.name.plain) fun _ _ => rfl
  have hcall := lays_flat (isLine_call h) (flat_callPieces _ _ _)
  have hanswer := lays_flat (isLine_answerPieces m.2.returns.isSome) (flat_answerPieces _)
  exact ((hrequest.append hdecode).append (hcall.append hfailed)).append hanswer

theorem solid_body : ∀ r ∈ bodyRows m.1 m.2, r.Solid := by
  have hrespond : ∀ r ∈ [Row.mk 0 respondPieces], r.Solid :=
    List.forall_mem_singleton.2 (Row.solid_of_isLine isLine_respondPieces 0)
  rw [bodyRows, List.forall_mem_append, List.forall_mem_append, List.forall_mem_cons,
    List.forall_mem_cons, List.forall_mem_singleton]
  refine ⟨⟨⟨?_, solid_block isLine_decodeHead hrespond⟩, ?_,
    solid_block isLine_failedHead hrespond⟩, ?_⟩
  · exact Row.solid_of_isLine (isLine_requestPieces h.name.plain) 0
  · exact Row.solid_of_isLine (isLine_call h) 0
  · exact Row.solid_of_isLine (isLine_answerPieces _) 0

variable {service : String} (hs : isPlain service = true)
include hs

theorem lays_handler : Lays (handlerRows service m.1 m.2) :=
  Lays.block (isLine_postHead hs h.name.plain) (opens_postHead _ _) rfl (opensFields_postHead _ _)
    closes_call (lays_body h)

theorem solid_handler : ∀ r ∈ handlerRows service m.1 m.2, r.Solid :=
  solid_block (isLine_postHead hs h.name.plain) (solid_body h)

theorem stable_handler (base : Nat) : Stable ((handlerRows service m.1 m.2).map (Row.line base)) :=
  stable_block (isLine_postHead hs h.name.plain) (solid_body h) base

end

section

variable {s : String × Service} (h : PlainService ms s)
include h

theorem lays_wiring : Lays (wiringRows s.1 s.2) := by
  refine Lays.block (isLine_wiringHead h.name.plain) (opens_wiringHead _) rfl
    (opensFields_wiringHead _) closes_brace ?_
  apply lays_intercalate
  intro g hg
  obtain ⟨m, hm, rfl⟩ := List.mem_map.1 hg
  exact lays_handler (h.methods m hm) h.name.plain

theorem oneLine_wiring : ∀ r ∈ wiringRows s.1 s.2, Text.OneLine r.chars := by
  intro r hr
  rw [wiringRows, block, List.cons_append, List.mem_cons, List.mem_append, List.mem_singleton] at hr
  rcases hr with rfl | hr | rfl
  · exact (Row.solid_of_isLine (isLine_wiringHead h.name.plain) 0).oneLine
  · obtain ⟨r', hr', rfl⟩ := List.mem_map.1 hr
    rcases mem_intercalate hr' with hr' | ⟨g, hg, hr'⟩
    · rw [List.mem_singleton.1 hr']
      intro c hc
      cases hc
    · obtain ⟨m, hm, rfl⟩ := List.mem_map.1 hg
      exact (solid_handler (h.methods m hm) h.name.plain r' hr').oneLine
  · exact (Row.solid_closers [] 0).oneLine

theorem formats_wiring (hne : s.2.entries ≠ []) :
    Formats ((wiringRows s.1 s.2).map Row.chars) ((wiringRows s.1 s.2).flatMap Row.text) := by
  refine formats_of_stable (oneLine_wiring h) (lays_wiring h) ?_
  refine stable_block_of_body (isLine_wiringHead h.name.plain) (stable_intercalate ?_ fun g hg => ?_)
  · exact fun he => hne (List.map_eq_nil_iff.1 he)
  · obtain ⟨m, hm, rfl⟩ := List.mem_map.1 hg
    exact stable_handler (h.methods m hm) h.name.plain _

/-- Without methods the body is an empty line before formatting, and nothing after it. -/
theorem formats_wiring_empty (he : s.2.entries = []) :
    Formats ((block (wiringHead s.1) [] [⟨0, []⟩]).map Row.chars)
      ((wiringRows s.1 s.2).flatMap Row.text) := by
  have hhead := isLine_wiringHead h.name.plain
  have hrows : wiringRows s.1 s.2 = block (wiringHead s.1) [] [] := by
    rw [wiringRows, handlersRows, he]
    rfl
  rw [hrows]
  refine formats_of_lays ?_ ?_ (fun before => ?_) ?_
  · intro r hr
    rw [block, List.cons_append, List.mem_cons, List.mem_append, List.mem_singleton] at hr
    rcases hr with rfl | hr | rfl
    · exact (Row.solid_of_isLine hhead 0).oneLine
    · rw [List.map_singleton, List.mem_singleton] at hr
      subst hr
      intro c hc
      cases hc
    · exact (Row.solid_closers [] 0).oneLine
  · exact Lays.block hhead (opens_wiringHead _) rfl (opensFields_wiringHead _) closes_brace lays_empty
  · have hopen : keepLine before (Row.line 0 ⟨0, wiringHead s.1⟩) =
        Row.line 0 ⟨0, wiringHead s.1⟩ :: before :=
      keepLine_of_text ((Row.solid_of_isLine hhead 0).isBlank 0)
        (Or.inl (startsWithCloser_line hhead 0 0))
    have hempty : keepLine (Row.line 0 ⟨0, wiringHead s.1⟩ :: before) (Row.line 1 ⟨0, []⟩) =
        Row.line 0 ⟨0, wiringHead s.1⟩ :: before := by
      simp [keepLine, show (Row.line 1 ⟨0, []⟩).isBlank = true from rfl,
        show (Row.line 0 ⟨0, wiringHead s.1⟩).opens = true from rfl]
    have hclose : keepLine (Row.line 0 ⟨0, wiringHead s.1⟩ :: before) (Row.line 0 ⟨0, closers []⟩) =
        Row.line 0 ⟨0, closers []⟩ :: Row.line 0 ⟨0, wiringHead s.1⟩ :: before :=
      keepLine_of_text (ends_closers [] 0).1
        (Or.inr (List.dropWhile_cons_of_neg (by simp [(Row.solid_of_isLine hhead 0).isBlank 0])))
    rw [line_block, line_block]
    simpa [hopen, hempty] using hclose
  · rw [line_block]
    exact ⟨_, _, rfl, ends_closers [] 0⟩

end

/-! ## Columns -/

/-- A character that the cutter keeps in its cell. -/
def isCellPart (c : Char) : Bool := c != '"' && c != '`' && c != '/' && !Text.isBlank c

theorem isCellPart_of_isPlainPart {c : Char} (h : isPlainPart c = true) : isCellPart c = true := by
  have hi := isInert_of_isPlainPart h
  simp only [isInert, Bool.and_eq_true] at hi
  simp only [isCellPart, Bool.and_eq_true, Bool.not_eq_true']
  exact ⟨⟨⟨hi.1.1.1.1.1, hi.1.1.1.2⟩, hi.1.1.2⟩, isBlank_of_isPlainPart h⟩

theorem isCellPart_render {t : TypeExpr} (h : isPlain t.leaf = true) :
    ∀ c ∈ t.render.toList, isCellPart c = true := by
  have hname : ∀ name : String, isPlain name = true → ∀ c ∈ name.toList, isCellPart c = true :=
    fun name hn c hc => isCellPart_of_isPlainPart (isPlainPart_of_mem hn c hc)
  exact TypeExpr.forall_mem_render (List.all_eq_true.1 (by decide))
    (fun key => hname _ key.plainName.plain) (hname _ h)

theorem cellsFrom_code {cs : List Char} (h : ∀ c ∈ cs, isCellPart c = true) (cell rest : List Char) :
    cellsFrom cell none (cs ++ rest) = cellsFrom (cell ++ cs) none rest := by
  induction cs generalizing cell with
  | nil => rw [List.nil_append, List.append_nil]
  | cons c cs ih =>
    rw [List.forall_mem_cons] at h
    have hc := h.1
    simp only [isCellPart, Bool.and_eq_true, bne_iff_ne, ne_eq, Bool.not_eq_true'] at hc
    rw [List.cons_append, cellsFrom.eq_def]
    simp only [hc.1.1.1, hc.1.1.2, hc.1.2, hc.2, false_and, if_false, Bool.false_eq_true]
    rw [ih h.2, List.append_assoc, List.singleton_append]

theorem cellsFrom_raw {body : List Char} (h : ∀ c ∈ body, Piece.isRawPart c = true) (cell : List Char) :
    cellsFrom cell (some .back) (body ++ ['`']) = [cell ++ body ++ ['`']] := by
  induction body generalizing cell with
  | nil => simp [cellsFrom, consCell]
  | cons c body ih =>
    rw [List.forall_mem_cons] at h
    have hc := h.1
    simp only [Piece.isRawPart, Bool.and_eq_true, bne_iff_ne, ne_eq] at hc
    rw [List.cons_append, cellsFrom.eq_def]
    simp only [hc.1.1.1, if_false]
    rw [ih h.2]
    simp

/-- A member's line is cut into its name, its type and its tag. -/
theorem cells_field {name type body : List Char} (hn : ∀ c ∈ name, isCellPart c = true)
    (hne : name ≠ []) (ht : ∀ c ∈ type, isCellPart c = true) (hte : type ≠ [])
    (hb : ∀ c ∈ body, Piece.isRawPart c = true) :
    cells (name ++ ' ' :: (type ++ ' ' :: '`' :: (body ++ ['`']))) =
      [name, type, '`' :: body ++ ['`']] := by
  have hblank : ∀ cell rest : List Char, cell ≠ [] →
      cellsFrom cell none (' ' :: rest) = cell :: cellsFrom [] none rest := by
    intro cell rest hc
    rw [cellsFrom.eq_def]
    simp [consCell, hc, show Text.isBlank ' ' = true by decide]
  have hquote : cellsFrom [] none ('`' :: (body ++ ['`'])) = ['`' :: body ++ ['`']] := by
    rw [cellsFrom.eq_def]
    simp only [show ('`' = '/') = False by decide, show Text.isBlank '`' = false by decide,
      false_and, if_false, Bool.false_eq_true, show ('`' = '"') = False by decide, if_true]
    exact cellsFrom_raw hb ['`']
  rw [cells, cellsFrom_code hn, List.nil_append, hblank _ _ hne, cellsFrom_code ht, List.nil_append,
    hblank _ _ hte, hquote]

/-- Rows of three cells: the first two are filled up to the widest of their column. -/
theorem alignRows_three {α : Type} {xs : List α} {text a b c : α → List Char}
    (h : ∀ x ∈ xs, cells (text x) = [a x, b x, c x]) :
    alignRows (xs.map text) = xs.map fun x =>
      a x ++ List.replicate ((xs.map fun y => (a y).length).foldl max 0 + 1 - (a x).length) ' ' ++
        (b x ++ List.replicate ((xs.map fun y => (b y).length).foldl max 0 + 1 - (b x).length)
          ' ' ++ c x) := by
  by_cases hne : xs = []
  · rw [hne]
    rfl
  have hrows : (xs.map text).map cells = xs.map fun x => [a x, b x, c x] := by
    rw [List.map_map]
    exact List.map_congr_left h
  have hlen : ((xs.map fun x => [a x, b x, c x]).map List.length).foldl max 0 = 3 := by
    obtain ⟨x, hx⟩ := List.exists_mem_of_ne_nil xs hne
    rw [List.map_map]
    refine foldl_max_eq (Nat.zero_le 3) (fun n hn => ?_) (Or.inr (List.mem_map.2 ⟨x, hx, rfl⟩))
    obtain ⟨y, -, rfl⟩ := List.mem_map.1 hn
    exact Nat.le_refl 3
  have hwidths : columnWidths (xs.map fun x => [a x, b x, c x]) =
      [columnWidth (xs.map fun x => [a x, b x, c x]) 0, columnWidth (xs.map fun x => [a x, b x, c x]) 1,
        columnWidth (xs.map fun x => [a x, b x, c x]) 2] := by
    rw [columnWidths, hlen]
    rfl
  unfold alignRows
  simp only [hrows, hwidths, List.map_map]
  apply List.map_congr_left
  intro x _
  simp [writeCells, columnWidth, Function.comp_def]

/-! ## Structs -/

/-- The widths of the gaps that put the members of a struct into columns. -/
def alignedGaps (fields : List (String × String)) (f : String × String) : Nat × Nat :=
  (Printer.widest (fields.map fun f => exportedName f.1) + 1 - (exportedName f.1).length,
    Printer.widest (fields.map Prod.snd) + 1 - f.2.length)

theorem chars_field {f : String × String} (h : PlainField ms f) (gaps : Nat × Nat) :
    pieceChars (fieldPieces ms gaps f) = (exportedName f.1).toList ++
      (List.replicate gaps.1 ' ' ++ (f.2.toList ++
      (List.replicate gaps.2 ' ' ++ '`' :: (("json:\"" ++ f.1 ++ "\"").toList ++ ['`'])))) := by
  rw [fieldPieces, List.cons_append, pieceChars_cons, List.cons_append, pieceChars_cons,
    pieceChars_append, chars_typePieces h.type.readable]
  simp [Piece.chars]

theorem cells_fieldPieces {f : String × String} (h : PlainField ms f) :
    cells (pieceChars (fieldPieces ms (1, 1) f)) =
      [(exportedName f.1).toList, f.2.toList, '`' :: ("json:\"" ++ f.1 ++ "\"").toList ++ ['`']] := by
  have hname := (plainName_exportedName h.name.plain).plain
  obtain ⟨c, cs, hc, -⟩ := exists_of_isPlain hname
  obtain ⟨t, ht, hl⟩ := h.type
  obtain ⟨c', cs', hc', -⟩ := (isLine_typePieces h.type).exists_head
  rw [chars_typePieces h.type.readable] at hc'
  have htag : ∀ c ∈ ("json:\"" ++ f.1 ++ "\"").toList, Piece.isRawPart c = true := by
    rw [String.toList_append, List.forall_mem_append, String.toList_append, List.forall_mem_append]
    have htext := fun c hc => isRawPart_of_isPlainPart (isPlainPart_of_mem h.name.plain c hc)
    exact ⟨⟨List.all_eq_true.1 (by decide), htext⟩, List.all_eq_true.1 (by decide)⟩
  rw [chars_field h]
  refine cells_field (fun c hc => ?_) ?_ ?_ ?_ htag
  · exact isCellPart_of_isPlainPart (isPlainPart_of_mem hname c hc)
  · rw [hc]
    exact List.cons_ne_nil c cs
  · rw [← TypeExpr.render_of_read ht]
    exact isCellPart_render hl.plain
  · rw [hc']
    exact List.cons_ne_nil c' cs'

/-- The members of a struct, lined up. -/
theorem alignRows_fields {fields : List (String × String)} (h : ∀ f ∈ fields, PlainField ms f) :
    alignRows (fields.map fun f => pieceChars (fieldPieces ms (1, 1) f)) =
      fields.map fun f => pieceChars (fieldPieces ms (alignedGaps fields f) f) := by
  rw [alignRows_three fun f hf => cells_fieldPieces (h f hf)]
  apply List.map_congr_left
  intro f hf
  rw [chars_field (h f hf)]
  simp [alignedGaps, Printer.widest, Function.comp_def, String.length_toList]

theorem layoutLines_fields {fields : List (String × String)} (h : ∀ f ∈ fields, PlainField ms f)
    (stack : List Open) (nb k : Nat) :
    layoutLines ⟨.code, stack, nb⟩ k (fields.map fun f => pieceChars (fieldPieces ms (1, 1) f)) =
      .ok (fields.map fun f =>
        ⟨level stack, pieceChars (fieldPieces ms (1, 1) f), fieldsOf stack, false⟩,
        ⟨.code, stack, nb⟩) := by
  induction fields generalizing k with
  | nil => rfl
  | cons f fields ih =>
    rw [List.forall_mem_cons] at h
    have hline := layoutLine_flat (isLine_fieldPieces h.1 (1, 1)) (flat_fieldPieces f (1, 1)) stack nb k
    exact layoutLines_cons hline (ih h.2 (k + 1))

/-- The lines of a field block are written in columns. -/
theorem writeRun_fields {fields : List (String × String)} (h : ∀ f ∈ fields, PlainField ms f)
    (nb : Nat) :
    writeRun (fields.map fun f => ⟨1, pieceChars (fieldPieces ms (1, 1) f), some nb, false⟩) =
      fields.flatMap fun f => writeLine 1 (pieceChars (fieldPieces ms (alignedGaps fields f) f)) := by
  have halign := alignRows_fields h
  cases fields with
  | nil => rfl
  | cons f fields =>
    show (List.zip ((f :: fields).map _) (alignRows (((f :: fields).map _).map Line.text))).flatMap
        _ = _
    rw [List.map_map]
    show (List.zip ((f :: fields).map _)
        (alignRows ((f :: fields).map fun f => pieceChars (fieldPieces ms (1, 1) f)))).flatMap
      _ = _
    rw [halign, List.zip_map', List.flatMap_map]

theorem writeLines_members {fields : List (String × String)} (h : ∀ f ∈ fields, PlainField ms f)
    (nb : Nat) {next : Line} (hn : next.block = none) (rest : List Line) :
    writeLines ((fields.map fun f => ⟨1, pieceChars (fieldPieces ms (1, 1) f), some nb, false⟩) ++
      next :: rest) =
      (fields.flatMap fun f => writeLine 1 (pieceChars (fieldPieces ms (alignedGaps fields f) f))) ++
        writeLines (next :: rest) := by
  rw [← writeRun_fields h nb]
  cases fields with
  | nil => rfl
  | cons f fields =>
    refine writeLines_fields (n := nb) (fun l hl => ?_) hn rest
    rw [← List.map_cons
      (f := fun f => Line.mk 1 (pieceChars (fieldPieces ms (1, 1) f)) (some nb) false)] at hl
    obtain ⟨f', -, rfl⟩ := List.mem_map.1 hl
    rfl

/-- The laid-out lines of a struct, its members in field block `n`. -/
def structLines (ms : Models) (n : Nat) (name : String) (fields : List (String × String)) : List Line :=
  ⟨0, pieceChars (typeHead "struct" name), none, true⟩ ::
    (fields.map fun f => ⟨1, pieceChars (fieldPieces ms (1, 1) f), some n, false⟩) ++
    [⟨0, ['}'], none, false⟩]

theorem layoutLines_struct {name : String} {fields : List (String × String)} (hn : isPlain name = true)
    (h : ∀ f ∈ fields, PlainField ms f) (nb k : Nat) :
    layoutLines ⟨.code, [], nb⟩ k ((structRows ms (fun _ => (1, 1)) name fields).map Row.chars) =
      .ok (structLines ms nb name fields, ⟨.code, [], nb + 1⟩) := by
  have hhead : IsLine (typeHead "struct" name) := isLine_typeHead _ (by decide) hn
  -- the head opens field block `nb`, in which all members stand
  have hopen := layoutLine_opening hhead (opens_typeHead "struct" name) [] nb k
  rw [opensFields_struct, if_pos rfl] at hopen
  have hfields := layoutLines_fields h (opened k [] (some nb) ++ []) (nb + 1) (k + 1)
  rw [level_opened] at hfields
  have hclose :=
    closes_brace [] (nb + 1) (k + 1 + (fields.map fun f => pieceChars (fieldPieces ms (1, 1) f)).length)
    k (some nb)
  rw [structRows, block, List.map_append, List.map_cons, List.map_map, List.map_map]
  exact layoutLines_cons hopen (layoutLines_append hfields (layoutLines_singleton hclose))

/-- A struct formats to the same rows with their columns filled up. -/
theorem formats_struct {name : String} {fields : List (String × String)} (hn : isPlain name = true)
    (h : ∀ f ∈ fields, PlainField ms f) :
    Formats ((structRows ms (fun _ => (1, 1)) name fields).map Row.chars)
      ((structRows ms (alignedGaps fields) name fields).flatMap Row.text) := by
  have hhead : IsLine (typeHead "struct" name) := isLine_typeHead _ (by decide) hn
  have hsolid : ∀ r ∈ structRows ms (fun _ => (1, 1)) name fields, r.Solid := by
    apply solid_block hhead
    intro r hr
    obtain ⟨f, hf, rfl⟩ := List.mem_map.1 hr
    exact Row.solid_of_isLine (isLine_fieldPieces (h f hf) (1, 1)) 0
  refine ⟨fun raw hraw => ?_, fun nb k => ?_⟩
  · obtain ⟨r, hr, rfl⟩ := List.mem_map.1 hraw
    exact (hsolid r hr).oneLine
  have hlast : ∃ front l, structLines ms nb name fields = front ++ [l] ∧ l.Ends := ⟨_, _, rfl, rfl, rfl⟩
  refine ⟨structLines ms nb name fields, structLines ms nb name fields, nb + 1,
    layoutLines_struct hn h nb k, ?_, hlast, ?_⟩
  · refine (stable_of_text (startsWithCloser_line hhead 0 0) ?_ hlast).keeps
    rw [List.forall_mem_cons, List.append_eq, List.forall_mem_append, List.forall_mem_singleton]
    refine ⟨(Row.solid_of_isLine hhead 0).isBlank 0, fun l hl => ?_, rfl⟩
    obtain ⟨f, hf, rfl⟩ := List.mem_map.1 hl
    exact (Row.solid_of_isLine (isLine_fieldPieces (h f hf) (1, 1)) 0).isBlank 0
  · intro rest
    rw [structLines, List.cons_append, List.cons_append, writeLines_cons_none rfl, List.append_assoc,
      List.singleton_append, writeLines_members h nb rfl, writeLines_cons_none rfl]
    simp [structRows, block, Row.text, Row.deeper, Row.chars, List.flatMap_map, closers, Piece.chars,
      Bracket.closer]

end ServiceSchema.Go
