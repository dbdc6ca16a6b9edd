/-
  ServiceSchema.Proofs.CanonicalFile — generated files are canonical.

  A file is the canonical form of its declarations as they are written at first. Field lines
  are only the members of structs there: a name, a type and a tag in back quotes. No comment
  begins in such a line and no block is opened at its end, so its cells can be moved
  (`movable_member`).

  - `movableFields_source`: the cells of all field lines of a batch can be moved.
  - `generateAll_canonical`: so formatting its file changes nothing.
-/
import ServiceSchema.Proofs.Decoding
import ServiceSchema.Proofs.Idempotence
import ServiceSchema.Proofs.Independence

namespace ServiceSchema.Go

open Text

variable {ms : Models}

/-- The cells of a member's line can be moved: neither its name nor its type has a slash in
    it, and its tag begins and ends with a quote. -/
theorem movable_member {f : String × String} (h : PlainField ms f) :
    Movable (pieceChars (fieldPieces ms (1, 1) f)) := by
  have hcells := cells_fieldPieces h
  constructor
  · rw [hcells]
    intro cell hcell hcomment
    have hslash : cell.head? = some '/' := by
      obtain ⟨rest, rfl⟩ := hcomment
      rfl
    have hcode : ∀ cs : List Char, (∀ c ∈ cs, isCellPart c = true) → cs.head? ≠ some '/' := by
      intro cs hcs hhead
      have hpart := hcs '/' (List.mem_of_head? hhead)
      cases hpart
    obtain ⟨t, ht, hleaf⟩ := h.type
    have hname := (plainName_exportedName h.name.plain).plain
    simp only [List.mem_cons, List.not_mem_nil, or_false] at hcell
    rcases hcell with rfl | rfl | rfl
    · refine absurd hslash (hcode _ fun c hc => ?_)
      exact isCellPart_of_isPlainPart (isPlainPart_of_mem hname c hc)
    · refine absurd hslash (hcode _ ?_)
      rw [← TypeExpr.render_of_read ht]
      exact isCellPart_render hleaf.plain
    · cases hslash
  · have hsqueezed : squeezed (pieceChars (fieldPieces ms (1, 1) f)) = (exportedName f.1).toList ++
        ' ' :: (f.2.toList ++ ' ' :: '`' :: ("json:\"" ++ f.1 ++ "\"").toList) ++ ['`'] := by
      rw [squeezed, hcells]
      simp [List.intercalate]
    rw [opensFields, List.isSuffixOf_iff_suffix, hsqueezed]
    rintro ⟨front, hfront⟩
    have hlast := congrArg List.getLast? hfront
    rw [List.getLast?_concat, List.getLast?_append] at hlast
    cases hlast

/-- Wherever these lines stand at the top level, they are laid out, and the cells of the field
    lines among them can be moved. -/
def LaysMovable (raws : List (List Char)) : Prop :=
  ∀ nb k : Nat, ∃ (lines : List Line) (nb' : Nat),
    layoutLines ⟨.code, [], nb⟩ k raws = .ok (lines, ⟨.code, [], nb'⟩) ∧
      ∀ l ∈ lines, l.block.isSome = true → Movable l.text

namespace LaysMovable

theorem append {xs ys : List (List Char)} (hx : LaysMovable xs) (hy : LaysMovable ys) :
    LaysMovable (xs ++ ys) := by
  intro nb k
  obtain ⟨lines₁, nb₁, hlay₁, hmove₁⟩ := hx nb k
  obtain ⟨lines₂, nb₂, hlay₂, hmove₂⟩ := hy nb₁ (k + xs.length)
  exact ⟨lines₁ ++ lines₂, nb₂, layoutLines_append hlay₁ hlay₂,
    List.forall_mem_append.2 ⟨hmove₁, hmove₂⟩⟩

theorem flatMap {α : Type} {f : α → List (List Char)} {xs : List α}
    (h : ∀ x ∈ xs, LaysMovable (f x)) : LaysMovable (xs.flatMap f) := by
  induction xs with
  | nil => exact fun nb k => ⟨[], nb, rfl, List.forall_mem_nil _⟩
  | cons x xs ih =>
    rw [List.forall_mem_cons] at h
    rw [List.flatMap_cons]
    exact h.1.append (ih h.2)

/-- Rows outside field blocks have no field lines. -/
theorem of_lays {rows : List Row} (h : Lays rows) : LaysMovable (rows.map Row.chars) := by
  intro nb k
  refine ⟨_, nb, h [] nb k rfl, fun l hl hblock => ?_⟩
  obtain ⟨r, -, rfl⟩ := List.mem_map.1 hl
  cases hblock

theorem empty : LaysMovable [[]] := of_lays lays_empty

theorem struct {name : String} {fields : List (String × String)} (hn : isPlain name = true)
    (h : ∀ f ∈ fields, PlainField ms f) :
    LaysMovable ((structRows ms (fun _ => (1, 1)) name fields).map Row.chars) := by
  intro nb k
  refine ⟨_, _, layoutLines_struct hn h nb k, ?_⟩
  rw [structLines, List.forall_mem_append, List.forall_mem_cons, List.forall_mem_singleton]
  refine ⟨⟨fun hblock => ?_, fun l hl _ => ?_⟩, fun hblock => ?_⟩
  · cases hblock
  · obtain ⟨f, hf, rfl⟩ := List.mem_map.1 hl
    exact movable_member (h f hf)
  · cases hblock

end LaysMovable

theorem Declaration.laysMovable {d : Declaration} (h : d.IsPlain ms) :
    LaysMovable (d.lines.map String.toList) := by
  cases d with
  | struct name fields =>
    rw [lines, lines_struct h.2]
    exact .struct h.1.plain h.2
  | interface name service =>
    rw [lines, lines_interface h]
    exact .of_lays (lays_interface (s := (name, service)) h)
  | wiring name service =>
    by_cases he : service.entries = []
    · rw [lines, lines_wiring_empty he]
      exact .of_lays (Lays.block (isLine_wiringHead h.name.plain) (opens_wiringHead _) rfl
        (opensFields_wiringHead _) closes_brace lays_empty)
    · rw [lines, lines_wiring he]
      exact .of_lays (lays_wiring (s := (name, service)) h)

/-- The cells of all field lines of a batch of ASCII names can be moved. -/
theorem movableFields_source {o : GoOptions} {ds : List Definition} (hp : Legible o ds)
    (ha : Accepted ds) : MovableFields ((writtenSource ds).text o).toList := by
  have hbody : LaysMovable
      (((batchDeclarations ds).flatMap fun d => [] :: d.lines.map String.toList) ++ [[]]) :=
    (LaysMovable.flatMap fun d hd =>
      LaysMovable.empty.append (Declaration.laysMovable (isPlain_of_mem hp ha d hd))).append .empty
  obtain ⟨lines, nb, hlay, hmove⟩ := hbody 0 5
  have hall := layoutLines_append (layoutLines_head hp) hlay
  have hlines : Text.lines ((writtenSource ds).text o).toList =
      [banner.toList, pieceChars (packagePieces o), [], pieceChars (importPieces o)] ++
        (((batchDeclarations ds).flatMap fun d => [] :: d.lines.map String.toList) ++ [[]]) := by
    rw [toList_source, lines_unlines (oneLine_sourceLines hp ha), map_sourceLines hp]
  intro ls hls
  obtain ⟨n, hlayout⟩ := layout_eq_ok.1 hls
  rw [hlines, hall] at hlayout
  cases hlayout
  rw [List.forall_mem_append]
  refine ⟨fun l hl hblock => ?_, hmove⟩
  simp only [headLines, List.mem_cons, List.not_mem_nil, or_false] at hl
  rcases hl with rfl | rfl | rfl | rfl <;> cases hblock

end ServiceSchema.Go

namespace ServiceSchema

/-- Generated files are canonical: formatting the file of a batch whose names are ASCII
    identifiers gives the file. -/
theorem generateAll_canonical {check : Go.Check} {o : Options} {ds : List Definition} {out : String}
    (hl : Legible o.go ds) (h : generateAll check o ds = .ok out) : Go.format check out = .ok out := by
  have hmove := Go.movableFields_source hl (accepted_of_generateAll h)
  obtain ⟨-, hformat⟩ := generateAll_eq_ok.1 h
  rw [Go.format_eq_ok] at hformat ⊢
  exact Go.formatChars_formatChars hformat hmove

theorem generateAll_canonical_plainBatch :
    ∃ out, generateAll Go.fileCheck plainOptions plainBatch = .ok out ∧
      Go.format Go.fileCheck out = .ok out :=
  ⟨_, generateAll_plainBatch, generateAll_canonical plain_plainBatch.toLegible generateAll_plainBatch⟩

end ServiceSchema
