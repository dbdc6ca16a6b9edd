/-
  ServiceSchema.Proofs.Blocks — formatting a text block by block.

  A row is a line of pieces with its depth. Rows whose blocks are closed where they were
  opened are laid out at their depth (`Lays`), and such groups can be put one after
  another (`Lays.append`) and into a block (`Lays.block`). A top-level block formats to a text
  (`Formats`) whatever stands before and after it, so a file of blocks with empty lines
  between them formats to the texts of its blocks (`layout_blocks`).
-/
import ServiceSchema.Proofs.Pieces

namespace ServiceSchema

/-! ## Lines of a text -/

/-- A text without line ends. -/
def Text.OneLine (cs : List Char) : Prop := ∀ c ∈ cs, c ≠ '\n' ∧ c ≠ '\r'

theorem Text.oneLine_of_all {cs : List Char} (h : cs.all (fun c => c != '\n' && c != '\r') = true) :
    OneLine cs := by
  intro c hc
  have hc' := List.all_eq_true.1 h c hc
  simpa using hc'

theorem Text.lines_append {l : List Char} (h : OneLine l) (rest : List Char) :
    lines (l ++ '\n' :: rest) = l :: lines rest := by
  induction l with
  | nil => rfl
  | cons c l ih =>
    rw [OneLine, List.forall_mem_cons] at h
    rw [List.cons_append, lines.eq_def]
    split
    · rename_i heq; cases heq
    · rename_i heq; exact absurd (List.cons.inj heq).1 h.1.1
    · rename_i heq; exact absurd (List.cons.inj heq).1 h.1.2
    · rename_i heq
      obtain ⟨rfl, rfl⟩ := List.cons.inj heq
      rw [ih h.2]

theorem Text.lines_unlines {ls : List (List Char)} (h : ∀ l ∈ ls, OneLine l) :
    lines (unlines ls) = ls := by
  induction ls with
  | nil => rfl
  | cons l ls ih =>
    rw [List.forall_mem_cons] at h
    rw [unlines, List.flatMap_cons, List.append_assoc, List.singleton_append, lines_append h.1]
    exact congrArg _ (ih h.2)

namespace Go

/-- The greatest number is found wherever it stands. -/
theorem foldl_max_eq {xs : List Nat} {n i : Nat} (hi : i ≤ n) (hle : ∀ x ∈ xs, x ≤ n)
    (hn : i = n ∨ n ∈ xs) :
    xs.foldl max i = n := by
  induction xs generalizing i with
  | nil =>
    rcases hn with rfl | hn
    · rfl
    · cases hn
  | cons x xs ih =>
    rw [List.forall_mem_cons] at hle
    refine ih (Nat.max_le.2 ⟨hi, hle.1⟩) hle.2 ?_
    rcases hn with rfl | hn
    · exact Or.inl (Nat.max_eq_left hle.1)
    rcases List.mem_cons.1 hn with rfl | hn
    · exact Or.inl (Nat.max_eq_right hi)
    · exact Or.inr hn

theorem layoutLines_cons {b b' b'' : Between} {k : Nat} {raw : List Char} {raws : List (List Char)}
    {l : Line} {ls : List Line} (h : layoutLine b k raw = .ok (l, b'))
    (hs : layoutLines b' (k + 1) raws = .ok (ls, b'')) :
    layoutLines b k (raw :: raws) = .ok (l :: ls, b'') := by
  rw [layoutLines, h, Fallible.ok_bind]
  simp only [hs, Fallible.ok_bind]
  rfl

theorem layoutLines_singleton {b b' : Between} {k : Nat} {raw : List Char} {l : Line}
    (h : layoutLine b k raw = .ok (l, b')) : layoutLines b k [raw] = .ok ([l], b') :=
  layoutLines_cons h rfl

theorem layoutLines_append {b b' b'' : Between} {k : Nat} {xs ys : List (List Char)} {ls ms : List Line}
    (hx : layoutLines b k xs = .ok (ls, b')) (hy : layoutLines b' (k + xs.length) ys = .ok (ms, b'')) :
    layoutLines b k (xs ++ ys) = .ok (ls ++ ms, b'') := by
  induction xs generalizing b k ls with
  | nil =>
    rw [layoutLines] at hx
    cases hx
    exact hy
  | cons x xs ih =>
    rw [layoutLines, Fallible.bind_eq_ok] at hx
    obtain ⟨⟨l, b1⟩, hl, hx⟩ := hx
    obtain ⟨⟨ls', b2⟩, hls, hx⟩ := Fallible.bind_eq_ok.1 hx
    cases hx
    rw [List.length_cons, Nat.add_comm xs.length, ← Nat.add_assoc] at hy
    exact layoutLines_cons hl (ih hls hy)

/-! ## Rows -/

/-- A line of pieces, and how deep it stands. -/
structure Row where
  depth : Nat
  pieces : List Piece
  deriving DecidableEq, Repr

namespace Row

def chars (r : Row) : List Char := pieceChars r.pieces

/-- The row leaves a brace open at its end. -/
def opens (r : Row) : Bool := r.pieces.getLast? == some (.opener .brace)

def deeper (r : Row) : Row := { r with depth := r.depth + 1 }

/-- The row as a laid-out line under some level, outside all field blocks. -/
def line (base : Nat) (r : Row) : Line := ⟨base + r.depth, r.chars, none, r.opens⟩

/-- The row as it is written. -/
def text (r : Row) : List Char := writeLine r.depth r.chars

theorem line_deeper (base : Nat) (r : Row) : r.deeper.line base = r.line (base + 1) := by
  simp only [line, deeper, Nat.add_comm, Nat.add_left_comm]
  rfl

end Row

/-- Wherever these rows stand, outside field blocks, they are laid out at their depth and
    leave no bracket open. -/
def Lays (rows : List Row) : Prop :=
  ∀ (stack : List Open) (nb k : Nat), fieldsOf stack = none →
    layoutLines ⟨.code, stack, nb⟩ k (rows.map Row.chars) =
      .ok (rows.map (Row.line (level stack)), ⟨.code, stack, nb⟩)

theorem lays_nil : Lays [] := fun _ _ _ _ => rfl

theorem Lays.append {xs ys : List Row} (hx : Lays xs) (hy : Lays ys) : Lays (xs ++ ys) := by
  intro stack nb k hs
  rw [List.map_append, List.map_append]
  exact layoutLines_append (hx stack nb k hs) (hy stack nb _ hs)

theorem lays_map {α : Type} {f : α → Row} {xs : List α} (h : ∀ x ∈ xs, Lays [f x]) :
    Lays (xs.map f) := by
  induction xs with
  | nil => exact lays_nil
  | cons x xs ih =>
    rw [List.forall_mem_cons] at h
    rw [List.map_cons]
    exact h.1.append (ih h.2)

theorem lays_empty : Lays [⟨0, []⟩] := by
  intro stack nb k _
  exact layoutLines_singleton (layoutLine_empty stack nb k)

/-- The last piece of a line that leaves nothing open is not an open brace. -/
theorem Flat.getLast?_ne {ps : List Piece} (h : Flat ps) :
    (ps.getLast? == some (.opener .brace)) = false := by
  rw [beq_eq_false_iff_ne]
  intro hl
  obtain ⟨front, rfl⟩ := List.getLast?_eq_some_iff.1 hl
  have hs := h 0 ⟨.code, [], 0, none⟩
  rw [List.foldlM_append, Fallible.bind_eq_ok] at hs
  obtain ⟨s, -, hs⟩ := hs
  have hstack : (s.push .brace 0).stack = [] := congrArg Scan.stack (Except.ok.inj hs)
  cases hstack

theorem lays_flat {ps : List Piece} (hl : IsLine ps) (hf : Flat ps) : Lays [⟨0, ps⟩] := by
  intro stack nb k hs
  have hline : Row.line (level stack) ⟨0, ps⟩ =
      ⟨level stack, pieceChars ps, fieldsOf stack, false⟩ := by
    rw [Row.line, Row.opens, hf.getLast?_ne, hs]
    rfl
  rw [List.map_singleton, List.map_singleton, hline]
  exact layoutLines_singleton (layoutLine_flat hl hf stack nb k)

/-- The pieces that close what `outer` and a brace inside it open. -/
def closers (outer : List Bracket) : List Piece := .closer .brace :: outer.reverse.map .closer

/-- Rows in a block: a head that leaves the block open, and the line that closes it. -/
def block (head : List Piece) (outer : List Bracket) (body : List Row) : List Row :=
  ⟨0, head⟩ :: body.map Row.deeper ++ [⟨0, closers outer⟩]

/-- Line `k` with the closers closes what was opened. -/
def Closes (outer : List Bracket) : Prop :=
  ∀ (stack : List Open) (nb k j : Nat) (fields : Option Nat),
    layoutLine ⟨.code, opened j outer fields ++ stack, nb⟩ k (pieceChars (closers outer)) =
      .ok (⟨level stack, pieceChars (closers outer), none, false⟩, ⟨.code, stack, nb⟩)

theorem closes_brace : Closes [] := fun stack nb k j fields => layoutLine_brace stack nb k j fields

theorem closes_call : Closes [.paren] := fun stack nb k j fields => layoutLine_call stack nb k j fields

theorem Lays.block {head : List Piece} {outer : List Bracket} {body : List Row} (hl : IsLine head)
    (ho : Opens outer head) (hlast : head.getLast? = some (.opener .brace))
    (hf : opensFields (pieceChars head) = false) (hc : Closes outer) (hb : Lays body) :
    Lays (block head outer body) := by
  intro stack nb k hs
  have hhead : Row.line (level stack) ⟨0, head⟩ =
      ⟨level stack, pieceChars head, fieldsOf stack, true⟩ := by
    rw [Row.line, Row.opens, hlast, hs]
    rfl
  have hclose : Row.line (level stack) ⟨0, closers outer⟩ =
      ⟨level stack, pieceChars (closers outer), none, false⟩ := by
    have hlast : (closers outer).getLast? ≠ some (.opener .brace) := by
      intro h
      have hmem := List.mem_of_getLast? h
      simp [closers] at hmem
    rw [Row.line, Row.opens, beq_eq_false_iff_ne.2 hlast]
    rfl
  have hbody := hb (opened k outer none ++ stack) nb (k + 1) rfl
  rw [level_opened] at hbody
  have hopening := layoutLine_opening hl ho stack nb k
  rw [hf] at hopening
  have hdeeper : Row.line (level stack) ∘ Row.deeper = Row.line (level stack + 1) :=
    funext fun r => Row.line_deeper (level stack) r
  simp only [Go.block, List.map_cons, List.map_append, List.map_nil, List.map_map, List.cons_append,
    hhead, hclose, hdeeper]
  exact layoutLines_cons hopening
    (layoutLines_append hbody (layoutLines_singleton (hc stack nb _ k none)))

/-! ## Blank lines -/

/-- A line that an empty line may follow. -/
def Line.Ends (l : Line) : Prop := l.isBlank = false ∧ l.opens = false

theorem keepLine_of_text {l : Line} (hb : l.isBlank = false) {kept : List Line}
    (h : startsWithCloser l.text = false ∨ kept.dropWhile Line.isBlank = kept) :
    keepLine kept l = l :: kept := by
  unfold keepLine
  rw [hb]
  rcases h with h | h
  · simp [h]
  · simp [h]

/-- Under a line that is not blank, lines that are not blank all stay. -/
theorem foldl_keepLine_under {ls : List Line} (hb : ∀ l ∈ ls, l.isBlank = false) {kept : List Line}
    (h : kept.dropWhile Line.isBlank = kept) : ls.foldl keepLine kept = ls.reverse ++ kept := by
  induction ls generalizing kept with
  | nil => rfl
  | cons l ls ih =>
    rw [List.forall_mem_cons] at hb
    rw [List.foldl_cons, keepLine_of_text hb.1 (Or.inr h), ih hb.2, List.reverse_cons,
      List.append_assoc, List.singleton_append]
    rw [List.dropWhile_cons_of_neg (by simp [hb.1])]

/-- Lines of which none is dropped, whatever stands before them. -/
structure Stable (ls : List Line) : Prop where
  keeps : ∀ kept, ls.foldl keepLine kept = ls.reverse ++ kept
  last : ∃ front l, ls = front ++ [l] ∧ l.Ends

theorem stable_of_text {l : Line} {ls : List Line} (hc : startsWithCloser l.text = false)
    (hb : ∀ l' ∈ l :: ls, l'.isBlank = false) (hlast : ∃ front l', l :: ls = front ++ [l'] ∧ l'.Ends) :
    Stable (l :: ls) := by
  refine ⟨fun kept => ?_, hlast⟩
  rw [List.forall_mem_cons] at hb
  have htop : (l :: kept).dropWhile Line.isBlank = l :: kept :=
    List.dropWhile_cons_of_neg (by simp [hb.1])
  rw [List.foldl_cons, keepLine_of_text hb.1 (Or.inl hc), foldl_keepLine_under hb.2 htop,
    List.reverse_cons, List.append_assoc, List.singleton_append]

/-- An empty line stays between two groups that stay. -/
theorem Stable.separated {xs ys : List Line} (hx : Stable xs) (hy : Stable ys) {l : Line}
    (hl : l.isBlank = true) :
    Stable (xs ++ l :: ys) := by
  obtain ⟨front, e, rfl, he⟩ := hx.last
  refine ⟨fun kept => ?_, ?_⟩
  · have hkeep : keepLine ((front ++ [e]).reverse ++ kept) l =
        l :: ((front ++ [e]).reverse ++ kept) := by
      simp [keepLine, hl, he.1, he.2]
    rw [List.foldl_append, hx.keeps, List.foldl_cons, hkeep, hy.keeps]
    simp
  · obtain ⟨front', e', rfl, he'⟩ := hy.last
    exact ⟨front ++ [e] ++ l :: front', e', by simp, he'⟩

theorem keepLine_close {front kept : List Line} {e close : Line} (he : e.isBlank = false)
    (hc : close.isBlank = false) :
    keepLine ((front ++ [e]).reverse ++ kept) close = close :: (front ++ [e]).reverse ++ kept := by
  refine keepLine_of_text hc (Or.inr ?_)
  rw [List.reverse_append, List.reverse_singleton, List.singleton_append, List.cons_append,
    List.dropWhile_cons_of_neg (by simp [he])]

/-- Lines that stay between a head and a closing line stay. -/
theorem Stable.close {head close : Line} {ls : List Line} (hh : startsWithCloser head.text = false)
    (hb : head.isBlank = false) (hc : close.Ends) (hs : Stable ls) :
    Stable (head :: ls ++ [close]) := by
  refine ⟨fun kept => ?_, head :: ls, close, rfl, hc⟩
  obtain ⟨front, e, rfl, he⟩ := hs.last
  rw [List.cons_append, List.foldl_cons, keepLine_of_text hb (Or.inl hh), List.foldl_append, hs.keeps,
    List.foldl_cons, List.foldl_nil, keepLine_close he.1 hc.1]
  simp

/-! ## Writing -/

/-- Lines without redundant blank ones as a text. -/
def writeLines (ls : List Line) : List Char := (runs ls).flatMap writeRun

theorem runs_cons_none {l : Line} (h : l.block = none) (rest : List Line) :
    runs (l :: rest) = [l] :: runs rest := by
  rw [runs]
  cases runs rest with
  | nil => rfl
  | cons r more =>
    cases r with
    | nil => rfl
    | cons m run => simp [h]

theorem writeLines_cons_none {l : Line} (h : l.block = none) (rest : List Line) :
    writeLines (l :: rest) = writeLine l.indent l.text ++ writeLines rest := by
  rw [writeLines, runs_cons_none h, List.flatMap_cons]
  simp [writeRun, h, writeLines]

theorem writeLines_append_none {ls : List Line} (h : ∀ l ∈ ls, l.block = none) (rest : List Line) :
    writeLines (ls ++ rest) = (ls.flatMap fun l => writeLine l.indent l.text) ++ writeLines rest := by
  induction ls with
  | nil => rfl
  | cons l ls ih =>
    rw [List.forall_mem_cons] at h
    rw [List.cons_append, writeLines_cons_none h.1, ih h.2, List.flatMap_cons, List.append_assoc]

theorem exists_runs_cons (l : Line) (ls : List Line) :
    ∃ run more, runs (l :: ls) = (l :: run) :: more := by
  rw [runs]
  split
  · split
    · exact ⟨_, _, rfl⟩
    · exact ⟨_, _, rfl⟩
  · exact ⟨_, _, rfl⟩

/-- The lines of a field block are a run, up to the first line that is not of it. -/
theorem runs_group {n : Nat} {l : Line} {ls rest : List Line} (h : ∀ l' ∈ l :: ls, l'.block = some n)
    (hrest : ∀ next, rest.head? = some next → next.block ≠ some n) :
    runs (l :: ls ++ rest) = (l :: ls) :: runs rest := by
  induction ls generalizing l with
  | nil =>
    rw [List.forall_mem_cons] at h
    show runs (l :: rest) = _
    cases rest with
    | nil => rfl
    | cons next rest =>
      obtain ⟨run, more, hruns⟩ := exists_runs_cons next rest
      have hne : some n ≠ next.block := fun heq => hrest next rfl heq.symm
      rw [runs, hruns]
      simp [h.1, hne]
  | cons m ls ih =>
    have hm := List.forall_mem_cons.1 h
    have hblock : l.block = m.block := by rw [hm.1, hm.2 m List.mem_cons_self]
    rw [List.cons_append, List.cons_append, runs, ← List.cons_append, ih hm.2]
    simp [hblock, hm.2 m List.mem_cons_self]

theorem writeLines_fields {n : Nat} {l next : Line} {ls : List Line}
    (h : ∀ l' ∈ l :: ls, l'.block = some n) (hn : next.block = none) (rest : List Line) :
    writeLines (l :: ls ++ next :: rest) = writeRun (l :: ls) ++ writeLines (next :: rest) := by
  have hnext : ∀ l', (next :: rest).head? = some l' → l'.block ≠ some n := by
    intro l' hl'
    cases hl'
    simp [hn]
  rw [writeLines, runs_group h hnext, List.flatMap_cons]
  rfl

/-! ## Top-level blocks -/

/-- Whatever stands around them, these lines are written as `out` at the top level. -/
structure Formats (raws : List (List Char)) (out : List Char) : Prop where
  oneLine : ∀ raw ∈ raws, Text.OneLine raw
  lays : ∀ nb k : Nat, ∃ (lines kept : List Line) (nb' : Nat),
    layoutLines ⟨.code, [], nb⟩ k raws = .ok (lines, ⟨.code, [], nb'⟩) ∧
      (∀ before, lines.foldl keepLine before = kept.reverse ++ before) ∧
      (∃ front l, kept = front ++ [l] ∧ l.Ends) ∧
      ∀ rest, writeLines (kept ++ rest) = out ++ writeLines rest

theorem flatMap_writeLine (rows : List Row) :
    (rows.map (Row.line 0)).flatMap (fun l => writeLine l.indent l.text) = rows.flatMap Row.text := by
  rw [List.flatMap_map]
  refine congrArg (fun f => rows.flatMap f) (funext fun r => ?_)
  show writeLine (0 + r.depth) r.chars = writeLine r.depth r.chars
  rw [Nat.zero_add]

/-- Rows at the top level, of which `kept` stay, are written at their depth. -/
theorem formats_of_lays {rows kept : List Row} (ho : ∀ r ∈ rows, Text.OneLine r.chars) (hl : Lays rows)
    (hk : ∀ before, (rows.map (Row.line 0)).foldl keepLine before =
      (kept.map (Row.line 0)).reverse ++ before)
    (he : ∃ front l, kept.map (Row.line 0) = front ++ [l] ∧ l.Ends) :
    Formats (rows.map Row.chars) (kept.flatMap Row.text) := by
  refine ⟨fun raw hraw => ?_,
    fun nb k => ⟨_, kept.map (Row.line 0), nb, hl [] nb k rfl, hk, he, fun rest => ?_⟩⟩
  · obtain ⟨r, hr, rfl⟩ := List.mem_map.1 hraw
    exact ho r hr
  · have hnone : ∀ l ∈ kept.map (Row.line 0), l.block = none := by
      intro l h
      obtain ⟨r, -, rfl⟩ := List.mem_map.1 h
      rfl
    rw [writeLines_append_none hnone, flatMap_writeLine]

theorem formats_of_stable {rows : List Row} (ho : ∀ r ∈ rows, Text.OneLine r.chars) (hl : Lays rows)
    (hs : Stable (rows.map (Row.line 0))) : Formats (rows.map Row.chars) (rows.flatMap Row.text) :=
  formats_of_lays ho hl hs.keeps hs.last

/-- An empty line at the top level. -/
def Line.empty : Line := ⟨0, [], none, false⟩

theorem layoutLine_top_empty (nb k : Nat) :
    layoutLine ⟨.code, [], nb⟩ k [] = .ok (Line.empty, ⟨.code, [], nb⟩) := rfl

theorem keepLine_empty {l : Line} (h : l.Ends) (before : List Line) :
    keepLine (l :: before) Line.empty = Line.empty :: l :: before := by
  simp [keepLine, Line.empty, show Line.isBlank ⟨0, [], none, false⟩ = true from rfl, h.1, h.2]

/-- Blocks with an empty line before each, below lines that one may follow. -/
theorem layoutLines_blocks {bs : List (List (List Char) × List Char)}
    (h : ∀ b ∈ bs, Formats b.1 b.2) (nb k : Nat) :
    ∃ (lines kept : List Line) (nb' : Nat),
      layoutLines ⟨.code, [], nb⟩ k (bs.flatMap fun b => [] :: b.1) = .ok (lines, ⟨.code, [], nb'⟩) ∧
        (∀ l before, l.Ends → ∃ e front, e.Ends ∧
          lines.foldl keepLine (l :: before) = kept.reverse ++ l :: before ∧
          kept.reverse ++ l :: before = e :: front) ∧
        ∀ rest, writeLines (kept ++ rest) = (bs.flatMap fun b => '\n' :: b.2) ++ writeLines rest := by
  induction bs generalizing nb k with
  | nil => exact ⟨[], [], nb, rfl, fun l before hl => ⟨l, before, hl, rfl, rfl⟩, fun _ => rfl⟩
  | cons b bs ih =>
    rw [List.forall_mem_cons] at h
    obtain ⟨lines₁, kept₁, nb₁, hlay₁, hkeep₁, ⟨front, e, rfl, he⟩, hw₁⟩ := h.1.lays nb (k + 1)
    obtain ⟨lines₂, kept₂, nb₂, hlay₂, hkeep₂, hw₂⟩ := ih h.2 nb₁ (k + 1 + b.1.length)
    refine ⟨Line.empty :: (lines₁ ++ lines₂), Line.empty :: (front ++ [e] ++ kept₂), nb₂, ?_, ?_, ?_⟩
    · rw [List.flatMap_cons, List.cons_append]
      exact layoutLines_cons (layoutLine_top_empty nb k) (layoutLines_append hlay₁ hlay₂)
    · intro l before hl
      obtain ⟨e', front', he', hk', hf'⟩ := hkeep₂ e (front.reverse ++ Line.empty :: l :: before) he
      refine ⟨e', front', he', ?_, ?_⟩
      · have htop : (front ++ [e]).reverse ++ Line.empty :: l :: before =
            e :: (front.reverse ++ Line.empty :: l :: before) := by
          simp
        rw [List.foldl_cons, keepLine_empty hl, List.foldl_append, hkeep₁, htop, hk']
        simp
      · rw [← hf']
        simp
    · intro rest
      rw [List.cons_append, writeLines_cons_none rfl, List.append_assoc, hw₁, hw₂, List.flatMap_cons]
      simp [writeLine, Line.empty]

/-- A file of blocks below a head that an empty line may follow. -/
theorem layout_blocks {head : List (List Char)} {lines : List Line} {l : Line} {before : List Line}
    {bs : List (List (List Char) × List Char)} {out : List Char} (hone : ∀ raw ∈ head, Text.OneLine raw)
    (hlay : layoutLines ⟨.code, [], 0⟩ 1 head = .ok (lines, ⟨.code, [], 0⟩))
    (hkeep : lines.foldl keepLine [] = l :: before) (hend : l.Ends)
    (hwrite : ∀ rest, writeLines ((l :: before).reverse ++ rest) = out ++ writeLines rest)
    (hbs : ∀ b ∈ bs, Formats b.1 b.2) :
    ∃ ls, layout (Text.unlines (head ++ ((bs.flatMap fun b => [] :: b.1) ++ [[]]))) = .ok ls ∧
      write ls = out ++ bs.flatMap fun b => '\n' :: b.2 := by
  obtain ⟨lines₂, kept₂, nb₂, hlay₂, hkeep₂, hw₂⟩ := layoutLines_blocks hbs 0 (1 + head.length)
  obtain ⟨e, front, he, hk, hf⟩ := hkeep₂ l before hend
  have hall := layoutLines_append hlay
    (layoutLines_append hlay₂ (layoutLines_singleton (layoutLine_top_empty nb₂ _)))
  have hlines : ∀ raw ∈ head ++ ((bs.flatMap fun b => [] :: b.1) ++ [[]]), Text.OneLine raw := by
    intro raw hraw
    rcases List.mem_append.1 hraw with hraw | hraw
    · exact hone raw hraw
    rcases List.mem_append.1 hraw with hraw | hraw
    · obtain ⟨b, hb, hraw⟩ := List.mem_flatMap.1 hraw
      rcases List.mem_cons.1 hraw with rfl | hraw
      · intro c hc
        cases hc
      · exact (hbs b hb).oneLine raw hraw
    · rw [List.mem_singleton.1 hraw]
      intro c hc
      cases hc
  refine ⟨lines ++ (lines₂ ++ [Line.empty]), ?_, ?_⟩
  · rw [layout, Text.lines_unlines hlines, hall]
    rfl
  · -- the last empty line is dropped whether it was kept or not
    have hdrop : dropRedundantBlanks (lines ++ (lines₂ ++ [Line.empty])) = (e :: front).reverse := by
      rw [dropRedundantBlanks, List.foldl_append, hkeep, List.foldl_append, hk, hf, List.foldl_cons,
        List.foldl_nil, keepLine_empty he, List.dropWhile_cons_of_pos rfl,
        List.dropWhile_cons_of_neg (by simp [he.1])]
    have hrest : writeLines kept₂ = bs.flatMap fun b => '\n' :: b.2 := by
      simpa [writeLines, runs] using hw₂ []
    show writeLines (dropRedundantBlanks _) = _
    rw [hdrop, ← hf, List.reverse_append, List.reverse_reverse, hwrite, hrest]

end Go

end ServiceSchema
