/-
  ServiceSchema.Proofs.InBounds — the formatter with indices, none of which is out of range.

  The formatter can work with places in place of lists cut in two: a line remembers where on
  the stack it has opened brackets, the lines are written in rounds from an index up to another
  one, and the cells of a row find their widths by their numbers. Here it is written so
  (`ByIndex`). A step has no result if a place is past the end, if a difference is below zero,
  or if the rounds are used up before the lines are.

  - `ByIndex.scan_eq`: what a line remembers are the places of the innermost open brackets, as
    many as it has opened.
  - `ByIndex.rounds_eq`: the rounds are the runs of lines one after the other.
  - `ByIndex.alignRows_eq`: every cell but the last of its row has a width and fits it.
  - `formatChars_in_bounds`: so every step has a result, and the result is the canonical form.
-/
import ServiceSchema.Proofs.FieldColumns
import ServiceSchema.Proofs.LineBrackets

namespace ServiceSchema.Go.ByIndex

open Text

/-! ## Brackets by their place on the stack -/

/-- The remembered places behind a move, the stack being so deep before and so deep behind it: the
    place of a bracket that was opened is added, and when one was closed only places that are still
    on the stack are kept. -/
def remember (before behind : Nat) (opened : List Nat) : List Nat :=
  if before < behind then opened ++ [before]
  else if behind < before then opened.filter (· < behind)
  else opened

/-- Scan a line and remember the places, counted from the outermost bracket, of the brackets that it
    has opened and not closed. -/
def scan (line : Nat) : Scan → List Nat → List Char → Except LayoutFault (Scan × List Nat)
  | s, opened, [] => .ok (s, opened)
  | s, opened, c :: rest =>
    match s.move line c rest.head? with
    | .error fault => .error fault
    | .ok (.stop t) => .ok (t, remember s.stack.length t.stack.length opened)
    | .ok (.go t) => scan line t (remember s.stack.length t.stack.length opened) rest
    | .ok (.skip t) =>
      match rest with
      | [] => .ok (t, remember s.stack.length t.stack.length opened)
      | _ :: after => scan line t (remember s.stack.length t.stack.length opened) after

/-- The places of the brackets that a line has opened, if they are the innermost ones. -/
def places (s : Scan) : List Nat := List.range' (s.stack.length - s.fresh) s.fresh

theorem places_same {s t : Scan} (hstack : t.stack = s.stack) (hfresh : t.fresh = s.fresh) :
    remember s.stack.length t.stack.length (places s) = places t := by
  rw [remember, hstack, if_neg (Nat.lt_irrefl _), if_neg (Nat.lt_irrefl _), places, places, hstack, hfresh]

theorem places_push {s t : Scan} {o : Open} (hle : s.fresh ≤ s.stack.length) (hstack : t.stack = o :: s.stack)
    (hfresh : t.fresh = s.fresh + 1) :
    remember s.stack.length t.stack.length (places s) = places t := by
  rw [places, places, hstack, hfresh, List.length_cons, remember, if_pos (Nat.lt_succ_self _),
    Nat.add_sub_add_right, List.range'_1_concat, Nat.sub_add_cancel hle]

theorem places_pop {s t : Scan} {o : Open} (hle : s.fresh ≤ s.stack.length) (hstack : s.stack = o :: t.stack)
    (hfresh : t.fresh = s.fresh - 1) :
    remember s.stack.length t.stack.length (places s) = places t := by
  rw [places, places, hstack, hfresh, List.length_cons, remember, if_neg (by omega),
    if_pos (Nat.lt_succ_self _)]
  rw [hstack, List.length_cons] at hle
  cases hs : s.fresh with
  | zero => rfl
  | succ k =>
    -- the place that is forgotten is the last one
    rw [hs] at hle
    rw [Nat.add_sub_add_right, Nat.add_sub_cancel, List.range'_1_concat, List.filter_append,
      List.filter_eq_self.2, List.filter_cons_of_neg, List.filter_nil, List.append_nil]
    · rw [decide_eq_true_eq]
      omega
    · intro i hi
      have hlt := (List.mem_range'_1.1 hi).2
      exact decide_eq_true (by omega)

/-- A move keeps the places what they are. -/
theorem remember_places {n : Nat} {s : Scan} {c : Char} {ahead : Option Char} {m : Move}
    (h : s.move n c ahead = .ok m) (hle : s.fresh ≤ s.stack.length) :
    m.scan.fresh ≤ m.scan.stack.length ∧
      remember s.stack.length m.scan.stack.length (places s) = places m.scan := by
  obtain ⟨s₀, hs₀, hcases⟩ := Scan.move_cases h
  obtain ⟨hstack, hfresh⟩ : s₀.stack = s.stack ∧ s₀.fresh = s.fresh := by
    rcases hs₀ with rfl | rfl
    · exact ⟨rfl, rfl⟩
    · unfold Scan.note
      split <;> exact ⟨rfl, rfl⟩
  rcases hcases with heq | ⟨kind, heq⟩ | ⟨kind, hpop⟩
  · have hstack' : m.scan.stack = s.stack := by rw [heq, ← hstack]
    have hfresh' : m.scan.fresh = s.fresh := by rw [heq, ← hfresh]
    exact ⟨by rw [hstack', hfresh']; exact hle, places_same hstack' hfresh'⟩
  · have hstack' : m.scan.stack = ⟨kind, n, false, none⟩ :: s.stack := by rw [heq, ← hstack]; rfl
    have hfresh' : m.scan.fresh = s.fresh + 1 := by rw [heq, ← hfresh]; rfl
    refine ⟨?_, places_push hle hstack' hfresh'⟩
    rw [hstack', hfresh', List.length_cons]
    exact Nat.succ_le_succ hle
  · obtain ⟨hfresh', -, top, hstack'⟩ := Scan.stack_pop hpop
    rw [hstack] at hstack'
    rw [hfresh] at hfresh'
    refine ⟨?_, places_pop hle hstack' hfresh'⟩
    rw [hstack', List.length_cons] at hle
    omega

/-- The line scanned as before, and the places are those of the brackets that it has opened. -/
theorem scan_eq {n : Nat} {s : Scan} (hle : s.fresh ≤ s.stack.length) (text : List Char) :
    scan n s (places s) text = (Scan.run n s text).map fun t => (t, places t) := by
  -- a move passes over one character or two
  induction hlen : text.length using Nat.strong_induction_on generalizing text s with
  | _ k ih =>
    subst hlen
    cases text with
    | nil => rw [Scan.run_nil]; rfl
    | cons c rest =>
      rw [scan, Scan.run_cons]
      cases hm : s.move n c rest.head? with
      | error fault => rfl
      | ok m =>
        obtain ⟨hle', hplaces⟩ := remember_places hm hle
        cases m <;> dsimp only [Move.scan] at hplaces ⊢ <;> rw [hplaces]
        case stop t => rfl
        case go t => exact ih rest.length (Nat.lt_succ_self _) hle' rest rfl
        case skip t =>
          cases rest with
          | nil =>
            rw [Fallible.ok_bind, Scan.follow, List.tail_nil, Scan.run_nil]
            rfl
          | cons d after =>
            refine ih after.length ?_ hle' after rfl
            rw [List.length_cons, List.length_cons]
            omega

/-- The end of a line: the bracket at the last of the remembered places gets the level, and the
    field block if it opens one. -/
def settle (s : Scan) (opened : List Nat) (text : List Char) (nextBlock : Nat) : Option (List Open × Nat) :=
  match opened.getLast? with
  | none => some (s.stack, nextBlock)
  | some last => do
    let o ← s.stack.reverse[last]?
    if o.kind = .brace && opensFields text then
      let o := { o with indents := true, fields := some nextBlock }
      return ((s.stack.reverse.set last o).reverse, nextBlock + 1)
    else return ((s.stack.reverse.set last { o with indents := true }).reverse, nextBlock)

/-- The last of the places is that of the innermost bracket. -/
theorem getLast?_places {s : Scan} (hfresh : s.fresh ≠ 0) {top : Open} {rest : List Open}
    (hle : s.fresh ≤ s.stack.length) (hstack : s.stack = top :: rest) :
    (places s).getLast? = some rest.length := by
  obtain ⟨k, hk⟩ := Nat.exists_eq_succ_of_ne_zero hfresh
  rw [hstack, hk, List.length_cons] at hle
  rw [places, hstack, hk, List.length_cons, List.range'_1_concat, List.getLast?_concat, Nat.succ_sub_succ,
    Nat.sub_add_cancel (Nat.le_of_succ_le_succ hle)]

theorem getElem?_reverse_cons (top : Open) (rest : List Open) :
    (top :: rest).reverse[rest.length]? = some top := by
  rw [List.reverse_cons, ← List.length_reverse, List.getElem?_concat_length]

theorem reverse_set (top o : Open) (rest : List Open) :
    ((top :: rest).reverse.set rest.length o).reverse = o :: rest := by
  rw [List.reverse_cons, ← List.length_reverse, List.set_append_right _ _ (Nat.le_refl _), Nat.sub_self,
    List.set_cons_zero, List.reverse_append, List.reverse_reverse]
  rfl

theorem settle_eq {s : Scan} (hle : s.fresh ≤ s.stack.length) (text : List Char) (nextBlock : Nat) :
    settle s (places s) text nextBlock = some (Go.settle s text nextBlock) := by
  obtain ⟨literal, stack, fresh, indent⟩ := s
  cases fresh with
  | zero => rfl
  | succ k =>
    cases stack with
    | nil => simp at hle
    | cons top rest =>
      rw [settle, getLast?_places (Nat.succ_ne_zero k) hle rfl]
      simp only [getElem?_reverse_cons, Option.bind_eq_bind, Option.bind_some, reverse_set, Go.settle]
      split <;> rfl

/-- Lay out one line. -/
def layoutLine (b : Between) (number : Nat) (raw : List Char) :
    Option (Except LayoutFault (Line × Between)) :=
  let text := keptText b.literal raw
  match scan number ⟨b.literal, b.stack, 0, none⟩ [] text with
  | .error fault => some (.error fault)
  | .ok (s, opened) =>
    if s.literal = .interpreted || s.literal = .rune then some (.error (.unterminatedLiteral number))
    else do
      let indent := s.indent.getD (level s.stack)
      let (stack, nextBlock) ← settle s opened text b.nextBlock
      return .ok (⟨if b.literal = .raw then 0 else indent, text, startBlock b text, !opened.isEmpty⟩,
        ⟨s.literal, stack, nextBlock⟩)

theorem layoutLine_eq (b : Between) (number : Nat) (raw : List Char) :
    layoutLine b number raw = some (Go.layoutLine b number raw) := by
  have hscan : scan number ⟨b.literal, b.stack, 0, none⟩ [] (keptText b.literal raw) = _ :=
    scan_eq (Nat.zero_le _) _
  rw [layoutLine, Go.layoutLine, hscan]
  cases hrun : Scan.run number ⟨b.literal, b.stack, 0, none⟩ (keptText b.literal raw) with
  | error fault => rfl
  | ok s =>
    have hle : s.fresh ≤ s.stack.length := by
      refine Scan.run_stack (P := fun stack fresh => fresh ≤ stack.length) ?_ ?_ hrun (Nat.zero_le _)
      · exact fun _ _ _ hle => Nat.succ_le_succ hle
      · exact fun _ _ _ hle => Nat.sub_le_of_le_add hle
    have hempty : (!(places s).isEmpty) = (s.fresh != 0) := by
      rw [places]
      cases s.fresh <;> rfl
    simp only [Except.map, settle_eq hle, hempty]
    obtain ⟨literal, stack, fresh, indent⟩ := s
    cases literal <;> rfl

/-- Lay out lines from number `number` on. -/
def layoutLines : Between → Nat → List (List Char) → Option (Except LayoutFault (List Line × Between))
  | b, _, [] => some (.ok ([], b))
  | b, number, raw :: rest => do
    match ← layoutLine b number raw with
    | .error fault => return .error fault
    | .ok (line, b') =>
      let below ← layoutLines b' (number + 1) rest
      return below.map fun p => (line :: p.1, p.2)

theorem layoutLines_eq (b : Between) (number : Nat) (raws : List (List Char)) :
    layoutLines b number raws = some (Go.layoutLines b number raws) := by
  induction raws generalizing b number with
  | nil => rfl
  | cons raw rest ih =>
    rw [layoutLines, layoutLine_eq, Go.layoutLines]
    cases Go.layoutLine b number raw with
    | error fault => rfl
    | ok p =>
      obtain ⟨line, b'⟩ := p
      simp only [Option.bind_eq_bind, Option.bind_some, ih, Fallible.ok_bind]
      cases Go.layoutLines b' (number + 1) rest <;> rfl

/-- Lay out a text. -/
def layout (source : List Char) : Option (Except LayoutFault (List Line)) := do
  match ← layoutLines .initial 1 (lines source) with
  | .error fault => return .error fault
  | .ok (ls, final) =>
    match final.stack, final.literal with
    | top :: _, _ => return .error (.unclosed top.kind.opener top.line)
    | [], .code => return .ok ls
    | [], .raw => return .error .unterminatedRaw
    | [], _ => return .error .unterminatedComment

theorem layout_eq (source : List Char) : layout source = some (Go.layout source) := by
  rw [layout, layoutLines_eq, Go.layout]
  show _ = some (Go.layoutLines .initial 1 (lines source) >>= _)
  cases Go.layoutLines .initial 1 (lines source) with
  | error fault => rfl
  | ok p =>
    obtain ⟨ls, literal, stack, nextBlock⟩ := p
    cases stack with
    | nil => cases literal <;> rfl
    | cons top rest => rfl

/-! ## Lines by their number -/

/-- Where the round at line `i` ends: with the first line that is of another field block, or behind
    line `i` if that is of none. -/
def roundEnd (ls : List Line) (i : Nat) (block : Option Nat) : Nat :=
  if block.isSome then
    match (ls.drop i).findIdx? (fun l => l.block != block) with
    | some p => i + p
    | none => ls.length
  else i + 1

/-- The rounds from line `i` on, so many at most, each with its first line and its end. -/
def rounds (ls : List Line) : Nat → Nat → Option (List (Nat × Nat))
  | 0, i => if i < ls.length then none else some []
  | fuel + 1, i =>
    if i < ls.length then do
      let l ← ls[i]?
      let stop := roundEnd ls i l.block
      return (i, stop) :: (← rounds ls fuel stop)
    else some []

/-- The places of parts that follow each other from place `i` on. -/
def spans {α : Type} : Nat → List (List α) → List (Nat × Nat)
  | _, [] => []
  | i, part :: parts => (i, i + part.length) :: spans (i + part.length) parts

theorem roundEnd_group {above rest : List Line} {l : Line} {ls : List Line} {n : Nat}
    (hgroup : ∀ l' ∈ l :: ls, l'.block = some n)
    (hrest : ∀ next, rest.head? = some next → next.block ≠ some n) :
    roundEnd (above ++ (l :: ls ++ rest)) above.length (some n) = above.length + (l :: ls).length := by
  have hnone : (l :: ls).findIdx? (fun l' => l'.block != some n) = none := by
    rw [List.findIdx?_eq_none_iff]
    intro l' hl'
    simp [hgroup l' hl']
  rw [roundEnd, if_pos Option.isSome_some, List.drop_left, List.findIdx?_append, hnone, Option.none_or]
  cases rest with
  | nil => simp
  | cons next rest =>
    have hnext := hrest next rfl
    simp [List.findIdx?_cons, hnext]

theorem rounds_over (ls : List Line) (fuel : Nat) : rounds ls fuel ls.length = some [] := by
  cases fuel with
  | zero => rw [rounds, if_neg (Nat.lt_irrefl _)]
  | succ fuel => rw [rounds, if_neg (Nat.lt_irrefl _)]

theorem rounds_step {above below : List Line} (part : List Line) {l : Line} {fuel : Nat}
    (hhead : part.head? = some l)
    (hend : roundEnd (above ++ (part ++ below)) above.length l.block = above.length + part.length)
    {rs : List (Nat × Nat)} (h : rounds (above ++ part ++ below) fuel (above ++ part).length = some rs) :
    rounds (above ++ (part ++ below)) (fuel + 1) above.length =
      some ((above.length, above.length + part.length) :: rs) := by
  obtain ⟨more, rfl⟩ := List.head?_eq_some_iff.1 hhead
  rw [List.append_assoc, List.length_append] at h
  have hlt : above.length < (above ++ (l :: more ++ below)).length := by simp
  have hget : (above ++ (l :: more ++ below))[above.length]? = some l := by
    rw [List.getElem?_append_right (Nat.le_refl _), Nat.sub_self]
    rfl
  rw [rounds, if_pos hlt, hget]
  simp only [Option.bind_eq_bind, Option.bind_some, hend, h]
  rfl

/-- The rounds are the runs, and as many as there are lines are enough. -/
theorem rounds_eq (above : List Line) {below : List Line} {fuel : Nat} (h : below.length ≤ fuel) :
    rounds (above ++ below) fuel above.length = some (spans above.length (runs below)) := by
  induction byRuns below generalizing above fuel with
  | nil =>
    rw [List.append_nil]
    exact rounds_over above fuel
  | @alone l ls hl _ ih =>
    obtain ⟨k, rfl⟩ : ∃ k, fuel = k + 1 := Nat.exists_eq_succ_of_ne_zero (by rintro rfl; simp at h)
    rw [runs_cons_none hl, spans]
    refine rounds_step [l] rfl ?_ ?_
    · rw [roundEnd, hl]
      rfl
    · rw [← List.length_append]
      exact ih _ (by simpa using h)
  | @group n l ls rest hgroup hrest _ ih =>
    obtain ⟨k, rfl⟩ : ∃ k, fuel = k + 1 := Nat.exists_eq_succ_of_ne_zero (by rintro rfl; simp at h)
    rw [runs_group hgroup hrest, spans]
    refine rounds_step (l :: ls) rfl ?_ ?_
    · rw [hgroup l List.mem_cons_self]
      exact roundEnd_group hgroup hrest
    · rw [← List.length_append]
      refine ih _ ?_
      rw [List.length_append, List.length_cons] at h
      omega

theorem ne_nil_of_mem_runs {ls run : List Line} (h : run ∈ runs ls) : run ≠ [] := by
  induction byRuns ls with
  | nil => cases h
  | alone hl _ ih =>
    rw [runs_cons_none hl, List.mem_cons] at h
    rcases h with rfl | h
    · exact List.cons_ne_nil _ _
    · exact ih h
  | group hgroup hrest _ ih =>
    rw [runs_group hgroup hrest, List.mem_cons] at h
    rcases h with rfl | h
    · exact List.cons_ne_nil _ _
    · exact ih h

section Spans

variable {α : Type} {parts : List (List α)} {i : Nat}

theorem bounds_of_mem_spans (h : ∀ part ∈ parts, part ≠ []) {r : Nat × Nat} (hr : r ∈ spans i parts) :
    r.1 < r.2 ∧ r.2 ≤ i + parts.flatten.length := by
  induction parts generalizing i with
  | nil => cases hr
  | cons part parts ih =>
    rw [List.forall_mem_cons] at h
    rw [List.flatten_cons, List.length_append]
    rcases List.mem_cons.1 hr with rfl | hr
    · have hpos := List.length_pos_of_ne_nil h.1
      exact ⟨by omega, by omega⟩
    · obtain ⟨hlt, hle⟩ := ih h.2 hr
      exact ⟨hlt, by omega⟩

theorem flatMap_spans (parts : List (List α)) (i : Nat) :
    ((spans i parts).flatMap fun r => List.range' r.1 (r.2 - r.1)) = List.range' i parts.flatten.length := by
  induction parts generalizing i with
  | nil => rfl
  | cons part parts ih =>
    rw [spans, List.flatMap_cons, ih, List.flatten_cons, List.length_append, Nat.add_sub_cancel_left,
      ← List.range'_append_1]

end Spans

/-- The lines of a round. -/
def slice (ls : List Line) (r : Nat × Nat) : Option (List Line) :=
  if r.1 ≤ r.2 ∧ r.2 ≤ ls.length then some ((ls.take r.2).drop r.1) else none

theorem mapM_slice (above : List Line) (parts : List (List Line)) :
    (spans above.length parts).mapM (slice (above ++ parts.flatten)) = some parts := by
  induction parts generalizing above with
  | nil => rfl
  | cons part parts ih =>
    have hhead : slice (above ++ (part ++ parts.flatten)) (above.length, above.length + part.length) =
        some part := by
      rw [slice, if_pos (by simp), ← List.length_append, ← List.append_assoc, List.take_left, List.drop_left]
    have htail := ih (above ++ part)
    rw [List.append_assoc, List.length_append] at htail
    rw [spans, List.mapM_cons, List.flatten_cons, hhead, htail]
    rfl

theorem rounds_all (ls : List Line) : rounds ls ls.length 0 = some (spans 0 (runs ls)) :=
  rounds_eq [] (Nat.le_refl _)

/-! ## Columns by their number -/

/-- The widths with the cells of a row from column `i` on, but for its last cell. -/
def widen : Nat → List (List Char) → List Nat → Option (List Nat)
  | i, cell :: next :: more, widths => do
    let width ← widths[i]?
    widen (i + 1) (next :: more) (widths.set i (max width cell.length))
  | _, _, widths => some widths

/-- The widths of all columns. -/
def columnWidths (rows : List (List (List Char))) : Option (List Nat) :=
  rows.foldlM (fun widths row => widen 0 row widths)
    (List.replicate ((rows.map List.length).foldl max 0) 0)

/-- A row from column `i` on, each cell but the last filled up to its column. -/
def writeCells (widths : List Nat) : Nat → List (List Char) → Option (List Char)
  | i, cell :: next :: more => do
    let width ← widths[i]?
    let padding ← if cell.length ≤ width + 1 then some (width + 1 - cell.length) else none
    return cell ++ List.replicate padding ' ' ++ (← writeCells widths (i + 1) (next :: more))
  | _, [cell] => some cell
  | _, [] => some []

/-- Field lines, lined up. -/
def alignRows (texts : List (List Char)) : Option (List (List Char)) := do
  let rows := texts.map cells
  let widths ← columnWidths rows
  rows.mapM (writeCells widths 0)

/-- How wide a row makes column `k`. -/
def cellWidth (row : List (List Char)) (k : Nat) : Nat := (row.dropLast[k]?.map List.length).getD 0

theorem cellWidth_zero (cell next : List Char) (more : List (List Char)) :
    cellWidth (cell :: next :: more) 0 = cell.length := rfl

theorem cellWidth_succ (cell next : List Char) (more : List (List Char)) (k : Nat) :
    cellWidth (cell :: next :: more) (k + 1) = cellWidth (next :: more) k := rfl

theorem cellWidth_of_length_le {row : List (List Char)} (h : row.length ≤ 1) (k : Nat) :
    cellWidth row k = 0 := by
  have hnone : row.dropLast[k]? = none := by
    rw [List.getElem?_eq_none_iff, List.length_dropLast]
    omega
  rw [cellWidth, hnone]
  rfl

/-- A row whose cells have columns widens them as far as it has to. -/
theorem exists_widen (i : Nat) (row : List (List Char)) (widths : List Nat)
    (h : i + row.length ≤ widths.length + 1) :
    ∃ wider, widen i row widths = some wider ∧ wider.length = widths.length ∧ ∀ k < widths.length,
      wider.getD k 0 = if k < i then widths.getD k 0 else max (widths.getD k 0) (cellWidth row (k - i)) := by
  induction row generalizing i widths with
  | nil =>
    refine ⟨widths, rfl, rfl, fun k _ => ?_⟩
    rw [cellWidth_of_length_le (by simp), Nat.max_zero, ite_self]
  | cons cell more ih =>
    cases more with
    | nil =>
      refine ⟨widths, rfl, rfl, fun k _ => ?_⟩
      rw [cellWidth_of_length_le (by simp), Nat.max_zero, ite_self]
    | cons next more =>
      rw [List.length_cons, List.length_cons] at h
      have hi : i < widths.length := by omega
      obtain ⟨wider, heq, hlength, hwider⟩ := ih (i + 1) (widths.set i (max widths[i] cell.length))
        (by rw [List.length_set, List.length_cons]; omega)
      rw [List.length_set] at hlength hwider
      refine ⟨wider, ?_, hlength, fun k hk => ?_⟩
      · rw [widen, List.getElem?_eq_getElem hi]
        exact heq
      rw [hwider k hk]
      rcases Nat.lt_trichotomy k i with hlt | rfl | hgt
      · rw [if_pos (by omega), if_pos hlt, List.getD_eq_getElem?_getD, List.getElem?_set_ne (by omega),
          List.getD_eq_getElem?_getD]
      · rw [if_pos (Nat.lt_succ_self _), if_neg (Nat.lt_irrefl _), Nat.sub_self, cellWidth_zero]
        simp [hi]
      · obtain ⟨j, rfl⟩ : ∃ j, k = i + 1 + j := Nat.exists_eq_add_of_le hgt
        rw [if_neg (by omega), if_neg (by omega), List.getD_eq_getElem?_getD, List.getElem?_set_ne (by omega),
          ← List.getD_eq_getElem?_getD, Nat.add_sub_cancel_left, Nat.add_assoc, Nat.add_sub_cancel_left,
          Nat.add_comm 1 j, cellWidth_succ]

/-- Rows whose cells have columns widen them one after the other. -/
theorem exists_widenAll {rows : List (List (List Char))} {widths : List Nat}
    (h : ∀ row ∈ rows, row.length ≤ widths.length) :
    ∃ wider, rows.foldlM (fun widths row => widen 0 row widths) widths = some wider ∧
      wider.length = widths.length ∧ ∀ k < widths.length,
        wider.getD k 0 = (rows.map fun row => cellWidth row k).foldl max (widths.getD k 0) := by
  induction rows generalizing widths with
  | nil => exact ⟨widths, rfl, rfl, fun _ _ => rfl⟩
  | cons row rows ih =>
    rw [List.forall_mem_cons] at h
    obtain ⟨wide, hwide, hlength, hcolumn⟩ := exists_widen 0 row widths (by omega)
    rw [← hlength] at h
    obtain ⟨wider, hwider, hlength', hcolumn'⟩ := ih h.2
    refine ⟨wider, ?_, hlength'.trans hlength, fun k hk => ?_⟩
    · rw [List.foldlM_cons, hwide]
      exact hwider
    · rw [hcolumn' k (hlength ▸ hk), hcolumn k hk, if_neg (Nat.not_lt_zero k), Nat.sub_zero]
      rfl

theorem columnWidths_eq (rows : List (List (List Char))) :
    columnWidths rows = some (Go.columnWidths rows) := by
  have hrow : ∀ row ∈ rows, row.length ≤
      (List.replicate ((rows.map List.length).foldl max 0) 0).length := by
    intro row hrow
    rw [List.length_replicate]
    exact le_foldl_max (Or.inr (List.mem_map_of_mem hrow))
  obtain ⟨widths, heq, hlength, hcolumn⟩ := exists_widenAll hrow
  rw [List.length_replicate] at hlength hcolumn
  have hcolumns : (Go.columnWidths rows).length = (rows.map List.length).foldl max 0 := by
    rw [Go.columnWidths, List.length_map, List.length_range]
  rw [columnWidths, heq]
  refine congrArg some (List.ext_getElem (hlength.trans hcolumns.symm) fun k hk hk' => ?_)
  rw [List.getElem_eq_getD 0, List.getElem_eq_getD 0, hcolumn k (hlength ▸ hk), getD_columnWidths hk',
    List.getD_eq_getElem?_getD, List.getElem?_replicate, if_pos (hlength ▸ hk)]
  rfl

theorem writeCells_eq {widths : List Nat} {i : Nat} {row : List (List Char)} (hfits : Fits widths i row)
    (h : i + row.length ≤ widths.length + 1) :
    writeCells widths i row = some (Go.writeCells widths i row) := by
  induction row generalizing i with
  | nil => rfl
  | cons cell more ih =>
    cases more with
    | nil => rfl
    | cons next more =>
      rw [List.length_cons, List.length_cons] at h
      have hi : i < widths.length := by omega
      have hwidth : widths.getD i 0 = widths[i] := (List.getElem_eq_getD 0).symm
      have hcell : cell.length ≤ widths[i] := hwidth ▸ hfits 0 cell (by simp) rfl
      have hrest := ih hfits.tail (by rw [List.length_cons]; omega)
      rw [writeCells, List.getElem?_eq_getElem hi, Go.writeCells, hwidth]
      simp only [Option.bind_eq_bind, Option.bind_some, if_pos (Nat.le_succ_of_le hcell), hrest]
      rfl

theorem mapM_eq_some {α β : Type} {f : α → Option β} {g : α → β} {xs : List α}
    (h : ∀ x ∈ xs, f x = some (g x)) : xs.mapM f = some (xs.map g) := by
  induction xs with
  | nil => rfl
  | cons x xs ih =>
    rw [List.forall_mem_cons] at h
    rw [List.mapM_cons, h.1, ih h.2]
    rfl

theorem alignRows_eq (texts : List (List Char)) : alignRows texts = some (Go.alignRows texts) := by
  rw [alignRows]
  simp only [columnWidths_eq, Option.bind_eq_bind, Option.bind_some]
  apply mapM_eq_some
  intro row hrow
  have hcolumns := length_le_length_columnWidths hrow
  exact writeCells_eq (fits_columnWidths hrow) (by omega)

/-! ## The whole formatter -/

/-- A run of output. -/
def writeRun (run : List Line) : Option (List Char) := do
  let texts ← if (run.head?.bind Line.block).isSome then alignRows (run.map Line.text)
    else some (run.map Line.text)
  return (run.zip texts).flatMap fun l => writeLine l.1.indent l.2

/-- Laid-out lines as a text. -/
def write (ls : List Line) : Option (List Char) := do
  let kept := dropRedundantBlanks ls
  let found ← rounds kept kept.length 0
  let parts ← found.mapM (slice kept)
  let written ← parts.mapM writeRun
  return written.flatten

/-- The canonical form of a text. -/
def formatChars (check : Check) (source : List Char) : Option (Except FormatFault (List Char)) := do
  match ← layout source with
  | .error fault => return .error (.layout fault)
  | .ok ls =>
    let out ← write ls
    match check out with
    | .error message => return .error (.grammar message)
    | .ok () => return .ok out

theorem writeRun_eq (run : List Line) : writeRun run = some (Go.writeRun run) := by
  cases run with
  | nil => rfl
  | cons first run =>
    rw [writeRun, Go.writeRun, List.head?_cons, Option.bind_some, alignRows_eq]
    by_cases hfield : first.block.isSome = true
    · rw [if_pos hfield, if_pos hfield]
      rfl
    · rw [if_neg hfield, if_neg hfield]
      rfl

theorem write_eq (ls : List Line) : write ls = some (Go.write ls) := by
  have hslices := mapM_slice [] (runs (dropRedundantBlanks ls))
  rw [List.nil_append, flatten_runs, List.length_nil] at hslices
  rw [write]
  simp only [rounds_all, Option.bind_eq_bind, Option.bind_some, hslices,
    mapM_eq_some fun run _ => writeRun_eq run]
  rfl

theorem formatChars_eq (check : Check) (source : List Char) :
    formatChars check source = some (Go.formatChars check source) := by
  rw [formatChars, layout_eq, Go.formatChars]
  simp only [Option.bind_eq_bind, Option.bind_some]
  cases Go.layout source with
  | error fault => rfl
  | ok ls =>
    simp only [write_eq, Option.bind_some]
    cases check (Go.write ls) <;> rfl

end ServiceSchema.Go.ByIndex

namespace ServiceSchema.Go

open Text

/-- The formatter on a text, its indices and its differences. -/
structure InBounds (check : Check) (source : List Char) : Prop where
  /-- At the end of a line the last of the remembered places is that of a bracket on the stack, and
      the line has opened it. -/
  brackets : ∀ above raw below, lines source = above ++ raw :: below →
    ∀ ls b, layoutLines .initial 1 above = .ok (ls, b) →
    ∀ s opened, ByIndex.scan (above.length + 1) ⟨b.literal, b.stack, 0, none⟩ [] (keptText b.literal raw) =
      .ok (s, opened) →
    ∀ last, opened.getLast? = some last →
      ∃ o, s.stack.reverse[last]? = some o ∧ o.line = above.length + 1
  /-- Every round ends behind its first line and not past the last one, and the rounds come to
      every line once. -/
  rounds : ∀ ls : List Line, ∃ found, ByIndex.rounds ls ls.length 0 = some found ∧
    (∀ r ∈ found, r.1 < r.2 ∧ r.2 ≤ ls.length) ∧
    (found.flatMap fun r => List.range' r.1 (r.2 - r.1)) = List.range ls.length
  /-- Every cell but the last of its row has a column, and is no longer than that and a space. -/
  cells : ∀ texts : List (List Char), ∀ row ∈ texts.map cells, ∀ k cell, row[k]? = some cell →
    k + 1 < row.length →
    ∃ width, (columnWidths (texts.map cells))[k]? = some width ∧ cell.length ≤ width + 1
  /-- Every step has a result, and the last one is the canonical form. -/
  result : ByIndex.formatChars check source = some (formatChars check source)

theorem exists_last_opened {above : List (List Char)} {raw : List Char} {ls : List Line} {b : Between}
    (h : layoutLines .initial 1 above = .ok (ls, b)) {s : Scan} {opened : List Nat}
    (hscan : ByIndex.scan (above.length + 1) ⟨b.literal, b.stack, 0, none⟩ [] (keptText b.literal raw) =
      .ok (s, opened)) {last : Nat} (hlast : opened.getLast? = some last) :
    ∃ o, s.stack.reverse[last]? = some o ∧ o.line = above.length + 1 := by
  have hplaces :
      ByIndex.scan (above.length + 1) ⟨b.literal, b.stack, 0, none⟩ [] (keptText b.literal raw) = _ :=
    ByIndex.scan_eq (Nat.zero_le _) _
  rw [hscan] at hplaces
  cases hrun : Scan.run (above.length + 1) ⟨b.literal, b.stack, 0, none⟩ (keptText b.literal raw) with
  | error fault =>
    rw [hrun] at hplaces
    cases hplaces
  | ok t =>
    rw [hrun] at hplaces
    cases hplaces
    have hb : Ranked (1 + above.length) b.stack 0 := Ranked.initial.layoutLines Nat.one_pos h
    rw [Nat.add_comm] at hb
    have hs := Ranked.run (s := ⟨b.literal, b.stack, 0, none⟩) hb hrun
    have hfresh : s.fresh ≠ 0 := by
      intro hzero
      rw [ByIndex.places, hzero] at hlast
      cases hlast
    obtain ⟨top, rest, hstack⟩ : ∃ top rest, s.stack = top :: rest := by
      apply List.exists_cons_of_length_pos
      have hle := hs.fresh_le
      omega
    rw [ByIndex.getLast?_places hfresh hs.fresh_le hstack] at hlast
    cases hlast
    refine ⟨top, by rw [hstack, ByIndex.getElem?_reverse_cons], ?_⟩
    refine (hs.here top ?_).1
    obtain ⟨k, hk⟩ := Nat.exists_eq_succ_of_ne_zero hfresh
    rw [hstack, hk, List.take_succ_cons]
    exact List.mem_cons_self

/-- The formatter neither stops short nor goes on for ever, whatever the text and the check. -/
theorem formatChars_in_bounds (check : Check) (source : List Char) : InBounds check source where
  brackets above raw below _ ls b h s opened hscan last hlast := exists_last_opened h hscan hlast
  rounds ls := by
    refine ⟨_, ByIndex.rounds_all ls, fun r hr => ?_, ?_⟩
    · have hbounds := ByIndex.bounds_of_mem_spans (fun run hrun => ByIndex.ne_nil_of_mem_runs hrun) hr
      rwa [Nat.zero_add, flatten_runs] at hbounds
    · rw [ByIndex.flatMap_spans, flatten_runs, List.range_eq_range']
  cells texts row hrow k cell hcell hk := by
    have hcolumns := length_le_length_columnWidths hrow
    have hlt : k < (columnWidths (texts.map Go.cells)).length := by omega
    have hfits := length_le_columnWidths hrow hk hcell
    rw [← List.getElem_eq_getD (h := hlt)] at hfits
    exact ⟨_, List.getElem?_eq_getElem hlt, Nat.le_succ_of_le hfits⟩
  result := ByIndex.formatChars_eq check source

end ServiceSchema.Go
