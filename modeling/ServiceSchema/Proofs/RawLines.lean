/-
  ServiceSchema.Proofs.RawLines — what becomes of a raw string that runs over several lines.

  The layout takes the lines of a raw string as they are, but for carriage returns at their ends.
  Dropping blank lines does not know of raw strings: an empty line inside one goes like any other,
  if there is an empty line above it or the line above leaves a bracket open, or if the line below
  begins with a closing bracket. So the value of the string can change.

  - `layoutLines_raw`: lines inside a raw string are laid out as they are.
  - `dropRedundantBlanks_between`: between two lines that are not blank, lines are dropped
    without regard to what is around them.
  - `rawString_of_format`: a canonical text has the lines of a raw string in their order, nothing
    between them, and all of them exactly if none of them is dropped like a blank line.
  - `not_rawString_infix`: it need not have all of them.
  - `exists_rawString`: every line of a text that starts inside a raw string is a later line of one.
-/
import ServiceSchema.Proofs.Origins
import ServiceSchema.Proofs.SpacedLines

namespace ServiceSchema.Go

open Text

/-- A raw string that runs over several lines: it is open behind its first line, which has a
    backquote, and ends on the next line that has one. -/
structure RawString (before : List (List Char)) (opening : List Char) (inside : List (List Char))
    (closing : List Char) : Prop where
  quoted : '`' ∈ opening
  opens : InRaw (before ++ [opening])
  inside : ∀ raw ∈ inside, '`' ∉ raw
  closes : '`' ∈ closing

/-- A line without the carriage returns at its end. -/
def withoutReturns (raw : List Char) : List Char := (raw.reverse.dropWhile (· = '\r')).reverse

/-- The lines of a raw string behind its first one, without the carriage returns at their ends. -/
def laterLines (inside : List (List Char)) (closing : List Char) : List (List Char) :=
  (inside ++ [closing]).map withoutReturns

/-! ## Laying out -/

/-- Inside a raw string only a backquote counts. -/
theorem run_raw {s : Scan} (hs : s.literal = .raw) {text : List Char} (htext : '`' ∉ text) (n : Nat) :
    Scan.run n s text = .ok s := by
  induction text with
  | nil => exact Scan.run_nil n s
  | cons c text ih =>
    rw [List.mem_cons, not_or] at htext
    have hmove : s.move n c text.head? = .ok (.go s) := by
      simp only [Scan.move, hs, if_neg (Ne.symm htext.1)]
    rw [Scan.run_cons, hmove]
    exact ih htext.2

/-- A line of a raw string as it is laid out. -/
def Line.verbatim (raw : List Char) : Line := ⟨0, withoutReturns raw, none, false⟩

theorem layoutLine_raw {b : Between} (hb : b.literal = .raw) {raw : List Char} (hraw : '`' ∉ raw) (n : Nat) :
    layoutLine b n raw = .ok (.verbatim raw, b) := by
  obtain ⟨literal, stack, next⟩ := b
  cases hb
  have htext : '`' ∉ withoutReturns raw := fun h => hraw ((laid_keptText .raw raw).2 _ h)
  exact layoutLine_eq_ok.2 ⟨_, run_raw rfl htext n, by simp, rfl, rfl⟩

theorem layoutLines_raw {b : Between} (hb : b.literal = .raw) {raws : List (List Char)}
    (hraws : ∀ raw ∈ raws, '`' ∉ raw) (n : Nat) :
    layoutLines b n raws = .ok (raws.map Line.verbatim, b) := by
  induction raws generalizing n with
  | nil => rfl
  | cons raw raws ih =>
    rw [List.forall_mem_cons] at hraws
    exact layoutLines_cons_eq_ok.2 ⟨_, _, _, layoutLine_raw hb hraws.1 n, ih hraws.2 (n + 1), rfl⟩

/-- The line that a raw string ends on. -/
theorem layoutLine_closing {b b' : Between} (hb : b.literal = .raw) {n : Nat} {raw : List Char} {l : Line}
    (h : layoutLine b n raw = .ok (l, b')) : l.indent = 0 ∧ l.text = withoutReturns raw ∧ l.block = none := by
  obtain ⟨literal, stack, next⟩ := b
  cases hb
  obtain ⟨s, -, -, rfl, -⟩ := layoutLine_eq_ok.1 h
  exact ⟨rfl, rfl, rfl⟩

/-- A line with a character that is no blank is not blank. -/
theorem isBlank_eq_false_of_mem {b b' : Between} {n : Nat} {raw : List Char} {l : Line} {c : Char}
    (h : layoutLine b n raw = .ok (l, b')) (hmem : c ∈ raw) (hc : isBlank c = false) : l.isBlank = false := by
  refine Bool.eq_false_iff.2 fun hblank => ?_
  obtain ⟨left, right, hraw, hleft, hright⟩ := exists_keptText b.literal raw
  rw [← text_of_layoutLine h, List.isEmpty_iff.1 hblank, List.nil_append] at hraw
  have hblanks : isBlank c = true := by
    rw [hraw, List.mem_append] at hmem
    rcases hmem with hmem | hmem
    · exact hleft c hmem
    · exact hright c hmem
  rw [hblanks] at hc
  cases hc

/-! ## Dropping blank lines -/

theorem Kept.tail {l : Line} (hl : l.isBlank = false) {ls ks : List Line} (h : Kept (l :: ls) (l :: ks)) :
    Kept ls ks := by
  cases h with
  | keep h => exact h
  | drop hblank _ =>
    rw [hl] at hblank
    cases hblank

/-- Between two lines that are not blank, lines are dropped without regard to what is around. -/
theorem dropRedundantBlanks_between {f e : Line} (hf : f.isBlank = false) (he : e.isBlank = false)
    (xs mid ys : List Line) :
    ∃ front kept back, Kept (xs ++ [f]) (front ++ [f]) ∧ Kept ys back ∧
      dropRedundantBlanks (f :: (mid ++ [e])) = f :: kept ∧
      dropRedundantBlanks (xs ++ f :: (mid ++ e :: ys)) = (front ++ [f]) ++ (kept ++ back) := by
  obtain ⟨front, back₁, hfront, hback₁, hall⟩ := dropRedundantBlanks_split hf xs (mid ++ e :: ys)
  obtain ⟨upper, back, hupper, hback, hlower⟩ := dropRedundantBlanks_split he (f :: mid) ys
  obtain ⟨-, kept, -, hkept, -⟩ := dropRedundantBlanks_split hf [] (mid ++ [e])
  refine ⟨front, kept, back, ?_, ?_, hkept, ?_⟩
  · rw [← hfront]
    exact kept_dropRedundantBlanks _
  · refine Kept.tail he ?_
    rw [← hback]
    exact kept_dropRedundantBlanks _
  · have hends : f :: kept = upper ++ [e] := hkept.symm.trans hupper
    have hrest : f :: back₁ = f :: (kept ++ back) := calc
      f :: back₁ = upper ++ e :: back := hback₁.symm.trans hlower
      _ = (upper ++ [e]) ++ back := (List.append_assoc upper [e] back).symm
      _ = f :: (kept ++ back) := by rw [← hends, List.cons_append]
    rw [hall, hrest, List.append_assoc]
    rfl

/-- Lines of which no empty one is followed by an empty one or by one that begins with a closing
    bracket, and, below a line that leaves a bracket open, none stands first. -/
def NoneRedundant (belowOpener : Prop) (texts : List (List Char)) : Prop :=
  (belowOpener → texts.head? ≠ some []) ∧
    texts.IsChain fun above below => above = [] → below ≠ [] ∧ startsWithCloser below = false

theorem isBlank_iff {l : Line} : l.isBlank = true ↔ l.text = [] := List.isEmpty_iff

/-- How a line that leaves no bracket open may be followed. -/
theorem follows_iff_of_closed {k l : Line} (hk : k.opens = false) :
    Follows k l ↔ (k.text = [] → l.text ≠ [] ∧ startsWithCloser l.text = false) := by
  constructor
  · intro h hempty
    have hblank : k.isBlank = true := isBlank_iff.2 hempty
    refine ⟨fun hl => ?_, Bool.eq_false_iff.2 fun hl => ?_⟩
    · rw [(h.blank (isBlank_iff.2 hl)).1] at hblank
      cases hblank
    · rw [h.closer hl] at hblank
      cases hblank
  · intro h
    refine ⟨fun hl => ⟨Bool.eq_false_iff.2 fun hblank => ?_, hk⟩,
      fun hl => Bool.eq_false_iff.2 fun hblank => ?_⟩
    · exact (h (isBlank_iff.1 hblank)).1 (isBlank_iff.1 hl)
    · rw [(h (isBlank_iff.1 hblank)).2] at hl
      cases hl

/-- How a line that is not blank may be followed. -/
theorem follows_iff_of_ink {k l : Line} (hk : k.isBlank = false) :
    Follows k l ↔ (k.opens = true → l.text ≠ []) := by
  constructor
  · intro h hopens hempty
    rw [(h.blank (isBlank_iff.2 hempty)).2] at hopens
    cases hopens
  · intro h
    refine ⟨fun hl => ⟨hk, Bool.eq_false_iff.2 fun hopens => ?_⟩, fun _ => hk⟩
    exact h hopens (isBlank_iff.1 hl)

/-- None of the lines between two is dropped exactly if none is redundant by what the lines say. -/
theorem dropRedundantBlanks_eq_self_iff_texts {f e : Line} (hf : f.isBlank = false) (he : e.isBlank = false)
    {mid : List Line} (hmid : ∀ l ∈ mid, l.opens = false) :
    dropRedundantBlanks (f :: (mid ++ [e])) = f :: (mid ++ [e]) ↔
      NoneRedundant (f.opens = true) ((mid ++ [e]).map Line.text) := by
  have hends : Spaced (f :: (mid ++ [e])) ↔ (f :: (mid ++ [e])).IsChain Follows := by
    refine ⟨Spaced.chain, fun hchain => ⟨fun l hl => ?_, fun l hl => ?_, hchain⟩⟩
    · cases hl
      exact hf
    · rw [← List.cons_append, List.getLast?_concat] at hl
      cases hl
      exact he
  have hinner : (mid ++ [e]).IsChain Follows ↔ ((mid ++ [e]).map Line.text).IsChain
      fun above below => above = [] → below ≠ [] ∧ startsWithCloser below = false := by
    rw [List.isChain_map, List.isChain_iff_getElem, List.isChain_iff_getElem]
    refine forall_congr' fun k => forall_congr' fun hk => follows_iff_of_closed (hmid _ ?_)
    rw [List.length_append, List.length_singleton] at hk
    rw [List.getElem_append_left (Nat.lt_of_succ_lt_succ hk)]
    exact List.getElem_mem _
  rw [dropRedundantBlanks_eq_self_iff, hends, List.isChain_cons, hinner, NoneRedundant]
  refine and_congr_left fun _ => ?_
  constructor
  · intro h hopens hempty
    rw [List.head?_map, Option.map_eq_some_iff] at hempty
    obtain ⟨l, hl, hempty⟩ := hempty
    exact (follows_iff_of_ink hf).1 (h l hl) hopens hempty
  · intro h l hl
    refine (follows_iff_of_ink hf).2 fun hopens hempty => h hopens ?_
    rw [List.head?_map, hl, Option.map_some, hempty]

theorem Kept.filter_text {ls ks : List Line} (h : Kept ls ks) :
    (ks.map Line.text).filter (· ≠ []) = (ls.map Line.text).filter (· ≠ []) := by
  have hlines := h.filter_eq (p := fun l => decide (l.text ≠ [])) fun l hl => by simp [isBlank_iff.1 hl]
  rw [List.filter_map, List.filter_map]
  exact congrArg (List.map Line.text) hlines

/-! ## The canonical text -/

/-- Lines that are not indented and belong to no field block are written as they are. -/
theorem shown_verbatim {ks js : List Line} (h : List.Forall₂ LinedUp ks js)
    (hks : ∀ k ∈ ks, k.indent = 0 ∧ k.block = none) : js.map Line.shown = ks.map Line.text := by
  induction h with
  | nil => rfl
  | @cons k j ks js hj _ ih =>
    rw [List.forall_mem_cons] at hks
    obtain ⟨⟨hindent, hblock⟩, hks⟩ := hks
    have htext : j.text = k.text := by
      rcases hj.text with htext | ⟨hfield, -⟩
      · exact htext
      · rw [hblock] at hfield
        cases hfield
    have hshown : j.shown = k.text := by
      rw [Line.shown, indented, hj.indent, hindent, htext]
      cases k.text <;> rfl
    rw [List.map_cons, List.map_cons, hshown, ih hks]

/-- What is left of a raw string that runs over several lines. Above it stands what comes from the
    lines up to its first one, below it what comes from the lines behind it. Its own lines are in
    their order with nothing between them; only empty ones may be missing, and none is exactly if
    none is redundant. -/
structure RawStringKept (before : List (List Char)) (opening : List Char) (inside : List (List Char))
    (closing : List Char) (after above kept below : List (List Char)) : Prop where
  above : ∃ origin, ComesFrom (before ++ [opening]) above origin
  below : ∃ origin, ComesFrom after below origin
  order : kept.Sublist (laterLines inside closing)
  filled : kept.filter (· ≠ []) = (laterLines inside closing).filter (· ≠ [])
  all : kept = laterLines inside closing ↔
    NoneRedundant (LeavesOpen (before ++ [opening])) (laterLines inside closing)

/-- The lines of a raw string, laid out. -/
theorem exists_layout_of_rawString {source : List Char} {ls : List Line} (h : layout source = .ok ls)
    {before inside after : List (List Char)} {opening closing : List Char}
    (hlines : lines source = before ++ opening :: (inside ++ closing :: after))
    (hraw : RawString before opening inside closing) :
    ∃ xs f e ys, ls = xs ++ f :: (inside.map Line.verbatim ++ e :: ys) ∧
      f.isBlank = false ∧ (f.opens = true ↔ LeavesOpen (before ++ [opening])) ∧
      e.isBlank = false ∧ e.indent = 0 ∧ e.text = withoutReturns closing ∧ e.block = none ∧
      List.Forall₂ Laid (before ++ [opening]) (xs ++ [f]) ∧ List.Forall₂ Laid after ys := by
  have hquote : isBlank '`' = false := by decide
  have hnewline : ∀ raw ∈ before ++ [opening], '\n' ∉ raw := by
    rw [List.append_cons] at hlines
    exact newline_not_mem_above hlines
  obtain ⟨next, hlayout⟩ := layout_eq_ok.1 h
  rw [hlines] at hlayout
  obtain ⟨xs, b, ls₁, hxs, hlower, hls⟩ := layoutLines_append_eq_ok.1 hlayout
  obtain ⟨f, b', ls₂, hf, hrest, rfl⟩ := layoutLines_cons_eq_ok.1 hlower
  obtain ⟨mid, c, ls₃, hmid, hend, rfl⟩ := layoutLines_append_eq_ok.1 hrest
  obtain ⟨e, c', ys, he, hys, rfl⟩ := layoutLines_cons_eq_ok.1 hend
  have hopening : layoutLines .initial 1 (before ++ [opening]) = .ok (xs ++ [f], b') :=
    layoutLines_append_eq_ok.2 ⟨xs, b, [f], hxs, layoutLines_cons_eq_ok.2 ⟨f, b', [], hf, rfl, rfl⟩, rfl⟩
  have hb' : b'.literal = .raw := (inRaw_iff hnewline hopening).1 hraw.opens
  rw [layoutLines_raw hb' hraw.inside] at hmid
  cases hmid
  obtain ⟨hindent, htext, hblock⟩ := layoutLine_closing hb' he
  refine ⟨xs, f, e, ys, hls, isBlank_eq_false_of_mem hf hraw.quoted hquote, ?_,
    isBlank_eq_false_of_mem he hraw.closes hquote, hindent, htext, hblock,
    laid_layoutLines hopening, laid_layoutLines hys⟩
  exact opens_iff_leavesOpen hnewline hxs hf

/-- The lines that are kept of a raw string below its first line `f`, where `e` is its last one. -/
theorem rawString_of_kept {f e : Line} (hf : f.isBlank = false) (he : e.isBlank = false)
    {inside : List (List Char)} {closing : List Char} (hindent : e.indent = 0)
    (htext : e.text = withoutReturns closing) (hblock : e.block = none) {kept : List Line}
    (hkept : dropRedundantBlanks (f :: (inside.map Line.verbatim ++ [e])) = f :: kept) :
    (∀ k ∈ kept, k.indent = 0 ∧ k.block = none) ∧
      (kept.map Line.text).Sublist (laterLines inside closing) ∧
      (kept.map Line.text).filter (· ≠ []) = (laterLines inside closing).filter (· ≠ []) ∧
      (kept.map Line.text = laterLines inside closing ↔
        NoneRedundant (f.opens = true) (laterLines inside closing)) := by
  have hmid : Kept (inside.map Line.verbatim ++ [e]) kept := by
    refine Kept.tail hf ?_
    rw [← hkept]
    exact kept_dropRedundantBlanks _
  have hplain : ∀ k ∈ inside.map Line.verbatim ++ [e], k.indent = 0 ∧ k.block = none := by
    intro k hk
    rcases List.mem_append.1 hk with hk | hk
    · obtain ⟨raw, -, rfl⟩ := List.mem_map.1 hk
      exact ⟨rfl, rfl⟩
    · rw [List.mem_singleton.1 hk]
      exact ⟨hindent, hblock⟩
  have hclosed : ∀ l ∈ inside.map Line.verbatim, l.opens = false := by
    intro l hl
    obtain ⟨raw, -, rfl⟩ := List.mem_map.1 hl
    rfl
  have htexts : (inside.map Line.verbatim ++ [e]).map Line.text = laterLines inside closing := by
    rw [laterLines, List.map_append, List.map_append, List.map_map, List.map_singleton, htext]
    rfl
  have hall := dropRedundantBlanks_eq_self_iff_texts hf he hclosed
  rw [hkept, List.cons_inj_right, htexts] at hall
  rw [← hall, ← htexts]
  refine ⟨fun k hk => hplain k (hmid.sublist.subset hk), hmid.sublist.map _, hmid.filter_text, ?_⟩
  refine ⟨fun hsame => hmid.sublist.eq_of_length ?_, congrArg _⟩
  rw [← List.length_map Line.text, hsame, List.length_map]

/-- A canonical text keeps a raw string, but for the empty lines in it that are redundant. -/
theorem rawString_of_format {check : Check} {source out : String} (h : format check source = .ok out)
    {before inside after : List (List Char)} {opening closing : List Char}
    (hlines : lines source.toList = before ++ opening :: (inside ++ closing :: after))
    (hraw : RawString before opening inside closing) :
    ∃ above kept below, lines out.toList = above ++ (kept ++ below) ∧
      RawStringKept before opening inside closing after above kept below := by
  obtain ⟨ls, hlayout, hwrite⟩ := exists_layout_of_format h
  obtain ⟨xs, f, e, ys, hls, hf, hopens, he, hindent, htext, hblock, hlaid, hlaid'⟩ :=
    exists_layout_of_rawString hlayout hlines hraw
  obtain ⟨front, kept, back, hfront, hback, hkept, hdrop⟩ :=
    dropRedundantBlanks_between hf he xs (inside.map Line.verbatim) ys
  obtain ⟨hplain, horder, hfilled, hall⟩ := rawString_of_kept hf he hindent htext hblock hkept
  -- written, the three parts stay apart
  have hlined := linedUp_lineUp (dropRedundantBlanks ls)
  rw [hls, hdrop] at hlined
  obtain ⟨above, rest, hrest, habove, hlined⟩ := exists_of_forall₂_append hlined
  obtain ⟨middle, below, rfl, hmiddle, hbelow⟩ := exists_of_forall₂_append hlined
  obtain ⟨origin, horigin⟩ := hfront.exists_picked
  obtain ⟨origin', horigin'⟩ := hback.exists_picked
  refine ⟨above.map Line.shown, kept.map Line.text, below.map Line.shown, ?_,
    ⟨⟨origin, horigin.comesFrom hlaid habove⟩, ⟨origin', horigin'.comesFrom hlaid' hbelow⟩,
      horder, hfilled, ?_⟩⟩
  · rw [hwrite, lines_write hlayout, hls, hdrop, hrest, List.map_append, List.map_append,
      shown_verbatim hmiddle hplain]
  · rw [← hopens]
    exact hall

/-- The one empty line in the raw string follows a line with ink and precedes one. -/
theorem rawString_of_format_single :
    RawString ["package a".toList, []] "var s = `x".toList [[]] "y`".toList ∧
      ∃ above kept below, lines "package a\n\nvar s = `x\n\ny`\n".toList = above ++ (kept ++ below) ∧
        RawStringKept ["package a".toList, []] "var s = `x".toList [[]] "y`".toList [] above kept below := by
  have h : (format .always "package a\n\nvar s = `x\n\ny`\n").toOption =
      some "package a\n\nvar s = `x\n\ny`\n" := by
    decide +kernel
  have hraw : RawString ["package a".toList, []] "var s = `x".toList [[]] "y`".toList :=
    ⟨by decide +kernel, by decide +kernel, by decide +kernel, by decide +kernel⟩
  exact ⟨hraw, rawString_of_format (Fallible.toOption_eq_some.1 h) (by decide +kernel) hraw⟩

/-- Of three empty lines in a raw string the canonical text has one, if the check accepts it. -/
theorem not_rawString_infix :
    ¬ ∃ check : Check, check "package a\n\nvar s = `x\n\ny`\n".toList = .ok () ∧
      ∀ (source out : String) (before inside after : List (List Char)) (opening closing : List Char),
        format check source = .ok out →
        lines source.toList = before ++ opening :: (inside ++ closing :: after) →
        RawString before opening inside closing → laterLines inside closing <:+: lines out.toList := by
  rintro ⟨check, hcheck, hinfix⟩
  have hlayout : ((layout "package a\n\nvar s = `x\n\n\n\ny`\n".toList).toOption.map write) =
      some "package a\n\nvar s = `x\n\ny`\n".toList := by
    decide +kernel
  have hraw : RawString ["package a".toList, []] "var s = `x".toList [[], [], []] "y`".toList :=
    ⟨by decide +kernel, by decide +kernel, by decide +kernel, by decide +kernel⟩
  have hall := hinfix _ _ _ _ [] _ _ (format_of_write hlayout hcheck) (by decide +kernel) hraw
  revert hall
  decide +kernel

/-! ## Every raw string -/

/-- A character that leads into a raw string stands in one already, or is a backquote. -/
theorem Region.eq_raw_of_next {r : Region} {c : Char} (h : r.next c = .raw) : r = .raw ∨ c = '`' := by
  have henter : Region.enter c = .raw → c = '`' := by
    intro henter
    unfold Region.enter at henter
    split at henter
    · cases henter
    split at henter
    · cases henter
    split at henter
    · assumption
    split at henter <;> cases henter
  cases r with
  | raw => exact Or.inl rfl
  | code => exact Or.inr (henter h)
  | slash =>
    simp only [Region.next] at h
    split at h
    · cases h
    split at h
    · cases h
    · exact Or.inr (henter h)
  | quoted kind =>
    simp only [Region.next] at h
    repeat' split at h
    all_goals cases h
  | _ =>
    simp only [Region.next] at h
    repeat' split at h
    all_goals cases h

/-- No raw string is opened without a backquote. -/
theorem Region.eq_raw_of_read {r : Region} {n : Nat} {cs : List Char} (hcs : '`' ∉ cs)
    (h : (r.read n cs).2 = .raw) : r = .raw := by
  induction cs generalizing r n with
  | nil => exact h
  | cons c cs ih =>
    rw [List.mem_cons, not_or] at hcs
    rcases Region.eq_raw_of_next (ih hcs.2 h) with hr | hc
    · exact hr
    · exact absurd hc.symm hcs.1

/-- What starts inside a raw string has its first line above. -/
theorem exists_opening_of_inRaw {raws : List (List Char)} (h : InRaw raws) :
    ∃ before opening inside, raws = before ++ opening :: inside ∧ '`' ∈ opening ∧
      InRaw (before ++ [opening]) ∧ ∀ raw ∈ inside, '`' ∉ raw := by
  induction raws using List.reverseRecOn with
  | nil => cases h
  | append_singleton raws raw ih =>
    by_cases hraw : '`' ∈ raw
    · exact ⟨raws, raw, [], rfl, hraw, h, List.forall_mem_nil _⟩
    · have hbefore : InRaw raws := by
        have hunlines : unlines (raws ++ [raw]) = unlines raws ++ (raw ++ ['\n']) := by
          rw [unlines, List.flatMap_append, List.flatMap_singleton]
          rfl
        rw [InRaw, regionBehind, hunlines, Region.read_append] at h
        exact Region.eq_raw_of_read (by simp [hraw]) h
      obtain ⟨before, opening, inside, rfl, hopening, hopens, hinside⟩ := ih hbefore
      refine ⟨before, opening, inside ++ [raw], by simp, hopening, hopens, ?_⟩
      rw [List.forall_mem_append, List.forall_mem_singleton]
      exact ⟨hinside, hraw⟩

/-- The first line with a backquote. -/
theorem exists_first_quoted {raws : List (List Char)} (h : ¬ ∀ raw ∈ raws, '`' ∉ raw) :
    ∃ before closing after, raws = before ++ closing :: after ∧ (∀ raw ∈ before, '`' ∉ raw) ∧
      '`' ∈ closing := by
  induction raws with
  | nil => exact absurd (List.forall_mem_nil _) h
  | cons raw raws ih =>
    by_cases hraw : '`' ∈ raw
    · exact ⟨[], raw, raws, rfl, List.forall_mem_nil _, hraw⟩
    · obtain ⟨before, closing, after, rfl, hbefore, hclosing⟩ :=
        ih fun hnone => h (List.forall_mem_cons.2 ⟨hraw, hnone⟩)
      exact ⟨raw :: before, closing, after, rfl, List.forall_mem_cons.2 ⟨hraw, hbefore⟩, hclosing⟩

/-- In a text that is laid out, every line that starts inside a raw string is one of the later
    lines of a raw string. -/
theorem exists_rawString {source : List Char} {ls : List Line} (h : layout source = .ok ls) {i : Nat}
    (hi : InRaw ((lines source).take i)) :
    ∃ before opening inside closing after,
      lines source = before ++ opening :: (inside ++ closing :: after) ∧
      RawString before opening inside closing ∧ before.length < i ∧
      i ≤ before.length + inside.length + 1 := by
  obtain ⟨next, hlayout⟩ := layout_eq_ok.1 h
  have hcut : lines source = (lines source).take i ++ (lines source).drop i :=
    (List.take_append_drop i _).symm
  rw [hcut] at hlayout
  obtain ⟨ls₁, b, ls₂, hbefore, hafter, -⟩ := layoutLines_append_eq_ok.1 hlayout
  have hb : b.literal = .raw :=
    (inRaw_iff (newline_not_mem_above hcut) hbefore).1 hi
  obtain ⟨before, opening, inside, htake, hopening, hopens, hinside⟩ := exists_opening_of_inRaw hi
  have hclosed : ¬ ∀ raw ∈ (lines source).drop i, '`' ∉ raw := by
    intro hnone
    rw [layoutLines_raw hb hnone] at hafter
    cases hafter
    cases hb
  -- the string ends on the first line with a backquote from here on
  obtain ⟨more, closing, after, hdrop, hmore, hclosing⟩ := exists_first_quoted hclosed
  have hlength : before.length + (inside.length + 1) = i := by
    have htaken := congrArg List.length htake
    have hleft : 0 < ((lines source).drop i).length := by
      rw [hdrop, List.length_append, List.length_cons]
      omega
    rw [List.length_drop] at hleft
    rw [List.length_take_of_le (by omega), List.length_append, List.length_cons] at htaken
    exact htaken.symm
  refine ⟨before, opening, inside ++ more, closing, after, ?_, ⟨hopening, hopens, ?_, hclosing⟩, by omega, ?_⟩
  · rw [hcut, htake, hdrop, List.append_assoc, List.append_assoc, List.cons_append]
  · rw [List.forall_mem_append]
    exact ⟨hinside, hmore⟩
  · rw [List.length_append]
    omega

end ServiceSchema.Go
