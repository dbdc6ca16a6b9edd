/-
  ServiceSchema.Proofs.MildNames — names that end nothing and begin nothing else.

  A mild name (`MildName`) has no brackets, quotes, commas and the like in it and no keywords, it
  ends in neither a blank nor a dot, and it does not begin with something that is capitalized
  without being a letter. It need not be an identifier: `my-model` and `1go` are mild.

  - `Trail`: what may stand behind the first word of such a name; `Trail.exists_next` and
    `Trail.word` take it apart.
  - `exists_upper`: a letter is capitalized to characters that are mild too.
-/
import Mathlib.Data.List.TakeWhile
import ServiceSchema.Proofs.NameSlots
import ServiceSchema.Proofs.PlainLines
import ServiceSchema.Proofs.RowTokens

namespace ServiceSchema

open Text

/-! ## Mild names -/

def isMildPart (c : Char) : Bool := !harsh.contains c

/-- Behind a part of a name: mild characters and words that are no keywords, up to a last
    character that is neither a blank nor a dot. -/
structure Trail (cs : List Char) : Prop where
  parts : ∀ c ∈ cs, isMildPart c = true
  keywordless : ∀ w ∈ cs.splitOnP (fun c => !isWordPart c), String.ofList w ∉ goKeywords
  last : cs.getLast?.all (fun c => !isBlank c && c != '.') = true

/-- A letter, or a character without blanks and without an upper case. -/
def isMildStart (c : Char) : Bool := isLetter c || (upper c == [c] && !isBlank c)

structure MildName (name : String) : Prop where
  start : name.toList.head?.any isMildStart = true
  trail : Trail name.toList

instance (name : String) : Decidable (MildName name) :=
  decidable_of_iff (name.toList.head?.any isMildStart = true ∧ (∀ c ∈ name.toList, isMildPart c = true) ∧
      (∀ w ∈ name.toList.splitOnP (fun c => !isWordPart c), String.ofList w ∉ goKeywords) ∧
      name.toList.getLast?.all (fun c => !isBlank c && c != '.') = true)
    ⟨fun h => ⟨h.1, h.2.1, h.2.2.1, h.2.2.2⟩,
      fun h => ⟨h.start, h.trail.parts, h.trail.keywordless, h.trail.last⟩⟩

theorem isMildPart_of_isWordPart {c : Char} (h : isWordPart c = true) : isMildPart c = true := by
  rw [← Bool.not_eq_false]
  intro hmild
  simp only [isMildPart, Bool.not_eq_false', List.contains_iff_mem] at hmild
  have hall : ∀ d ∈ harsh, isWordPart d = false := by decide
  rw [hall c hmild] at h
  cases h

/-! ## Behind a word -/

theorem exists_word (cs : List Char) : ∃ u v, cs = u ++ v ∧ (∀ d ∈ u, isWordPart d = true) ∧
    ∀ d, v.head? = some d → isWordPart d = false := by
  refine ⟨cs.takeWhile isWordPart, cs.dropWhile isWordPart, List.takeWhile_append_dropWhile.symm,
    fun d hd => List.mem_takeWhile_imp hd, fun d hd => ?_⟩
  have hnot := List.head?_dropWhile_not isWordPart cs
  rw [hd] at hnot
  exact hnot

theorem splitOnP_cons_of_break {c : Char} (hc : isWordPart c = false) (cs : List Char) :
    (c :: cs).splitOnP (fun c => !isWordPart c) = [] :: cs.splitOnP (fun c => !isWordPart c) := by
  have hbreak : (!isWordPart c) = true := by rw [hc]; rfl
  exact List.splitOnP_append_cons_of_forall_mem (List.forall_mem_nil _) c hbreak cs

namespace Trail

theorem nil : Trail [] := ⟨List.forall_mem_nil _, by decide +kernel, rfl⟩

theorem tail {c : Char} {cs : List Char} (h : Trail (c :: cs)) (hc : isWordPart c = false) : Trail cs := by
  refine ⟨fun d hd => h.parts d (List.mem_cons_of_mem c hd), fun w hw => ?_, ?_⟩
  · apply h.keywordless w
    rw [splitOnP_cons_of_break hc]
    exact List.mem_cons_of_mem _ hw
  · cases cs with
    | nil => rfl
    | cons d cs => exact h.last

/-- A word of a trail is no keyword, and a trail is left behind it. -/
theorem word {w v : List Char} (h : Trail (w ++ v)) (hw : ∀ c ∈ w, isWordPart c = true)
    (hv : ∀ d, v.head? = some d → isWordPart d = false) : String.ofList w ∉ goKeywords ∧ Trail v := by
  have hw' : ∀ c ∈ w, (!isWordPart c) = false := fun c hc => by rw [hw c hc]; rfl
  cases v with
  | nil =>
    have hword := h.keywordless
    rw [List.append_nil, List.splitOnP_eq_singleton hw'] at hword
    exact ⟨hword w (List.mem_singleton.2 rfl), nil⟩
  | cons d v =>
    have hd : (!isWordPart d) = true := by rw [hv d rfl]; rfl
    have hword := h.keywordless
    rw [List.splitOnP_append_cons_of_forall_mem hw' d hd, List.forall_mem_cons] at hword
    refine ⟨hword.1, fun c hc => h.parts c (List.mem_append_right _ hc), ?_, ?_⟩
    · rw [splitOnP_cons_of_break (hv d rfl), List.forall_mem_cons]
      exact ⟨by decide, hword.2⟩
    · have hlast := h.last
      rwa [List.getLast?_append_of_ne_nil _ (List.cons_ne_nil d v)] at hlast

/-- A trail does not end in blanks. -/
theorem exists_next {cs : List Char} (h : Trail cs) (hne : cs ≠ []) :
    ∃ gap c rest, cs = gap ++ c :: rest ∧ (∀ b ∈ gap, isBlank b = true) ∧ isBlank c = false ∧
      Trail (c :: rest) := by
  induction cs with
  | nil => exact absurd rfl hne
  | cons c cs ih =>
    by_cases hc : isBlank c = true
    · have htail := h.tail (Go.isWordPart_of_isBlank hc)
      have hcs : cs ≠ [] := by
        rintro rfl
        have hlast := h.last
        simp [hc] at hlast
      obtain ⟨gap, d, rest, rfl, hgap, hd, htrail⟩ := ih htail hcs
      exact ⟨c :: gap, d, rest, rfl, List.forall_mem_cons.2 ⟨hc, hgap⟩, hd, htrail⟩
    · exact ⟨[], c, cs, rfl, List.forall_mem_nil _, by simpa using hc, h⟩

end Trail

/-! ## Capitals -/

/-- What a letter is capitalized to: no mark and no blank, and nothing that a keyword begins
    with. -/
structure Capital (u : Char) : Prop where
  mild : isMildPart u = true
  notBlank : isBlank u = false
  notDot : u ≠ '.'
  notLower : u.isLower = false

/-- The code points of what is no capital: blanks, lower-case letters and marks. -/
def unlikeCapitals : List Nat := Go.blankCodes ++ List.range' 0x61 26 ++ ('.' :: harsh).map Char.toNat

theorem capital_of_notMem {u : Char} (h : u.toNat ∉ unlikeCapitals) : Capital u := by
  simp only [unlikeCapitals, List.mem_append, not_or] at h
  have hmarks : u ∉ '.' :: harsh := fun hu => h.2 (List.mem_map_of_mem hu)
  rw [List.mem_cons, not_or] at hmarks
  refine ⟨?_, ?_, hmarks.1, ?_⟩
  · simpa [isMildPart] using hmarks.2
  · rw [← Bool.not_eq_true]
    exact fun hblank => h.1.1 (Go.mem_blankCodes hblank)
  · rw [← Bool.not_eq_true, isLower_iff]
    intro hlower
    refine h.1.2 (List.mem_range'_1.2 ?_)
    omega

theorem capital_of_isWordPart {u : Char} (h : isWordPart u = true) (hlower : u.isLower = false) :
    Capital u := by
  refine ⟨isMildPart_of_isWordPart h, ?_, ?_, hlower⟩
  · rw [← Bool.not_eq_true]
    intro hblank
    rw [Go.isWordPart_of_isBlank hblank] at h
    cases h
  · rintro rfl
    exact absurd h (by decide)

theorem capital_of_expansion : ∀ e ∈ upperExpansions, e.2 ≠ [] ∧ ∀ u ∈ e.2.map Char.ofNat, Capital u := by
  have hall : ∀ e ∈ upperExpansions, e.2 ≠ [] ∧
      (e.2.map Char.ofNat).all (fun u => !unlikeCapitals.contains u.toNat) = true := by
    decide +kernel
  intro e he
  refine ⟨(hall e he).1, fun u hu => capital_of_notMem ?_⟩
  simpa using List.all_eq_true.1 (hall e he).2 u hu

theorem capital_of_run {n k : Nat} {run : Nat × Nat × Nat × Nat} (hrun : run ∈ upperRuns)
    (h : upperInRun k run = some n) : Capital (Char.ofNat n) := by
  have hall : ∀ run ∈ upperRuns, (unlikeCapitals.all fun x =>
      Nat.blt x run.2.2.2 || Nat.blt (run.2.2.2 + (run.2.1 - run.1)) x) = true := by
    decide +kernel
  -- no run of capitals meets a code point that is unlike them
  have hunlike := List.all_eq_true.1 (hall run hrun)
  apply capital_of_notMem
  rw [toNat_of_upperInRun hrun h]
  intro hmem
  have hx := hunlike _ hmem
  obtain ⟨hfirst, hlast, -, rfl⟩ := upperInRun_eq_some h
  simp only [Bool.or_eq_true, Nat.blt_eq] at hx
  omega

/-- A letter is capitalized to one character or more, each of them a capital. -/
theorem exists_upper {c : Char} (hc : isLetter c = true) :
    ∃ u us, upper c = u :: us ∧ ∀ d ∈ u :: us, Capital d := by
  by_cases hascii : c.toNat < 0x80
  · have hstart : isPlainStart c = true := by
      rwa [isLetter, if_pos hascii] at hc
    obtain ⟨hup, hlower⟩ := toUpper_of_isPlainStart hstart
    have hpart := isWordPart_of_isLetter (Go.isLetter_of_isPlainStart hup)
    exact ⟨c.toUpper, [], by rw [upper, if_pos hascii],
      List.forall_mem_singleton.2 (capital_of_isWordPart hpart hlower)⟩
  rcases upper_cases hascii with ⟨e, he, -, hform⟩ | ⟨run, hrun, n, hn, hform⟩ | hform
  · obtain ⟨hne, hcapital⟩ := capital_of_expansion e he
    obtain ⟨u, us, hus⟩ := List.exists_cons_of_ne_nil (List.map_eq_nil_iff.not.2 hne)
    exact ⟨u, us, hform.trans hus, hus ▸ hcapital⟩
  · exact ⟨_, [], hform, List.forall_mem_singleton.2 (capital_of_run hrun hn)⟩
  · have hlower : c.isLower = false := by
      rw [← Bool.not_eq_true, isLower_iff]
      omega
    exact ⟨c, [], hform,
      List.forall_mem_singleton.2 (capital_of_isWordPart (isWordPart_of_isLetter hc) hlower)⟩

/-- How a mild name begins. -/
theorem MildName.exists_start {name : String} (h : MildName name) :
    ∃ c rest, name.toList = c :: rest ∧ (isLetter c = true ∨ upper c = [c] ∧ isBlank c = false) := by
  have hstart := h.start
  cases hname : name.toList with
  | nil =>
    rw [hname] at hstart
    cases hstart
  | cons c rest =>
    rw [hname] at hstart
    refine ⟨c, rest, rfl, ?_⟩
    simpa [isMildStart] using hstart

/-! ## Names of request structs -/

/-- Words of a text with more letters behind it: the same ones, and one that has these letters
    at its end. -/
theorem mem_splitOnP_append {x : List Char} (hx : ∀ c ∈ x, isWordPart c = true) {cs w : List Char}
    (hw : w ∈ (cs ++ x).splitOnP (fun c => !isWordPart c)) :
    w ∈ cs.splitOnP (fun c => !isWordPart c) ∨ x <:+ w := by
  induction hn : cs.length using Nat.strongRecOn generalizing cs with
  | ind n ih =>
    obtain ⟨u, v, rfl, hu, hv⟩ := exists_word cs
    have hu' : ∀ c ∈ u, (!isWordPart c) = false := fun c hc => by rw [hu c hc]; rfl
    cases v with
    | nil =>
      have hall : ∀ c ∈ u ++ x, (!isWordPart c) = false := by
        intro c hc
        rcases List.mem_append.1 hc with hc | hc
        · exact hu' c hc
        · rw [hx c hc]
          rfl
      rw [List.append_nil, List.splitOnP_eq_singleton hall, List.mem_singleton] at hw
      exact Or.inr (hw ▸ List.suffix_append u x)
    | cons d v =>
      have hd : (!isWordPart d) = true := by rw [hv d rfl]; rfl
      rw [List.splitOnP_append_cons_of_forall_mem hu' d hd]
      rw [List.append_assoc, List.cons_append, List.splitOnP_append_cons_of_forall_mem hu' d hd,
        List.mem_cons] at hw
      rcases hw with rfl | hw
      · exact Or.inl List.mem_cons_self
      · have hlt : v.length < n := by
          rw [← hn, List.length_append, List.length_cons]
          omega
        exact (ih _ hlt hw rfl).imp_left (List.mem_cons_of_mem u)

/-- The request struct of a method with a mild name has a mild name. -/
theorem MildName.request {name : String} (h : MildName name) : MildName (name ++ requestSuffix) := by
  have hparts : ∀ c ∈ requestSuffix.toList, isWordPart c = true := by decide
  obtain ⟨c, rest, hname, -⟩ := h.exists_start
  refine ⟨?_, ?_, ?_, ?_⟩
  · have hstart := h.start
    rw [hname] at hstart
    rw [String.toList_append, hname]
    exact hstart
  · rw [String.toList_append, List.forall_mem_append]
    exact ⟨h.trail.parts, fun c hc => isMildPart_of_isWordPart (hparts c hc)⟩
  · intro w hw
    rw [String.toList_append] at hw
    rcases mem_splitOnP_append hparts hw with hw | hsuffix
    · exact h.trail.keywordless w hw
    · intro hk
      have hall : ∀ k ∈ goKeywords, requestSuffix.toList.isSuffixOf k.toList = false := by decide
      have hnone := hall _ hk
      rw [String.toList_ofList, List.isSuffixOf_iff_suffix.2 hsuffix] at hnone
      cases hnone
  · rw [String.toList_append, List.getLast?_append_of_ne_nil _ (by decide)]
    decide

end ServiceSchema
