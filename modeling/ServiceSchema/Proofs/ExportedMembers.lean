/-
  ServiceSchema.Proofs.ExportedMembers — which struct members other packages can see.

  Go exports a member whose name begins with an upper-case letter, and the members of the
  structs are meant to be exported: each has the name of its field or parameter with the first
  character in upper case. A name that begins with an underscore, a digit or a letter without
  cases has no upper case to take, and its member stays hidden: `_id` is written, and never
  filled from a request.

  - `head_upper`: the upper-case form of a character begins with an upper-case letter exactly
    if the character is one, or has another form that is not one of a few odd ones.
  - `generateAll_exported_iff`: in a generated file a member is exported exactly if the name of
    its field or parameter begins with such a character.
  - `underscored_member_hidden`: a batch may get its file with a member that is not exported.
-/
import Mathlib.Data.String.Basic
import ServiceSchema.Proofs.PlainFile

namespace ServiceSchema

open Fallible

/-! ## Upper-case letters -/

namespace Text

/-- The upper-case letters, in runs: first code point, last code point, and the step between
    members. -/
def upperCaseRuns : List (Nat × Nat × Nat) := [
  (0x41, 0x5A, 1), (0xC0, 0xD6, 1), (0xD8, 0xDE, 1), (0x100, 0x136, 2), (0x139, 0x147, 2),
  (0x14A, 0x178, 2), (0x179, 0x17D, 2), (0x181, 0x181, 1), (0x182, 0x186, 2), (0x187, 0x187, 1),
  (0x189, 0x18B, 1), (0x18E, 0x191, 1), (0x193, 0x194, 1), (0x196, 0x198, 1), (0x19C, 0x19D, 1),
  (0x19F, 0x19F, 1), (0x1A0, 0x1A6, 2), (0x1A7, 0x1A9, 2), (0x1AC, 0x1AE, 2), (0x1AF, 0x1AF, 1),
  (0x1B1, 0x1B2, 1), (0x1B3, 0x1B7, 2), (0x1B8, 0x1B8, 1), (0x1BC, 0x1BC, 1), (0x1C4, 0x1C4, 1),
  (0x1C7, 0x1C7, 1), (0x1CA, 0x1CA, 1), (0x1CD, 0x1DB, 2), (0x1DE, 0x1EE, 2), (0x1F1, 0x1F1, 1),
  (0x1F4, 0x1F6, 2), (0x1F7, 0x1F7, 1), (0x1F8, 0x232, 2), (0x23A, 0x23B, 1), (0x23D, 0x23E, 1),
  (0x241, 0x243, 2), (0x244, 0x245, 1), (0x246, 0x24E, 2), (0x370, 0x372, 2), (0x376, 0x376, 1),
  (0x37F, 0x37F, 1), (0x386, 0x386, 1), (0x388, 0x38A, 1), (0x38C, 0x38C, 1), (0x38E, 0x38F, 1),
  (0x391, 0x3A1, 1), (0x3A3, 0x3AB, 1), (0x3CF, 0x3CF, 1), (0x3D2, 0x3D4, 1), (0x3D8, 0x3EE, 2),
  (0x3F4, 0x3F4, 1), (0x3F7, 0x3F9, 2), (0x3FA, 0x3FA, 1), (0x3FD, 0x42F, 1), (0x460, 0x480, 2),
  (0x48A, 0x4C0, 2), (0x4C1, 0x4CD, 2), (0x4D0, 0x52E, 2), (0x531, 0x556, 1), (0x10A0, 0x10C5, 1),
  (0x10C7, 0x10C7, 1), (0x10CD, 0x10CD, 1), (0x13A0, 0x13F5, 1), (0x1C89, 0x1C89, 1),
  (0x1C90, 0x1CBA, 1), (0x1CBD, 0x1CBF, 1), (0x1E00, 0x1E94, 2), (0x1E9E, 0x1EFE, 2),
  (0x1F08, 0x1F0F, 1), (0x1F18, 0x1F1D, 1), (0x1F28, 0x1F2F, 1), (0x1F38, 0x1F3F, 1),
  (0x1F48, 0x1F4D, 1), (0x1F59, 0x1F5F, 2), (0x1F68, 0x1F6F, 1), (0x1FB8, 0x1FBB, 1),
  (0x1FC8, 0x1FCB, 1), (0x1FD8, 0x1FDB, 1), (0x1FE8, 0x1FEC, 1), (0x1FF8, 0x1FFB, 1),
  (0x2102, 0x2102, 1), (0x2107, 0x2107, 1), (0x210B, 0x210D, 1), (0x2110, 0x2112, 1),
  (0x2115, 0x2115, 1), (0x2119, 0x211D, 1), (0x2124, 0x212A, 2), (0x212B, 0x212D, 1),
  (0x2130, 0x2133, 1), (0x213E, 0x213F, 1), (0x2145, 0x2145, 1), (0x2183, 0x2183, 1),
  (0x2C00, 0x2C2F, 1), (0x2C60, 0x2C62, 2), (0x2C63, 0x2C64, 1), (0x2C67, 0x2C6D, 2),
  (0x2C6E, 0x2C70, 1), (0x2C72, 0x2C72, 1), (0x2C75, 0x2C75, 1), (0x2C7E, 0x2C7F, 1),
  (0x2C80, 0x2CE2, 2), (0x2CEB, 0x2CED, 2), (0x2CF2, 0x2CF2, 1), (0xA640, 0xA66C, 2),
  (0xA680, 0xA69A, 2), (0xA722, 0xA72E, 2), (0xA732, 0xA76E, 2), (0xA779, 0xA77D, 2),
  (0xA77E, 0xA786, 2), (0xA78B, 0xA78D, 2), (0xA790, 0xA792, 2), (0xA796, 0xA7AA, 2),
  (0xA7AB, 0xA7AE, 1), (0xA7B0, 0xA7B3, 1), (0xA7B4, 0xA7C4, 2), (0xA7C5, 0xA7C6, 1),
  (0xA7C7, 0xA7CB, 2), (0xA7CC, 0xA7DC, 2), (0xA7F5, 0xA7F5, 1), (0xFF21, 0xFF3A, 1),
  (0x10400, 0x10427, 1), (0x104B0, 0x104D3, 1), (0x10570, 0x1057A, 1), (0x1057C, 0x1058A, 1),
  (0x1058C, 0x10592, 1), (0x10594, 0x10595, 1), (0x10C80, 0x10CB2, 1), (0x10D50, 0x10D65, 1),
  (0x118A0, 0x118BF, 1), (0x16E40, 0x16E5F, 1), (0x16EA0, 0x16EB8, 1), (0x1D400, 0x1D419, 1),
  (0x1D434, 0x1D44D, 1), (0x1D468, 0x1D481, 1), (0x1D49C, 0x1D49E, 2), (0x1D49F, 0x1D49F, 1),
  (0x1D4A2, 0x1D4A2, 1), (0x1D4A5, 0x1D4A6, 1), (0x1D4A9, 0x1D4AC, 1), (0x1D4AE, 0x1D4B5, 1),
  (0x1D4D0, 0x1D4E9, 1), (0x1D504, 0x1D505, 1), (0x1D507, 0x1D50A, 1), (0x1D50D, 0x1D514, 1),
  (0x1D516, 0x1D51C, 1), (0x1D538, 0x1D539, 1), (0x1D53B, 0x1D53E, 1), (0x1D540, 0x1D544, 1),
  (0x1D546, 0x1D546, 1), (0x1D54A, 0x1D550, 1), (0x1D56C, 0x1D585, 1), (0x1D5A0, 0x1D5B9, 1),
  (0x1D5D4, 0x1D5ED, 1), (0x1D608, 0x1D621, 1), (0x1D63C, 0x1D655, 1), (0x1D670, 0x1D689, 1),
  (0x1D6A8, 0x1D6C0, 1), (0x1D6E2, 0x1D6FA, 1), (0x1D71C, 0x1D734, 1), (0x1D756, 0x1D76E, 1),
  (0x1D790, 0x1D7A8, 1), (0x1D7CA, 0x1D7CA, 1), (0x1E900, 0x1E921, 1)]

def inRuns (runs : List (Nat × Nat × Nat)) (n : Nat) : Bool :=
  runs.any fun run => run.1 ≤ n && n ≤ run.2.1 && (n - run.1) % run.2.2 == 0

/-- A character of the Unicode category Lu. -/
def isUpperCaseLetter (c : Char) : Bool := inRuns upperCaseRuns c.toNat

/-- Code points whose upper-case form does not begin with an upper-case letter: that of `ŉ`
    begins with a modifier letter, and the small Roman numerals and the small letters in circles
    have numerals and signs. -/
def oddUpperForms : List (Nat × Nat) := [(0x149, 0x149), (0x2170, 0x217F), (0x24D0, 0x24E9)]

/-- An upper-case letter, or a character with another upper-case form that is not odd. -/
def isCapitalizable (c : Char) : Bool :=
  isUpperCaseLetter c || upper c != [c] && !inRanges oddUpperForms c.toNat

theorem inRuns_eq_true {runs : List (Nat × Nat × Nat)} {n : Nat} : inRuns runs n = true ↔
    ∃ run ∈ runs, run.1 ≤ n ∧ n ≤ run.2.1 ∧ (n - run.1) % run.2.2 = 0 := by
  simp [inRuns, and_assoc]

theorem inRanges_eq_true {ranges : List (Nat × Nat)} {n : Nat} :
    inRanges ranges n = true ↔ ∃ r ∈ ranges, r.1 ≤ n ∧ n ≤ r.2 := by
  simp [inRanges]

/-- The upper-case partners of a run are all among a run of upper-case letters. -/
def meets (run : Nat × Nat × Nat × Nat) (caps : Nat × Nat × Nat) : Bool :=
  Nat.ble (run.2.2.2 + (run.2.1 - run.1)) caps.2.1 && (Nat.ble caps.1 run.2.2.2 &&
    ((Nat.beq run.1 run.2.1 || Nat.beq (run.2.2.1 % caps.2.2) 0) &&
      Nat.beq ((run.2.2.2 - caps.1) % caps.2.2) 0))

/-- How the table of upper-case letters fits those of upper-case forms. -/
structure TablesFit : Prop where
  ascii : ∀ caps ∈ upperCaseRuns, caps = (65, 90, 1) ∨ 0x80 ≤ caps.1
  odd : ∀ odd ∈ oddUpperForms, 0x80 ≤ odd.1 ∧ ∀ caps ∈ upperCaseRuns, odd.2 < caps.1 ∨ caps.2.1 < odd.1
  /-- The partners of a run are all among one run of upper-case letters, or the run is odd and
      none of its partners is an upper-case letter. -/
  runs : ∀ run ∈ upperRuns, run.1 ≠ run.2.2.2 ∧
    ((∀ odd ∈ oddUpperForms, run.2.1 < odd.1 ∨ odd.2 < run.1) ∧ upperCaseRuns.any (meets run) = true ∨
      (∃ odd ∈ oddUpperForms, odd.1 ≤ run.1 ∧ run.2.1 ≤ odd.2) ∧
        ∀ caps ∈ upperCaseRuns, run.2.2.2 + (run.2.1 - run.1) < caps.1 ∨ caps.2.1 < run.2.2.2)
  expansions : ∀ e ∈ upperExpansions, 2 ≤ e.2.length ∧
    e.2.head?.any (fun u => (Char.ofNat u).toNat == u &&
      inRuns upperCaseRuns u == !inRanges oddUpperForms e.1) = true

theorem tablesFit : TablesFit where
  ascii := by decide +kernel
  odd := by decide +kernel
  runs := by decide +kernel
  expansions := by decide +kernel

/-- The only upper-case letters of ASCII are those of the first run. -/
theorem isUpperCaseLetter_ascii {c : Char} (h : c.toNat < 0x80) : isUpperCaseLetter c = c.isUpper := by
  have hfirst : (65, 90, 1) ∈ upperCaseRuns := List.mem_cons_self
  rw [isUpperCaseLetter, Bool.eq_iff_iff, isUpper_iff, inRuns_eq_true]
  constructor
  · intro hin
    obtain ⟨run, hrun, hlow, hhigh, -⟩ := hin
    rcases tablesFit.ascii run hrun with rfl | hfar
    · exact ⟨hlow, hhigh⟩
    · omega
  · intro hin
    exact ⟨_, hfirst, hin.1, hin.2, Nat.mod_one _⟩

theorem not_upperCase_of_odd {n : Nat} (h : inRanges oddUpperForms n = true) :
    inRuns upperCaseRuns n = false := by
  obtain ⟨odd, hodd, hn⟩ := inRanges_eq_true.1 h
  rw [← Bool.not_eq_true, inRuns_eq_true]
  intro hupper
  obtain ⟨caps, hcaps, hn'⟩ := hupper
  have hapart := (tablesFit.odd odd hodd).2 caps hcaps
  omega

/-- A partner in a run is an upper-case letter, unless the code point is odd. -/
theorem upperCase_of_run {run : Nat × Nat × Nat × Nat} (hrun : run ∈ upperRuns) {n k : Nat}
    (h : upperInRun n run = some k) :
    k ≠ n ∧ inRuns upperCaseRuns k = !inRanges oddUpperForms n := by
  obtain ⟨hfirst, hlast, hstep, rfl⟩ := upperInRun_eq_some h
  obtain ⟨hne, hpartners⟩ := tablesFit.runs run hrun
  have hne' : run.2.2.2 + (n - run.1) ≠ n := by
    clear hpartners
    omega
  refine ⟨hne', ?_⟩
  rcases hpartners with ⟨hapart, hmeets⟩ | ⟨⟨odd, hodd, hin⟩, hapart⟩
  · obtain ⟨caps, hcaps, hmeet⟩ := List.any_eq_true.1 hmeets
    simp only [meets, Bool.and_eq_true, Bool.or_eq_true, Nat.ble_eq, Nat.beq_eq] at hmeet
    obtain ⟨hhigh, hlow, hsteps, htarget⟩ := hmeet
    have hnot : inRanges oddUpperForms n = false := by
      rw [← Bool.not_eq_true, inRanges_eq_true]
      intro hin
      obtain ⟨odd, hodd, hn⟩ := hin
      have hodd' := hapart odd hodd
      omega
    rw [hnot, Bool.not_false, inRuns_eq_true]
    refine ⟨caps, hcaps, by omega, by omega, ?_⟩
    have hsum : run.2.2.2 + (n - run.1) - caps.1 = (run.2.2.2 - caps.1) + (n - run.1) := by omega
    rw [hsum]
    rcases hsteps with hsingle | hsteps
    · have hzero : n - run.1 = 0 := by omega
      rw [hzero]
      exact htarget
    · -- a multiple of the run's step is one of the letters' step
      have hdvd := Nat.dvd_trans (Nat.dvd_of_mod_eq_zero hsteps) (Nat.dvd_of_mod_eq_zero hstep)
      exact Nat.mod_eq_zero_of_dvd (Nat.dvd_add (Nat.dvd_of_mod_eq_zero htarget) hdvd)
  · have hin' : inRanges oddUpperForms n = true := inRanges_eq_true.2 ⟨odd, hodd, by omega⟩
    rw [hin', Bool.not_true, ← Bool.not_eq_true, inRuns_eq_true]
    intro hupper
    obtain ⟨caps, hcaps, hn⟩ := hupper
    have hcaps' := hapart caps hcaps
    omega

theorem upperCase_of_expansion : ∀ e ∈ upperExpansions, ∃ u v us, e.2 = u :: v :: us ∧
    (Char.ofNat u).toNat = u ∧ inRuns upperCaseRuns u = !inRanges oddUpperForms e.1 := by
  intro e he
  obtain ⟨hlength, hhead⟩ := tablesFit.expansions e he
  match hform : e.2, hlength with
  | u :: v :: us, _ =>
    rw [hform] at hhead
    simp only [List.head?_cons, Option.any_some, Bool.and_eq_true, beq_iff_eq] at hhead
    exact ⟨u, v, us, rfl, hhead.1, hhead.2⟩

/-- A form of its own begins with an upper-case letter unless it is odd. -/
theorem head_form {c : Char} {u : Nat} {us : List Char} (hform : upper c = Char.ofNat u :: us)
    (hne : upper c ≠ [c]) (hu : (Char.ofNat u).toNat = u)
    (hcase : inRuns upperCaseRuns u = !inRanges oddUpperForms c.toNat) :
    (upper c).head?.any isUpperCaseLetter = isCapitalizable c := by
  have hne' : (upper c != [c]) = true := bne_iff_ne.2 hne
  rw [isCapitalizable, hne', Bool.true_and, hform, List.head?_cons, Option.any_some, isUpperCaseLetter,
    hu, hcase]
  cases hodd : inRanges oddUpperForms c.toNat with
  | false => rw [Bool.not_false, Bool.or_true]
  | true => rw [Bool.not_true, Bool.or_false, isUpperCaseLetter, not_upperCase_of_odd hodd]

/-- An ASCII letter has an upper-case letter, and no other ASCII character has one. -/
theorem head_upper_ascii {c : Char} (h : c.toNat < 0x80) :
    (upper c).head?.any isUpperCaseLetter = isCapitalizable c := by
  have hform : upper c = [c.toUpper] := by rw [upper, if_pos h]
  have hodd : inRanges oddUpperForms c.toNat = false := by
    rw [← Bool.not_eq_true, inRanges_eq_true]
    intro hin
    obtain ⟨odd, hmem, hn⟩ := hin
    have hfar := (tablesFit.odd odd hmem).1
    omega
  rw [isCapitalizable, hodd, Bool.not_false, Bool.and_true, hform, List.head?_cons, Option.any_some,
    isUpperCaseLetter_ascii h]
  have hall : ∀ n < 128, (Char.ofNat n).toUpper.toNat < 128 ∧
      (Char.ofNat n).toUpper.isUpper =
        ((Char.ofNat n).isUpper || [(Char.ofNat n).toUpper] != [Char.ofNat n]) := by decide
  have hc := hall c.toNat h
  rw [Char.ofNat_toNat] at hc
  rw [isUpperCaseLetter_ascii hc.1, hc.2]

theorem head_upper (c : Char) : (upper c).head?.any isUpperCaseLetter = isCapitalizable c := by
  by_cases hascii : c.toNat < 0x80
  · exact head_upper_ascii hascii
  rcases upper_cases hascii with ⟨e, he, hcode, hform⟩ | ⟨run, hrun, n, hn, hform⟩ | hform
  · obtain ⟨u, v, us, heq, hu, hcase⟩ := upperCase_of_expansion e he
    rw [heq, List.map_cons, List.map_cons] at hform
    rw [hcode] at hcase
    exact head_form hform (by rw [hform]; simp) hu hcase
  · have hvalid := toNat_of_upperInRun hrun hn
    obtain ⟨hne, hcase⟩ := upperCase_of_run hrun hn
    refine head_form hform (fun heq => hne ?_) hvalid hcase
    rw [hform] at heq
    rw [← hvalid, (List.cons.inj heq).1]
  · rw [isCapitalizable, hform, List.head?_cons, Option.any_some]
    simp

theorem upper_ne_nil (c : Char) : upper c ≠ [] := by
  by_cases hascii : c.toNat < 0x80
  · rw [upper, if_pos hascii]
    exact List.cons_ne_nil _ _
  rcases upper_cases hascii with ⟨e, he, -, hform⟩ | ⟨run, -, n, -, hform⟩ | hform
  · obtain ⟨u, v, us, heq, -⟩ := upperCase_of_expansion e he
    rw [hform, heq]
    exact List.cons_ne_nil _ _
  · rw [hform]
    exact List.cons_ne_nil _ _
  · rw [hform]
    exact List.cons_ne_nil _ _

end Text

/-! ## Members -/

namespace Go

/-- The members of all structs: those of the models, then those of the requests. -/
def Source.members (s : Source) : List Member :=
  (s.models ++ s.endpoints.flatMap Endpoint.requests).flatMap Struct.members

/-- Go lets other packages see a member whose name begins with an upper-case letter. -/
def Member.isExported (m : Member) : Bool := m.name.toList.head?.any Text.isUpperCaseLetter

/-- What the definitions call the member can be capitalized. -/
def Member.isCapitalizable (m : Member) : Bool := m.tag.toList.head?.any Text.isCapitalizable

theorem isExported_writtenMember (f : String × String) :
    (writtenMember f).isExported = (writtenMember f).isCapitalizable := by
  show (exportedName f.1).toList.head?.any Text.isUpperCaseLetter =
    f.1.toList.head?.any Text.isCapitalizable
  cases hname : f.1.toList with
  | nil =>
    have hempty : exportedName f.1 = "" := by rw [exportedName, hname]
    rw [hempty]
    rfl
  | cons c rest =>
    obtain ⟨u, us, hform⟩ := List.exists_cons_of_ne_nil (Text.upper_ne_nil c)
    have hhead := Text.head_upper c
    rw [toList_exportedName hname]
    rw [hform] at hhead ⊢
    exact hhead

theorem mem_members_written {ds : List Definition} {m : Member} (h : m ∈ (writtenSource ds).members) :
    ∃ f, m = writtenMember f := by
  have hstruct : ∀ {name : String} {fields : List (String × String)},
      m ∈ (writtenStruct name fields).members → ∃ f, m = writtenMember f := by
    intro name fields hm
    obtain ⟨f, -, hf⟩ := List.mem_map.1 hm
    exact ⟨f, hf.symm⟩
  obtain ⟨s, hs, hm⟩ := List.mem_flatMap.1 h
  rcases List.mem_append.1 hs with hs | hs
  · obtain ⟨d, -, hs⟩ := List.mem_flatMap.1 hs
    obtain ⟨model, -, rfl⟩ := List.mem_map.1 hs
    exact hstruct hm
  · obtain ⟨e, he, hs⟩ := List.mem_flatMap.1 hs
    obtain ⟨d, -, he⟩ := List.mem_flatMap.1 he
    obtain ⟨service, -, rfl⟩ := List.mem_map.1 he
    obtain ⟨method, -, rfl⟩ := List.mem_map.1 hs
    exact hstruct hm

end Go

/-- In a generated file a member is exported exactly if its name in the definitions can be
    capitalized. -/
theorem generateAll_exported_iff {check : Go.Check} {o : Options} {ds : List Definition} {out : String}
    (h : generateAll check o ds = .ok out) :
    ∃ s, declarations ds = .ok s ∧ Go.format check (s.text o.go) = .ok out ∧
      ∀ m ∈ s.members, m.isExported = true ↔ m.isCapitalizable = true := by
  rw [generateAll_eq, bind_eq_ok] at h
  obtain ⟨s, hs, hf⟩ := h
  refine ⟨s, hs, ?_, fun m hm => ?_⟩
  · cases hformat : Go.format check (s.text o.go) with
    | ok text => rw [hformat] at hf; cases hf; rfl
    | error fault => rw [hformat] at hf; cases hf
  · rw [declarations_eq_written hs] at hm
    obtain ⟨f, rfl⟩ := Go.mem_members_written hm
    rw [Go.isExported_writtenMember]

/-- A model with a field whose name has no upper case. -/
def underscoredBatch : List Definition := [⟨.ofList [("M", .ofList [("_x", "string")])], .empty⟩]

theorem accepted_underscoredBatch : Accepted underscoredBatch := by decide +kernel

theorem generateAll_underscoredBatch {check : Go.Check} (h : Go.Check.AcceptsFiles check) :
    generateAll check plainOptions underscoredBatch =
      .ok (Printer.file plainOptions.go underscoredBatch) := by
  have hp : Plain plainOptions.go underscoredBatch := by decide +kernel
  exact generateAll_of_accepted hp.toLegible accepted_underscoredBatch
    (h _ (Go.isFile_file hp accepted_underscoredBatch))

theorem declarations_underscoredBatch :
    declarations underscoredBatch = .ok (Go.writtenSource underscoredBatch) := by
  obtain ⟨s, hs⟩ := exists_declarations_eq_ok.2 accepted_underscoredBatch
  rw [hs, declarations_eq_written hs]

theorem members_underscoredBatch :
    (Go.writtenSource underscoredBatch).members = [⟨"_x", "string", "_x"⟩] := rfl

theorem generateAll_exported_underscoredBatch :
    ∃ s, declarations underscoredBatch = .ok s ∧ ∃ m ∈ s.members, m.isExported = false := by
  obtain ⟨s, hs, -, hexported⟩ := generateAll_exported_iff
    (generateAll_underscoredBatch Go.exact_fileCheck.acceptsFiles)
  have hwritten := declarations_eq_written hs
  have hm : (⟨"_x", "string", "_x"⟩ : Go.Member) ∈ s.members := by
    rw [hwritten, members_underscoredBatch]
    exact List.mem_singleton_self _
  refine ⟨s, hs, _, hm, Bool.eq_false_iff.2 fun h => ?_⟩
  exact absurd ((hexported _ hm).1 h) (by decide)

/-- A batch may get its file although the file has a member that no other package sees: no check
    that accepts all Go files prevents it. -/
theorem underscored_member_hidden :
    ¬ ∃ check, Go.Check.AcceptsFiles check ∧
      ∀ (o : Options) (ds : List Definition) (out : String) (s : Go.Source),
        generateAll check o ds = .ok out → declarations ds = .ok s →
          ∀ m ∈ s.members, m.isExported = true := by
  rintro ⟨check, hfiles, h⟩
  have hexported := h _ _ _ _ (generateAll_underscoredBatch hfiles) declarations_underscoredBatch
  rw [members_underscoredBatch] at hexported
  exact absurd (hexported _ (List.mem_singleton_self _)) (by decide)

end ServiceSchema
