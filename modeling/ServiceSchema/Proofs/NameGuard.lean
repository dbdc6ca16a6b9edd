/-
  ServiceSchema.Proofs.NameGuard — names that are no identifiers.

  Names are written into the file as they are, and the only guard against a name that is no
  identifier is that the file as a whole has to be a Go file. The guard has holes: a name may
  be cut by marks into texts that are all at home where it stands, as in `type User = struct`.
  It holds for mild names.

  - `generateAll_ne_ok_of_not_identifier`: in a batch of mild names one name that is no
    identifier is enough for the batch to be refused, if the check accepts just the Go files.
  - `alias_gets_file`: a batch whose model is no identifier may get its file.
-/
import ServiceSchema.Proofs.MildNames
import ServiceSchema.Proofs.SourceWalk

namespace ServiceSchema

open Text

theorem Text.isIdentifier_cons {c : Char} {rest : List Char} :
    isIdentifier (c :: rest) = true ↔ isLetter c = true ∧ ∀ d ∈ rest, isWordPart d = true := by
  rw [isIdentifier, Bool.and_eq_true, List.all_eq_true]

theorem isIdentifier_of_isPlain {name : String} (h : isPlain name = true) :
    isIdentifier name.toList = true := by
  obtain ⟨c, rest, hname, hc, hrest⟩ := exists_of_isPlain h
  rw [hname, isIdentifier_cons]
  exact ⟨Go.isLetter_of_isPlainStart hc, fun d hd => Go.isWordPart_of_isPlainPart (hrest d hd)⟩

/-- Options that are passed over, and mild names. -/
structure Mild (o : GoOptions) (ds : List Definition) : Prop where
  options : Go.CalmOptions o
  names : ∀ d ∈ ds, ∀ name ∈ d.names, MildName name

theorem isTamePart_of_isMildPart {c : Char} (h : isMildPart c = true) : Go.isTamePart c = true := by
  simp only [isMildPart, harsh, Bool.not_eq_true', List.contains_eq_mem, decide_eq_false_iff_not,
    List.mem_cons, List.not_mem_nil, or_false, not_or] at h
  simp [Go.isTamePart, Go.isCalmPart, h]

theorem MildName.tame {name : String} (h : MildName name) : Go.Tame name :=
  fun c hc => isTamePart_of_isMildPart (h.trail.parts c hc)

theorem MildName.tame_exported {name : String} (h : MildName name) : Go.Tame (exportedName name) := by
  obtain ⟨c, rest, hname, hstart⟩ := h.exists_start
  have htame := h.tame
  unfold Go.Tame at htame ⊢
  rw [hname, List.forall_mem_cons] at htame
  rw [toList_exportedName hname, List.forall_mem_append]
  refine ⟨?_, htame.2⟩
  rcases hstart with hc | ⟨hc, -⟩
  · obtain ⟨u, us, hupper, hcapital⟩ := exists_upper hc
    rw [hupper]
    exact fun d hd => isTamePart_of_isMildPart (hcapital d hd).mild
  · rw [hc]
    exact List.forall_mem_singleton.2 htame.1

/-! ## The tokens of a name -/

namespace Go

variable {ends : Bool} {src : List (List Char)} {line tail : List Char} {ts : List Token}

theorem Left.blanks {gap : List Char} (hgap : ∀ b ∈ gap, isBlank b = true)
    (h : Left ends (gap ++ line) src ts) : Left ends line src ts := by
  induction gap with
  | nil => exact h
  | cons b gap ih =>
    rw [List.forall_mem_cons] at hgap
    exact ih hgap.2 (h.blank hgap.1)

/-- A mild character that begins no word begins a stray token, or it is a dot. -/
theorem Left.mild {c : Char} (h : Left ends (c :: line) src ts) (hc : isMildPart c = true)
    (hblank : isBlank c = false) (hletter : isLetter c = false) :
    (∃ t ∈ strays, ∃ ts', ts = t :: ts') ∨
      (c = '.' ∧ ∃ ts', ts = .operator .dot :: ts' ∧ Left false line src ts') := by
  have htame := isTamePart_of_isMildPart hc
  rw [isTamePart, Bool.and_eq_true] at htame
  have hne := ne_of_class hc
  obtain ⟨t, u, line', ts', rfl, rfl, hshape, -, hleft⟩ := h.calmPart htame.1 hblank
  cases hshape with
  | ident hc' | keyword _ _ hc' =>
    rw [hletter] at hc'
    cases hc'
  | number hn =>
    refine Or.inl ⟨t, List.mem_append_left _ ?_, ts', rfl⟩
    cases t <;> first | decide | cases hn
  | rune | raw | quoted => exact absurd hc (by decide)
  | operator m hm =>
    by_cases hdot : m = .dot
    · subst hdot
      obtain ⟨rfl, rfl⟩ := List.cons.inj hm
      exact Or.inr ⟨rfl, ts', rfl, hleft⟩
    · refine Or.inl ⟨.operator m, ?_, ts', rfl⟩
      refine List.mem_append_right _ (List.mem_map_of_mem (List.mem_filter.2 ⟨m.mem_all, ?_⟩))
      have hmild : harsh.contains c = false := by simpa [isMildPart] using hc
      rw [← hm, List.head?_cons, Option.any_some, hmild]
      simpa using hdot

/-- Where a part of a name ends, behind it or before the blank behind the name. -/
theorem stop_append {v tail : List Char} (hv : ∀ d, v.head? = some d → isWordPart d = false) :
    ∀ d, (v ++ ' ' :: tail).head? = some d → isWordPart d = false := by
  intro d hd
  cases v with
  | nil =>
    cases hd
    decide
  | cons e v => exact hv d hd

/-- A word that is no keyword is an identifier. -/
theorem Left.identifier {c : Char} {u : List Char} (h : Left ends (c :: (u ++ line)) src ts)
    (hc : isLetter c = true) (hu : ∀ d ∈ u, isWordPart d = true)
    (hstop : ∀ d, line.head? = some d → isWordPart d = false) (hk : String.ofList (c :: u) ∉ goKeywords) :
    ∃ ts', ts = .ident :: ts' ∧ Left true line src ts' := by
  have hword := h.word hc hu hstop
  rwa [ofWord_of_notMem hk] at hword

/-- A word of a trail is an identifier, and a trail is left. -/
theorem Left.trailWord {c : Char} {rest : List Char} (h : Left ends (c :: (rest ++ ' ' :: tail)) src ts)
    (ht : Trail (c :: rest)) (hc : isLetter c = true) :
    ∃ u v ts', rest = u ++ v ∧ (∀ d ∈ u, isWordPart d = true) ∧ Trail v ∧ ts = .ident :: ts' ∧
      Left true (v ++ ' ' :: tail) src ts' := by
  obtain ⟨u, v, rfl, hu, hv⟩ := exists_word rest
  have hall : ∀ d ∈ c :: u, isWordPart d = true :=
    List.forall_mem_cons.2 ⟨isWordPart_of_isLetter hc, hu⟩
  obtain ⟨hk, hv'⟩ := Trail.word (w := c :: u) ht hall hv
  rw [List.append_assoc] at h
  obtain ⟨ts', rfl, hleft⟩ := h.identifier hc hu (stop_append hv) hk
  exact ⟨u, v, ts', rfl, hu, hv', rfl, hleft⟩

/-- What is left of a name is read as identifiers and dots, up to its end or up to a stray
    token. -/
def Spelled (tail : List Char) (src : List (List Char)) (v : List Char) (ts : List Token) : Prop :=
  ∃ u ts', ts = u ++ ts' ∧ (∀ t ∈ u, t ∈ nameTokens) ∧
    ((∃ t ∈ strays, ∃ ts'', ts' = t :: ts'') ∨
      (∃ ends, Left ends (' ' :: tail) src ts') ∧ (u = [] → v = []) ∧ u.getLast? ≠ some (.operator .dot))

namespace Spelled

theorem ident {v v' : List Char} (h : Spelled tail src v ts) : Spelled tail src v' (.ident :: ts) := by
  obtain ⟨u, ts', rfl, hu, hend⟩ := h
  refine ⟨.ident :: u, ts', rfl, List.forall_mem_cons.2 ⟨by decide, hu⟩, hend.imp_right fun hover => ?_⟩
  refine ⟨hover.1, fun hnil => absurd hnil (List.cons_ne_nil _ _), ?_⟩
  cases u with
  | nil => decide
  | cons t u => exact hover.2.2

theorem dot {v v' : List Char} (hne : v ≠ []) (h : Spelled tail src v ts) :
    Spelled tail src v' (.operator .dot :: ts) := by
  obtain ⟨u, ts', rfl, hu, hend⟩ := h
  refine ⟨.operator .dot :: u, ts', rfl, List.forall_mem_cons.2 ⟨by decide, hu⟩,
    hend.imp_right fun hover => ?_⟩
  refine ⟨hover.1, fun hnil => absurd hnil (List.cons_ne_nil _ _), ?_⟩
  cases u with
  | nil => exact absurd (hover.2.1 rfl) hne
  | cons t u => exact hover.2.2

/-- So is every trail, a word or a dot at a time. -/
theorem of_trail {v : List Char} (ht : Trail v) (h : Left ends (v ++ ' ' :: tail) src ts) :
    Spelled tail src v ts := by
  induction hn : v.length using Nat.strongRecOn generalizing ends v ts with
  | ind n ih =>
    by_cases hne : v = []
    · subst hne
      exact ⟨[], ts, rfl, List.forall_mem_nil _, Or.inr ⟨⟨ends, h⟩, fun _ => rfl, by simp⟩⟩
    obtain ⟨gap, c, rest, rfl, hgap, hblank, htrail⟩ := ht.exists_next hne
    rw [List.append_assoc] at h
    rw [List.length_append, List.length_cons] at hn
    have hnext := h.blanks hgap
    by_cases hc : isLetter c = true
    · obtain ⟨u, v, ts', rfl, -, hv, rfl, hleft⟩ := hnext.trailWord htrail hc
      rw [List.length_append] at hn
      exact (ih _ (by omega) hv hleft rfl).ident
    · have hletter : isLetter c = false := by simpa using hc
      have hmild := htrail.parts c List.mem_cons_self
      rcases hnext.mild hmild hblank hletter with hstray | ⟨rfl, ts', rfl, hleft⟩
      · exact ⟨[], ts, rfl, List.forall_mem_nil _, Or.inl hstray⟩
      · have hrest : rest ≠ [] := by
          rintro rfl
          exact absurd htrail.last (by decide)
        exact (ih _ (by omega) (htrail.tail (by decide)) hleft rfl).dot hrest

end Spelled

namespace Slot

variable {s : Slot} (hs : s.isSound = true)
include hs

/-- A name begins with a letter: no other mild character is taken where a name is written. -/
theorem isLetter_of_takes (hdot : [.operator .dot] ∉ s.alive) {c : Char} (hc : isMildPart c = true)
    (hblank : isBlank c = false) (h : Left ends (c :: line) src ts) (ht : Takes s.lists ts) :
    isLetter c = true := by
  rw [← Bool.not_eq_false]
  intro hletter
  rcases h.mild hc hblank hletter with ⟨t, hstray, ts', rfl⟩ | ⟨-, ts', rfl, -⟩
  · exact notMem_strays (u := []) hs (List.forall_mem_nil _) ht hstray
  · exact hdot (mem_alive (u := [.operator .dot]) hs (by decide) ht)

/-- Behind the first identifier of a name its other identifiers and dots are taken. -/
theorem exists_of_takes {v : List Char} (hv : Trail v) (h : Left ends (v ++ ' ' :: tail) src ts)
    (ht : Takes s.lists (.ident :: ts)) :
    ∃ u ts', ts = u ++ ts' ∧ (∀ t ∈ Token.ident :: u, t ∈ nameTokens) ∧ (u = [] → v = []) ∧
      (Token.ident :: u).getLast? ≠ some (.operator .dot) ∧ ∃ ends, Left ends (' ' :: tail) src ts' := by
  obtain ⟨u, ts', rfl, hu, hend⟩ := Spelled.of_trail hv h
  have hall : ∀ t ∈ Token.ident :: u, t ∈ nameTokens := List.forall_mem_cons.2 ⟨by decide, hu⟩
  rcases hend with ⟨t, hstray, ts'', rfl⟩ | ⟨hleft, hnil, hlast⟩
  · exact absurd hstray (notMem_strays hs hall ht)
  · refine ⟨u, ts', rfl, hall, hnil, ?_, hleft⟩
    cases u with
    | nil => decide
    | cons t u => exact hlast

end Slot

/-- The name of a declared type is an identifier. -/
theorem Left.typeName {name : String} (hm : MildName name)
    (hkind : ∀ {ends ts}, Left ends (' ' :: tail) src ts →
      ∃ k ts', (k = .struct ∨ k = .interface) ∧ ts = .keyword k :: ts')
    (h : Left ends (name.toList ++ ' ' :: tail) src ts) (ht : Takes behindType ts) :
    isIdentifier name.toList = true ∧ ∃ ends ts', ts = .ident :: ts' ∧ Left ends (' ' :: tail) src ts' := by
  obtain ⟨c, rest, hname, hstart⟩ := hm.exists_start
  have htrail := hm.trail
  rw [hname] at h htrail
  have hblank : isBlank c = false :=
    hstart.elim (fun hc => (not_isBlank_of_isWordPart (isWordPart_of_isLetter hc)).1) And.right
  have hc := Slot.isLetter_of_takes (s := typeSlot) isSound_typeSlot (by decide)
    (htrail.parts c List.mem_cons_self) hblank h ht
  obtain ⟨u, v, ts', rfl, hu, hv, rfl, hleft⟩ := h.trailWord htrail hc
  obtain ⟨w, ts'', rfl, hw, hnil, -, ends', hend⟩ :=
    Slot.exists_of_takes (s := typeSlot) isSound_typeSlot hv hleft ht
  obtain ⟨k, ts', hk, rfl⟩ := hkind hend
  obtain rfl : w = [] := (List.cons.inj (eq_ident_of_kind hk hw ht)).2
  rw [hnil rfl, List.append_nil] at hname
  rw [hname, isIdentifier_cons]
  exact ⟨⟨hc, hu⟩, ends', _, rfl, hend⟩

/-- What a letter is capitalized to is one word: a capital that is no part of one, such as a
    combining mark, goes on with no member. -/
theorem Left.capitals {u : Char} {us : List Char} (hcapital : ∀ d ∈ u :: us, Capital d)
    (hletter : isLetter u = true) (h : Left ends (u :: (us ++ line)) src ts) (ht : Takes [members] ts) :
    ∀ d ∈ us, isWordPart d = true := by
  obtain ⟨us, more, rfl, hus, hmore⟩ := exists_word us
  cases more with
  | nil => rwa [List.append_nil]
  | cons d more =>
    have hd := hcapital d (by simp)
    have hpart := hmore d rfl
    have hnotLetter : isLetter d = false := by
      rw [isWordPart, Bool.or_eq_false_iff] at hpart
      exact hpart.1
    rw [List.append_assoc] at h
    obtain ⟨ts', rfl, hleft⟩ := h.identifier hletter hus (by simpa using hpart)
      (notMem_goKeywords_of_head String.toList_ofList (hcapital u List.mem_cons_self).notLower)
    rcases hleft.mild hd.mild hd.notBlank hnotLetter with ⟨x, hx, ts'', rfl⟩ | ⟨hdot, -⟩
    · have hnot := Slot.notMem_strays (s := memberSlot) (u := [.ident]) isSound_memberSlot (by decide) ht
      exact absurd hx hnot
    · exact absurd hdot hd.notDot

/-- The name of a member is an identifier. -/
theorem Left.memberName {name : String} (hm : MildName name) {t : TypeExpr}
    (htype : ∀ {ends ts}, Left ends (' ' :: tail) src ts → ∃ ts', ts = t.tokens ++ ts')
    (h : Left ends ((exportedName name).toList ++ ' ' :: tail) src ts) (ht : Takes [members] ts) :
    isIdentifier name.toList = true ∧ ∃ ends ts', ts = .ident :: ts' ∧ Left ends (' ' :: tail) src ts' := by
  obtain ⟨c, rest, hname, hstart⟩ := hm.exists_start
  have htrail := hm.trail
  have hfirst : ∀ {c : Char} {line : List Char}, isMildPart c = true → isBlank c = false →
      Left ends (c :: line) src ts → isLetter c = true := fun hc hblank h =>
    Slot.isLetter_of_takes (s := memberSlot) isSound_memberSlot (by decide) hc hblank h ht
  rw [toList_exportedName hname] at h
  rw [hname] at htrail
  by_cases hc : isLetter c = true
  · obtain ⟨u, us, hupper, hcapital⟩ := exists_upper hc
    have hu := hcapital u List.mem_cons_self
    rw [hupper] at h
    have hletter := hfirst hu.mild hu.notBlank h
    rw [List.cons_append, List.cons_append, List.append_assoc] at h
    have hus := h.capitals hcapital hletter ht
    -- the word that is read is the capitals with what the name goes on with
    obtain ⟨w, v, rfl, hw, hv⟩ := exists_word rest
    have hall : ∀ d ∈ c :: w, isWordPart d = true :=
      List.forall_mem_cons.2 ⟨isWordPart_of_isLetter hc, hw⟩
    obtain ⟨-, hvtrail⟩ := Trail.word (w := c :: w) htrail hall hv
    rw [List.append_assoc, ← List.append_assoc us] at h
    obtain ⟨ts', rfl, hleft⟩ := h.identifier hletter (List.forall_mem_append.2 ⟨hus, hw⟩) (stop_append hv)
      (notMem_goKeywords_of_head String.toList_ofList hu.notLower)
    obtain ⟨x, ts'', rfl, hx, hnil, hlast, ends', hend⟩ :=
      Slot.exists_of_takes (s := memberSlot) isSound_memberSlot hvtrail hleft ht
    obtain ⟨ts', rfl⟩ := htype hend
    obtain rfl : x = [] := (List.cons.inj (eq_ident_of_type hx (List.cons_ne_nil _ _) hlast ht)).2
    rw [hnil rfl, List.append_nil] at hname
    rw [hname, isIdentifier_cons]
    exact ⟨⟨hc, hw⟩, ends', _, rfl, hend⟩
  · obtain ⟨hupper, hblank⟩ := hstart.resolve_left hc
    rw [hupper] at h
    exact absurd (hfirst (htrail.parts c List.mem_cons_self) hblank h) hc

/-! ## The tokens of a declaration -/

/-- A word ends before what is no part of one. -/
theorem stop_cons {c : Char} (hc : isWordPart c = false) :
    ∀ d, (c :: line).head? = some d → isWordPart d = false := by
  intro d hd
  cases hd
  exact hc

theorem Left.leaf {name : String} (h : Left ends (name.toList ++ line) src ts)
    (hi : isIdentifier name.toList = true) (hk : name ∉ goKeywords)
    (hstop : ∀ d, line.head? = some d → isWordPart d = false) :
    ∃ ts', ts = .ident :: ts' ∧ Left true line src ts' := by
  cases hname : name.toList with
  | nil =>
    rw [hname] at hi
    cases hi
  | cons c rest =>
    rw [hname, isIdentifier_cons] at hi
    rw [hname] at h
    refine h.identifier hi.1 hi.2 hstop ?_
    rwa [← hname, String.ofList_toList]

theorem toList_array (item : TypeExpr) (line : List Char) : (TypeExpr.array item).render.toList ++ line =
    Bracket.square.opener :: Bracket.square.closer :: (item.render.toList ++ line) := by
  simp [TypeExpr.render, Bracket.opener, Bracket.closer]

theorem toList_map (key : BaseType) (value : TypeExpr) (line : List Char) :
    (TypeExpr.map key value).render.toList ++ line = 'm' :: (['a', 'p'] ++ Bracket.square.opener ::
      (key.name.toList ++ Bracket.square.closer :: (value.render.toList ++ line))) := by
  simp [TypeExpr.render, Bracket.opener, Bracket.closer]

/-- A type is read as its tokens. -/
theorem Left.type {t : TypeExpr} (hi : isIdentifier t.leaf.toList = true) (hk : t.leaf ∉ goKeywords)
    (hstop : ∀ d, line.head? = some d → isWordPart d = false)
    (h : Left ends (t.render.toList ++ line) src ts) :
    ∃ ts', ts = t.tokens ++ ts' ∧ Left true line src ts' := by
  induction t generalizing ends ts with
  | named name => exact h.leaf hi hk hstop
  | array item ih =>
    rw [toList_array] at h
    obtain ⟨ts', rfl, hopen⟩ := h.opener
    obtain ⟨ts', rfl, hclose⟩ := hopen.closer
    obtain ⟨ts', rfl, hitem⟩ := ih hi hk hclose
    exact ⟨ts', rfl, hitem⟩
  | map key value ih =>
    rw [toList_map] at h
    obtain ⟨ts', rfl, hword⟩ := h.word (by decide) (by decide) (stop_cons (by decide))
    obtain ⟨ts', rfl, hopen⟩ := hword.opener
    obtain ⟨ts', rfl, hkey⟩ := hopen.leaf (isIdentifier_of_isPlain key.plainName.plain)
      key.plainName.noKeyword (stop_cons (by decide))
    obtain ⟨ts', rfl, hclose⟩ := hkey.closer
    obtain ⟨ts', rfl, hvalue⟩ := ih hi hk hclose
    exact ⟨ts', rfl, hvalue⟩

/-- A written type whose name is an identifier. -/
def WordType (ms : Models) (raw : String) : Prop :=
  ∃ t, TypeExpr.read ms raw = .ok t ∧ isIdentifier t.leaf.toList = true ∧ t.leaf ∉ goKeywords

/-- A member is taken, and its name is an identifier. -/
theorem Walks.member {ms : Models} {f : String × String} (hm : MildName f.1) (hw : WordType ms f.2)
    (h : Walks ((writtenMember f).line.toList :: src) ts) (ht : Takes [members] ts) :
    isIdentifier f.1.toList = true ∧ ∃ ts', Walks src ts' ∧ Takes [members] ts' := by
  obtain ⟨t, hread, hi, hk⟩ := hw
  have hink : hasInk (writtenMember f).line.toList = true := by
    rw [toList_memberLine]
    exact List.any_eq_true.2 ⟨'`', by simp, by decide⟩
  have hleft := h.left hink
  rw [toList_memberLine, ← TypeExpr.render_of_read hread] at hleft
  have htype : ∀ {ends ts}, Left ends (' ' :: (t.render.toList ++ ' ' :: '`' ::
      (("json:\"" ++ f.1 ++ "\"").toList ++ '`' :: []))) src ts → ∃ ts', ts = t.tokens ++ ts' ∧
        Left true (' ' :: '`' :: (("json:\"" ++ f.1 ++ "\"").toList ++ '`' :: [])) src ts' := fun hend =>
    (hend.blank (by decide)).type hi hk (stop_cons (by decide))
  obtain ⟨hname, ends, ts', rfl, hend⟩ := hleft.memberName hm
    (fun hend => (htype hend).imp fun _ => And.left) ht
  obtain ⟨ts', rfl, htag⟩ := htype hend
  obtain ⟨ts', rfl, hline⟩ := (htag.blank (by decide)).raw (tag_of_tame hm.tame).2
  obtain ⟨ts', rfl, hnext⟩ := hline.walks
  exact ⟨hname, ts', hnext, takes_member ht⟩

/-- The members of a struct are taken one after another. -/
theorem Walks.members {ms : Models} {fields : List (String × String)}
    (hf : ∀ f ∈ fields, MildName f.1 ∧ WordType ms f.2)
    (h : Walks (fields.map (fun f => (writtenMember f).line.toList) ++ src) ts) (ht : Takes [members] ts) :
    ∀ f ∈ fields, isIdentifier f.1.toList = true := by
  induction fields generalizing ts with
  | nil => exact List.forall_mem_nil _
  | cons f fields ih =>
    rw [List.forall_mem_cons] at hf
    obtain ⟨hname, ts', hnext, ht'⟩ := Walks.member hf.1.1 hf.1.2 h ht
    exact List.forall_mem_cons.2 ⟨hname, ih hf.2 hnext ht'⟩

/-- At the head of a type declaration its name is an identifier. -/
theorem Walks.typeHead {name kind : String} (hm : MildName name)
    (hkind : kind ∈ [" struct \x7b", " interface \x7b"]) {front all : List Token}
    (h : Walks (("type " ++ name ++ kind).toList :: src) ts) (hfits : Form.Fits (.rule .sourceFile) all)
    (hc : Completes all (front ++ ts)) :
    isIdentifier name.toList = true ∧
      ∃ ends ts', Left ends kind.toList src ts' ∧ Takes behindType (.ident :: ts') := by
  have hline : ("type " ++ name ++ kind).toList =
      't' :: (['y', 'p', 'e'] ++ ' ' :: (name.toList ++ kind.toList)) := by
    simp
  have hink : hasInk ("type " ++ name ++ kind).toList = true := by
    rw [hline]
    rfl
  have hleft := h.left hink
  rw [hline] at hleft
  obtain ⟨ts', rfl, hword⟩ := hleft.word (by decide) (by decide) (stop_cons (by decide))
  have ht : Takes behindType ts' := takes_behind_type hfits hc
  have hname := hword.blank (by decide)
  -- both kinds begin with a blank and a keyword
  obtain ⟨k, c, u, hk, hkeyword, hc, hu, hchars⟩ : ∃ k c u, (k = Keyword.struct ∨ k = .interface) ∧
      Token.ofWord (c :: u) = .keyword k ∧ isLetter c = true ∧ (∀ d ∈ u, isWordPart d = true) ∧
      kind.toList = ' ' :: c :: (u ++ [' ', '{']) := by
    simp only [List.mem_cons, List.not_mem_nil, or_false] at hkind
    rcases hkind with rfl | rfl
    · exact ⟨.struct, 's', "truct".toList, Or.inl rfl, by decide, by decide, by decide, by decide⟩
    · exact ⟨.interface, 'i', "nterface".toList, Or.inr rfl, by decide, by decide, by decide, by decide⟩
  rw [hchars] at hname ⊢
  obtain ⟨hi, ends, ts'', rfl, hend⟩ := hname.typeName hm (fun hend => by
    obtain ⟨ts', rfl, -⟩ := (hend.blank (by decide)).word hc hu (stop_cons (by decide))
    exact ⟨k, ts', hk, by rw [hkeyword]⟩) ht
  exact ⟨hi, ends, ts'', hend, ht⟩

/-- The members of a struct come next. -/
theorem Left.structHead (h : Left ends " struct \x7b".toList src ts) (ht : Takes behindType (.ident :: ts)) :
    ∃ ts', Walks src ts' ∧ Takes [members] ts' := by
  have hchars : " struct \x7b".toList =
      ' ' :: 's' :: (['t', 'r', 'u', 'c', 't'] ++ ' ' :: Bracket.brace.opener :: []) := by
    simp [Bracket.opener]
  rw [hchars] at h
  obtain ⟨ts', rfl, hword⟩ := (h.blank (by decide)).word (by decide) (by decide) (stop_cons (by decide))
  obtain ⟨ts', rfl, hopen⟩ := (hword.blank (by decide)).opener
  obtain ⟨ts', rfl, hnext⟩ := hopen.walks
  exact ⟨ts', hnext, takes_members ht⟩

end Go

/-! ## Batches -/

theorem isIdentifier_of_request {name : String} (hm : MildName name)
    (h : isIdentifier (name ++ requestSuffix).toList = true) : isIdentifier name.toList = true := by
  obtain ⟨c, rest, hname, -⟩ := hm.exists_start
  rw [String.toList_append, hname, List.cons_append, isIdentifier_cons, List.forall_mem_append] at h
  rw [hname, isIdentifier_cons]
  exact ⟨h.1, h.2.1⟩

theorem tame_baseType (b : BaseType) : Go.Tame b.name := by
  cases b <;> decide

section

variable {o : GoOptions} {ds : List Definition} (hm : Mild o ds) (ha : Accepted ds)
include hm ha

theorem Mild.tame_type {d : Definition} (hd : d ∈ ds) {raw : String} (hr : raw ∈ d.rawTypes) :
    Go.Tame raw := by
  obtain ⟨t, ht⟩ := ha.readable d hd raw hr
  rw [← TypeExpr.render_of_read ht]
  refine TypeExpr.forall_mem_render (by decide) tame_baseType ?_
  rcases (TypeExpr.leaf_of_read ht).2 with hbase | hmodel
  · obtain ⟨b, hb⟩ := Option.isSome_iff_exists.1 hbase
    rw [← BaseType.name_of_ofName? hb]
    exact tame_baseType b
  · obtain ⟨d', hd', hn⟩ := exists_names_of_mem_modelNames hmodel
    exact (hm.names d' hd' _ hn).tame

theorem Mild.tameField {d : Definition} (hd : d ∈ ds) {f : String × String} (hn : f.1 ∈ d.names)
    (hr : f.2 ∈ d.rawTypes) : Go.TameField f :=
  ⟨(hm.names d hd f.1 hn).tame, (hm.names d hd f.1 hn).tame_exported, hm.tame_type ha hd hr⟩

theorem Mild.tameMethod {d : Definition} (hd : d ∈ ds) {m : String × Method} (hmem : m ∈ d.methods) :
    Go.TameMethod m := by
  refine ⟨(hm.names d hd _ (mem_names_of_method hmem List.mem_cons_self)).tame, ?_, ?_⟩
  · intro p hp
    exact hm.tameField ha hd
      (mem_names_of_method hmem (List.mem_cons_of_mem _ (List.mem_map_of_mem hp)))
      (mem_rawTypes_of_method hmem (List.mem_append_left _ (List.mem_map_of_mem hp)))
  · intro raw hr
    exact hm.tame_type ha hd (mem_rawTypes_of_method hmem (List.mem_append_right _ hr))

theorem Mild.isTame_of_mem : ∀ x ∈ Go.batchDeclarations ds, x.IsTame := by
  intro x hx
  obtain ⟨d, hd, ⟨m, hmem, rfl⟩ | ⟨s, hs, hx⟩⟩ := Go.mem_batchDeclarations.1 hx
  · refine ⟨(hm.names d hd _ (mem_names_of_model hmem List.mem_cons_self)).tame, fun f hf => ?_⟩
    exact hm.tameField ha hd
      (mem_names_of_model hmem (List.mem_cons_of_mem _ (List.mem_map_of_mem hf)))
      (mem_rawTypes_of_model hmem (List.mem_map_of_mem hf))
  · have hmethod : ∀ m ∈ s.2.entries, Go.TameMethod m :=
      fun m hmem => hm.tameMethod ha hd (List.mem_flatMap.2 ⟨s, hs, hmem⟩)
    have hservice : Go.Tame s.1 := (hm.names d hd _ (mem_names_of_service hs)).tame
    rcases hx with ⟨m, hmem, rfl⟩ | rfl | rfl
    · exact ⟨Go.tame_append.2 ⟨(hmethod m hmem).name, by decide⟩, (hmethod m hmem).params⟩
    · exact ⟨hservice, hmethod⟩
    · exact ⟨hservice, hmethod⟩

end

/-! ## The guard -/

section

variable {check : Go.Check} {o : Options} {ds : List Definition} {out : String} (hm : Mild o.go ds)
  (hexact : Go.Check.Exact check) (h : generateAll check o ds = .ok out)
include hm hexact h

/-- The name of a struct is an identifier, and its members are taken next. -/
theorem Mild.walks_struct {name : String} {fields : List (String × String)} (hname : MildName name)
    (hx : .struct name fields ∈ Go.batchDeclarations ds) : isIdentifier name.toList = true ∧
      ∃ src ts, Go.Walks (fields.map (fun f => (Go.writtenMember f).line.toList) ++ src) ts ∧
        Go.Takes [Go.members] ts := by
  obtain ⟨src, front, ts, all, hwalks, hc, hfits⟩ := Go.exists_walks_of_mem hm.options
    (hm.isTame_of_mem (accepted_of_generateAll h)) hexact h hx
  have hlines : (Go.Declaration.struct name fields).lines.map String.toList ++ src =
      ("type " ++ name ++ " struct \x7b").toList ::
        (fields.map (fun f => (Go.writtenMember f).line.toList) ++ ("\x7d".toList :: src)) := by
    simp [Go.Declaration.lines, Go.writtenStruct, Go.Struct.lines, Function.comp_def]
  rw [hlines] at hwalks
  obtain ⟨hi, ends, ts', hend, ht⟩ := hwalks.typeHead hname (by simp) hfits hc
  obtain ⟨ts'', hnext, htakes⟩ := hend.structHead ht
  exact ⟨hi, _, ts'', hnext, htakes⟩

theorem Mild.isIdentifier_interface {name : String} {service : Service} (hname : MildName name)
    (hx : .interface name service ∈ Go.batchDeclarations ds) : isIdentifier name.toList = true := by
  obtain ⟨src, front, ts, all, hwalks, hc, hfits⟩ := Go.exists_walks_of_mem hm.options
    (hm.isTame_of_mem (accepted_of_generateAll h)) hexact h hx
  have hkind : " interface \x7b" ∈ [" struct \x7b", " interface \x7b"] := by simp
  exact (Go.Walks.typeHead hname hkind hwalks hfits hc).1

theorem Mild.isIdentifier_model {d : Definition} (hd : d ∈ ds) {m : String × Model}
    (hmem : m ∈ d.models.entries) : isIdentifier m.1.toList = true := by
  have hname := hm.names d hd _ (mem_names_of_model hmem List.mem_cons_self)
  exact (hm.walks_struct hexact h hname (Go.mem_batchDeclarations.2 ⟨d, hd, Or.inl ⟨m, hmem, rfl⟩⟩)).1

theorem Mild.wordType {d : Definition} (hd : d ∈ ds) {raw : String} (hr : raw ∈ d.rawTypes) :
    Go.WordType ⟨modelNames ds⟩ raw := by
  obtain ⟨t, ht⟩ := (accepted_of_generateAll h).readable d hd raw hr
  obtain ⟨hunreserved, hleaf⟩ := TypeExpr.leaf_of_read ht
  refine ⟨t, ht, ?_, hunreserved.1⟩
  rcases hleaf with hbase | hmodel
  · obtain ⟨b, hb⟩ := Option.isSome_iff_exists.1 hbase
    rw [← BaseType.name_of_ofName? hb]
    exact isIdentifier_of_isPlain b.plainName.plain
  · obtain ⟨d', hd', hn⟩ := List.mem_flatMap.1 hmodel
    obtain ⟨m, hmem, heq⟩ := List.mem_map.1 hn
    rw [← heq]
    exact hm.isIdentifier_model hexact h hd' hmem

/-- The members of a struct have identifiers for names. -/
theorem Mild.isIdentifier_fields {d : Definition} (hd : d ∈ ds) {name : String}
    {fields : List (String × String)} (hname : MildName name)
    (hx : .struct name fields ∈ Go.batchDeclarations ds)
    (hf : ∀ f ∈ fields, f.1 ∈ d.names ∧ f.2 ∈ d.rawTypes) :
    ∀ f ∈ fields, isIdentifier f.1.toList = true := by
  obtain ⟨-, src, ts, hwalks, htakes⟩ := hm.walks_struct hexact h hname hx
  have hall : ∀ f ∈ fields, MildName f.1 ∧ Go.WordType ⟨modelNames ds⟩ f.2 := fun f hmem =>
    ⟨hm.names d hd _ (hf f hmem).1, hm.wordType hexact h hd (hf f hmem).2⟩
  exact hwalks.members hall htakes

/-- In a mild batch that gets its file all names are identifiers. -/
theorem Mild.isIdentifier_of_generateAll {d : Definition} (hd : d ∈ ds) {name : String}
    (hn : name ∈ d.names) : isIdentifier name.toList = true := by
  rcases List.mem_append.1 hn with hn' | hn'
  · rcases List.mem_append.1 hn' with hn' | hn'
    · obtain ⟨m, hmem, hn'⟩ := List.mem_flatMap.1 hn'
      have hx := Go.mem_batchDeclarations.2 ⟨d, hd, Or.inl ⟨m, hmem, rfl⟩⟩
      have hname := hm.names d hd _ (mem_names_of_model hmem List.mem_cons_self)
      rcases List.mem_cons.1 hn' with rfl | hn'
      · exact (hm.walks_struct hexact h hname hx).1
      · obtain ⟨f, hf, rfl⟩ := List.mem_map.1 hn'
        refine hm.isIdentifier_fields hexact h hd hname hx (fun f hf => ⟨?_, ?_⟩) f hf
        · exact mem_names_of_model hmem (List.mem_cons_of_mem _ (List.mem_map_of_mem hf))
        · exact mem_rawTypes_of_model hmem (List.mem_map_of_mem hf)
    · obtain ⟨s, hs, rfl⟩ := List.mem_map.1 hn'
      exact hm.isIdentifier_interface hexact h (hm.names d hd _ hn)
        (Go.mem_batchDeclarations.2 ⟨d, hd, Or.inr ⟨s, hs, Or.inr (Or.inl rfl)⟩⟩)
  · obtain ⟨m, hmem, hn'⟩ := List.mem_flatMap.1 hn'
    obtain ⟨s, hs, hmem'⟩ := List.mem_flatMap.1 hmem
    have hx := Go.mem_batchDeclarations.2 ⟨d, hd, Or.inr ⟨s, hs, Or.inl ⟨m, hmem', rfl⟩⟩⟩
    have hname := hm.names d hd _ (mem_names_of_method hmem List.mem_cons_self)
    rcases List.mem_cons.1 hn' with rfl | hn'
    · exact isIdentifier_of_request hname (hm.walks_struct hexact h hname.request hx).1
    · obtain ⟨p, hp, rfl⟩ := List.mem_map.1 hn'
      refine hm.isIdentifier_fields hexact h hd hname.request hx (fun p hp => ⟨?_, ?_⟩) p hp
      · exact mem_names_of_method hmem (List.mem_cons_of_mem _ (List.mem_map_of_mem hp))
      · exact mem_rawTypes_of_method hmem (List.mem_append_left _ (List.mem_map_of_mem hp))

end

/-- If some name of a mild batch is no identifier, the batch is refused. -/
theorem generateAll_ne_ok_of_not_identifier {check : Go.Check} (hexact : Go.Check.Exact check) {o : Options}
    {ds : List Definition} (hm : Mild o.go ds) {d : Definition} (hd : d ∈ ds) {name : String}
    (hn : name ∈ d.names) (hi : isIdentifier name.toList = false) (out : String) :
    generateAll check o ds ≠ .ok out := by
  intro h
  have hname := hm.isIdentifier_of_generateAll hexact h hd hn
  rw [hi] at hname
  cases hname

/-- A model, a field, a service and a method that are no identifiers. -/
def dashed : Definition :=
  ⟨.ofList [("my-model", .ofList [("my field", "int32")])],
    .ofList [("my.service", .ofList [("1go", ⟨.ofList [("a", "string"), ("return", "[]my-model")]⟩)])]⟩

theorem generateAll_dashed :
    (∀ name ∈ dashed.names, MildName name) ∧ "1go" ∈ dashed.names ∧ isIdentifier "1go".toList = false ∧
      ∀ out, generateAll Go.fileCheck plainOptions [dashed] ≠ .ok out := by
  have hnames : ∀ name ∈ dashed.names, MildName name := by decide +kernel
  have hmem : "1go" ∈ dashed.names := by decide +kernel
  have hdigit : isIdentifier "1go".toList = false := by decide
  have hmild : Mild plainOptions.go [dashed] :=
    ⟨⟨by decide, by decide +kernel⟩, List.forall_mem_singleton.2 hnames⟩
  exact ⟨hnames, hmem, hdigit,
    generateAll_ne_ok_of_not_identifier Go.exact_fileCheck hmild (List.mem_singleton.2 rfl) hmem hdigit⟩

/-- A model that is written as an alias. -/
def aliasBatch : List Definition := [⟨.ofList [("User =", .empty)], .empty⟩]

/-- The rows of its file in front of the alias. -/
def aliasHead : List Go.Row :=
  [⟨0, Go.packagePieces plainOptions.go⟩, ⟨0, []⟩, ⟨0, Go.importPieces plainOptions.go⟩, ⟨0, []⟩]

/-- The alias. -/
def aliasLines : List Char :=
  "type".toList ++ ' ' :: ("User".toList ++ ' ' :: (Go.Operator.assign.text.toList ++
    ' ' :: ("struct".toList ++ ' ' :: ['{', '\n', '}', '\n'])))

def aliasText : List Char := Go.banner.toList ++ '\n' :: (aliasHead.flatMap Go.Row.text ++ aliasLines)

namespace Go

theorem reads_aliasLines : Reads false aliasLines
    [.keyword .type, .ident, .operator .assign, .keyword .struct, .operator .lbrace, .operator .rbrace,
      semicolon] := by
  have hend : Reads true ['\n'] [semicolon] := .newline (.finished false)
  have hclose : Reads false ['}', '\n'] [.operator .rbrace, semicolon] :=
    .operator (m := .rbrace) (by decide) (fun c _ => (goesOn_bracket .brace c).2) hend
  have hopen : Reads false ['{', '\n', '}', '\n'] [.operator .lbrace, .operator .rbrace, semicolon] :=
    .operator (m := .lbrace) (by decide) (fun c _ => (goesOn_bracket .brace c).1) (.newline hclose)
  have hword : ∀ (name : String) {ends : Bool} {rest : List Char} {ts : List Token},
      isPlain name = true → Reads (Token.ofWord name.toList).endsLine rest ts →
        Reads ends (name.toList ++ ' ' :: rest) (Token.ofWord name.toList :: ts) := by
    intro name ends rest ts hname h
    refine Reads.word hname ?_ (.blank (Or.inl rfl) h)
    intro c hc
    cases hc
    exact Piece.stops_border (by decide) _
  have hassign : Reads true ('=' :: ' ' :: ("struct".toList ++ " \x7b\n\x7d\n".toList)) _ :=
    .operator (m := .assign) (by decide) (fun c hc => by cases hc; decide)
      (.blank (Or.inl rfl) (hword "struct" (by decide) hopen))
  exact hword "type" (by decide) (hword "User" (by decide) hassign)

theorem isFile_alias : IsFile aliasText := by
  have hlegible := plain_plainBatch.toLegible
  have hcut : ∀ r ∈ aliasHead, r.Cut := by
    rw [aliasHead, List.forall_mem_cons, List.forall_mem_cons, List.forall_mem_cons,
      List.forall_mem_singleton]
    exact ⟨Row.cut_of_isLine (isLine_packagePieces hlegible) rfl 0, Row.cut_empty,
      Row.cut_of_isLine (isLine_importPieces hlegible) rfl 0, Row.cut_empty⟩
  have hreads := reads_banner (reads_rows hcut reads_aliasLines)
  exact ⟨_, _, hreads, Completes.refl _, Ebnf.matches_of_leads (t := .int) (by decide +kernel)⟩

end Go

/-- A check that accepts all Go files accepts the file of the alias. -/
theorem exists_generateAll_aliasBatch {check : Go.Check} (hfiles : Go.Check.AcceptsFiles check) :
    ∃ out, generateAll check plainOptions aliasBatch = .ok out := by
  obtain ⟨s, hs⟩ := exists_declarations_eq_ok.2 (by decide +kernel : Accepted aliasBatch)
  have hwrite :
      (Go.layout ((Go.writtenSource aliasBatch).text plainOptions.go).toList).toOption.map Go.write =
      some aliasText := by
    decide +kernel
  rw [generateAll_eq, hs, Fallible.ok_bind, declarations_eq_written hs]
  unfold Go.format Go.formatChars
  cases hls : Go.layout ((Go.writtenSource aliasBatch).text plainOptions.go).toList with
  | error fault =>
    rw [hls] at hwrite
    cases hwrite
  | ok ls =>
    rw [hls] at hwrite
    have hcheck : check (Go.write ls) = .ok () := Option.some.inj hwrite ▸ hfiles _ Go.isFile_alias
    simp only [hcheck]
    exact ⟨_, rfl⟩

/-- A batch may get its file although a name of it is no identifier: no check that accepts all Go
    files prevents it. -/
theorem alias_gets_file :
    ¬ ∃ check, Go.Check.AcceptsFiles check ∧
      ∀ (o : Options) (ds : List Definition) (d : Definition) (name out : String), d ∈ ds →
        name ∈ d.names → isIdentifier name.toList = false → generateAll check o ds ≠ .ok out := by
  rintro ⟨check, hfiles, hall⟩
  obtain ⟨out, hout⟩ := exists_generateAll_aliasBatch hfiles
  exact hall plainOptions aliasBatch _ "User =" out List.mem_cons_self (by decide +kernel) (by decide) hout

end ServiceSchema
