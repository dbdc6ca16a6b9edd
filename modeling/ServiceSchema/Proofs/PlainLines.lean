/-
  ServiceSchema.Proofs.PlainLines — the lines of a plain batch.

  In an accepted plain batch every name is a word and every type is made of words and
  brackets (`PlainField`, `PlainMethod`, `PlainService`). So the pieces of each line are
  sound and stand in a line that can be laid out (`isLine_fieldPieces` and its neighbours).
  A line either closes all the brackets it opens (`flat_fieldPieces` and its neighbours), or
  it is the head of a block; only the head of a struct opens a field block.
-/
import ServiceSchema.Proofs.Rows

namespace ServiceSchema

/-! ## Plain names -/

/-- A plain name that is no keyword. -/
structure PlainName (name : String) : Prop where
  plain : isPlain name = true
  noKeyword : name ∉ goKeywords

theorem isPlain_append {name rest : String} (h : isPlain name = true)
    (hr : ∀ c ∈ rest.toList, isPlainPart c = true) :
    isPlain (name ++ rest) = true := by
  obtain ⟨c, cs, hs, hc, hcs⟩ := exists_of_isPlain h
  rw [isPlain, String.toList_append, hs]
  show (isPlainStart c && (cs ++ rest.toList).all isPlainPart) = true
  rw [Bool.and_eq_true, List.all_append, Bool.and_eq_true, List.all_eq_true, List.all_eq_true]
  exact ⟨hc, hcs, hr⟩

theorem toUpper_of_isPlainStart {c : Char} (h : isPlainStart c = true) :
    isPlainStart c.toUpper = true ∧ c.toUpper.isLower = false := by
  have hall : ∀ n < 128, isPlainStart (Char.ofNat n) = true →
      isPlainStart (Char.ofNat n).toUpper = true ∧ (Char.ofNat n).toUpper.isLower = false := by decide
  have hn := toNat_of_isPlainPart (isPlainPart_of_isPlainStart h)
  have hc := hall c.toNat (by omega)
  rw [Char.ofNat_toNat] at hc
  exact hc h

theorem toList_exportedName {name : String} {c : Char} {rest : List Char}
    (h : name.toList = c :: rest) : (exportedName name).toList = Text.upper c ++ rest := by
  rw [exportedName, h]
  exact String.toList_ofList

/-- Keywords begin with lower-case letters. -/
theorem notMem_goKeywords_of_head {name : String} {c : Char} {rest : List Char}
    (h : name.toList = c :: rest) (hc : c.isLower = false) : name ∉ goKeywords := by
  intro hk
  have hall : ∀ k ∈ goKeywords, k.toList.head?.any Char.isLower = true := by decide
  have hlower := hall name hk
  rw [h, List.head?_cons, Option.any_some, hc] at hlower
  cases hlower

/-- The exported name begins with no lower-case letter, and keywords do. -/
theorem plainName_exportedName {name : String} (h : isPlain name = true) :
    PlainName (exportedName name) := by
  obtain ⟨c, rest, hs, hc, hr⟩ := exists_of_isPlain h
  obtain ⟨hup, hlow⟩ := toUpper_of_isPlainStart hc
  have hn := toNat_of_isPlainPart (isPlainPart_of_isPlainStart hc)
  have hupper : Text.upper c = [c.toUpper] := by rw [Text.upper, if_pos (by omega)]
  have hexp : (exportedName name).toList = c.toUpper :: rest := by
    rw [toList_exportedName hs, hupper, List.singleton_append]
  refine ⟨?_, notMem_goKeywords_of_head hexp hlow⟩
  rw [isPlain, hexp]
  show (isPlainStart c.toUpper && rest.all isPlainPart) = true
  rw [Bool.and_eq_true, List.all_eq_true]
  exact ⟨hup, hr⟩

theorem isPlain_request {name : String} (h : isPlain name = true) : isPlain (name ++ "Params") = true :=
  isPlain_append h (List.all_eq_true.1 (by decide))

/-- No keyword ends like a request struct. -/
theorem plainName_request {name : String} (h : isPlain name = true) :
    PlainName (name ++ requestSuffix) := by
  refine ⟨isPlain_request h, fun hk => ?_⟩
  have hall : ∀ k ∈ goKeywords, requestSuffix.toList.isSuffixOf k.toList = false := by decide
  have hsuffix : requestSuffix.toList.isSuffixOf (name ++ requestSuffix).toList = true := by
    rw [List.isSuffixOf_iff_suffix, String.toList_append]
    exact List.suffix_append _ _
  rw [hall _ hk] at hsuffix
  cases hsuffix

theorem isPlain_initializer {name : String} (h : isPlain name = true) :
    isPlain ("initializeFiber" ++ name) = true :=
  isPlain_append (by decide) (isPlainPart_of_mem h)

/-! ## Plain types -/

theorem BaseType.plainName (b : BaseType) : PlainName b.name := by
  cases b <;> exact ⟨by decide, by decide⟩

namespace Go

/-- A written type that is made of brackets and plain names. -/
def PlainType (ms : Models) (raw : String) : Prop :=
  ∃ t, TypeExpr.read ms raw = .ok t ∧ PlainName t.leaf

theorem PlainType.readable {ms : Models} {raw : String} (h : PlainType ms raw) : Readable ms raw := by
  obtain ⟨t, ht, -⟩ := h
  exact ⟨t, ht⟩

/-- A field or a parameter of a plain batch. -/
structure PlainField (ms : Models) (f : String × String) : Prop where
  name : PlainName f.1
  type : PlainType ms f.2

structure PlainMethod (ms : Models) (m : String × Method) : Prop where
  name : PlainName m.1
  params : ∀ p ∈ m.2.params, PlainField ms p
  returns : ∀ raw ∈ m.2.returns.toList, PlainType ms raw

structure PlainService (ms : Models) (s : String × Service) : Prop where
  name : PlainName s.1
  methods : ∀ m ∈ s.2.entries, PlainMethod ms m

structure PlainModel (ms : Models) (m : String × Model) : Prop where
  name : PlainName m.1
  fields : ∀ f ∈ m.2.entries, PlainField ms f

end Go

/-! ## The names and types of a definition -/

section

variable {d : Definition} {name raw : String}

theorem mem_names_of_model {m : String × Model} (hm : m ∈ d.models.entries) (hn : name ∈ m.1 :: m.2.keys) :
    name ∈ d.names :=
  List.mem_append_left _ (List.mem_append_left _ (List.mem_flatMap.2 ⟨m, hm, hn⟩))

theorem mem_names_of_method {m : String × Method} (hm : m ∈ d.methods)
    (hn : name ∈ m.1 :: m.2.params.map Prod.fst) : name ∈ d.names :=
  List.mem_append_right _ (List.mem_flatMap.2 ⟨m, hm, hn⟩)

theorem mem_names_of_service {s : String × Service} (hs : s ∈ d.services.entries) : s.1 ∈ d.names :=
  List.mem_append_left _ (List.mem_append_right _ (List.mem_map_of_mem hs))

theorem mem_rawTypes_of_model {m : String × Model} (hm : m ∈ d.models.entries)
    (hr : raw ∈ m.2.entries.map Prod.snd) : raw ∈ d.rawTypes :=
  List.mem_append_left _ (List.mem_flatMap.2 ⟨m, hm, hr⟩)

theorem mem_rawTypes_of_method {m : String × Method} (hm : m ∈ d.methods)
    (hr : raw ∈ m.2.params.map Prod.snd ++ m.2.returns.toList) : raw ∈ d.rawTypes :=
  List.mem_append_right _ (List.mem_flatMap.2 ⟨m, hm, hr⟩)

end

/-! ## What a plain batch says of its declarations -/

section

variable {o : GoOptions} {ds : List Definition} (hp : Legible o ds) (ha : Accepted ds)
    {d : Definition} (hd : d ∈ ds)

include hp ha hd in
theorem Legible.plainName {name : String} (hn : name ∈ d.names) : PlainName name :=
  ⟨hp.names d hd name hn, ((ha.wellNamed d hd).unreserved name hn).1⟩

/-- A model of the batch is one of the names of its definition. -/
theorem exists_names_of_mem_modelNames {name : String} (h : name ∈ modelNames ds) :
    ∃ d ∈ ds, name ∈ d.names := by
  obtain ⟨d, hd, hn⟩ := List.mem_flatMap.1 h
  obtain ⟨m, hm, rfl⟩ := List.mem_map.1 hn
  exact ⟨d, hd, mem_names_of_model hm List.mem_cons_self⟩

include hp ha hd in
theorem Legible.plainType {raw : String} (hr : raw ∈ d.rawTypes) : Go.PlainType ⟨modelNames ds⟩ raw := by
  obtain ⟨t, ht⟩ := ha.readable d hd raw hr
  obtain ⟨-, hleaf⟩ := TypeExpr.leaf_of_read ht
  refine ⟨t, ht, ?_⟩
  rcases hleaf with hb | hm
  · obtain ⟨b, hb⟩ := Option.isSome_iff_exists.1 hb
    rw [← BaseType.name_of_ofName? hb]
    exact b.plainName
  · obtain ⟨d', hd', hn⟩ := exists_names_of_mem_modelNames hm
    exact hp.plainName ha hd' hn

include hp ha hd in
theorem Legible.plainModel {m : String × Model} (hm : m ∈ d.models.entries) :
    Go.PlainModel ⟨modelNames ds⟩ m := by
  refine ⟨hp.plainName ha hd (mem_names_of_model hm List.mem_cons_self), fun f hf => ⟨?_, ?_⟩⟩
  · exact hp.plainName ha hd (mem_names_of_model hm (List.mem_cons_of_mem _ (List.mem_map_of_mem hf)))
  · exact hp.plainType ha hd (mem_rawTypes_of_model hm (List.mem_map_of_mem hf))

include hp ha hd in
theorem Legible.plainMethod {m : String × Method} (hm : m ∈ d.methods) :
    Go.PlainMethod ⟨modelNames ds⟩ m := by
  refine ⟨hp.plainName ha hd (mem_names_of_method hm List.mem_cons_self), fun p hp' => ⟨?_, ?_⟩,
    fun raw hr => ?_⟩
  · exact hp.plainName ha hd (mem_names_of_method hm (List.mem_cons_of_mem _ (List.mem_map_of_mem hp')))
  · exact hp.plainType ha hd (mem_rawTypes_of_method hm (List.mem_append_left _ (List.mem_map_of_mem hp')))
  · exact hp.plainType ha hd (mem_rawTypes_of_method hm (List.mem_append_right _ hr))

include hp ha hd in
theorem Legible.plainService {s : String × Service} (hs : s ∈ d.services.entries) :
    Go.PlainService ⟨modelNames ds⟩ s := by
  refine ⟨hp.plainName ha hd (mem_names_of_service hs), fun m hm => ?_⟩
  exact hp.plainMethod ha hd (List.mem_flatMap.2 ⟨s, hs, hm⟩)

end

namespace Go

/-! ## Sound pieces -/

theorem sound_pieces {t : TypeExpr} (h : isPlain t.leaf = true) : ∀ p ∈ t.pieces, p.isSound = true := by
  induction t with
  | named name => simpa [TypeExpr.pieces, TypeExpr.leaf, Piece.isSound] using h
  | array item ih => simpa [TypeExpr.pieces, bracketed, Piece.isSound] using ih h
  | map key value ih =>
    have hmap : isPlain "map" = true := by decide
    simpa [TypeExpr.pieces, bracketed, Piece.isSound, hmap, key.plainName.plain] using ih h

theorem flat_pieces (t : TypeExpr) : Flat t.pieces := by
  induction t with
  | named name => exact flat_nil.cons rfl
  | array item ih => exact (flat_nil.bracketed .square).append ih
  | map key value ih => exact (((flat_nil.cons rfl).bracketed .square).append ih).cons rfl

/-- A type begins and ends with something solid, and does not begin by closing a bracket. -/
theorem isLine_pieces {t : TypeExpr} (h : isPlain t.leaf = true) : IsLine t.pieces := by
  refine ⟨sound_pieces h, ?_, ?_⟩
  · cases t with
    | named name => exact ⟨_, rfl, h, fun k hk => by cases hk⟩
    | array item => exact ⟨_, rfl, rfl, fun k hk => by cases hk⟩
    | map key value => exact ⟨_, rfl, by decide, fun k hk => by cases hk⟩
  · induction t with
    | named name => exact ⟨_, rfl, h⟩
    | array item ih =>
      obtain ⟨p, hp, hs⟩ := ih h
      exact ⟨p, by rw [TypeExpr.pieces, List.getLast?_append, hp]; rfl, hs⟩
    | map key value ih =>
      obtain ⟨p, hp, hs⟩ := ih h
      exact ⟨p, by rw [TypeExpr.pieces, List.getLast?_append, hp]; rfl, hs⟩

variable {ms : Models}

theorem isLine_typePieces {raw : String} (h : PlainType ms raw) : IsLine (typePieces ms raw) := by
  obtain ⟨t, ht, hl⟩ := h
  rw [typePieces, ht]
  exact isLine_pieces hl.plain

theorem flat_typePieces (raw : String) : Flat (typePieces ms raw) := by
  unfold typePieces
  split
  · exact flat_pieces _
  · exact flat_nil

theorem commaList_cons_cons (g g' : List Piece) (gs : List (List Piece)) :
    commaList (g :: g' :: gs) = g ++ .sign .comma :: .gap 1 :: commaList (g' :: gs) := by
  rw [commaList, List.intercalate_cons_cons, List.append_assoc]
  rfl

theorem sound_commaList {groups : List (List Piece)} (h : ∀ g ∈ groups, ∀ p ∈ g, p.isSound = true) :
    ∀ p ∈ commaList groups, p.isSound = true := by
  induction groups with
  | nil => exact fun p hp => (List.not_mem_nil hp).elim
  | cons g gs ih =>
    rw [List.forall_mem_cons] at h
    cases gs with
    | nil => rw [commaList, List.intercalate_singleton]; exact h.1
    | cons g' gs =>
      rw [commaList_cons_cons, List.forall_mem_append, List.forall_mem_cons, List.forall_mem_cons]
      exact ⟨h.1, rfl, rfl, ih h.2⟩

theorem flat_commaList {groups : List (List Piece)} (h : ∀ g ∈ groups, Flat g) :
    Flat (commaList groups) := by
  induction groups with
  | nil => exact flat_nil
  | cons g gs ih =>
    rw [List.forall_mem_cons] at h
    cases gs with
    | nil => rw [commaList, List.intercalate_singleton]; exact h.1
    | cons g' gs =>
      rw [commaList_cons_cons]
      exact h.1.append (((ih h.2).cons rfl).cons rfl)

/-! ## Lines that open a block -/

/-- A line opens a field block only if it ends in `struct {`. -/
theorem opensFields_eq_false {before last : List Char} (hl : last.length ≤ 8)
    (h : last.isSuffixOf "struct \x7b".toList = false) : opensFields (before ++ last) = false := by
  rw [Bool.eq_false_iff] at h ⊢
  intro ho
  rw [opensFields, List.isSuffixOf_iff_suffix] at ho
  exact h (List.isSuffixOf_iff_suffix.2
    (List.suffix_of_suffix_length_le (List.suffix_append before last) ho hl))

theorem isLine_typeHead (kind : String) {name : String} (hk : isPlain kind = true)
    (hn : isPlain name = true) :
    IsLine (typeHead kind name) := by
  refine ⟨?_, ⟨_, rfl, by decide, by simp⟩, ⟨_, rfl, rfl⟩⟩
  simp +decide [typeHead, Piece.isSound, hk, hn]

theorem opens_typeHead (kind name : String) : Opens [] (typeHead kind name) := fun _ _ => rfl

theorem opensFields_struct (name : String) :
    opensFields (pieceChars (typeHead "struct" name)) = true := by
  rw [chars_typeHead, opensFields, List.isSuffixOf_iff_suffix]
  exact ⟨("type " ++ name ++ " ").toList, by simp⟩

theorem opensFields_interface (name : String) :
    opensFields (pieceChars (typeHead "interface" name)) = false := by
  have h : pieceChars (typeHead "interface" name) =
      ("type " ++ name ++ " interfac").toList ++ ['e', ' ', '{'] := by
    rw [chars_typeHead]
    simp
  rw [h]
  exact opensFields_eq_false (by decide) (by decide)

theorem isLine_wiringHead {name : String} (hn : isPlain name = true) : IsLine (wiringHead name) := by
  refine ⟨?_, ⟨_, rfl, by decide, by simp⟩, ⟨_, rfl, rfl⟩⟩
  simp +decide [wiringHead, selector, bracketed, Piece.isSound, hn, isPlain_initializer hn]

theorem opens_wiringHead (name : String) : Opens [] (wiringHead name) := fun _ _ => rfl

theorem opensFields_wiringHead (name : String) :
    opensFields (pieceChars (wiringHead name)) = false := by
  have h : pieceChars (wiringHead name) =
      ("func initializeFiber" ++ name ++ "(app *fiber.App, service " ++ name).toList ++
        [')', ' ', '{'] := by
    rw [chars_wiringHead]
    simp
  rw [h]
  exact opensFields_eq_false (by decide) (by decide)

theorem isQuotable_of_isPlainPart {c : Char} (h : isPlainPart c = true) :
    Piece.isQuotable c = true := by
  have hne := ne_of_class h
  simp [Piece.isQuotable, Pattern.isSource, hne '"' (by decide), hne '\\' (by decide),
    hne '\n' (by decide), hne '\r' (by decide), hne '\x00' (by decide), hne '\ufeff' (by decide)]

theorem isLine_postHead {service method : String} (hs : isPlain service = true)
    (hm : isPlain method = true) :
    IsLine (postHead service method) := by
  have hq : ∀ name : String, isPlain name = true → ∀ c ∈ name.toList, Piece.isQuotable c = true :=
    fun name hn c hc => isQuotable_of_isPlainPart (isPlainPart_of_mem hn c hc)
  refine ⟨?_, ⟨_, rfl, by decide, by simp⟩, ⟨_, rfl, rfl⟩⟩
  simpa +decide [postHead, selector, bracketed, Piece.isSound] using ⟨hq service hs, hq method hm⟩

theorem opens_postHead (service method : String) : Opens [.paren] (postHead service method) :=
  fun _ _ => rfl

theorem opensFields_postHead (service method : String) :
    opensFields (pieceChars (postHead service method)) = false := by
  have h : pieceChars (postHead service method) =
      ("app.Post(\"/" ++ service ++ "." ++ method ++ "\", func(c *fiber.Ctx) erro").toList ++
        ['r', ' ', '{'] := by
    rw [chars_postHead]
    simp
  rw [h]
  exact opensFields_eq_false (by decide) (by decide)

theorem isLine_decodeHead : IsLine decodeHead :=
  ⟨by decide, ⟨_, rfl, by decide, by simp⟩, ⟨_, rfl, rfl⟩⟩

theorem isLine_failedHead : IsLine failedHead :=
  ⟨by decide, ⟨_, rfl, by decide, by simp⟩, ⟨_, rfl, rfl⟩⟩

/-! ## Lines inside a block -/

theorem getLast?_bracketed (kind : Bracket) (ps : List Piece) :
    (bracketed kind ps).getLast? = some (.closer kind) := by
  rw [bracketed, List.getLast?_append]
  rfl

theorem isLine_requestPieces {method : String} (hm : isPlain method = true) :
    IsLine (requestPieces method) := by
  refine ⟨?_, ⟨_, rfl, by decide, by simp⟩, ⟨_, rfl, rfl⟩⟩
  simp +decide [requestPieces, bracketed, Piece.isSound, isPlain_request hm]

theorem isLine_respondPieces : IsLine respondPieces :=
  ⟨by decide, ⟨_, rfl, by decide, by simp⟩, ⟨_, rfl, rfl⟩⟩

theorem isLine_callPieces (hasReturn : Bool) {method : String} {args : List String}
    (hm : isPlain method = true) (ha : ∀ arg ∈ args, isPlain arg = true) :
    IsLine (callPieces hasReturn method args) := by
  have hargs : ∀ p ∈ commaList (args.map fun arg => selector "v" arg), p.isSound = true := by
    apply sound_commaList
    intro g hg
    obtain ⟨arg, harg, rfl⟩ := List.mem_map.1 hg
    simp +decide [selector, Piece.isSound, ha arg harg]
  refine ⟨?_, ?_,
    ⟨.closer .paren, by rw [callPieces, List.getLast?_append, getLast?_bracketed]; rfl, rfl⟩⟩
  · cases hasReturn <;>
      simpa +decide [callPieces, selector, bracketed, Piece.isSound, hm, or_imp, forall_and] using hargs
  · cases hasReturn
    · exact ⟨.word "err", rfl, by decide, by simp⟩
    · exact ⟨.word "ret", rfl, by decide, by simp⟩

theorem flat_selector (name other : String) : Flat (selector name other) := fun _ _ => rfl

theorem flat_callPieces (hasReturn : Bool) (method : String) (args : List String) :
    Flat (callPieces hasReturn method args) := by
  have hargs : Flat (commaList (args.map fun arg => selector "v" arg)) := by
    apply flat_commaList
    intro g hg
    obtain ⟨arg, -, rfl⟩ := List.mem_map.1 hg
    exact flat_selector "v" arg
  have hhead : Flat ((if hasReturn then [Piece.word "ret", Piece.sign .comma, Piece.gap 1] else []) ++
      [Piece.word "err", Piece.gap 1, Piece.sign .define, Piece.gap 1] ++
        selector "service" method) := by
    intro n s
    cases hasReturn <;> rfl
  exact hhead.append (hargs.bracketed .paren)

theorem isLine_answerPieces (hasReturn : Bool) : IsLine (answerPieces hasReturn) := by
  cases hasReturn
  · exact ⟨by decide, ⟨_, rfl, by decide, by simp⟩, ⟨_, rfl, by decide⟩⟩
  · exact ⟨by decide, ⟨_, rfl, by decide, by simp⟩, ⟨_, rfl, by decide⟩⟩

theorem flat_answerPieces (hasReturn : Bool) : Flat (answerPieces hasReturn) := by
  intro n s
  cases hasReturn <;> rfl

theorem isRawPart_of_isPlainPart {c : Char} (h : isPlainPart c = true) : Piece.isRawPart c = true := by
  have hne := ne_of_class h
  simp [Piece.isRawPart, Pattern.isSource, hne '`' (by decide), hne '\n' (by decide),
    hne '\r' (by decide), hne '\x00' (by decide), hne '\ufeff' (by decide)]

theorem sound_typePieces {raw : String} (h : PlainType ms raw) :
    ∀ p ∈ typePieces ms raw, p.isSound = true :=
  (isLine_typePieces h).sound

theorem isLine_fieldPieces {f : String × String} (h : PlainField ms f) (gaps : Nat × Nat) :
    IsLine (fieldPieces ms gaps f) := by
  have htag : ∀ c ∈ f.1.toList, Piece.isRawPart c = true := by
    intro c hc
    exact isRawPart_of_isPlainPart (isPlainPart_of_mem h.name.plain c hc)
  have hname := (plainName_exportedName h.name.plain).plain
  have hraw : (Piece.raw ("json:\"" ++ f.1 ++ "\"")).isSound = true := by
    simpa +decide [Piece.isSound] using htag
  refine ⟨?_, ⟨_, rfl, hname, by simp⟩, ⟨.raw ("json:\"" ++ f.1 ++ "\""), ?_, hraw⟩⟩
  · rw [fieldPieces, List.cons_append, List.forall_mem_cons, List.cons_append, List.forall_mem_cons,
      List.forall_mem_append, List.forall_mem_cons, List.forall_mem_singleton]
    exact ⟨hname, rfl, sound_typePieces h.type, rfl, hraw⟩
  · rw [fieldPieces, List.getLast?_append]
    rfl

theorem flat_fieldPieces (f : String × String) (gaps : Nat × Nat) : Flat (fieldPieces ms gaps f) := by
  have hlast : Flat [.gap gaps.2, .raw ("json:\"" ++ f.1 ++ "\"")] := fun _ _ => rfl
  exact (((flat_typePieces f.2).append hlast).cons rfl).cons rfl

theorem sound_paramPieces {p : String × String} (h : PlainField ms p) :
    ∀ q ∈ paramPieces ms p, q.isSound = true := by
  rw [paramPieces, List.forall_mem_cons, List.forall_mem_cons]
  exact ⟨h.name.plain, rfl, sound_typePieces h.type⟩

theorem flat_paramPieces (p : String × String) : Flat (paramPieces ms p) :=
  ((flat_typePieces p.2).cons rfl).cons rfl

theorem sound_resultPieces {returns : Option String} (h : ∀ raw ∈ returns.toList, PlainType ms raw) :
    ∀ p ∈ resultPieces ms returns, p.isSound = true := by
  cases returns with
  | none => exact List.forall_mem_singleton.2 (by decide)
  | some raw =>
    have ht := sound_typePieces (h raw (by simp))
    simpa +decide [resultPieces, bracketed, Piece.isSound, or_imp, forall_and] using ht

theorem flat_resultPieces (returns : Option String) : Flat (resultPieces ms returns) := by
  cases returns with
  | none => exact flat_nil.cons rfl
  | some raw =>
    have hlast : Flat [.sign .comma, .gap 1, .word "error"] := fun _ _ => rfl
    exact ((flat_typePieces raw).append hlast).bracketed .paren

theorem exists_last_resultPieces (ms : Models) (returns : Option String) :
    ∃ p, (resultPieces ms returns).getLast? = some p ∧ p.isSolid = true := by
  cases returns with
  | none => exact ⟨_, rfl, by decide⟩
  | some raw => exact ⟨.closer .paren, getLast?_bracketed _ _, rfl⟩

theorem isLine_signaturePieces {m : String × Method} (h : PlainMethod ms m) :
    IsLine (signaturePieces ms m.1 m.2) := by
  have hparams : ∀ p ∈ commaList (m.2.params.map (paramPieces ms)), p.isSound = true := by
    apply sound_commaList
    intro g hg
    obtain ⟨p, hp, rfl⟩ := List.mem_map.1 hg
    exact sound_paramPieces (h.params p hp)
  obtain ⟨last, hlast, hsolid⟩ := exists_last_resultPieces ms m.2.returns
  refine ⟨?_, ⟨_, rfl, h.name.plain, by simp⟩, ⟨last, ?_, hsolid⟩⟩
  · rw [signaturePieces, bracketed, List.forall_mem_append, List.forall_mem_cons,
      List.forall_mem_append, List.forall_mem_cons, List.forall_mem_singleton, List.forall_mem_cons]
    exact ⟨⟨h.name.plain, ⟨rfl, hparams⟩, rfl⟩, rfl, sound_resultPieces h.returns⟩
  · rw [signaturePieces, List.getLast?_append, List.getLast?_cons, hlast]
    rfl

theorem flat_signaturePieces (name : String) (method : Method) :
    Flat (signaturePieces ms name method) := by
  have hparams : Flat (commaList (method.params.map (paramPieces ms))) := by
    apply flat_commaList
    intro g hg
    obtain ⟨p, -, rfl⟩ := List.mem_map.1 hg
    exact flat_paramPieces p
  exact ((hparams.bracketed .paren).cons rfl).append ((flat_resultPieces method.returns).cons rfl)

end Go

end ServiceSchema
