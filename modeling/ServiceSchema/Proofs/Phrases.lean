/-
  ServiceSchema.Proofs.Phrases — the generated declarations as phrases of Go.

  All plain names are identifiers, so a line of fixed words and plain names always has the
  same tokens, and that they are a phrase is found by computation. Types, lists of parameters
  and groups of lines go into the gaps of such phrases by induction.

  - `Sentence`, `Frame`: phrases of known tokens, without and with a gap.
  - `Phrased x rows`: the rows are a phrase and a semicolon.
  - `phrased_struct`, `phrased_interface`, `phrased_wiring`: the declarations of a file.
-/
import ServiceSchema.Go.Syntax
import ServiceSchema.Proofs.PlainLayout
import ServiceSchema.Proofs.RowTokens

namespace ServiceSchema.Go

open Ebnf Form

/-! ## Known phrases -/

/-- Known tokens that are a phrase. -/
structure Sentence where
  form : Form
  tokens : List Token
  isPhrase : leads Production.body [form, semi] (tokens ++ [semicolon]) [] = true

theorem Sentence.fits (p : Sentence) : Form.Fits p.form p.tokens := matches_of_leads p.isPhrase

/-- Known tokens that are a phrase with whatever fits the gap between them. -/
structure Frame where
  form : Form
  head : List Token
  gap : Form
  tail : List Token
  isPhrase : leadsAround Production.body [form, semi] head gap (tail ++ [semicolon]) [] = true

theorem Frame.fits (f : Frame) {ts : List Token} (h : Form.Fits f.gap ts) :
    Form.Fits f.form (f.head ++ (ts ++ f.tail)) :=
  matches_of_leadsAround f.isPhrase h

/-! ## Names and types -/

/-- A plain name is an identifier. -/
theorem ofWord_plain {name : String} (h : PlainName name) : Token.ofWord name.toList = .ident :=
  ofWord_of_notMem (String.ofList_toList ▸ h.noKeyword)

theorem pieceTokens_commaList (gs : List (List Piece)) :
    pieceTokens (commaList gs) = [.operator .comma].intercalate (gs.map pieceTokens) := by
  induction gs with
  | nil => rfl
  | cons g gs ih =>
    cases gs with
    | nil => simp [commaList]
    | cons g' gs =>
      rw [commaList_cons_cons, List.map_cons, List.map_cons, List.intercalate_cons_cons,
        ← List.map_cons, ← ih, pieceTokens_append, List.append_assoc]
      rfl

def typeName : Sentence := ⟨.rule .type, [.ident], by decide +kernel⟩

def sliceFrame : Frame :=
  ⟨.rule .type, [.operator .lbrack, .operator .rbrack], .rule .type, [], by decide +kernel⟩

def mapFrame : Frame :=
  ⟨.rule .type, [.keyword .map, .operator .lbrack, .ident, .operator .rbrack], .rule .type, [],
    by decide +kernel⟩

theorem fits_pieces {t : TypeExpr} (h : PlainName t.leaf) :
    Form.Fits (.rule .type) (pieceTokens t.pieces) := by
  induction t with
  | named name =>
    have hident : Token.ofWord name.toList = .ident := ofWord_plain h
    rw [TypeExpr.pieces, pieceTokens_cons, Piece.tokens, hident]
    exact typeName.fits
  | array item ih =>
    have hitem := sliceFrame.fits (ih h)
    rw [sliceFrame, List.append_nil] at hitem
    rw [TypeExpr.pieces, pieceTokens_append]
    exact hitem
  | map key value ih =>
    have hvalue := mapFrame.fits (ih h)
    rw [mapFrame, List.append_nil] at hvalue
    have hword : Token.ofWord "map".toList = .keyword .map := by decide
    rw [TypeExpr.pieces, List.cons_append, pieceTokens_cons, pieceTokens_append, pieceTokens_bracketed,
      Piece.tokens, hword, pieceTokens_cons, Piece.tokens, ofWord_plain key.plainName]
    exact hvalue

section

variable {ms : Models}

theorem fits_typePieces {raw : String} (h : PlainType ms raw) :
    Form.Fits (.rule .type) (pieceTokens (typePieces ms raw)) := by
  obtain ⟨t, ht, hl⟩ := h
  rw [typePieces, ht]
  exact fits_pieces hl

/-! ## Rows as phrases -/

/-- The rows are a phrase and a semicolon. -/
def Phrased (x : Form) (rows : List Row) : Prop :=
  ∃ ts, Form.Fits x ts ∧ rows.flatMap Row.tokens = ts ++ [semicolon]

variable {x : Form} {ps head : List Piece} {rows body : List Row}

theorem Phrased.of_line (hends : endsAfter false (pieceTokens ps) = true) (h : Form.Fits x (pieceTokens ps))
    (depth : Nat) : Phrased x [⟨depth, ps⟩] := by
  refine ⟨_, h, ?_⟩
  rw [List.flatMap_singleton, Row.tokens, hends]
  rfl

theorem tokens_deeper (rows : List Row) :
    (rows.map Row.deeper).flatMap Row.tokens = rows.flatMap Row.tokens := by
  rw [List.flatMap_map]
  rfl

theorem endsAfter_concat (ends : Bool) (ts : List Token) (t : Token) :
    endsAfter ends (ts ++ [t]) = t.endsLine := by
  rw [endsAfter_append]
  rfl

/-- The tokens of a block: no semicolon stands behind its head. -/
theorem tokens_block (hh : head.getLast? = some (.opener .brace)) (outer : List Bracket) (body : List Row) :
    (block head outer body).flatMap Row.tokens =
      pieceTokens head ++ (body.flatMap Row.tokens ++ pieceTokens (closers outer)) ++ [semicolon] := by
  have hhead : Row.tokens ⟨0, head⟩ = pieceTokens head := by
    obtain ⟨front, rfl⟩ := List.getLast?_eq_some_iff.1 hh
    have hends : endsAfter false (pieceTokens (front ++ [.opener .brace])) = false := by
      rw [pieceTokens_append]
      exact endsAfter_concat false _ (.operator .lbrace)
    rw [Row.tokens, hends]
    exact List.append_nil _
  have hclose : Row.tokens ⟨0, closers outer⟩ = pieceTokens (closers outer) ++ [semicolon] := by
    have hends : endsAfter false (pieceTokens (closers outer)) = true := by
      cases outer with
      | nil => rfl
      | cons kind outer =>
        rw [closers, List.reverse_cons, List.map_append, ← List.cons_append, pieceTokens_append]
        refine (endsAfter_concat false _ (.operator kind.closing)).trans ?_
        cases kind <;> rfl
    rw [Row.tokens, hends]
    rfl
  rw [block, List.flatMap_append, List.flatMap_cons, tokens_deeper, List.flatMap_singleton, hhead, hclose]
  simp

theorem Phrased.of_block {f : Frame} {outer : List Bracket} (hh : head.getLast? = some (.opener .brace))
    (hhead : pieceTokens head = f.head) (htail : pieceTokens (closers outer) = f.tail)
    (h : Form.Fits f.gap (body.flatMap Row.tokens)) : Phrased f.form (block head outer body) :=
  ⟨_, f.fits h, hhead ▸ htail ▸ tokens_block hh outer body⟩

/-- Groups of rows, each a phrase. -/
theorem fits_groups (groups : List (List Row)) (h : ∀ g ∈ groups, Phrased x g) :
    Form.Fits (many (x ++ semi)) (groups.flatten.flatMap Row.tokens) := by
  have hmany : Form.Fits (many (x ++ semi)) (groups.map fun g => g.flatMap Row.tokens).flatten := by
    refine matches_many fun w hw => ?_
    obtain ⟨g, hg, rfl⟩ := List.mem_map.1 hw
    obtain ⟨ts, hts, hrows⟩ := h g hg
    rw [hrows]
    exact .seq hts (.term rfl)
  rw [List.flatten_eq_flatMap, List.flatMap_assoc]
  rwa [← List.flatMap_def] at hmany

/-! ## Structs and interfaces -/

theorem fits_items {gs : List (List Piece)} (hne : gs ≠ []) (h : ∀ g ∈ gs, Form.Fits x (pieceTokens g)) :
    Form.Fits (items x) (pieceTokens (commaList gs)) := by
  have hlist : Form.Fits (list x comma) (pieceTokens (commaList gs)) := by
    rw [pieceTokens_commaList]
    refine matches_list rfl (by simpa using hne) fun w hw => ?_
    obtain ⟨g, hg, rfl⟩ := List.mem_map.1 hw
    exact h g hg
  have hitems : Form.Fits (items x) (pieceTokens (commaList gs) ++ []) := .seq hlist .without
  rwa [List.append_nil] at hitems

/-- What stands in the parentheses of a signature. -/
def parameterList : Form := opt (items (rule .namedParameter) ||| items (rule .unnamedParameter))

def paramFrame : Frame := ⟨.rule .namedParameter, [.ident], .rule .type, [], by decide +kernel⟩

theorem fits_paramPieces {p : String × String} (h : PlainField ms p) :
    Form.Fits (.rule .namedParameter) (pieceTokens (paramPieces ms p)) := by
  have hparam := paramFrame.fits (fits_typePieces h.type)
  rw [paramFrame, List.append_nil] at hparam
  rw [paramPieces, pieceTokens_cons, Piece.tokens, ofWord_plain h.name]
  exact hparam

theorem fits_params {params : List (String × String)} (h : ∀ p ∈ params, PlainField ms p) :
    Form.Fits parameterList (pieceTokens (commaList (params.map (paramPieces ms)))) := by
  cases params with
  | nil => exact .without
  | cons p params =>
    refine .within (.left (fits_items (by simp) fun g hg => ?_))
    obtain ⟨q, hq, rfl⟩ := List.mem_map.1 hg
    exact fits_paramPieces (h q hq)

theorem fits_results {raw : String} (h : PlainType ms raw) :
    Form.Fits parameterList (pieceTokens (commaList [typePieces ms raw, [.word "error"]])) := by
  have herror : Form.Fits (.rule .type) (pieceTokens [.word "error"]) :=
    fits_pieces (t := .named "error") ⟨by decide, by decide⟩
  have hitem : ∀ g ∈ [typePieces ms raw, [.word "error"]], Form.Fits (.rule .type) (pieceTokens g) :=
    List.forall_mem_cons.2 ⟨fits_typePieces h, List.forall_mem_singleton.2 herror⟩
  exact .within (.right (fits_items (by simp) fun g hg => .rule (.seq (u := []) .without (hitem g hg))))

def lonelyResult : Sentence := ⟨opt (rule .result), [.ident], by decide +kernel⟩

def resultFrame : Frame :=
  ⟨opt (rule .result), [.operator .lparen], parameterList, [.operator .rparen], by decide +kernel⟩

/-- The result of a method, and whether a line may end behind it. -/
theorem fits_resultPieces {returns : Option String} (h : ∀ raw ∈ returns.toList, PlainType ms raw) :
    Form.Fits (opt (rule .result)) (pieceTokens (resultPieces ms returns)) ∧
      ∀ ends, endsAfter ends (pieceTokens (resultPieces ms returns)) = true := by
  cases returns with
  | none =>
    have hword : pieceTokens (resultPieces ms none) = [.ident] := by
      rw [resultPieces, pieceTokens_cons, Piece.tokens, ofWord_plain ⟨by decide, by decide⟩]
      rfl
    rw [hword]
    exact ⟨lonelyResult.fits, fun _ => rfl⟩
  | some raw =>
    have hresult := resultFrame.fits (fits_results (h raw (by simp)))
    rw [commaList_cons_cons] at hresult
    rw [resultPieces, pieceTokens_bracketed]
    exact ⟨hresult, fun ends => endsAfter_concat ends _ _⟩

theorem phrased_signature {m : String × Method} (h : PlainMethod ms m) :
    Phrased (.rule .interfaceElem) [⟨0, signaturePieces ms m.1 m.2⟩] := by
  -- A second gap, for the result, is open behind the parameters.
  have hs : leadsAround Production.body [.rule .interfaceElem, semi] [.ident, .operator .lparen] parameterList
      [.operator .rparen] [opt (rule .result), semi] = true := by
    decide +kernel
  obtain ⟨hresult, hends⟩ := fits_resultPieces h.returns
  have hline := MatchesAll.of_leadsAround (k := []) hs (fits_params h.params)
    (.cons hresult (.single (.term rfl)))
  have hword : pieceTokens (signaturePieces ms m.1 m.2) = [.ident, .operator .lparen] ++
      (pieceTokens (commaList (m.2.params.map (paramPieces ms))) ++ ([.operator .rparen] ++
        pieceTokens (resultPieces ms m.2.returns))) := by
    simp [signaturePieces, Piece.tokens, ofWord_plain h.name, Bracket.opening, Bracket.closing]
  refine .of_line ?_ ?_ 0
  · rw [hword, ← List.append_assoc, ← List.append_assoc, endsAfter_append]
    exact hends _
  · rw [hword]
    refine MatchesAll.without_last (t := semicolon) ?_
    simpa [semi, op, semicolon] using hline

def fieldFrame : Frame := ⟨.rule .fieldDecl, [.ident], .rule .type, [.string], by decide +kernel⟩

theorem phrased_field {f : String × String} (h : PlainField ms f) (gaps : Nat × Nat) :
    Phrased (.rule .fieldDecl) [⟨0, fieldPieces ms gaps f⟩] := by
  have hfield := fieldFrame.fits (fits_typePieces h.type)
  have hword :
      pieceTokens (fieldPieces ms gaps f) = [.ident] ++ (pieceTokens (typePieces ms f.2) ++ [.string]) := by
    simp [fieldPieces, Piece.tokens, ofWord_plain (plainName_exportedName h.name.plain)]
  refine .of_line ?_ (hword ▸ hfield) 0
  rw [hword, ← List.append_assoc]
  exact endsAfter_concat false _ _

/-- The lines of a block, each a phrase. -/
theorem fits_rows {α : Type} {entries : List α} {line : α → List Piece}
    (h : ∀ a ∈ entries, Phrased x [⟨0, line a⟩]) :
    Form.Fits (many (x ++ semi)) ((entries.map fun a => (⟨0, line a⟩ : Row)).flatMap Row.tokens) := by
  have hgroups := fits_groups (entries.map fun a => [⟨0, line a⟩]) fun g hg => by
    obtain ⟨a, ha, rfl⟩ := List.mem_map.1 hg
    exact h a ha
  rwa [← List.flatMap_def, ← List.map_eq_flatMap] at hgroups

theorem tokens_typeHead {kind name : String} (h : PlainName name) :
    pieceTokens (typeHead kind name) =
      [.keyword .type, .ident, Token.ofWord kind.toList, .operator .lbrace] := by
  have hword : pieceTokens (typeHead kind name) = [Token.ofWord "type".toList, Token.ofWord name.toList,
      Token.ofWord kind.toList, .operator .lbrace] := rfl
  have htype : Token.ofWord "type".toList = .keyword .type := by decide
  rw [hword, htype, ofWord_plain h]

def structFrame : Frame :=
  ⟨.rule .topLevelDecl, [.keyword .type, .ident, .keyword .struct, .operator .lbrace],
    many (rule .fieldDecl ++ semi), [.operator .rbrace], by decide +kernel⟩

theorem phrased_struct {name : String} {fields : List (String × String)} (hn : PlainName name)
    (h : ∀ f ∈ fields, PlainField ms f) (gaps : String × String → Nat × Nat) :
    Phrased (.rule .topLevelDecl) (structRows ms gaps name fields) :=
  .of_block (f := structFrame) rfl (tokens_typeHead hn) rfl
    (fits_rows fun f hf => phrased_field (h f hf) (gaps f))

def interfaceFrame : Frame :=
  ⟨.rule .topLevelDecl, [.keyword .type, .ident, .keyword .interface, .operator .lbrace],
    many (rule .interfaceElem ++ semi), [.operator .rbrace], by decide +kernel⟩

theorem phrased_interface {s : String × Service} (h : PlainService ms s) :
    Phrased (.rule .topLevelDecl) (interfaceRows ms s.1 s.2) :=
  .of_block (f := interfaceFrame) rfl (tokens_typeHead h.name) rfl
    (fits_rows fun m hm => phrased_signature (h.methods m hm))

/-! ## Handlers and their function -/

/-- What stands in the parentheses of a call. -/
def argumentList : Form :=
  opt ((exprs ||| rule .type ++ opt (comma ++ exprs)) ++ opt (op .ellipsis) ++ opt comma)

/-- `v.A` -/
def argument : Sentence := ⟨expr, [.ident, .operator .dot, .ident], by decide +kernel⟩

theorem fits_args {args : List String} (h : ∀ arg ∈ args, PlainName arg) :
    Form.Fits argumentList (pieceTokens (commaList (args.map fun arg => selector "v" arg))) := by
  have hv : Token.ofWord "v".toList = .ident := by decide
  by_cases hne : args = []
  · rw [hne]
    exact .without
  · have hlist : Form.Fits (list expr comma)
        (pieceTokens (commaList (args.map fun arg => selector "v" arg))) := by
      rw [pieceTokens_commaList]
      refine matches_list rfl (by simpa using hne) fun w hw => ?_
      obtain ⟨g, hg, rfl⟩ := List.mem_map.1 hw
      obtain ⟨arg, hmem, rfl⟩ := List.mem_map.1 hg
      have hword : pieceTokens (selector "v" arg) =
          [Token.ofWord "v".toList, .operator .dot, Token.ofWord arg.toList] := rfl
      rw [hword, hv, ofWord_plain (h arg hmem)]
      exact argument.fits
    have hall : Form.Fits argumentList
        (pieceTokens (commaList (args.map fun arg => selector "v" arg)) ++ [] ++ []) :=
      .within (.seq (.seq (.left (.rule hlist)) .without) .without)
    rwa [List.append_nil, List.append_nil] at hall

/-- `v := new(methodParams)` -/
def request : Sentence :=
  ⟨.rule .statement, [.ident, .operator .define, .ident, .operator .lparen, .ident, .operator .rparen],
    by decide +kernel⟩

theorem phrased_request {n : String} (h : isPlain n = true) :
    Phrased (.rule .statement) [⟨0, requestPieces n⟩] := by
  have hword : pieceTokens (requestPieces n) = [Token.ofWord "v".toList, .operator .define,
      Token.ofWord "new".toList, .operator .lparen, Token.ofWord (n ++ requestSuffix).toList,
      .operator .rparen] := rfl
  rw [ofWord_plain (plainName_request h)] at hword
  refine .of_line ?_ ?_ 0
  · rw [hword]
    rfl
  · rw [hword]
    exact request.fits

/-- `ret, err := service.method(` and what closes it. -/
def callFrame (hasReturn : Bool) : Frame where
  form := .rule .statement
  head := (if hasReturn then [.ident, .operator .comma] else []) ++
    [.ident, .operator .define, .ident, .operator .dot, .ident, .operator .lparen]
  gap := argumentList
  tail := [.operator .rparen]
  isPhrase := by cases hasReturn <;> decide +kernel

theorem phrased_call {n : String} (hasReturn : Bool) (hn : PlainName n) {args : List String}
    (h : ∀ arg ∈ args, PlainName arg) : Phrased (.rule .statement) [⟨0, callPieces hasReturn n args⟩] := by
  have hword : pieceTokens (callPieces hasReturn n args) =
      ((if hasReturn then [Token.ofWord "ret".toList, .operator .comma] else []) ++
        [Token.ofWord "err".toList, .operator .define, Token.ofWord "service".toList, .operator .dot,
          Token.ofWord n.toList, .operator .lparen]) ++
        (pieceTokens (commaList (args.map fun arg => selector "v" arg)) ++ [.operator .rparen]) := by
    rw [callPieces, pieceTokens_append, pieceTokens_bracketed]
    cases hasReturn <;> rfl
  rw [ofWord_plain hn] at hword
  refine .of_line ?_ (hword ▸ (callFrame hasReturn).fits (fits_args h)) 0
  rw [hword, ← List.append_assoc]
  exact endsAfter_concat false _ _

/-- `return c.JSON(ret)` or `return nil` -/
def answer (hasReturn : Bool) : Sentence where
  form := .rule .statement
  tokens := pieceTokens (answerPieces hasReturn)
  isPhrase := by cases hasReturn <;> decide +kernel

theorem phrased_answer (hasReturn : Bool) : Phrased (.rule .statement) [⟨0, answerPieces hasReturn⟩] :=
  .of_line (by cases hasReturn <;> rfl) (answer hasReturn).fits 0

def respond : Sentence := ⟨.rule .statement, pieceTokens respondPieces, by decide +kernel⟩

theorem phrased_respond : Phrased (.rule .statement) [⟨0, respondPieces⟩] :=
  .of_line rfl respond.fits 0

/-- What stands in the braces of a check that fails. -/
theorem fits_failure : Form.Fits (.rule .statementList) ([⟨0, respondPieces⟩].flatMap Row.tokens) :=
  .rule (fits_groups [[⟨0, respondPieces⟩]] (List.forall_mem_singleton.2 phrased_respond))

def decodeFrame : Frame :=
  ⟨.rule .statement, pieceTokens decodeHead, .rule .statementList, [.operator .rbrace], by decide +kernel⟩

def failedFrame : Frame :=
  ⟨.rule .statement, pieceTokens failedHead, .rule .statementList, [.operator .rbrace], by decide +kernel⟩

/-- The statements of a handler: decode, call, answer. -/
theorem fits_body {m : String × Method} (h : PlainMethod ms m) :
    Form.Fits (.rule .statementList) ((bodyRows m.1 m.2).flatMap Row.tokens) := by
  have hdecode : Phrased (.rule .statement) (block decodeHead [] [⟨0, respondPieces⟩]) :=
    .of_block (f := decodeFrame) rfl rfl rfl fits_failure
  have hfailed : Phrased (.rule .statement) (block failedHead [] [⟨0, respondPieces⟩]) :=
    .of_block (f := failedFrame) rfl rfl rfl fits_failure
  have hcall := phrased_call m.2.returns.isSome h.name fun arg harg => by
    obtain ⟨p, hp, rfl⟩ := List.mem_map.1 harg
    exact plainName_exportedName (h.params p hp).name.plain
  have hrows : bodyRows m.1 m.2 = [[⟨0, requestPieces m.1⟩], block decodeHead [] [⟨0, respondPieces⟩],
      [⟨0, callPieces m.2.returns.isSome m.1 (m.2.params.map fun p => exportedName p.1)⟩],
      block failedHead [] [⟨0, respondPieces⟩], [⟨0, answerPieces m.2.returns.isSome⟩]].flatten := by
    simp [bodyRows]
  have hgroups := List.forall_mem_cons.2 ⟨phrased_request h.name.plain, List.forall_mem_cons.2 ⟨hdecode,
    List.forall_mem_cons.2 ⟨hcall, List.forall_mem_cons.2 ⟨hfailed,
      List.forall_mem_singleton.2 (phrased_answer m.2.returns.isSome)⟩⟩⟩⟩
  rw [hrows]
  exact .rule (fits_groups _ hgroups)

/-- The function of a handler is open inside the call that registers it. -/
def handlerFrame : Frame :=
  ⟨.rule .statement, pieceTokens (postHead "" ""), .rule .statementList,
    [.operator .rbrace, .operator .rparen], by decide +kernel⟩

/-- A registration, with the function that it registers. -/
theorem phrased_handler {m : String × Method} (h : PlainMethod ms m) (service : String) :
    Phrased (.rule .statement) (handlerRows service m.1 m.2) :=
  .of_block (f := handlerFrame) rfl rfl rfl (fits_body h)

theorem plainName_initializer {n : String} (h : isPlain n = true) :
    PlainName ("initializeFiber" ++ n) := by
  refine ⟨isPlain_initializer h, fun hk => ?_⟩
  have hall : ∀ k ∈ goKeywords, "initializeFiber".toList.isPrefixOf k.toList = false := by decide
  have hprefix : "initializeFiber".toList.isPrefixOf ("initializeFiber" ++ n).toList = true := by
    rw [List.isPrefixOf_iff_prefix, String.toList_append]
    exact List.prefix_append _ _
  rw [hall _ hk] at hprefix
  cases hprefix

/-- The empty rows between handlers have no tokens. -/
theorem tokens_intercalate (gs : List (List Row)) :
    ([⟨0, []⟩].intercalate gs).flatMap Row.tokens = gs.flatten.flatMap Row.tokens := by
  induction gs with
  | nil => rfl
  | cons g gs ih =>
    cases gs with
    | nil => simp
    | cons g' gs =>
      rw [List.intercalate_cons_cons, List.flatten_cons, List.flatMap_append, List.flatMap_append,
        List.flatMap_append, ih]
      exact congrArg (· ++ _) (List.append_nil _)

def wiringFrame : Frame where
  form := .rule .topLevelDecl
  head := [.keyword .func, .ident, .operator .lparen, .ident, .operator .star, .ident, .operator .dot, .ident,
    .operator .comma, .ident, .ident, .operator .rparen, .operator .lbrace]
  gap := .rule .statementList
  tail := [.operator .rbrace]
  isPhrase := by decide +kernel

/-- The function that wires a service. -/
theorem phrased_wiring {s : String × Service} (h : PlainService ms s) :
    Phrased (.rule .topLevelDecl) (wiringRows s.1 s.2) := by
  have hhandlers : Form.Fits (.rule .statementList) ((handlersRows s.1 s.2).flatMap Row.tokens) := by
    rw [handlersRows, tokens_intercalate]
    refine .rule (fits_groups _ fun g hg => ?_)
    obtain ⟨m, hm, rfl⟩ := List.mem_map.1 hg
    exact phrased_handler (h.methods m hm) s.1
  have hword : pieceTokens (wiringHead s.1) = Token.ofWord "func".toList ::
      Token.ofWord ("initializeFiber" ++ s.1).toList :: (pieceTokens (bracketed .paren
        ([.word "app", .gap 1, .sign .star] ++ selector "fiber" "App" ++
          [.sign .comma, .gap 1, .word "service"])).dropLast ++
        [Token.ofWord s.1.toList, .operator .rparen, .operator .lbrace]) := rfl
  rw [ofWord_plain h.name, ofWord_plain (plainName_initializer h.name.plain)] at hword
  exact .of_block (f := wiringFrame) rfl hword rfl hhandlers

end

end ServiceSchema.Go
