/-
  ServiceSchema.Go.Grammar — the grammar that the program checks its files with.

  It follows the tree-sitter grammar of Go, which is not the one of the specification
  (`Go.Syntax`). Statements are allowed at the top level and a package clause is not
  required. A terminator is the end of a line, a semicolon or a NUL character; the last
  statement of a file needs none if it ends in an expression that does not begin it.
  Operators have no precedence here, as that only chooses between readings of one text. No
  rule has an empty alternative: what can be left out has an alternative without it.

  Where an expression and a type begin alike, both are read side by side. The end of a
  line may then end a statement for the one and be a `softBreak` for the other, as in
  `x := a.b` with `(c,)` on the next line, which is a conversion. Types that are read
  beside an expression are called shared: their first name is no predeclared one.
-/
import ServiceSchema.Go.Phrase
import ServiceSchema.Go.Terminal
import ServiceSchema.Parsing.Grammar

namespace ServiceSchema.Go

/-- A symbol of a rule: a terminal, or a rule whose context is still open. -/
abbrev Part := Parsing.Sym Terminal Rule

instance : Coe Terminal Part := ⟨.term⟩

instance : Coe Rule Part := ⟨.rule⟩

/-- Alternatives, with `more` of them unless `p` holds. -/
def except (p : Bool) (more alts : List (List Part)) : List (List Part) :=
  if p then alts else more ++ alts

open Terminal Rule in
/-- The alternatives of each rule in a context. -/
def alternatives (c : Context) : Rule → List (List Part)
  | .file => [
      [toplevels], [toplevels, topDeclaration], [topDeclaration], [toplevels, lastStatement],
      [lastStatement]]
  | .toplevels => [[toplevel], [toplevels, toplevel]]
  | .toplevel => [[topStatement, terminator], [topDeclaration, terminator]]
  | .topStatement => [[statement]]
  | .lastStatement => [[topValue], [label, labelled]]
  | .topValue => [[valueStatement]]
  | .labelled => [[valueStatement], [label, labelled]]
  | .terminator => [[newline], [semi], [endMark]]
  | .topDeclaration => [
      [kwPackage, name], [kwFunc, name, signature], [kwFunc, name, signature, block],
      [kwFunc, name, typeParams, signature], [kwFunc, name, typeParams, signature, block],
      [kwFunc, params, name, signature], [kwFunc, params, name, signature, block],
      [importDeclaration]]
  | .importDeclaration => [
      [kwImport, importSpec], [kwImport, lparen, rparen],
      [kwImport, lparen, importSpecs, rparen],
      [kwImport, lparen, importSpecs, terminator, rparen]]
  | .importSpecs => [[importSpec], [importSpecs, terminator, importSpec]]
  | .importSpec => [[string], [dot, string], [name, string]]
  | .name => [[ident], [constant], [allocator]]
  | .nameList => [[name], [nameList, comma, name]]
  | .declaration => [
      [kwConst, nameList], [kwConst, lparen, rparen], [kwConst, lparen, constSpecs, rparen],
      [kwVar, nameList, type], [kwVar, lparen, rparen], [kwVar, lparen, varSpecs, rparen],
      [kwType, typeSpec], [kwType, lparen, rparen], [kwType, lparen, typeSpecs, rparen],
      [kwType, lparen, typeSpecs, terminator, rparen]]
  | .valueSpec => [[nameList, assign, exprList], [nameList, type, assign, exprList]]
  | .constSpecs => [[constSpec, terminator], [constSpecs, constSpec, terminator]]
  | .constSpec => [[nameList], [valueSpec]]
  | .varSpecs => [[varSpec, terminator], [varSpecs, varSpec, terminator]]
  | .varSpec => [[nameList, type], [valueSpec]]
  | .typeSpecs => [[typeSpec], [typeSpecs, terminator, typeSpec]]
  | .typeSpec => [
      [name, type], [name, typeSpecParams, type], [name, assign, type],
      [name, typeSpecParams, assign, type]]
  | .exprList => [[expr], [exprList, comma, expr]]
  | .signature => [[params], [params, params], [params, simpleType]]
  | .params => [
      [lparen, rparen], [lparen, comma, rparen], [lparen, paramDeclarations, rparen],
      [lparen, paramDeclarations, comma, rparen]]
  | .paramDeclarations => [[paramDeclaration], [paramDeclarations, comma, paramDeclaration]]
  | .paramDeclaration => [
      [paramType], [nameList, type], [ellipsis, type], [name, ellipsis, type]]
  | .paramType => [
      [name], [name, sharedArguments], [qualifiedType], [qualifiedType, typeArguments],
      [star, type], [markedType], [lparen, type, rparen]]
  | .typeParams => [
      [lbrack, typeParamDeclarations, rbrack], [lbrack, typeParamDeclarations, comma, rbrack]]
  | .typeParamDeclarations => [
      [typeParamDeclaration], [typeParamDeclarations, comma, typeParamDeclaration]]
  | .typeParamDeclaration => [[nameList, typeElem]]
  | .typeSpecParams => [
      [lbrack, typeSpecParamDeclarations, rbrack],
      [lbrack, typeSpecParamDeclarations, comma, rbrack]]
  | .typeSpecParamDeclarations => [
      [identList, typeElem], [typeSpecParamDeclarations, comma, typeParamDeclaration]]
  | .identList => [[ident], [identList, comma, name]]
  | .type => [[simpleType], [lparen, type, rparen]]
  | .typeList => [[type], [typeList, comma, type]]
  | .simpleType => [[name], [compoundType]]
  | .compoundType => [
      [name, typeArguments], [qualifiedType], [qualifiedType, typeArguments], [star, type],
      [markedType]]
  | .markedType => [
      [structType], [interfaceType], [arrayType], [sliceType], [mapType], [channelType],
      [functionType], [negatedType], [negatedHead, typeArguments]]
  | .qualifiedType => [[name, dot, name]]
  | .negatedType => [[tilde, type]]
  | .negatedHead => [[tilde, type]]
  | .typeArguments => [[lbrack, typeElems, rbrack], [lbrack, typeElems, comma, rbrack]]
  | .typeElems => [[typeElem], [typeElems, comma, typeElem]]
  | .typeElem => [[type], [typeElem, bar, type]]
  | .arrayType => [[arrayLength, type], [arrayLength, softBreak, type]]
  | .arrayLength => [[lbrack, expr, rbrack]]
  | .implicitArray => [[lbrack, ellipsis, rbrack, type]]
  | .sliceType => [[lbrack, rbrack, type]]
  | .mapType => [[kwMap, mapKey, type]]
  | .mapKey => [[lbrack, type, rbrack]]
  | .channelType => [[kwChan, type], [kwChan, arrow, type], [arrow, kwChan, type]]
  | .functionType =>
      except c.closed [[kwFunc, params]] (except c.leading [[kwFunc, params, name]] [
        [kwFunc, params, params], [kwFunc, params, compoundType]])
  | .structType => [[kwStruct, fieldBlock]]
  | .fieldBlock => [
      [lbrace, rbrace], [lbrace, fields, rbrace], [lbrace, fields, terminator, rbrace]]
  | .fields => [[field], [fields, terminator, field]]
  | .field => [[fieldBody], [fieldBody, string]]
  | .fieldBody => [
      [nameList, type], [name], [name, sharedArguments], [qualifiedType],
      [qualifiedType, typeArguments], [star, name], [star, name, typeArguments],
      [star, qualifiedType], [star, qualifiedType, typeArguments],
      [negatedHead, typeArguments], [negatedHead, softBreak, typeArguments],
      [star, negatedHead, typeArguments], [star, negatedHead, softBreak, typeArguments]]
  | .interfaceType => [[kwInterface, elemBlock]]
  | .elemBlock => [
      [lbrace, rbrace], [lbrace, interfaceElems, rbrace],
      [lbrace, interfaceElems, terminator, rbrace]]
  | .interfaceElems => [[interfaceElem], [interfaceElems, terminator, interfaceElem]]
  | .interfaceElem => [[name, signature], [typeElem]]
  | .block => [[lbrace, rbrace], [lbrace, statementList, rbrace]]
  | .statementList => [
      [statements], [statements, terminator], [statements, terminator, label], [label]]
  | .label => [[ident, colon]]
  | .statements => [[statement], [statements, terminator, statement]]
  | .statement => [
      [declaration], [valueStatement], [expr], [expr, inc], [expr, dec], [kwReturn],
      [ifStatement], [forStatement], [exprSwitch], [typeSwitch], [selectStatement],
      [label, statement], [kwFallthrough], [kwBreak], [kwBreak, name], [kwContinue],
      [kwContinue, name], [kwGoto, name], [block], [semi]]
  | .valueStatement => [
      [kwConst, valueSpec], [kwVar, valueSpec], [kwReturn, exprList], [kwGo, expr],
      [kwDefer, expr], [expr, arrow, expr], [targets, assignOp, exprList],
      [targets, define, exprList]]
  | .targets => [[expr], [expr, comma, moreTargets], [expr, comma, moreTargets, softBreak]]
  | .moreTargets => [[expr], [moreTargets, comma, expr]]
  | .assignOp => [
      [starEq], [slashEq], [percentEq], [shlEq], [shrEq], [ampEq], [ampCaretEq], [plusEq],
      [minusEq], [barEq], [caretEq], [assign]]
  | .ifStatement => [
      [kwIf, ifHead, body], [kwIf, ifHead, body, kwElse, block],
      [kwIf, ifHead, body, kwElse, ifStatement]]
  | .body => [[block], [softBreak, block]]
  | .ifHead => [[headExpr], [headStatement, semi, headExpr]]
  | .headExpr => [[expr]]
  | .headList => [[headExpr], [headList, comma, expr]]
  | .headStatement => [
      [headExpr], [headExpr, inc], [headExpr, dec], [headExpr, arrow, expr],
      [headList, assignOp, exprList], [headList, define, exprList]]
  | .forStatement => [[kwFor, block], [kwFor, forHead, body]]
  | .forHead => [
      [headExpr], [forInit, forPost], [forInit, expr, forPost], [kwRange, headExpr],
      [headList, assign, kwRange, headExpr], [headList, define, kwRange, headExpr]]
  | .forInit => [[semi], [headStatement, semi]]
  | .forPost => [[semi], [semi, postStatement]]
  | .postStatement => [
      [headExpr], [headExpr, inc], [headExpr, dec], [headExpr, arrow, headExpr],
      [headList, assignOp, postList], [headList, define, postList]]
  | .postList => [[headExpr], [postList, comma, headExpr]]
  | .exprSwitch => [
      [kwSwitch, exprCases], [kwSwitch, switchHead, exprCases],
      [kwSwitch, switchHead, softBreak, exprCases]]
  | .switchHead => [[headExpr], [headStatement, semi], [headStatement, semi, headExpr]]
  | .exprCases => [[lbrace, rbrace], [lbrace, exprCaseList, rbrace]]
  | .exprCaseList => [[exprCase], [exprCaseList, exprCase]]
  | .exprCase => [
      [kwCase, exprList, colon], [kwCase, exprList, colon, statementList], [defaultCase]]
  | .defaultCase => [[kwDefault, colon], [kwDefault, colon, statementList]]
  | .typeSwitch => [
      [kwSwitch, typeSwitchHead, typeCases], [kwSwitch, typeSwitchHead, softBreak, typeCases]]
  | .typeSwitchHead => [[typeSwitchGuard], [headStatement, semi, typeSwitchGuard]]
  | .typeSwitchGuard => [
      [headOperand, dot, lparen, kwType, rparen],
      [headList, define, operand, dot, lparen, kwType, rparen]]
  | .headOperand => [[operand]]
  | .typeCases => [[lbrace, rbrace], [lbrace, typeCaseList, rbrace]]
  | .typeCaseList => [[typeCase], [typeCaseList, typeCase]]
  | .typeCase => [
      [kwCase, typeList, colon], [kwCase, typeList, colon, statementList], [defaultCase]]
  | .selectStatement => [
      [kwSelect, lbrace, rbrace], [kwSelect, lbrace, communicationCases, rbrace]]
  | .communicationCases => [[communicationCase], [communicationCases, communicationCase]]
  | .communicationCase => [
      [kwCase, communication, colon], [kwCase, communication, colon, statementList],
      [defaultCase]]
  | .communication => [
      [expr], [expr, arrow, expr], [exprList, assign, expr], [exprList, define, expr]]
  | .expr => [[unary], [expr, binaryOp, unary]]
  | .binaryOp => [
      [star], [slash], [percent], [shl], [shr], [amp], [ampCaret], [plus], [minus], [bar],
      [caret], [eq], [ne], [lt], [le], [gt], [ge], [andAnd], [orOr]]
  | .unary => [[operand], [unaryOp, unary]]
  | .unaryOp => [[plus], [minus], [bang], [caret], [star], [amp], [arrow]]
  | .operand => [[callable], [allocator]]
  | .callable => [
      [ident], [constant], [string], [int], [float], [imaginary], [rune], [parens],
      [allocator, allocation], [functionLiteral], [conversion], [instantiation], [composite],
      [operand, dot, name], [operand, dot, asserted], [operand, subscript], [callable, arguments],
      [operand, sharedArguments, arguments], [operand, sharedArguments, softBreak, arguments]]
  | .parens => [[lparen, expr, rparen]]
  | .asserted => [[lparen, type, rparen]]
  | .subscript => [
      [lbrack, expr, rbrack], [lbrack, colon, rbrack], [lbrack, expr, colon, rbrack],
      [lbrack, colon, expr, rbrack], [lbrack, expr, colon, expr, rbrack],
      [lbrack, colon, expr, colon, expr, rbrack], [lbrack, expr, colon, expr, colon, expr, rbrack]]
  | .arguments => [
      [lparen, rparen], [lparen, argumentList, rparen], [lparen, argumentList, comma, rparen]]
  | .argumentList => [[argument], [argumentList, comma, argument]]
  | .argument => [[expr], [expr, ellipsis]]
  | .allocation => [
      [lparen, rparen], [lparen, allocationList, rparen], [lparen, allocationList, comma, rparen]]
  | .allocationList => [[type], [allocationList, comma, expr]]
  | .functionLiteral => [[kwFunc, signature, block]]
  | .conversion => [[typeHead, converted], [typeHead, softBreak, converted]]
  | .converted => [[lparen, expr, rparen], [lparen, expr, comma, rparen]]
  | .instantiation => [
      [ident, instances], [instanceHead, instances], [instanceHead, softBreak, instances]]
  | .instanceHead => [[typeHead]]
  | .instances => [[lbrack, typeList, rbrack], [lbrack, typeList, comma, rbrack]]
  | .typeHead => [[namedHead], [parenthesized], [markedType], [negatedHead, softBreak, typeArguments]]
  | .namedHead => [[qualifiedHead], [ident, typeArguments], [qualifiedHead, typeArguments],
      [qualifiedHead, softBreak, typeArguments]]
  | .qualifiedHead => [[ident, dot, name]]
  | .parenthesized => [[lparen, sharedType, rparen]]
  | .sharedType => [
      [ident], [ident, typeArguments], [qualifiedHead], [qualifiedHead, typeArguments],
      [star, sharedType], [markedType], [parenthesized]]
  | .sharedArguments => [[lbrack, sharedElems, rbrack], [lbrack, sharedElems, comma, rbrack]]
  | .sharedElems => [[sharedElem], [sharedElems, comma, typeElem]]
  | .sharedElem => [[sharedType], [sharedElem, bar, type]]
  | .composite =>
      except c.header [[ident, literalValue]] [
        [compositeHead, literalValue], [compositeHead, softBreak, literalValue]]
  | .compositeHead => [
      [namedHead], [mapType], [sliceType], [arrayType], [implicitArray], [structType],
      [negatedHead, typeArguments], [negatedHead, softBreak, typeArguments]]
  | .literalValue => [
      [lbrace, rbrace], [lbrace, comma, rbrace], [lbrace, elements, rbrace],
      [lbrace, elements, comma, rbrace]]
  | .elements => [[element], [elements, comma, element]]
  | .element => [[elementPart], [elementPart, colon, elementPart]]
  | .elementPart => [[expr], [literalValue]]

/-- A symbol of the grammar. -/
abbrev Symbol := Parsing.Sym Terminal Phrase

/-- The symbols of an alternative in the contexts that their parent's context gives
    them. -/
def inContext (c : Context) : List Part → List Symbol
  | [] => []
  | .term t :: rest => .term t :: inContext { c with leading := false } rest
  | .rule r :: rest =>
    .rule ⟨r, r.enter { c with closed := c.closed && rest.isEmpty }⟩ ::
      inContext { c with leading := false } rest

/-- The grammar of Go files. -/
def grammar : Parsing.Grammar Terminal Phrase where
  start := ⟨.file, .outer⟩
  names := Phrase.all
  rules p := (alternatives p.context p.rule).map (inContext p.context)

end ServiceSchema.Go
