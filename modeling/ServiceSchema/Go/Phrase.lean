/-
  ServiceSchema.Go.Phrase — the names of the grammar's phrases.

  A phrase is a rule together with the context it stands in. The context decides what
  the same words mean:
  - in brackets, and in the head of an `if`, `for` or `switch`, the end of a line is
    white space; in a block it may end a statement;
  - in a head a brace after a name opens the block and no composite literal;
  - a function type that a bracket follows has a result, as the bracket would belong to
    it otherwise;
  - at the start of a statement at the top level `func (a) b (` begins a method.
  The first two hold for everything in a phrase up to the next bracket, the third for
  its last part and the fourth for its first.
-/

namespace ServiceSchema.Go

/-- The names of the grammar's rules. -/
inductive Rule where
  -- files and declarations
  | file | toplevels | toplevel | topStatement | lastStatement | topValue | labelled
  | terminator | topDeclaration | importDeclaration | importSpecs | importSpec | name | nameList
  | declaration | valueSpec | constSpecs | constSpec | varSpecs | varSpec | typeSpecs | typeSpec
  | exprList
  -- signatures
  | signature | params | paramDeclarations | paramDeclaration | paramType | typeParams
  | typeParamDeclarations | typeParamDeclaration | typeSpecParams | typeSpecParamDeclarations
  | identList
  -- types
  | type | typeList | simpleType | compoundType | markedType | qualifiedType | negatedType
  | negatedHead | typeArguments | typeElems | typeElem | arrayType | arrayLength | implicitArray
  | sliceType | mapType | mapKey | channelType | functionType | structType | fieldBlock | fields
  | field | fieldBody | interfaceType | elemBlock | interfaceElems | interfaceElem
  -- statements
  | block | statementList | label | statements | statement | valueStatement | targets
  | moreTargets | assignOp | ifStatement | body | ifHead | headExpr | headList | headStatement
  | forStatement | forHead | forInit | forPost | postStatement | postList | exprSwitch
  | switchHead | exprCases | exprCaseList | exprCase | defaultCase | typeSwitch | typeSwitchHead
  | typeSwitchGuard | headOperand | typeCases | typeCaseList | typeCase | selectStatement
  | communicationCases | communicationCase | communication
  -- expressions
  | expr | binaryOp | unary | unaryOp | operand | callable | parens | asserted | subscript
  | arguments | argumentList | argument | allocation | allocationList | functionLiteral
  | conversion | converted | instantiation | instanceHead | instances
  -- types in expressions
  | typeHead | namedHead | qualifiedHead | parenthesized | sharedType | sharedArguments
  | sharedElems | sharedElem | composite | compositeHead | literalValue | elements | element
  | elementPart
  deriving DecidableEq, Repr

/-- Where a phrase stands. -/
structure Context where
  /-- The end of a line is white space. -/
  inside : Bool
  /-- A brace after a name opens a block. -/
  header : Bool
  /-- A bracket follows that a function type would take for its result. -/
  closed : Bool
  /-- This is the start of a statement at the top level. -/
  leading : Bool
  deriving DecidableEq, Repr

namespace Context

/-- The context of a file. -/
def outer : Context := ⟨false, false, false, false⟩

/-- All contexts. -/
def all : List Context :=
  [false, true].flatMap fun inside => [false, true].flatMap fun header =>
    [false, true].flatMap fun closed => [false, true].map fun leading =>
      ⟨inside, header, closed, leading⟩

def inBrackets (c : Context) : Context := { c with inside := true, header := false }

def inBlock (c : Context) : Context := { c with inside := false, header := false }

end Context

namespace Rule

/-- All rules. -/
def all : List Rule := [
  file, toplevels, toplevel, topStatement, lastStatement, topValue, labelled, terminator,
  topDeclaration, importDeclaration, importSpecs, importSpec, name, nameList, declaration,
  valueSpec, constSpecs, constSpec, varSpecs, varSpec, typeSpecs, typeSpec, exprList,
  signature, params, paramDeclarations, paramDeclaration, paramType, typeParams,
  typeParamDeclarations, typeParamDeclaration, typeSpecParams, typeSpecParamDeclarations,
  identList, type, typeList, simpleType, compoundType, markedType, qualifiedType, negatedType,
  negatedHead, typeArguments, typeElems, typeElem, arrayType, arrayLength, implicitArray,
  sliceType, mapType, mapKey, channelType, functionType, structType, fieldBlock, fields,
  field, fieldBody, interfaceType, elemBlock, interfaceElems, interfaceElem, block,
  statementList, label, statements, statement, valueStatement, targets, moreTargets, assignOp,
  ifStatement, body, ifHead, headExpr, headList, headStatement, forStatement, forHead,
  forInit, forPost, postStatement, postList, exprSwitch, switchHead, exprCases, exprCaseList,
  exprCase, defaultCase, typeSwitch, typeSwitchHead, typeSwitchGuard, headOperand, typeCases,
  typeCaseList, typeCase, selectStatement, communicationCases, communicationCase,
  communication, expr, binaryOp, unary, unaryOp, operand, callable, parens, asserted,
  subscript, arguments, argumentList, argument, allocation, allocationList, functionLiteral,
  conversion, converted, instantiation, instanceHead, instances, typeHead, namedHead,
  qualifiedHead, parenthesized, sharedType, sharedArguments, sharedElems, sharedElem,
  composite, compositeHead, literalValue, elements, element, elementPart]

/-- The context of a rule where its parent says `c`. -/
def enter (c : Context) : Rule → Context
  | params | typeParams | typeSpecParams | typeArguments | sharedArguments | arrayLength | mapKey
  | parens | asserted | subscript | arguments | allocation | converted | instances
  | parenthesized | literalValue | moreTargets
  | ifHead | forHead | switchHead | typeSwitchHead => c.inBrackets
  | block | fieldBlock | elemBlock => c.inBlock
  | headExpr | headOperand => { c with header := true }
  | typeHead | negatedHead => { c with closed := true }
  | topStatement | topValue => { c with leading := true }
  | instanceHead => { c with leading := false }
  | _ => c

end Rule

/-- A rule in its context. -/
structure Phrase where
  rule : Rule
  context : Context
  deriving DecidableEq, Repr

/-- All phrases. -/
def Phrase.all : List Phrase := Rule.all.flatMap fun r => Context.all.map (Phrase.mk r)

end ServiceSchema.Go
