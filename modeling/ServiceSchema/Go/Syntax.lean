/-
  ServiceSchema.Go.Syntax — what a Go file is (`IsFile`).

  These are the productions of the Go specification, with its names, over the tokens of
  `ServiceSchema.Go.Token`. Left recursion is written as repetition: `Expression` and
  `PrimaryExpr`. Three rules that the specification gives in prose are part of the
  productions:

  - the parameters of a list are all named or all unnamed;
  - a receiver is one parameter, and not a variadic one;
  - a composite literal whose type is a name does not stand in the head of an `if`, `for`
    or `switch` outside of brackets. So the productions of expressions are told whether
    they stand there.

  A fourth one is `Completes`. What only the types or the scopes of a file decide is left out.
-/
import ServiceSchema.Go.Token

namespace ServiceSchema.Go

/-- The names of the productions. Where `head` is set, the production is one for the head of a
    statement. -/
inductive Production where
  | sourceFile | packageClause | importDecl | importSpec | topLevelDecl | declaration
  | constDecl | constSpec | identifierList | expressionList (head : Bool)
  | typeDecl | typeSpec | aliasDecl | typeDef | typeParameters | typeParamDecl
  | varDecl | varSpec | functionDecl | methodDecl | receiver
  | type | typeName | typeArgs | typeLit | arrayType | sliceType | structType | fieldDecl
  | embeddedField | pointerType | functionType | signature | result | parameters
  | namedParameter | unnamedParameter | interfaceType | interfaceElem | methodElem | typeElem
  | typeTerm | mapType | channelType
  | expression (head : Bool) | unaryExpr (head : Bool) | primaryExpr (head : Bool)
  | operand (head : Bool) | basicLit | compositeLit (head : Bool) | literalType (head : Bool)
  | literalValue | keyedElement | element | functionLit | conversion | methodExpr | selector
  | index | slice | typeAssertion | arguments | binaryOp | unaryOp
  | block | statementList | statement | simpleStmt (head : Bool) | labeledStmt
  | sendStmt (head : Bool) | incDecStmt (head : Bool) | assignment (head : Bool) | assignOp
  | shortVarDecl (head : Bool) | ifStmt | exprSwitchStmt | exprCaseClause | typeSwitchStmt
  | typeSwitchGuard | typeCaseClause | forStmt | forClause | rangeClause | goStmt | selectStmt
  | commClause | recvStmt | returnStmt | breakStmt | continueStmt | gotoStmt | deferStmt
  deriving DecidableEq, Repr

/-- An expression over tokens and productions. -/
abbrev Form := Ebnf Token Production

namespace Form

open Ebnf

def identifier : Form := term .ident

def stringLit : Form := term .string

def word (k : Keyword) : Form := term (.keyword k)

def op (m : Operator) : Form := term (.operator m)

def comma : Form := op .comma

def semi : Form := op .semicolon

def parens (x : Form) : Form := op .lparen ++ x ++ op .rparen

def brackets (x : Form) : Form := op .lbrack ++ x ++ op .rbrack

def braces (x : Form) : Form := op .lbrace ++ x ++ op .rbrace

/-- Clauses that stand alone or in parentheses, a semicolon behind each. -/
def group (x : Form) : Form := x ||| parens (many (x ++ semi))

/-- Items with commas between them, and possibly one more at the end. -/
def items (x : Form) : Form := list x comma ++ opt comma

def simple (head : Bool) : Form := rule (.simpleStmt head)

def expr : Form := rule (.expression false)

def exprs : Form := rule (.expressionList false)

/-- The expression of a statement's head. -/
def headExpr : Form := rule (.expression true)

def ops (m : Operator) (ms : List Operator) : Form := oneOf (.operator m) (ms.map .operator)

end Form

open Ebnf Form in
/-- The productions. -/
def Production.body : Production → Form
  | sourceFile =>
    rule packageClause ++ semi ++ many (rule importDecl ++ semi) ++ many (rule topLevelDecl ++ semi)
  | packageClause => word .package ++ identifier
  | importDecl => word .import_ ++ group (rule importSpec)
  | importSpec => opt (op .dot ||| identifier) ++ stringLit
  | topLevelDecl => rule declaration ||| rule functionDecl ||| rule methodDecl
  | declaration => rule constDecl ||| rule typeDecl ||| rule varDecl
  | constDecl => word .const ++ group (rule constSpec)
  | constSpec => rule identifierList ++ opt (opt (rule type) ++ op .assign ++ exprs)
  | identifierList => list identifier comma
  | expressionList head => list (rule (expression head)) comma
  | typeDecl => word .type ++ group (rule typeSpec)
  | typeSpec => rule aliasDecl ||| rule typeDef
  | aliasDecl => identifier ++ opt (rule typeParameters) ++ op .assign ++ rule type
  | typeDef => identifier ++ opt (rule typeParameters) ++ rule type
  | typeParameters => brackets (items (rule typeParamDecl))
  | typeParamDecl => rule identifierList ++ rule typeElem
  | varDecl => word .var ++ group (rule varSpec)
  | varSpec =>
    rule identifierList ++ (rule type ++ opt (op .assign ++ exprs) ||| op .assign ++ exprs)
  | functionDecl =>
    word .func ++ identifier ++ opt (rule typeParameters) ++ rule signature ++ opt (rule block)
  | methodDecl => word .func ++ rule receiver ++ identifier ++ rule signature ++ opt (rule block)
  | receiver => parens (opt identifier ++ rule type ++ opt comma)
  -- types
  | type => rule typeName ++ opt (rule typeArgs) ||| rule typeLit ||| parens (rule type)
  | typeName => identifier ||| identifier ++ op .dot ++ identifier
  | typeArgs => brackets (items (rule type))
  | typeLit =>
    rule arrayType ||| rule structType ||| rule pointerType ||| rule functionType |||
      rule interfaceType ||| rule sliceType ||| rule mapType ||| rule channelType
  | arrayType => brackets expr ++ rule type
  | sliceType => op .lbrack ++ op .rbrack ++ rule type
  | structType => word .struct ++ braces (many (rule fieldDecl ++ semi))
  | fieldDecl => (rule identifierList ++ rule type ||| rule embeddedField) ++ opt stringLit
  | embeddedField => opt (op .star) ++ rule typeName ++ opt (rule typeArgs)
  | pointerType => op .star ++ rule type
  | functionType => word .func ++ rule signature
  | signature => rule parameters ++ opt (rule result)
  | result => rule parameters ||| rule type
  | parameters => parens (opt (items (rule namedParameter) ||| items (rule unnamedParameter)))
  | namedParameter => rule identifierList ++ opt (op .ellipsis) ++ rule type
  | unnamedParameter => opt (op .ellipsis) ++ rule type
  | interfaceType => word .interface ++ braces (many (rule interfaceElem ++ semi))
  | interfaceElem => rule methodElem ||| rule typeElem
  | methodElem => identifier ++ rule signature
  | typeElem => list (rule typeTerm) (op .bar)
  | typeTerm => rule type ||| op .tilde ++ rule type
  | mapType => word .map ++ brackets (rule type) ++ rule type
  | channelType => (word .chan ++ opt (op .arrow) ||| op .arrow ++ word .chan) ++ rule type
  -- expressions
  | expression head => list (rule (unaryExpr head)) (rule binaryOp)
  | unaryExpr head => rule (primaryExpr head) ||| rule unaryOp ++ rule (unaryExpr head)
  | primaryExpr head =>
    (rule (operand head) ||| rule conversion ||| rule methodExpr) ++
      many (rule selector ||| rule index ||| rule slice ||| rule typeAssertion ||| rule arguments)
  | operand head =>
    rule basicLit ||| rule (compositeLit head) ||| rule functionLit |||
      rule typeName ++ opt (rule typeArgs) ||| parens expr
  | basicLit => term .int ||| term .float ||| term .imaginary ||| term .rune ||| stringLit
  | compositeLit head => rule (literalType head) ++ rule literalValue
  | literalType head =>
    let unnamed := rule structType ||| rule arrayType ||| brackets (op .ellipsis) ++ rule type |||
      rule sliceType ||| rule mapType
    if head then unnamed else unnamed ||| rule typeName ++ opt (rule typeArgs)
  | literalValue => braces (opt (items (rule keyedElement)))
  | keyedElement => opt (rule element ++ op .colon) ++ rule element
  | element => expr ||| rule literalValue
  | functionLit => word .func ++ rule signature ++ rule block
  | conversion => rule type ++ parens (expr ++ opt comma)
  | methodExpr => rule type ++ op .dot ++ identifier
  | selector => op .dot ++ identifier
  | index => brackets (expr ++ opt comma)
  | slice =>
    brackets (opt expr ++ op .colon ++ opt expr |||
      opt expr ++ op .colon ++ expr ++ op .colon ++ expr)
  | typeAssertion => op .dot ++ parens (rule type)
  | arguments =>
    parens (opt ((exprs ||| rule type ++ opt (comma ++ exprs)) ++ opt (op .ellipsis) ++ opt comma))
  | binaryOp =>
    ops .orOr [.andAnd, .eq, .ne, .lt, .le, .gt, .ge, .plus, .minus, .bar, .caret, .star, .slash,
      .percent, .shl, .shr, .amp, .ampCaret]
  | unaryOp => ops .plus [.minus, .bang, .caret, .star, .amp, .arrow]
  -- statements
  | block => braces (rule statementList)
  | statementList => many (rule statement ++ semi)
  | statement =>
    rule declaration ||| rule labeledStmt ||| simple false ||| rule goStmt ||| rule returnStmt |||
      rule breakStmt ||| rule continueStmt ||| rule gotoStmt ||| word .fallthrough ||| rule block |||
      rule ifStmt ||| rule exprSwitchStmt ||| rule typeSwitchStmt ||| rule selectStmt |||
      rule forStmt ||| rule deferStmt
  | simpleStmt head =>
    opt (rule (expression head) ||| rule (sendStmt head) ||| rule (incDecStmt head) |||
      rule (assignment head) ||| rule (shortVarDecl head))
  | labeledStmt => identifier ++ op .colon ++ rule statement
  | sendStmt head => rule (expression head) ++ op .arrow ++ rule (expression head)
  | incDecStmt head => rule (expression head) ++ ops .inc [.dec]
  | assignment head => rule (expressionList head) ++ rule assignOp ++ rule (expressionList head)
  | assignOp =>
    ops .assign [.plusEq, .minusEq, .barEq, .caretEq, .starEq, .slashEq, .percentEq, .shlEq,
      .shrEq, .ampEq, .ampCaretEq]
  | shortVarDecl head => rule identifierList ++ op .define ++ rule (expressionList head)
  | ifStmt =>
    word .if_ ++ opt (simple true ++ semi) ++ headExpr ++ rule block ++
      opt (word .else_ ++ (rule ifStmt ||| rule block))
  | exprSwitchStmt =>
    word .switch ++ opt (simple true ++ semi) ++ opt headExpr ++ braces (many (rule exprCaseClause))
  | exprCaseClause => (word .case ++ exprs ||| word .default) ++ op .colon ++ rule statementList
  | typeSwitchStmt =>
    word .switch ++ opt (simple true ++ semi) ++ rule typeSwitchGuard ++
      braces (many (rule typeCaseClause))
  | typeSwitchGuard =>
    opt (identifier ++ op .define) ++ rule (primaryExpr true) ++ op .dot ++ parens (word .type)
  | typeCaseClause =>
    (word .case ++ list (rule type) comma ||| word .default) ++ op .colon ++ rule statementList
  | forStmt => word .for_ ++ opt (headExpr ||| rule forClause ||| rule rangeClause) ++ rule block
  | forClause => opt (simple true) ++ semi ++ opt headExpr ++ semi ++ opt (simple true)
  | rangeClause =>
    opt (rule (expressionList true) ++ op .assign ||| rule identifierList ++ op .define) ++
      word .range ++ headExpr
  | goStmt => word .go ++ expr
  | selectStmt => word .select ++ braces (many (rule commClause))
  | commClause =>
    (word .case ++ (rule (sendStmt false) ||| rule recvStmt) ||| word .default) ++ op .colon ++
      rule statementList
  | recvStmt => opt (exprs ++ op .assign ||| rule identifierList ++ op .define) ++ expr
  | returnStmt => word .return_ ++ opt exprs
  | breakStmt => word .break_ ++ opt identifier
  | continueStmt => word .continue_ ++ opt identifier
  | gotoStmt => word .goto ++ identifier
  | deferStmt => word .defer ++ expr

/-- The form fits some tokens. -/
def Form.Fits (x : Form) (ts : List Token) : Prop := Ebnf.Matches Eq Production.body x ts

/-- A token that a statement may end before without a semicolon. -/
def Token.closes : Token → Bool
  | operator .rparen | operator .rbrace => true
  | _ => false

/-- The semicolons that were left out before a `)` or `}` are added to some tokens. -/
inductive Completes : List Token → List Token → Prop
  | nil : Completes [] []
  | kept {t : Token} {all ts : List Token} : Completes all ts → Completes (t :: all) (t :: ts)
  | added {t : Token} {all ts : List Token} : t.closes = true → Completes all ts →
      Completes (semicolon :: t :: all) (t :: ts)

/-- A text without a byte order mark at its start. -/
def withoutMark : List Char → List Char
  | '\ufeff' :: rest => rest
  | text => text

/-- A text is a Go file. -/
def IsFile (text : List Char) : Prop :=
  ∃ ts all, Reads false (withoutMark text) ts ∧ Completes all ts ∧ Form.Fits (.rule .sourceFile) all

/-- A check accepts every Go file. -/
def Check.AcceptsFiles (check : List Char → Except String Unit) : Prop :=
  ∀ text, IsFile text → check text = .ok ()

/-- A check accepts the Go files, and nothing else. -/
def Check.Exact (check : List Char → Except String Unit) : Prop :=
  ∀ text, check text = .ok () ↔ IsFile text

end ServiceSchema.Go
