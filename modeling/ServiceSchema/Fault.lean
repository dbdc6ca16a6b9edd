/-
  ServiceSchema.Fault — why a schema is refused, and in which words.

  `SchemaFault` has the causes that lie in the definitions; `Go.LayoutFault` and
  `Go.FormatFault` those that lie in the generated text. The first fault ends the work.
-/

namespace ServiceSchema

namespace Go

/-- Why a text cannot be laid out. -/
inductive LayoutFault where
  | mismatched (opener : Char) (openedOn : Nat) (closer : Char) (closedOn : Nat)
  | unexpected (closer : Char) (line : Nat)
  | unterminatedLiteral (line : Nat)
  | unclosed (opener : Char) (openedOn : Nat)
  | unterminatedRaw
  | unterminatedComment
  deriving DecidableEq, Repr

/-- Why a text cannot be formatted: its layout, or what the check of its grammar says. -/
inductive FormatFault where
  | layout (fault : LayoutFault)
  | grammar (message : String)
  deriving DecidableEq, Repr

def LayoutFault.message : LayoutFault → String
  | .mismatched opener openedOn closer closedOn =>
    "'" ++ opener.toString ++ "' on line " ++ toString openedOn ++ " closed by '" ++
      closer.toString ++ "' on line " ++ toString closedOn
  | .unexpected closer line => "unexpected '" ++ closer.toString ++ "' on line " ++ toString line
  | .unterminatedLiteral line => "unterminated string literal on line " ++ toString line
  | .unclosed opener openedOn =>
    "unclosed '" ++ opener.toString ++ "' opened on line " ++ toString openedOn
  | .unterminatedRaw => "unterminated raw string literal"
  | .unterminatedComment => "unterminated comment"

def FormatFault.message : FormatFault → String
  | .layout fault => fault.message
  | .grammar message => message

end Go

/-- Why a schema yields no code. -/
inductive SchemaFault where
  | reservedName (name : String)
  | duplicateField (name exported : String)
  | duplicateModel (name : String)
  | emptyMethod (name : String)
  | unparseableType (text : String)
  | missingBracket (text : String)
  | notBaseType (text : String)
  | emit (fault : Go.FormatFault)
  deriving DecidableEq, Repr

def SchemaFault.message : SchemaFault → String
  | .reservedName name =>
    name ++ " is a reserved keyword or has reserved suffix 'Params', use a different name"
  | .duplicateField name exported =>
    "duplicate field name (first letter is case insensitive): " ++ name ++ " (" ++ exported ++ ")"
  | .duplicateModel name => "duplicate model name: " ++ name
  | .emptyMethod name => name ++ " needs at least one argument or 'return'"
  | .unparseableType text => "could not parse type: " ++ text
  | .missingBracket text => "missing open or close bracket: " ++ text
  | .notBaseType text => "not a base type: " ++ text
  | .emit fault => "unable to format generated code: " ++ fault.message

end ServiceSchema
