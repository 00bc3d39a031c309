/-!
# Faults

Every way in which reading, printing or walking a tree can fail, as a cause.
A fault that the reader of a report should understand without the tree at hand
carries a message; the others are named by their constructor alone.
-/

namespace ShellTree

inductive Construct where
  | command
  | binaryOperator
  | forLoop
  | wordPart
  | arithmeticOperator
  | unaryOperator
  | arithmeticExpression
  | redirection
  | testExpression
deriving DecidableEq

def Construct.label : Construct → String
  | .command => "mvdan/sh command node"
  | .binaryOperator => "binary operator"
  | .forLoop => "ForClause loop"
  | .wordPart => "word part"
  | .arithmeticOperator => "arithmetic op"
  | .unaryOperator => "unary arithmetic op"
  | .arithmeticExpression => "arithmetic expr"
  | .redirection => "redirection op"
  | .testExpression => "test expr"

inductive Fault where
  /-- A value is asked for a field or an operation that it does not have. -/
  | noField
  | wrongKind
  | missingKey
  | outOfBounds
  /-- A sequence is taken apart into another number of items than it holds. -/
  | wrongLength
  /-- A text with fields has a brace out of place, or a field no sequence could fill. -/
  | malformedTemplate
  | notInteger
  | notNumber
  | infinite
  | negativeLogarithm
  | noSuchCharacter
  /-- A code point does not even fit a machine word. -/
  | characterOverflow
  /-- A number that is no byte is looked for among bytes. -/
  | notByte
  | notUtf8
  | noMember
  | unknownCommand
  | unknownPart
  | unknownRedirection
  | unknownExpansion
  | unknownNullTest
  | unknownTilde
  /-- A tilde is described by something of the wrong length, which is reported. -/
  | oddTilde (shown : String)
  | emptySequence
  | unnamedTarget
  /-- A descriptor is duplicated to something that is neither a name nor a number. -/
  | invalidTarget
  | invalidCondition
  | invalidCommand
  | invalidConnection
  | newlineConnection
  | invalidInstruction
  /-- A redirection record asks for the implicit input of a background command. -/
  | asynchronousInput
  | noPlainForm
  /-- A value of the given kind stands where a statement is expected. -/
  | notStatement (kind : String)
  | noLoop
  | unsupported (construct : Construct) (shown : String)
  | notFound
  | programFailed
  | notJson
deriving DecidableEq

namespace Fault

def message : Fault → Option String
  | .invalidTarget => some "Invalid redirection target"
  | .invalidCondition => some "Invalid cond type"
  | .invalidCommand => some "Invalid node type"
  | .invalidConnection => some "Invalid connection type"
  | .newlineConnection => some "Newline connections are not implemented"
  | .invalidInstruction => some "Invalid redirection instruction"
  | .asynchronousInput => some "RInstruction.R_INPUTA_DIRECTION not implemented"
  | .notStatement kind => some ("Unsupported mvdan/sh node: <class '" ++ kind ++ "'>")
  | .noLoop => some "ForClause without Loop is not supported"
  | .unsupported construct shown =>
      some ("Unsupported " ++ construct.label ++ ": " ++ shown)
  | _ => none

/-- What is written to standard output before the fault is raised. -/
def notice : Fault → Option String
  | .oddTilde shown => some ("Unexpected param for T: " ++ shown ++ "\n")
  | _ => none

end Fault

end ShellTree
