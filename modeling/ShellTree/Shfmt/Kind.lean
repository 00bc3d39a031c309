/-!
# The kinds of node

Each node that shfmt writes says of what kind it is.
-/

namespace ShellTree

namespace Shfmt

inductive Kind where
  | file
  | call
  | binary
  | ifElse
  | whileLoop
  | forLoop
  | case
  | subshell
  | block
  | function
  | arithmCommand
  | time
  | coproc
  | decl
  | letExprs
  | test
  | testDecl
  | wordIter
  | countedLoop
  | word
  | literal
  | singleQuoted
  | doubleQuoted
  | param
  | commandSubst
  | arithmExpansion
  | processSubst
  | extGlob
  | braces
  | binaryArithm
  | unaryArithm
  | parenArithm
  | unaryTest
  | binaryTest
  | parenTest
deriving DecidableEq

namespace Kind

def all : List Kind :=
  [.file, .call, .binary, .ifElse, .whileLoop, .forLoop, .case, .subshell, .block, .function,
    .arithmCommand, .time, .coproc, .decl, .letExprs, .test, .testDecl, .wordIter,
    .countedLoop, .word, .literal, .singleQuoted, .doubleQuoted, .param, .commandSubst,
    .arithmExpansion, .processSubst, .extGlob, .braces, .binaryArithm, .unaryArithm,
    .parenArithm, .unaryTest, .binaryTest, .parenTest]

def label : Kind → String
  | .file => "File"
  | .call => "CallExpr"
  | .binary => "BinaryCmd"
  | .ifElse => "IfClause"
  | .whileLoop => "WhileClause"
  | .forLoop => "ForClause"
  | .case => "CaseClause"
  | .subshell => "Subshell"
  | .block => "Block"
  | .function => "FuncDecl"
  | .arithmCommand => "ArithmCmd"
  | .time => "TimeClause"
  | .coproc => "CoprocClause"
  | .decl => "DeclClause"
  | .letExprs => "LetClause"
  | .test => "TestClause"
  | .testDecl => "TestDecl"
  | .wordIter => "WordIter"
  | .countedLoop => "CStyleLoop"
  | .word => "Word"
  | .literal => "Lit"
  | .singleQuoted => "SglQuoted"
  | .doubleQuoted => "DblQuoted"
  | .param => "ParamExp"
  | .commandSubst => "CmdSubst"
  | .arithmExpansion => "ArithmExp"
  | .processSubst => "ProcSubst"
  | .extGlob => "ExtGlob"
  | .braces => "BraceExp"
  | .binaryArithm => "BinaryArithm"
  | .unaryArithm => "UnaryArithm"
  | .parenArithm => "ParenArithm"
  | .unaryTest => "UnaryTest"
  | .binaryTest => "BinaryTest"
  | .parenTest => "ParenTest"

def ofLabel? (label : String) : Option Kind :=
  all.find? fun kind => kind.label = label

theorem ofLabel?_label (kind : Kind) : ofLabel? kind.label = some kind := by
  cases kind <;> rfl

end Kind

end Shfmt

end ShellTree
