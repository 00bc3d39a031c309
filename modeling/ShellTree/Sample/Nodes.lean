import ShellTree.Shfmt.Kind
import ShellTree.Shfmt.Source

/-!
# Sample nodes of shfmt

One statement for each kind of node.  Most words point into a short script, so
that the statements are read with that script at hand.
-/

namespace ShellTree

namespace Sample

namespace Nodes

open Shfmt

def script : String := "echo hello\n"

def source : Source := some (Utf8.encode script)

def node (kind : Kind) (fields : List (String × Json)) : Json :=
  .obj (("Type", .str kind.label) :: fields)

/-- A literal that does not point into the script. -/
def value (text : String) : Json :=
  .obj [("Value", .str text)]

def spanned (start finish : Int) : Json :=
  node .literal
    [("Pos", .obj [("Offset", .int start), ("Line", .int 1)]),
      ("End", .obj [("Offset", .int finish), ("Line", .int 1)])]

def wordOfParts (parts : List Json) : Json :=
  node .word [("Parts", .arr parts)]

def span (start finish : Int) : Json :=
  wordOfParts [spanned start finish]

def head (size : Int) : Json :=
  span 0 size

def literal (text : String) : Json :=
  wordOfParts [node .literal [("Value", .str text)]]

def statement (command : Json) : Json :=
  .obj [("Cmd", command)]

def call (arguments : List Json) : Json :=
  node .call [("Pos", .obj [("Line", .int 1)]), ("Args", .arr arguments)]

/-- The statement that most samples are built from. -/
def greet : Json :=
  statement (call [head 4, span 5 10])

def greets : Json := .arr [greet]

def redir (op : Int) (fields : List (String × Json)) : Json :=
  .obj (("Op", .int op) :: fields)

def target (op : Int) (word : Json) : Json :=
  redir op [("Word", word)]

def redirs : List Json :=
  [target 54 (head 3), target 55 (head 3),
    redir 56 [("N", value "3"), ("Word", head 2)],
    redir 57 [("N", value "fdvar"), ("Word", head 2)],
    target 60 (head 4), target 62 (head 7),
    redir 64 [("Word", wordOfParts [node .singleQuoted [("Value", .str "EOF")]]),
      ("Hdoc", head 5)],
    redir 65 [("Word", head 3), ("Hdoc", head 5)],
    target 66 (head 7), target 58 (literal "3"), target 59 (literal "-"),
    target 59 (wordOfParts [node .doubleQuoted [("Parts", .arr [spanned 0 2])]]),
    target 67 (head 3), target 70 (head 3)]

def param (fields : List (String × Json)) : Json :=
  node .param fields

def unary (op : Int) (post : Bool) (operand : Json) : Json :=
  node .unaryArithm [("Op", .int op), ("Post", .bool post), ("X", operand)]

def everyPart : Json :=
  wordOfParts
    [spanned 0 3,
      node .singleQuoted [("Value", .str "sgl")],
      node .doubleQuoted [("Parts", .arr [spanned 0 2])],
      param [("Short", .bool true), ("Param", value "HOME")],
      param [("Length", .bool true), ("Param", value "X")],
      param [("Param", value "X"), ("Exp", .obj [("Op", .int 70), ("Word", head 3)])],
      param [("Param", value "A"), ("Index", head 1),
        ("Slice", .obj [("Offset", head 1), ("Length", head 1)])],
      param [("Param", value "A"), ("Slice", .obj [("Offset", head 1)])],
      param [("Param", value "A"), ("Repl", .obj [("Orig", head 1), ("With", head 1)])],
      param [("Param", value "A"), ("Names", .int 1)],
      param [("Excl", .bool true), ("Flags", value "Q"), ("Param", value "A")],
      param [("NestedParam", param [("Short", .bool true), ("Param", value "inner")])],
      param [("NestedParam", node .commandSubst [("Stmts", greets)])],
      node .commandSubst [("Stmts", greets)],
      node .arithmExpansion [("X", node .binaryArithm [("Op", .int 68),
        ("X", unary 36 true (head 1)),
        ("Y", node .parenArithm [("X", unary 70 false (head 1))])])],
      node .processSubst [("Op", .int 66), ("Stmts", greets)],
      node .extGlob [("Op", .int 123), ("Pattern", value "a|b")],
      node .braces [("Sequence", .bool true), ("Elems", .arr [head 1, head 1])],
      node .braces [("Elems", .arr [head 1, head 1])]]

def assign (name : String) (fields : List (String × Json)) : Json :=
  .obj (("Name", value name) :: fields)

def assigns : List Json :=
  [assign "X" [("Value", head 1)],
    assign "Y" [("Append", .bool true), ("Value", head 1)],
    assign "Z" [("Naked", .bool true)],
    .obj [("Naked", .bool true), ("Value", head 4)],
    assign "A" [("Array", .obj [("Elems", .arr [
      .obj [("Value", head 1)],
      .obj [("Index", head 1), ("Value", head 1)],
      .obj [("Index", head 1)]])])],
    assign "B" [("Index", head 1), ("Value", head 1)],
    assign "C" [("Index", head 1), ("Array", .obj [("Elems", .arr [])])],
    assign "D" [("Index", head 1)]]

def binary (op : Int) (first second : Json) : Json :=
  statement (node .binary [("Op", .int op), ("X", first), ("Y", second)])

def clause (op : Int) (pattern : Json) : Json :=
  .obj [("Op", .int op), ("Patterns", .arr [pattern]), ("Stmts", greets)]

def loop (header : Json) (isMenu : Bool) : Json :=
  statement (node .forLoop
    [("ForPos", .obj [("Line", .int 1)]), ("Loop", header), ("Select", .bool isMenu),
      ("Do", greets)])

def wordIter : Json :=
  node .wordIter [("Name", value "i"), ("Items", .arr [head 1, head 2])]

def block : Json :=
  statement (node .block [("Stmts", greets)])

def simpleStatements : List Json :=
  [greet,
    .obj [("Cmd", call [head 4, span 5 10]), ("Redirs", .arr redirs)],
    .obj [("Cmd", call [head 4, span 5 10]), ("Background", .bool true)],
    .obj [("Cmd", call [head 4, span 5 10]), ("Negated", .bool true)],
    .obj [("Redirs", .arr [])],
    statement (call [everyPart]),
    statement (node .call [("Assigns", .arr assigns), ("Args", .arr [head 4])])]

def compoundStatements : List Json :=
  [binary 10 greet greet,
    binary 11 greet greet,
    binary 12 (binary 12 greet greet) greet,
    statement (node .ifElse [("Cond", greets), ("Then", greets),
      ("Else", .obj [("Cond", greets), ("Then", greets), ("Else", .obj [("Then", greets)])])]),
    statement (node .whileLoop [("Cond", greets), ("Do", greets)]),
    statement (node .whileLoop [("Until", .bool true), ("Cond", greets), ("Do", greets)]),
    loop wordIter false,
    loop wordIter true,
    loop (node .countedLoop [("Init", head 1), ("Cond", head 1), ("Post", head 1)]) false,
    statement (node .case [("Case", .obj [("Line", .int 1)]), ("Word", head 1),
      ("Items", .arr [clause 33 (head 1), clause 34 (head 2)])]),
    statement (node .subshell [("Lparen", .obj [("Line", .int 1)]), ("Stmts", greets)]),
    block,
    statement (node .function [("Position", .obj [("Line", .int 1)]), ("Name", value "fn"),
      ("RsrvWord", .bool true), ("Body", block)])]

def otherStatements : List Json :=
  [statement (node .arithmCommand [("Left", .obj [("Line", .int 1)]), ("X", head 1)]),
    statement (node .time [("PosixFormat", .bool true), ("Stmt", greet)]),
    statement (node .time []),
    statement (node .coproc [("Name", head 2), ("Stmt", greet)]),
    statement (node .decl [("Variant", value "declare"),
      ("Args", .arr [assign "X" [("Naked", .bool true)]])]),
    statement (node .letExprs [("Exprs", .arr [head 3])]),
    statement (node .test [("X", node .binaryTest [("Op", .int 124),
      ("X", node .parenTest [("X", node .unaryTest [("Op", .int 89), ("X", head 1)])]),
      ("Y", head 1)])]),
    statement (node .testDecl [("Description", head 1), ("Body", greet)]),
    statement (node .testDecl [("Description", head 2), ("Body", block)])]

def all : List Json :=
  simpleStatements ++ compoundStatements ++ otherStatements

end Nodes

end Sample

end ShellTree
