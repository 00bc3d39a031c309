import ShellTree.Tree.Basic

/-!
# Sample trees

Trees that are built by hand, among them the constructs that only bash has and
the flags that only bash sets.
-/

namespace ShellTree

namespace Sample

namespace Trees

def word (text : String) : Datum :=
  wordOf false text.toList

def simple (words : List String) (redirs : List Redirection) : Datum :=
  .command (.simple (.int 1) (.list []) (.list (words.map word))
    (.list (redirs.map Datum.redir)))

def call (words : List String) : Datum :=
  simple words []

/-- The command that most samples are built from. -/
def greet : Datum := call ["echo", "hi"]

def pair : Datum :=
  .command (.semi (call ["a"]) (call ["b"]) (.bool false))

def fixed (fd : Int) : Datum :=
  .tuple [.text "fixed", .int fd]

def named (name : String) : Datum :=
  .tuple [.text "var", word name]

def heredoc (body : String) (marker : Datum) : Redirection :=
  .heredoc (.text "XHere") (fixed 0) (word body) (.bool false) marker

def cond (kind : Int) (op left right : Datum) (inverted : Bool) : Datum :=
  .command (.cond (.int 1) (.int kind) op left right (.bool inverted))

def term (text : String) : Datum :=
  cond 5 (word text) .null .null false

def group (body : Datum) : Datum :=
  .command (.group body)

def background (node after : Datum) : Datum :=
  .command (.background (.int 1) node (.list []) after (.bool false))

def subshell (body : Datum) : Datum :=
  .command (.subshell (.int 1) body (.list []))

def function (body : Datum) (bashMode : Bool) : Datum :=
  .command (.defun (.int 1) (word "fn") body (.bool bashMode))

def bashOnly : List Datum :=
  [.command (.select (.int 1) (word "x") greet (.list [word "a", word "b"])),
    .command (.arith (.int 1) (.list [word "i=0"])),
    cond 1 .null (cond 3 (word "-f") (term "x") .null false)
      (cond 6 .null (cond 2 .null (term "x") (term "y") false) .null false) false,
    cond 4 (word "==") (term "x") (term "y") true,
    .command (.arithFor (.int 1) (.list [word "i=0"]) (.list [word "i<5"]) (.list [word "i++"])
      pair),
    .command (.coproc (word "CO") (group greet)),
    .command (.coproc (word "CO") greet),
    .command (.time (.bool true) greet),
    .command (.time (.bool false) greet),
    group pair,
    group (background greet .null),
    group (simple ["cat"] [heredoc "hd\n" (.text "END")])]

def bashFlags : List Datum :=
  [function (group greet) true,
    function (group greet) false,
    function greet true,
    .command (.not greet (.bool true)),
    .command (.and greet greet (.bool true)),
    .command (.or greet greet (.bool true)),
    .command (.semi greet greet (.bool true)),
    .command (.semi pair pair (.bool false)),
    background greet greet,
    background greet (background greet greet),
    background greet (background greet .null)]

/-- The loops and choices over more than one command. -/
def overPairs : List Datum :=
  [.command (.whileLoop pair pair),
    .command (.forLoop (.int 1) (.list [word "x"]) pair (word "i")),
    .command (.case (.int 1) (word "x")
      (.list [
        .dict [("cpattern", .list [word "a"]), ("cbody", pair), ("fallthrough", .bool true)],
        .dict [("cpattern", .list [word "b"]), ("cbody", .null),
          ("fallthrough", .bool false)]]))]

def redirections : List Datum :=
  [.redir (.single (.text "CloseThis") (fixed 3)),
    .redir (.single (.text "CloseThis") (named "fd")),
    .redir (.single (.text "ErrAndOut") (named "log")),
    .redir (.single (.text "AppendErrAndOut") (named "log")),
    .redir (.dup (.text "ToFD") (named "out") (fixed 2) (.bool true)),
    .redir (.dup (.text "FromFD") (fixed 0) (fixed 5) (.bool false)),
    .redir (.heredoc (.text "Here") (fixed 0) (word "body\n") (.bool true) .null)]

def substitutions : List Datum :=
  [.part (.process (.text "<(") (subshell greet)),
    .part (.command (subshell greet)),
    .command (.and (simple ["cat"] [heredoc "hd\n" .null]) greet (.bool true))]

def all : List Datum :=
  bashOnly ++ bashFlags ++ overPairs ++ redirections ++ substitutions

end Trees

end Sample

end ShellTree
