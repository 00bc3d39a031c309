import ShellTree.Bash.Flags
import ShellTree.Bash.Record

/-!
# Sample records of bash

One record for each type of command, each connector and each instruction.
-/

namespace ShellTree

namespace Sample

namespace Records

open Bash

def flagged (text : String) (flags : List Int) : Record :=
  .object [("word", .bytes (Utf8.encode text)), ("flags", .list (flags.map Record.int))]

def word (text : String) : Record :=
  flagged text []

def commandWith (kind : CommandType) (field : String) (value : List (String × Record))
    (redirs : List Record) (flags : List Int) : Record :=
  .object [("type", .int kind.number), ("flags", .list (flags.map Record.int)),
    ("redirects", .list redirs), ("value", .object [(field, .object value)])]

def command (kind : CommandType) (field : String) (value : List (String × Record)) : Record :=
  commandWith kind field value [] []

def simple (words redirs : List Record) : Record :=
  command .simple "simple_com"
    [("line", .int 1), ("words", .list words), ("redirects", .list redirs)]

/-- The command that most samples are built from. -/
def greet : Record :=
  simple [word "echo", word "hello"] []

/-- A descriptor that is a number, a word or both. -/
def descriptor (dest : Int) (filename : Record) : Record :=
  .object [("dest", .int dest), ("filename", filename)]

def redirWith (instruction : Instruction) (redirector : Record) (rflags : List Int)
    (redirectee eof : Record) : Record :=
  .object [("redirector", redirector), ("rflags", .list (rflags.map Record.int)),
    ("instruction", .int instruction.number), ("redirectee", redirectee),
    ("here_doc_eof", eof)]

def redir (instruction : Instruction) (redirectee : Record) : Record :=
  redirWith instruction (descriptor 1 .null) [] redirectee .null

def toFile (instruction : Instruction) : Record :=
  redir instruction (descriptor 0 (word "file.txt"))

def toFd (instruction : Instruction) (fd : Int) : Record :=
  redir instruction (descriptor fd .null)

def heredoc (flags : List Int) : Record :=
  redirWith .heredoc (descriptor 1 .null) [] (descriptor 0 (flagged "body\n" flags)) (.text "EOF")

/-- A redirection for each instruction that can occur. -/
def everyRedir : List Record :=
  [toFile .output, toFile .input, toFile .append, heredoc [wordQuoted], heredoc [],
    toFile .hereString, toFd .dupInput 3, toFd .dupOutput 2,
    redir .heredocTabs (descriptor 0 (word "body\n")), toFd .close 0, toFile .outputAndErrors,
    toFile .inputOutput, toFile .forceOutput, toFile .dupInputWord,
    redirWith .dupOutputWord (descriptor 1 (word "fd")) [variableFd]
      (descriptor 0 (word "file.txt")) .null,
    toFd .moveInput 4, toFd .moveOutput 5, toFile .moveInputWord, toFile .moveOutputWord,
    toFile .appendAndErrors]

def timedGroup : Record :=
  commandWith .group "group_com" [("command", greet)] [toFile .output]
    [invertReturn, timePipeline, timePosix]

def cond (kind : Int) (op : String) (left right : Record) (flags : List Int) : List (String × Record) :=
  [("line", .int 1), ("type", .int kind), ("op", word op), ("left", left), ("right", right),
    ("flags", .list (flags.map Record.int))]

def connection (connector : Connector) (second : Record) : Record :=
  command .connection "connection"
    [("connector", .int connector.number), ("first", greet), ("second", second)]

def all : List Record :=
  [greet,
    simple [flagged "FOO=bar" [wordAssignment], word "echo"] [],
    simple [word "cat"] everyRedir,
    command .forLoop "for_com"
      [("line", .int 1), ("action", greet), ("name", word "i"),
        ("map_list", .list [word "a", word "b"])],
    command .case "case_com"
      [("line", .int 1), ("word", word "x"),
        ("clauses", .list [
          .object [("patterns", .list [word "a"]), ("action", greet),
            ("flags", .list [.int fallThrough])],
          .object [("patterns", .list [word "b"]), ("action", .null), ("flags", .list [])]])],
    command .whileLoop "while_com" [("test", greet), ("action", greet)],
    command .untilLoop "while_com" [("test", greet), ("action", greet)],
    command .ifElse "if_com" [("test", greet), ("true_case", greet), ("false_case", greet)],
    command .ifElse "if_com" [("test", greet), ("true_case", greet), ("false_case", .null)],
    command .select "select_com"
      [("line", .int 1), ("action", greet), ("name", word "v"),
        ("map_list", .list [word "a"])],
    timedGroup,
    command .arith "arith_com" [("line", .int 1), ("exp", .list [word "i=0"])],
    command .cond "cond_com"
      (cond 4 "==" (.object (cond 5 "x" .null .null [])) (.object (cond 5 "x" .null .null []))
        [invertReturn]),
    command .arithFor "arith_for_com"
      [("line", .int 1), ("init", .list [word "i=0"]), ("test", .list [word "i<5"]),
        ("step", .list [word "i++"]), ("action", greet)],
    command .subshell "subshell_com" [("line", .int 1), ("command", greet)],
    command .coproc "coproc_com" [("name", .text "CO"), ("command", greet)],
    command .functionDef "function_def"
      [("line", .int 1), ("name", word "fn"), ("command", timedGroup)],
    connection .ampersand greet,
    connection .ampersand .null,
    connection .semicolon greet,
    connection .pipe greet,
    connection .pipe .null,
    connection .and greet,
    connection .or greet]

end Records

end Sample

end ShellTree
