import ShellTree.Json.Basic

/-!
# A sample script in the tagged form

Eighteen commands that between them use every construct of the tagged form,
followed by as many plain commands as are asked for.
-/

namespace ShellTree

namespace Sample

namespace Tagged

def tagged (tag : String) (fields : Json) : Json :=
  .arr [.str tag, fields]

def word (text : String) : Json :=
  .arr (text.toList.map fun c => tagged "C" (.int c.toNat))

def escaped (code : Int) : Json :=
  tagged "E" (.int code)

def param (format : String) (nullTest : Bool) (name operand : String) : Json :=
  tagged "V" (.arr [.str format, .bool nullTest, .str name, word operand])

def simple (assignments arguments redirs : List Json) : Json :=
  tagged "Command" (.arr [.int 1, .arr assignments, .arr arguments, .arr redirs])

def call (words : List String) : Json :=
  simple [] (words.map word) []

def nothing : Json :=
  tagged "Command" (.arr [.int (-1), .arr [], .arr [], .arr []])

def file (kind : String) (fd : Int) (target : String) : Json :=
  tagged "File" (.arr [.str kind, .int fd, word target])

def dup (kind : String) (fd : Int) (target : String) : Json :=
  tagged "Dup" (.arr [.str kind, .int fd, word target])

def heredoc (kind body : String) : Json :=
  tagged "Heredoc" (.arr [.str kind, .int 0, word body])

def semi (first second : Json) : Json :=
  tagged "Semi" (.arr [first, second])

def clause (patterns : List String) (body : Json) : Json :=
  .obj [("cpattern", .arr (patterns.map word)), ("cbody", body)]

/-- A simple command that has every part of a word and every redirection. -/
def everything : Json :=
  simple
    [.arr [.str "FOO", word "bar"], .arr [.str "EMPTY", .arr []]]
    [.arr [tagged "C" (.int 97), escaped 42, escaped 36, escaped 10, escaped 9, escaped 200,
        tagged "T" (.str "None"), tagged "T" (.arr [.str "Some", .str "alice"]),
        tagged "A" (word "1+2"), param "Normal" false "HOME" "", param "Minus" true "FOO" "def",
        param "Length" false "BAR" "", tagged "Q" (word "say \"hi\""), tagged "B" (call ["date"]),
        tagged "P" (.arr [.str "<(", call ["ls"]]), tagged "C" (.int 36), tagged "C" (.int 120)],
      word "plain"]
    [file "To" 1 "out.txt", file "Clobber" 1 "out.txt", file "From" 0 "in.txt",
      file "FromTo" 0 "rw.txt", file "Append" 2 "err.log", file "ReadingString" 0 "payload",
      dup "ToFD" 1 "2", dup "FromFD" 0 "3", heredoc "Here" "body of heredoc\nEOF\nEOFF\n",
      heredoc "XHere" "second heredoc body\n"]

def opening : List Json :=
  [everything,
    tagged "Case" (.arr [.int 1, word "opt",
      .arr [clause ["a", "b"] (call ["echo", "A"]), clause ["esac"] (call ["echo", "E"])]]),
    tagged "While" (.arr [call ["true"], call ["echo", "w"]]),
    tagged "While" (.arr [tagged "Not" (call ["false"]), call ["echo", "u"]]),
    tagged "For" (.arr [.int 1, .arr [word "x", word "y"], call ["echo", "i"], .str "var"]),
    tagged "If" (.arr [call ["test", "-f", "x"], call ["echo", "then"],
      tagged "If" (.arr [call ["true"], call ["echo", "elif"], nothing])]),
    tagged "If" (.arr [call ["true"], call ["echo", "t"], semi (call ["a"]) (call ["b"])]),
    tagged "Subshell" (.arr [.int 1, semi (call ["a"]) (call ["b"]),
      .arr [file "To" 1 "s.out"]]),
    tagged "Subshell" (.arr [.int 1, call ["ls"], .arr []]),
    tagged "Defun" (.arr [.int 1, .str "myfunc", call ["echo", "body"]]),
    tagged "Redir" (.arr [.int 1, call ["cat"], .arr [file "To" 1 "o"]]),
    tagged "Background" (.arr [.int 1, call ["sleep", "1"], .arr []]),
    tagged "Pipe" (.arr [.bool false, .arr [call ["ls"], call ["wc", "-l"]]]),
    tagged "Pipe" (.arr [.bool true, .arr [call ["ls"], call ["cat"]]]),
    tagged "Pipe" (.arr [.bool false,
      .arr [simple [] [word "cat"] [heredoc "XHere" "line1\nline2\n"], call ["wc"]]]),
    tagged "And" (.arr [simple [] [word "cat"] [heredoc "XHere" "hd\n"], call ["echo", "ok"]]),
    tagged "And" (.arr [call ["true"], call ["echo", "and"]]),
    tagged "Or" (.arr [call ["false"], call ["echo", "or"]])]

def fourDigits (n : Nat) : String :=
  let digits := Nat.toDigits 10 n
  String.ofList (List.replicate (4 - digits.length) '0' ++ digits)

def padding (count : Nat) : List Json :=
  (List.range count).map fun i => call ["echo", "pad" ++ fourDigits i, "more", "args"]

def chained : Json → List Json → Json
  | last, [] => last
  | first, second :: rest => semi first (chained second rest)

/-- A script of a given number of commands, but never fewer than the opening ones. -/
def script (count : Int) : Json :=
  match opening ++ padding (count.toNat - opening.length) with
  | [] => nothing
  | first :: rest => chained first rest

end Tagged

end Sample

end ShellTree
