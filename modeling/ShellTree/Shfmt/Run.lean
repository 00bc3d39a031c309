import ShellTree.Json.Parse
import ShellTree.Shfmt.Reader

/-!
# Running shfmt

A script is handed to a program that writes its nodes as JSON.  The script
becomes the source as soon as the program has succeeded, before what it has
written is looked at.
-/

namespace ShellTree

namespace Shfmt

structure Program where
  name : String
  output : List UInt8
  status : Int

structure Invocation where
  arguments : List String
  input : List UInt8

/-- A script that has been handed over: what came of it, and the source afterwards. -/
structure Run where
  nodes : Except Fault (List Datum)
  invocation : Option Invocation
  source : Source

def standardName : String := "shfmt"

/-- Is a program found under a name?  It may be said that it lies in the same folder. -/
def Program.isFound (program : Program) (wanted : String) : Bool :=
  program.name == wanted || "./" ++ program.name == wanted

def readOutput (source : Source) (output : List UInt8) : Except Fault (List Datum) :=
  match Utf8.decode? output with
  | none => .error .notUtf8
  | some text =>
      match Json.parse? text with
      | none => .error .notJson
      | some value => readNodes source value

def run (before : Source) (path : String) (script : Option (List UInt8)) (wanted : String)
    (program : Option Program) : Run :=
  match script, program with
  | some input, some program =>
      if program.isFound wanted then
        let invocation := some ⟨["-tojson", "-filename", path], input⟩
        if program.status % 256 = 0 then
          ⟨readOutput (some input) program.output, invocation, some input⟩
        else ⟨.error .programFailed, invocation, before⟩
      else ⟨.error .notFound, none, before⟩
  | _, _ => ⟨.error .notFound, none, before⟩

end Shfmt

end ShellTree
