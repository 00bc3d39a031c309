import ShellTree.Bash.Flags
import ShellTree.Bash.Record
import ShellTree.Bash.Word

/-!
# Reading the records of bash

A session remembers whether it is inside a function, because the commands of a
function are written on lines of their own.  The mark is set when the reading
of a function begins and cleared when it ends, so it is cleared too early
around a function inside a function, and stays set after a fault.
-/

namespace ShellTree

namespace Bash

structure Session where
  inFunction : Bool
deriving DecidableEq

/-- A reading, which may change the session even if it ends with a fault. -/
abbrev Reading (α : Type) : Type :=
  ExceptT Fault (StateM Session) α

def readWord (word : Record) : Except Fault Datum := do
  let bytes ← word.field "word"
  let _ ← word.field "flags"
  wordOfBytes (← bytes.1.wordBytes)

def readWords (words : Record) : Except Fault Datum := do
  return .list (← (← words.items).mapM fun word => readWord word.1)

/-- Cut a byte string at its first equals sign. -/
def cutAtEquals : List UInt8 → Option (List UInt8 × List UInt8)
  | [] => none
  | b :: rest =>
      if b = 61 then some ([], rest)
      else (cutAtEquals rest).map fun cut => (b :: cut.1, cut.2)

def readAssign (word : Record) : Except Fault Datum := do
  let content ← word.field "word"
  match content.1 with
  | .bytes bytes =>
      match cutAtEquals bytes with
      | none => .error .outOfBounds
      | some (name, value) =>
          match Utf8.decode? name with
          | none => .error .notUtf8
          | some var => do
              let _ ← word.field "flags"
              return .assign (.text var) (← wordOfBytes value)
  | .text _ => .error .wrongKind
  | _ => .error .noField

def readFd (redirector rflags : Record) : Except Fault Datum := do
  if ← rflags.holds variableFd then
    let filename ← redirector.field "filename"
    return .tuple [.text "var", ← readWord filename.1]
  else
    let dest ← redirector.field "dest"
    return .tuple [.text "fixed", dest.1.datum]

/-- Does the marker of a heredoc stop expansion in its body? -/
def heredocKind (filename : Record) : Except Fault Datum := do
  let flags ← filename.field "flags"
  return .text (if ← flags.1.holds wordQuoted then "Here" else "XHere")

def fileRedir (kind : String) (fd : Datum) (arg : Datum) : Datum :=
  .redir (.file (.text kind) fd arg)

def dupRedir (kind : String) (fd : Datum) (arg : Datum) (move : Bool) : Datum :=
  .redir (.dup (.text kind) fd arg (.bool move))

def readRedir (redir : Record) : Except Fault Datum := do
  let redirector ← redir.field "redirector"
  let rflags ← redir.field "rflags"
  let instruction ← redir.field "instruction"
  let redirectee ← redir.field "redirectee"
  let eof ← redir.field "here_doc_eof"
  let fd ← readFd redirector.1 rflags.1
  let filename ← redirectee.1.field "filename"
  let name ← if filename.1.truthy then readWord filename.1 else pure .null
  let target ←
    if filename.1.truthy then pure (.tuple [.text "var", name])
    else do
      let dest ← redirectee.1.field "dest"
      pure (.tuple [.text "fixed", dest.1.datum])
  match instruction.1.integer?.bind Instruction.ofNumber? with
  | some .output => return fileRedir "To" fd name
  | some .input => return fileRedir "From" fd name
  | some .asynchronousInput => .error .asynchronousInput
  | some .append => do return fileRedir "Append" fd (← readWord filename.1)
  | some .heredoc => do
      return .redir (.heredoc (← heredocKind filename.1) fd name (.bool false) eof.1.datum)
  | some .hereString => return fileRedir "ReadingString" fd name
  | some .dupInput => return dupRedir "FromFD" fd target false
  | some .dupOutput => return dupRedir "ToFD" fd target false
  | some .heredocTabs => do
      let kind ← heredocKind filename.1
      return .redir (.heredoc kind fd (← readWord filename.1) (.bool true) .null)
  | some .close => return .redir (.single (.text "CloseThis") fd)
  | some .outputAndErrors => do
      return .redir (.single (.text "ErrAndOut")
        (.tuple [.text "var", ← readWord filename.1]))
  | some .inputOutput => return fileRedir "FromTo" fd name
  | some .forceOutput => return fileRedir "Clobber" fd name
  | some .dupInputWord => return dupRedir "FromFD" fd target false
  | some .dupOutputWord => return dupRedir "ToFD" fd target false
  | some .moveInput => return dupRedir "FromFD" fd target true
  | some .moveOutput => return dupRedir "ToFD" fd target true
  | some .moveInputWord => return dupRedir "FromFD" fd target true
  | some .moveOutputWord => return dupRedir "ToFD" fd target true
  | some .appendAndErrors => do
      return .redir (.single (.text "AppendErrAndOut")
        (.tuple [.text "var", ← readWord filename.1]))
  | none => .error .invalidInstruction

def readRedirs (redirs : Record) : Except Fault Datum := do
  return .list (← (← redirs.items).mapM fun redir => readRedir redir.1)

/-- Read the words of a simple command; only the first can be an assignment. -/
def readSimpleWords : Bool → List Record → Except Fault (List Datum × List Datum)
  | _, [] => .ok ([], [])
  | isFirst, word :: rest => do
      let flags ← word.field "flags"
      let assigns ← flags.1.holds wordAssignment
      if assigns && isFirst then
        let assignment ← readAssign word
        let (assignments, arguments) ← readSimpleWords false rest
        return (assignment :: assignments, arguments)
      else
        let argument ← readWord word
        let (assignments, arguments) ← readSimpleWords false rest
        return (assignments, argument :: arguments)

def readSimple (com : Record) : Except Fault Datum := do
  let line ← com.field "line"
  let words ← com.field "words"
  let redirects ← com.field "redirects"
  let (assignments, arguments) ← readSimpleWords true ((← words.1.items).map Subtype.val)
  return .command (.simple line.1.datum (.list assignments) (.list arguments)
    (← readRedirs redirects.1))

def readArith (com : Record) : Except Fault Datum := do
  let exp ← com.field "exp"
  let line ← com.field "line"
  return .command (.arith line.1.datum (← readWords exp.1))

def readCond (com : Record) : Except Fault Datum := do
  let line ← com.field "line"
  let kind ← com.field "type"
  let op ← com.field "op"
  let operator ← if op.1.truthy then readWord op.1 else pure .null
  let ⟨left, _⟩ ← com.field "left"
  let first ← if left.truthy then readCond left else pure .null
  let ⟨right, _⟩ ← com.field "right"
  let second ← if right.truthy then readCond right else pure .null
  let flags ← com.field "flags"
  let inverted ← flags.1.holds invertReturn
  return .command (.cond line.1.datum kind.1.datum operator first second (.bool inverted))
termination_by sizeOf com

def withRedirs (node : Datum) (redirects : Record) : Except Fault Datum := do
  if (← redirects.length) > 0 then
    return .command (.redirected .null node (← readRedirs redirects))
  else return node

def withFlags (node : Datum) (flags : Record) : Except Fault Datum := do
  let inverted :=
    if ← flags.holds invertReturn then .command (.not node (.bool true)) else node
  if ← flags.holds timePipeline then
    return .command (.time (.bool (← flags.holds timePosix)) inverted)
  else return inverted

mutual

def readCommand (node : Record) : Reading Datum := do
  let kind ← node.field "type"
  let inner ←
    match kind.1.integer?.bind CommandType.ofNumber? with
    | some .forLoop => do
        let ⟨value, _⟩ ← node.field "value"
        let ⟨com, _⟩ ← value.field "for_com"
        readFor com
    | some .case => do
        let ⟨value, _⟩ ← node.field "value"
        let ⟨com, _⟩ ← value.field "case_com"
        readCase com
    | some .whileLoop => do
        let ⟨value, _⟩ ← node.field "value"
        let ⟨com, _⟩ ← value.field "while_com"
        readWhile false com
    | some .ifElse => do
        let ⟨value, _⟩ ← node.field "value"
        let ⟨com, _⟩ ← value.field "if_com"
        readIf com
    | some .simple => do
        let ⟨value, _⟩ ← node.field "value"
        let ⟨com, _⟩ ← value.field "simple_com"
        readSimple com
    | some .select => do
        let ⟨value, _⟩ ← node.field "value"
        let ⟨com, _⟩ ← value.field "select_com"
        readSelect com
    | some .connection => do
        let ⟨value, _⟩ ← node.field "value"
        let ⟨com, _⟩ ← value.field "connection"
        let ⟨redirects, _⟩ ← node.field "redirects"
        readConnection com redirects
    | some .functionDef => do
        let ⟨value, _⟩ ← node.field "value"
        let ⟨com, _⟩ ← value.field "function_def"
        readFunction com
    | some .untilLoop => do
        let ⟨value, _⟩ ← node.field "value"
        let ⟨com, _⟩ ← value.field "while_com"
        readWhile true com
    | some .group => do
        let ⟨value, _⟩ ← node.field "value"
        let ⟨com, _⟩ ← value.field "group_com"
        readGroup com
    | some .arith => do
        let ⟨value, _⟩ ← node.field "value"
        let ⟨com, _⟩ ← value.field "arith_com"
        readArith com
    | some .cond => do
        let ⟨value, _⟩ ← node.field "value"
        let ⟨com, _⟩ ← value.field "cond_com"
        readCond com
    | some .arithFor => do
        let ⟨value, _⟩ ← node.field "value"
        let ⟨com, _⟩ ← value.field "arith_for_com"
        readArithFor com
    | some .subshell => do
        let ⟨value, _⟩ ← node.field "value"
        let ⟨com, _⟩ ← value.field "subshell_com"
        readSubshell com
    | some .coproc => do
        let ⟨value, _⟩ ← node.field "value"
        let ⟨com, _⟩ ← value.field "coproc_com"
        readCoproc com
    | none => throw .invalidCommand
  let redirects ← node.field "redirects"
  let redirected ← withRedirs inner redirects.1
  let flags ← node.field "flags"
  withFlags redirected flags.1
termination_by sizeOf node

def readFor (com : Record) : Reading Datum := do
  let line ← com.field "line"
  let ⟨action, _⟩ ← com.field "action"
  let name ← com.field "name"
  let choices ← com.field "map_list"
  let words ← readWords choices.1
  let body ← readCommand action
  let called ← readWord name.1
  return .command (.forLoop line.1.datum words body called)
termination_by sizeOf com

def readCase (com : Record) : Reading Datum := do
  let line ← com.field "line"
  let word ← com.field "word"
  let ⟨clauses, _⟩ ← com.field "clauses"
  let argument ← readWord word.1
  let cases ← (← clauses.items).mapM fun ⟨clause, _⟩ => readClause clause
  return .command (.case line.1.datum argument (.list cases))
termination_by sizeOf com

def readClause (clause : Record) : Reading Datum := do
  let patterns ← clause.field "patterns"
  let words ← readWords patterns.1
  let ⟨action, _⟩ ← clause.field "action"
  let body ← if action.truthy then readCommand action else pure .null
  let flags ← clause.field "flags"
  let falls ← flags.1.holds fallThrough
  return .dict [("cpattern", words), ("cbody", body), ("fallthrough", .bool falls)]
termination_by sizeOf clause

def readWhile (inverted : Bool) (com : Record) : Reading Datum := do
  let ⟨test, _⟩ ← com.field "test"
  let ⟨action, _⟩ ← com.field "action"
  let tested ← readCommand test
  let body ← readCommand action
  return .command (.whileLoop
    (if inverted then .command (.not tested (.bool false)) else tested) body)
termination_by sizeOf com

def readIf (com : Record) : Reading Datum := do
  let ⟨test, _⟩ ← com.field "test"
  let ⟨thenCase, _⟩ ← com.field "true_case"
  let ⟨elseCase, _⟩ ← com.field "false_case"
  let tested ← readCommand test
  let first ← readCommand thenCase
  let second ← if elseCase.truthy then readCommand elseCase else pure .null
  return .command (.ifElse tested first second)
termination_by sizeOf com

def readSelect (com : Record) : Reading Datum := do
  let line ← com.field "line"
  let ⟨action, _⟩ ← com.field "action"
  let name ← com.field "name"
  let choices ← com.field "map_list"
  let body ← readCommand action
  let called ← readWord name.1
  let words ← readWords choices.1
  return .command (.select line.1.datum called body words)
termination_by sizeOf com

def readConnection (com redirects : Record) : Reading Datum := do
  let connector ← com.field "connector"
  let ⟨left, _⟩ ← com.field "first"
  let ⟨right, _⟩ ← com.field "second"
  match connector.1.integer?.bind Connector.ofNumber? with
  | some .ampersand => do
      let first ← readCommand left
      let redirs ← readRedirs redirects
      let second ← if right.truthy then readCommand right else pure .null
      return .command (.background .null first redirs second (.bool true))
  | some .semicolon => do
      let first ← readCommand left
      let second ← readCommand right
      let session ← getThe Session
      return .command (.semi first second (.bool (!session.inFunction)))
  | some .pipe => do
      match right with
      | .null => do
          let first ← readCommand left
          return .command (.pipe (.bool false) (.list [first]))
      | _ => do
          let first ← readCommand left
          let second ← readCommand right
          return .command (.pipe (.bool false) (.list [first, second]))
  | some .and => do
      let first ← readCommand left
      let second ← readCommand right
      return .command (.and first second (.bool true))
  | some .or => do
      let first ← readCommand left
      let second ← readCommand right
      return .command (.or first second (.bool true))
  | some .newline => throw .newlineConnection
  | none => throw .invalidConnection
termination_by sizeOf com

def readFunction (com : Record) : Reading Datum := do
  let line ← com.field "line"
  let name ← com.field "name"
  let ⟨command, _⟩ ← com.field "command"
  set (Session.mk true)
  let called ← readWord name.1
  let body ← readCommand command
  set (Session.mk false)
  return .command (.defun line.1.datum called body (.bool true))
termination_by sizeOf com

def readGroup (com : Record) : Reading Datum := do
  let ⟨command, _⟩ ← com.field "command"
  return .command (.group (← readCommand command))
termination_by sizeOf com

def readSubshell (com : Record) : Reading Datum := do
  let line ← com.field "line"
  let ⟨command, _⟩ ← com.field "command"
  return .command (.subshell line.1.datum (← readCommand command) (.list []))
termination_by sizeOf com

def readArithFor (com : Record) : Reading Datum := do
  let line ← com.field "line"
  let start ← com.field "init"
  let test ← com.field "test"
  let step ← com.field "step"
  let ⟨action, _⟩ ← com.field "action"
  let first ← readWords start.1
  let second ← readWords test.1
  let third ← readWords step.1
  let body ← readCommand action
  return .command (.arithFor line.1.datum first second third body)
termination_by sizeOf com

def readCoproc (com : Record) : Reading Datum := do
  let name ← com.field "name"
  let ⟨command, _⟩ ← com.field "command"
  let called ←
    match name.1 with
    | .text word => wordOfText word
    | _ => throw .noField
  let body ← readCommand command
  return .command (.coproc called body)
termination_by sizeOf com

end

def readCommands (nodes : Record) : Reading (List Datum) := do
  (← nodes.items).mapM fun node => readCommand node.1

def Session.start : Session := ⟨false⟩

/-- Read one command in a session: the outcome and the session afterwards. -/
def Session.read (session : Session) (node : Record) : Except Fault Datum × Session :=
  (readCommand node).run.run session

end Bash

end ShellTree
