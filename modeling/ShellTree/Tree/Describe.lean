import ShellTree.Text.Quoted
import ShellTree.Text.Template
import ShellTree.Tree.Basic

/-!
# Descriptions

A description is a line of text that lets a person tell trees apart; it is not
shell text.  A word is described by the list of its parts.  A text is described
in quotes when it is nested in a sequence or a record, and as it is when it
stands alone.
-/

namespace ShellTree

def truthText (value : Bool) : String :=
  if value then "True" else "False"

/-- The description of a fixed sequence, which shows that it is one even with one item. -/
def tupleText : List String → String
  | [] => "()"
  | [item] => "(" ++ item ++ ",)"
  | items => "(" ++ String.intercalate ", " items ++ ")"

def CondKind.describe (nested : Bool) (kind : CondKind) : String :=
  if nested then
    "<CondType." ++ kind.label ++ ": " ++ toString kind.number ++ ">"
  else "CondType." ++ kind.label

mutual

def Datum.describe (nested : Bool) : Datum → Except Fault String
  | .null => .ok "None"
  | .bool value => .ok (truthText value)
  | .int value => .ok (toString value)
  | .float value => .ok (Decimal.floatText value)
  | .text value => .ok (if nested then Text.quoted value else value)
  | .seq kind items => do
      let shown ← describeItems items
      match kind with
      | .list => return "[" ++ String.intercalate ", " shown ++ "]"
      | .tuple => return tupleText shown
  | .dict fields => do
      let shown ← describeFields fields
      return "\x7b" ++ String.intercalate ", " shown ++ "\x7d"
  | .condKind kind => .ok (kind.describe nested)
  | .command value => value.describe
  | .part value => value.describe
  | .redir value => value.describe
  | .assign var val => do
      let name ← var.describe false
      let value ← val.describe false
      return name ++ "=" ++ value

def describeItems : List Datum → Except Fault (List String)
  | [] => .ok []
  | item :: rest => do
      let shown ← item.describe true
      let others ← describeItems rest
      return shown :: others

def describeFields : List (String × Datum) → Except Fault (List String)
  | [] => .ok []
  | (key, value) :: rest => do
      let shown ← value.describe true
      let others ← describeFields rest
      return (Text.quoted key ++ ": " ++ shown) :: others

def Command.describe : Command → Except Fault String
  | .pipe behind items => do
      let shown ← items.describe false
      return (if behind.truthy then "Background Pipe: " else "Pipe: ") ++ shown
  | .simple _ assignments arguments redirs => do
      let words ← arguments.describe false
      let assigned ← if (← assignments.length) > 0 then do
          let shown ← assignments.describe false
          pure (", ass[" ++ shown ++ "]")
        else pure ""
      let redirected ← if (← redirs.length) > 0 then do
          let shown ← redirs.describe false
          pure (", reds[" ++ shown ++ "]")
        else pure ""
      return "Command: " ++ words ++ assigned ++ redirected
  | .subshell line body redirs => do
      let number ← line.describe false
      let inner ← body.describe false
      let redirected ← if (← redirs.length) > 0 then do
          let shown ← redirs.describe false
          pure (", reds[" ++ shown ++ "]")
        else pure ""
      return "Subshell: line " ++ number ++ ", body: " ++ inner ++ redirected
  | .and left right _ => do
      let first ← left.describe false
      let second ← right.describe false
      return first ++ " && " ++ second
  | .or left right _ => do
      let first ← left.describe false
      let second ← right.describe false
      return first ++ " || " ++ second
  | .semi left right _ => do
      let first ← left.describe false
      let second ← right.describe false
      return first ++ " ; " ++ second
  | .not body _ => do
      let inner ← body.describe false
      return "! " ++ inner
  | .redirected _ node redirs => do
      let inner ← node.describe false
      let redirected ← if (← redirs.length) > 0 then do
          let shown ← redirs.describe false
          pure (", reds[" ++ shown ++ "]")
        else pure ""
      return "Redir: " ++ inner ++ redirected
  | .background _ node redirs after _ => do
      let inner ← node.describe false
      let redirected ← if (← redirs.length) > 0 then do
          let shown ← redirs.describe false
          pure (", reds[" ++ shown ++ "]")
        else pure ""
      match after with
      | .null => return "Background: " ++ inner ++ redirected
      | other => do
          let next ← other.describe false
          return "Background: " ++ inner ++ redirected ++ ", after&: " ++ next
  | .defun _ name body bashMode => do
      let called ← name.describe false
      let inner ← body.describe false
      return "Defun: " ++ called ++ ", body: " ++ inner ++
        (if bashMode.truthy then ", bash_mode" else "")
  | .forLoop _ argument body name => do
      let called ← name.describe false
      let words ← argument.describe false
      let inner ← body.describe false
      return "for " ++ called ++ " in " ++ words ++ "; do (" ++ inner ++ ")"
  | .whileLoop (.command (.not test _)) body => do
      let tested ← test.describe false
      let inner ← body.describe false
      return "Until: test: " ++ tested ++ ", do: " ++ inner
  | .whileLoop test body => do
      let tested ← test.describe false
      let inner ← body.describe false
      return "While: test: " ++ tested ++ ", do: " ++ inner
  | .ifElse test thenBranch elseBranch => do
      let tested ← test.describe false
      let first ← thenBranch.describe false
      match elseBranch with
      | .null => return "If: " ++ tested ++ ", then: " ++ first
      | other => do
          let second ← other.describe false
          return "If: " ++ tested ++ ", then: " ++ first ++ ", else: " ++ second
  | .case _ argument cases => do
      let count ← cases.length
      let word ← argument.describe false
      return "Case: " ++ word ++ ", cases[" ++ toString count ++ "]"
  | .select _ name body choices => do
      let called ← name.describe false
      let words ← choices.describe false
      let inner ← body.describe false
      return "select " ++ called ++ " in " ++ words ++ ";do;" ++ inner ++ ";done"
  | .arith _ body => do
      let inner ← body.describe false
      return "Arith: " ++ inner
  | .cond _ kind op left right inverted => do
      let kindText ← kind.describe false
      let opText ← op.describe false
      let first ← left.describe false
      let second ← right.describe false
      let flag ← inverted.describe false
      return "Cond: type: " ++ kindText ++ ", op: " ++ opText ++ ", left: " ++ first ++
        ", right: " ++ second ++ ", invert_return: " ++ flag
  | .arithFor _ start test step action => do
      let first ← start.describe false
      let second ← test.describe false
      let third ← step.describe false
      let inner ← action.describe false
      return "ArithFor: init: " ++ first ++ ", cond: " ++ second ++ ", step: " ++ third ++
        ", action: " ++ inner
  | .coproc name body => do
      let called ← name.describe false
      let inner ← body.describe false
      return "Coproc: " ++ called ++ ", body: " ++ inner
  | .time posix node => do
      let inner ← node.describe false
      return "TimeNode:" ++ (if posix.truthy then "posix " else "") ++ ", command: " ++ inner
  | .group body => do
      let inner ← body.describe false
      return "Group(" ++ inner ++ ")"

def WordPart.describe : WordPart → Except Fault String
  | .char code _ => do return String.singleton (← code.char)
  | .escaped code => do return "\\" ++ String.singleton (← code.char)
  | .tilde user => do
      let shown ← user.describe false
      return "T(" ++ shown ++ ")"
  | .arith arg => do
      let shown ← arg.describe false
      return "A(" ++ shown ++ ")"
  | .param format nullTest var arg => do
      let first ← format.describe false
      let second ← nullTest.describe false
      let third ← var.describe false
      let fourth ← arg.describe false
      return "V(" ++ first ++ "," ++ second ++ "," ++ third ++ "," ++ fourth ++ ")"
  | .quoted arg => do
      let shown ← arg.describe false
      return "Q(" ++ shown ++ ")"
  | .command node => do
      let shown ← node.describe false
      return "B(" ++ shown ++ ")"
  | .process op node => do
      let mark ← op.describe false
      let shown ← node.describe false
      return "P(" ++ mark ++ ", " ++ shown ++ ")"

def Redirection.describe : Redirection → Except Fault String
  | .file kind fd arg => do
      let first ← kind.describe false
      let second ← fd.describe false
      let third ← arg.describe false
      return "FileRedir: " ++ first ++ ", fd: " ++ second ++ ", arg: " ++ third
  | .dup kind fd arg move => do
      let first ← kind.describe false
      let second ← fd.describe false
      let third ← arg.describe false
      let fourth ← move.describe false
      return "DupRedir: " ++ first ++ ", fd: " ++ second ++ ", arg: " ++ third ++
        ", move: " ++ fourth
  | .heredoc kind fd _ killLeading _ => do
      let first ← kind.describe false
      let second ← fd.describe false
      let third ← killLeading.describe false
      return "Heredoc: " ++ first ++ ", fd: " ++ second ++ ", kill_leading: " ++ third
  | .single kind fd => do
      let first ← kind.describe false
      let second ← fd.describe false
      return "SingleArgRedir: " ++ first ++ ", fd: " ++ second

end

/-- A datum as it is shown in a text: a text as it is, all else described. -/
def Datum.display (datum : Datum) : Except Fault String :=
  datum.describe false

mutual

/--
The plain form of a part of a word, without the care that shell text takes.  A
text that stands in its place is taken for a template.
-/
def Datum.plainForm : Datum → Except Fault String
  | .part value => value.plainForm
  | .text value => Text.filled value
  | _ => .error .noField

def plainForms : List Datum → Except Fault String
  | [] => .ok ""
  | item :: rest => do
      let first ← item.plainForm
      let others ← plainForms rest
      return first ++ others

def WordPart.plainForm : WordPart → Except Fault String
  | .char code _ => do return String.singleton (← code.char)
  | .escaped code => do return String.singleton (← code.char)
  | .param _ _ var _ => do return "$\x7b" ++ (← var.display) ++ "\x7d"
  | .quoted (.seq _ items) => do
      let inner ← plainForms items
      return "\"" ++ inner ++ "\""
  | .quoted other => do
      let inner ← (← other.entries).mapM Text.filled
      return "\"" ++ String.join inner ++ "\""
  | .command node => do return "$(" ++ (← node.display) ++ ")"
  | .tilde _ => .error .noPlainForm
  | .arith _ => .error .noPlainForm
  | .process _ _ => .error .noPlainForm

end

end ShellTree
