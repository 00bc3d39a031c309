import ShellTree.Tree.Basic

/-!
# The tagged form of a tree

A construct is written as a pair of its tag and its fields, where a construct
with one field gives it alone.  There are two ways to that form: `toJson` goes
all the way to JSON and refuses what JSON cannot hold; `untyped` stays among
data, so that only the constructs are gone and everything else is kept.
-/

namespace ShellTree

/-- The tag under which the tagged form shows a construct. -/
def Tag.exported : Tag → String
  | .single => Tag.file.label
  | tag => tag.label

def taggedJson (tag : Tag) (value : Json) : Json :=
  .arr [.str tag.exported, value]

mutual

/-- The tagged form of a datum, in JSON. -/
def Datum.toJson : Datum → Except Fault Json
  | .null => .ok .null
  | .bool value => .ok (.bool value)
  | .int value => .ok (.int value)
  | .float value => .ok (.float value)
  | .text value => .ok (.str value)
  | .seq _ items => do return .arr (← itemsToJson items)
  | .dict fields => do return .obj (← fieldsToJson fields)
  | .condKind _ => .error .wrongKind
  | .command value => do
      let inner ← value.toJson
      return taggedJson value.tag inner
  | .part value => do
      let inner ← value.toJson
      return taggedJson value.tag inner
  | .redir value => do
      let inner ← value.toJson
      return taggedJson value.tag inner
  | .assign var val => do
      let name ← var.toJson
      let value ← val.toJson
      return .arr [name, value]

def itemsToJson : List Datum → Except Fault (List Json)
  | [] => .ok []
  | item :: rest => do
      let first ← item.toJson
      let others ← itemsToJson rest
      return first :: others

def fieldsToJson : List (String × Datum) → Except Fault (List (String × Json))
  | [] => .ok []
  | (key, value) :: rest => do
      let first ← value.toJson
      let others ← fieldsToJson rest
      return (key, first) :: others

/-- What stands beside the tag of a command. -/
def Command.toJson : Command → Except Fault Json
  | .pipe behind items => do return .arr [← behind.toJson, ← items.toJson]
  | .simple line assignments arguments redirs => do
      return .arr [← line.toJson, ← assignments.toJson, ← arguments.toJson, ← redirs.toJson]
  | .subshell line body redirs => do
      return .arr [← line.toJson, ← body.toJson, ← redirs.toJson]
  | .and left right _ => do return .arr [← left.toJson, ← right.toJson]
  | .or left right _ => do return .arr [← left.toJson, ← right.toJson]
  | .semi left right _ => do return .arr [← left.toJson, ← right.toJson]
  | .not body _ => body.toJson
  | .redirected line node redirs => do
      return .arr [← line.toJson, ← node.toJson, ← redirs.toJson]
  | .background line node redirs _ _ => do
      return .arr [← line.toJson, ← node.toJson, ← redirs.toJson]
  | .defun line name body _ => do
      return .arr [← line.toJson, ← name.toJson, ← body.toJson]
  | .forLoop line argument body name => do
      return .arr [← line.toJson, ← argument.toJson, ← body.toJson, ← name.toJson]
  | .whileLoop test body => do return .arr [← test.toJson, ← body.toJson]
  | .ifElse test thenBranch elseBranch => do
      return .arr [← test.toJson, ← thenBranch.toJson, ← elseBranch.toJson]
  | .case line argument cases => do
      return .arr [← line.toJson, ← argument.toJson, ← cases.toJson]
  | .select line name body choices => do
      return .arr [← line.toJson, ← name.toJson, ← body.toJson, ← choices.toJson]
  | .arith line body => do return .arr [← line.toJson, ← body.toJson]
  | .cond line kind op left right inverted => do
      return .arr [← line.toJson, ← kind.toJson, ← op.toJson, ← left.toJson, ← right.toJson,
        ← inverted.toJson]
  | .arithFor line start test step action => do
      return .arr [← line.toJson, ← start.toJson, ← test.toJson, ← step.toJson,
        ← action.toJson]
  | .coproc name body => do return .arr [← name.toJson, ← body.toJson]
  | .time posix node => do return .arr [← posix.toJson, ← node.toJson]
  | .group body => body.toJson

def WordPart.toJson : WordPart → Except Fault Json
  | .char code _ => code.toJson
  | .escaped code => code.toJson
  | .tilde user => user.toJson
  | .arith arg => arg.toJson
  | .param format nullTest var arg => do
      return .arr [← format.toJson, ← nullTest.toJson, ← var.toJson, ← arg.toJson]
  | .quoted arg => arg.toJson
  | .command node => node.toJson
  | .process op node => do return .arr [← op.toJson, ← node.toJson]

def Redirection.toJson : Redirection → Except Fault Json
  | .file kind fd arg => do return .arr [← kind.toJson, ← fd.toJson, ← arg.toJson]
  | .dup kind fd arg move => do
      return .arr [← kind.toJson, ← fd.toJson, ← arg.toJson, ← move.toJson]
  | .heredoc kind fd arg _ eof => do
      return .arr [← kind.toJson, ← fd.toJson, ← arg.toJson, ← eof.toJson]
  | .single kind fd => do return .arr [← kind.toJson, ← fd.toJson]

end

mutual

/-- The tagged form of a datum, among data. -/
def Datum.untyped : Datum → Datum
  | .seq _ items => .list (untypedItems items)
  | .dict fields => .dict (untypedFields fields)
  | .command value => .list [.text value.tag.exported, value.untyped]
  | .part value => .list [.text value.tag.exported, value.untyped]
  | .redir value => .list [.text value.tag.exported, value.untyped]
  | .assign var val => .list [var, val.untyped]
  | .null => .null
  | .bool value => .bool value
  | .int value => .int value
  | .float value => .float value
  | .text value => .text value
  | .condKind kind => .condKind kind

def untypedItems : List Datum → List Datum
  | [] => []
  | item :: rest => item.untyped :: untypedItems rest

def untypedFields : List (String × Datum) → List (String × Datum)
  | [] => []
  | (key, value) :: rest => (key, value.untyped) :: untypedFields rest

def Command.untyped : Command → Datum
  | .pipe behind items => .list [behind.untyped, items.untyped]
  | .simple line assignments arguments redirs =>
      .list [line.untyped, assignments.untyped, arguments.untyped, redirs.untyped]
  | .subshell line body redirs => .list [line.untyped, body.untyped, redirs.untyped]
  | .and left right _ => .list [left.untyped, right.untyped]
  | .or left right _ => .list [left.untyped, right.untyped]
  | .semi left right _ => .list [left.untyped, right.untyped]
  | .not body _ => body.untyped
  | .redirected line node redirs => .list [line.untyped, node.untyped, redirs.untyped]
  | .background line node redirs _ _ => .list [line.untyped, node.untyped, redirs.untyped]
  | .defun line name body _ => .list [line.untyped, name.untyped, body.untyped]
  | .forLoop line argument body name =>
      .list [line.untyped, argument.untyped, body.untyped, name.untyped]
  | .whileLoop test body => .list [test.untyped, body.untyped]
  | .ifElse test thenBranch elseBranch =>
      .list [test.untyped, thenBranch.untyped, elseBranch.untyped]
  | .case line argument cases => .list [line.untyped, argument.untyped, cases.untyped]
  | .select line name body choices =>
      .list [line.untyped, name.untyped, body.untyped, choices.untyped]
  | .arith line body => .list [line.untyped, body.untyped]
  | .cond line kind op left right inverted =>
      .list [line.untyped, kind.untyped, op.untyped, left.untyped, right.untyped,
        inverted.untyped]
  | .arithFor line start test step action =>
      .list [line.untyped, start.untyped, test.untyped, step.untyped, action.untyped]
  | .coproc name body => .list [name.untyped, body.untyped]
  | .time posix node => .list [posix.untyped, node.untyped]
  | .group body => body.untyped

def WordPart.untyped : WordPart → Datum
  | .char code _ => code.untyped
  | .escaped code => code.untyped
  | .tilde user => user.untyped
  | .arith arg => arg.untyped
  | .param format nullTest var arg =>
      .list [format.untyped, nullTest.untyped, var.untyped, arg.untyped]
  | .quoted arg => arg.untyped
  | .command node => node.untyped
  | .process op node => .list [op.untyped, node.untyped]

def Redirection.untyped : Redirection → Datum
  | .file kind fd arg => .list [kind.untyped, fd.untyped, arg.untyped]
  | .dup kind fd arg move => .list [kind.untyped, fd.untyped, arg.untyped, move.untyped]
  | .heredoc kind fd arg _ eof =>
      .list [kind.untyped, fd.untyped, arg.untyped, eof.untyped]
  | .single kind fd => .list [kind.untyped, fd.untyped]

end

end ShellTree
