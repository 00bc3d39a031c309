import ShellTree.Tree.Basic

/-!
# Outlines

An outline is a JSON value that shows every field of a tree by name.  A
construct is an object whose field `n` holds its label; a word of plain
characters is written as its text; a fixed sequence and a type of condition
are marked as such.  What is read from an outline need not be a sound tree.
-/

namespace ShellTree

namespace Outline

/-- The text of a list of plain characters of one mode; nothing for another list. -/
def wordText? (bashMode : Bool) : List Datum → Option (List Char)
  | [] => some []
  | .part (.char (.int code) (.bool mode)) :: rest =>
      if mode = bashMode ∧ 0 ≤ code ∧ code.toNat.isValidChar then
        (wordText? bashMode rest).map (codeChar code.toNat :: ·)
      else none
  | _ :: _ => none

/-- A nonempty word of plain characters of one mode, under the key of the mode. -/
def wordObject? (items : List Datum) : Option Json :=
  if items.isEmpty then none
  else
    match wordText? false items, wordText? true items with
    | some chars, _ => some (.obj [("c", .str (String.ofList chars))])
    | none, some chars => some (.obj [("b", .str (String.ofList chars))])
    | none, none => none

def construct (tag : Tag) (fields : List Json) : Json :=
  .obj (("n", .str tag.label) :: tag.fieldNames.zip fields)

end Outline

mutual

def Datum.outline : Datum → Json
  | .null => .null
  | .bool value => .bool value
  | .int value => .int value
  | .float value => .float value
  | .text value => .str value
  | .seq .list items =>
      match Outline.wordObject? items with
      | some word => word
      | none => .arr (outlineItems items)
  | .seq .tuple items => .obj [("tuple", .arr (outlineItems items))]
  | .dict fields => .obj (outlineEntries fields)
  | .condKind kind => .obj [("condtype", .str kind.label)]
  | .command value => Outline.construct value.tag value.outlineFields
  | .part value => Outline.construct value.tag value.outlineFields
  | .redir value => Outline.construct value.tag value.outlineFields
  | .assign var val => Outline.construct .assign [var.outline, val.outline]

def outlineItems : List Datum → List Json
  | [] => []
  | item :: rest => item.outline :: outlineItems rest

def outlineEntries : List (String × Datum) → List (String × Json)
  | [] => []
  | (key, value) :: rest => (key, value.outline) :: outlineEntries rest

def Command.outlineFields : Command → List Json
  | .pipe behind items => [behind.outline, items.outline]
  | .simple line assignments arguments redirs =>
      [line.outline, assignments.outline, arguments.outline, redirs.outline]
  | .subshell line body redirs => [line.outline, body.outline, redirs.outline]
  | .and left right noBraces => [left.outline, right.outline, noBraces.outline]
  | .or left right noBraces => [left.outline, right.outline, noBraces.outline]
  | .semi left right semicolon => [left.outline, right.outline, semicolon.outline]
  | .not body noBraces => [body.outline, noBraces.outline]
  | .redirected line node redirs => [line.outline, node.outline, redirs.outline]
  | .background line node redirs after noBraces =>
      [line.outline, node.outline, redirs.outline, after.outline, noBraces.outline]
  | .defun line name body bashMode =>
      [line.outline, name.outline, body.outline, bashMode.outline]
  | .forLoop line argument body name =>
      [line.outline, argument.outline, body.outline, name.outline]
  | .whileLoop test body => [test.outline, body.outline]
  | .ifElse test thenBranch elseBranch =>
      [test.outline, thenBranch.outline, elseBranch.outline]
  | .case line argument cases => [line.outline, argument.outline, cases.outline]
  | .select line name body choices =>
      [line.outline, name.outline, body.outline, choices.outline]
  | .arith line body => [line.outline, body.outline]
  | .cond line kind op left right inverted =>
      [line.outline, kind.outline, op.outline, left.outline, right.outline, inverted.outline]
  | .arithFor line start test step action =>
      [line.outline, start.outline, test.outline, step.outline, action.outline]
  | .coproc name body => [name.outline, body.outline]
  | .time posix node => [posix.outline, node.outline]
  | .group body => [body.outline]

def WordPart.outlineFields : WordPart → List Json
  | .char code bashMode => [code.outline, bashMode.outline]
  | .escaped code => [code.outline]
  | .tilde user => [user.outline]
  | .arith arg => [arg.outline]
  | .param format nullTest var arg =>
      [format.outline, nullTest.outline, var.outline, arg.outline]
  | .quoted arg => [arg.outline]
  | .command node => [node.outline]
  | .process op node => [op.outline, node.outline]

def Redirection.outlineFields : Redirection → List Json
  | .file kind fd arg => [kind.outline, fd.outline, arg.outline]
  | .dup kind fd arg move => [kind.outline, fd.outline, arg.outline, move.outline]
  | .heredoc kind fd arg killLeading eof =>
      [kind.outline, fd.outline, arg.outline, killLeading.outline, eof.outline]
  | .single kind fd => [kind.outline, fd.outline]

end

namespace Outline

/-- The value of a field that an outline may leave out. -/
def default? : Tag → String → Option Datum
  | .and, "no_braces" => some (.bool false)
  | .or, "no_braces" => some (.bool false)
  | .not, "no_braces" => some (.bool false)
  | .background, "no_braces" => some (.bool false)
  | .background, "after_ampersand" => some .null
  | .semi, "semicolon" => some (.bool false)
  | .defun, "bash_mode" => some (.bool false)
  | .char, "bash_mode" => some (.bool false)
  | .dup, "move" => some (.bool false)
  | .heredoc, "kill_leading" => some (.bool false)
  | .heredoc, "eof" => some .null
  | _, _ => none

/-- A construct from its fields, in the order in which they are stored. -/
def build : Tag → List Datum → Except Fault Datum
  | .pipe, [behind, items] => .ok (.command (.pipe behind items))
  | .simple, [line, assignments, arguments, redirs] =>
      .ok (.command (.simple line assignments arguments redirs))
  | .subshell, [line, body, redirs] =>
      .ok (.command (.subshell line body (if redirs.truthy then redirs else .list [])))
  | .and, [left, right, noBraces] => .ok (.command (.and left right noBraces))
  | .or, [left, right, noBraces] => .ok (.command (.or left right noBraces))
  | .semi, [left, right, semicolon] => .ok (.command (.semi left right semicolon))
  | .not, [body, noBraces] => .ok (.command (.not body noBraces))
  | .redirected, [line, node, redirs] => .ok (.command (.redirected line node redirs))
  | .background, [line, node, redirs, after, noBraces] =>
      .ok (.command (.background line node redirs after noBraces))
  | .defun, [line, name, body, bashMode] => .ok (.command (.defun line name body bashMode))
  | .forLoop, [line, argument, body, name] =>
      .ok (.command (.forLoop line argument body name))
  | .whileLoop, [test, body] => .ok (.command (.whileLoop test body))
  | .ifElse, [test, thenBranch, elseBranch] =>
      .ok (.command (.ifElse test thenBranch elseBranch))
  | .case, [line, argument, cases] => .ok (.command (.case line argument cases))
  | .select, [line, name, body, choices] => .ok (.command (.select line name body choices))
  | .arith, [line, body] => .ok (.command (.arith line body))
  | .cond, [line, kind, op, left, right, inverted] =>
      .ok (.command (.cond line kind op left right inverted))
  | .arithFor, [line, start, test, step, action] =>
      .ok (.command (.arithFor line start test step action))
  | .coproc, [name, body] => .ok (.command (.coproc name body))
  | .time, [posix, node] => .ok (.command (.time posix node))
  | .group, [body] => .ok (.command (.group body))
  | .char, [code, bashMode] => .ok (.part (.char code bashMode))
  | .escaped, [code] => .ok (.part (.escaped code))
  | .tilde, [user] => .ok (.part (.tilde user))
  | .arithPart, [arg] => .ok (.part (.arith arg))
  | .param, [format, nullTest, var, arg] => .ok (.part (.param format nullTest var arg))
  | .quoted, [arg] => .ok (.part (.quoted arg))
  | .commandPart, [node] => .ok (.part (.command node))
  | .process, [op, node] => .ok (.part (.process op node))
  | .assign, [var, val] => .ok (.assign var val)
  | .file, [kind, fd, arg] => .ok (.redir (.file kind fd arg))
  | .dup, [kind, fd, arg, move] => .ok (.redir (.dup kind fd arg move))
  | .heredoc, [kind, fd, arg, killLeading, eof] =>
      .ok (.redir (.heredoc kind fd arg killLeading eof))
  | .single, [kind, fd] => .ok (.redir (.single kind fd))
  | _, _ => .error .wrongKind

def fieldValue (tag : Tag) (given : List (String × Datum)) (name : String) :
    Except Fault Datum :=
  match given.lookup name with
  | some value => .ok value
  | none =>
      match default? tag name with
      | some value => .ok value
      | none => .error .wrongKind

def constructOf (label : String) (given : List (String × Datum)) : Except Fault Datum :=
  match Tag.ofLabel? label with
  | none => .error .missingKey
  | some tag => do
      if given.all fun field => tag.fieldNames.contains field.1 then
        build tag (← tag.fieldNames.mapM (fieldValue tag given))
      else .error .wrongKind

/-- What an object stands for, given what its fields stand for. -/
def assemble (fields : List (String × Datum)) : Except Fault Datum :=
  match fields with
  | [("c", .text value)] => .ok (wordOf false value.toList)
  | [("b", .text value)] => .ok (wordOf true value.toList)
  | [("tuple", .seq _ items)] => .ok (.tuple items)
  | [("condtype", .text label)] =>
      match CondKind.ofLabel? label with
      | some kind => .ok (.condKind kind)
      | none => .error .missingKey
  | _ =>
      match fields.lookup "n" with
      | some (.text label) => constructOf label (fields.filter fun field => field.1 != "n")
      | _ => .ok (.dict fields)

mutual

def read : Json → Except Fault Datum
  | .null => .ok .null
  | .bool value => .ok (.bool value)
  | .int value => .ok (.int value)
  | .float value => .ok (.float value)
  | .str value => .ok (.text value)
  | .arr items => do return .list (← readItems items)
  | .obj fields => do assemble (← readEntries fields)

def readItems : List Json → Except Fault (List Datum)
  | [] => .ok []
  | item :: rest => do
      let first ← read item
      let others ← readItems rest
      return first :: others

def readEntries : List (String × Json) → Except Fault (List (String × Datum))
  | [] => .ok []
  | (key, value) :: rest => do
      let first ← read value
      let others ← readEntries rest
      return (key, first) :: others

end

end Outline

end ShellTree
