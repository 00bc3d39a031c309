import ShellTree.Print.Escape

/-!
# Walking a tree

A walk visits a datum before the data inside it, and may put another in its
place; what is put in place is not walked.  The walk of a tree gives the data
visited, in order, and the tree that results or the fault that ended the walk.

The substitution of a process is not entered, nor are records outside the
clauses of a case.
-/

namespace ShellTree

/-- What a walk gives: the data visited and an outcome. -/
structure Walked (α : Type) where
  visits : List Datum
  outcome : Except Fault α

namespace Walked

/-- Go on with the outcome of a walk, unless it has ended. -/
def next {α β : Type} (first : Walked α) (rest : α → Walked β) : Walked β :=
  match first.outcome with
  | .error fault => ⟨first.visits, .error fault⟩
  | .ok value =>
      let second := rest value
      ⟨first.visits ++ second.visits, second.outcome⟩

instance : Monad Walked where
  pure value := ⟨[], .ok value⟩
  bind := next

def of {α : Type} (outcome : Except Fault α) : Walked α :=
  ⟨[], outcome⟩

def visit (datum : Datum) : Walked Unit :=
  ⟨[datum], .ok ()⟩

def fail {α : Type} (fault : Fault) : Walked α :=
  ⟨[], .error fault⟩

end Walked

abbrev Replacement := Datum → Except Fault (Option Datum)

/-- Visit a datum and put its replacement in its place, or else go inside. -/
def enter (replace : Replacement) (datum : Datum) (inside : Walked Datum) : Walked Datum := do
  Walked.visit datum
  match ← Walked.of (replace datum) with
  | some other => pure other
  | none => inside

def enterLeaf (replace : Replacement) (datum : Datum) : Walked Datum :=
  enter replace datum (pure datum)

/-- Visit the texts that come up when something other than a sequence is gone through. -/
def enterEntries (replace : Replacement) (datum : Datum) : Walked Datum := do
  let entries ← Walked.of datum.entries
  return .list (← entries.mapM fun entry => enterLeaf replace (.text entry))

def setField (key : String) (value : Datum) (fields : List (String × Datum)) :
    List (String × Datum) :=
  fields.map fun field => if field.1 = key then (key, value) else field

/-- Why an item cannot be taken for a key with a value, if it cannot. -/
def pairFault? (item : Datum) : Option Fault :=
  match item.items with
  | .error fault => some fault
  | .ok [key, _] => if key.hashable then none else some .wrongKind
  | .ok _ => some .wrongLength

def clauseFault (datum : Datum) : Fault :=
  match datum.items with
  | .error fault => fault
  | .ok items => (items.findSome? pairFault?).getD .noField

mutual

def Datum.walk (replace : Replacement) : Datum → Walked Datum
  | .seq kind items => enter replace (.seq kind items) do
      return .seq kind (← walkItems replace items)
  | .command value => enter replace (.command value) do
      return .command (← value.walk replace)
  | .part value => enter replace (.part value) do
      return .part (← value.walk replace)
  | .redir value => enter replace (.redir value) do
      return .redir (← value.walk replace)
  | .assign var val => enter replace (.assign var val) do
      return .assign var (← val.walk replace)
  | .null => enterLeaf replace .null
  | .bool value => enterLeaf replace (.bool value)
  | .int value => enterLeaf replace (.int value)
  | .float value => enterLeaf replace (.float value)
  | .text value => enterLeaf replace (.text value)
  | .dict fields => enterLeaf replace (.dict fields)
  | .condKind kind => enterLeaf replace (.condKind kind)

def walkItems (replace : Replacement) : List Datum → Walked (List Datum)
  | [] => pure []
  | item :: rest => do
      let first ← item.walk replace
      let others ← walkItems replace rest
      return first :: others

/-- Walk the items of a datum without visiting it. -/
def Datum.walkEach (replace : Replacement) : Datum → Walked Datum
  | .seq _ items => do return .list (← walkItems replace items)
  | other => enterEntries replace other

/-- Walk the word of a descriptor without visiting the descriptor. -/
def Datum.walkFd (replace : Replacement) : Datum → Walked Datum
  | .seq kind [form, target] =>
      if form.isText "var" then do
        return .tuple [.text "var", ← target.walk replace]
      else pure (.seq kind [form, target])
  | other => pure other

def walkPatterns (replace : Replacement) :
    List (String × Datum) → Walked (Option Datum)
  | [] => pure none
  | (key, value) :: rest =>
      if key = "cpattern" then do
        return some (← value.walkEach replace)
      else walkPatterns replace rest

def walkBody (replace : Replacement) : List (String × Datum) → Walked (Option Datum)
  | [] => pure none
  | (key, value) :: rest =>
      if key = "cbody" then
        if value.truthy then do
          return some (← value.walk replace)
        else pure none
      else walkBody replace rest

def Datum.walkClause (replace : Replacement) : Datum → Walked Datum
  | .dict fields => do
      let patterns ← walkPatterns replace fields
      let body ← walkBody replace fields
      let patterned := (patterns.map fun value => setField "cpattern" value fields).getD fields
      return .dict ((body.map fun value => setField "cbody" value patterned).getD patterned)
  | other => Walked.fail (clauseFault other)

def walkClauseItems (replace : Replacement) : List Datum → Walked (List Datum)
  | [] => pure []
  | item :: rest => do
      let first ← item.walkClause replace
      let others ← walkClauseItems replace rest
      return first :: others

def Datum.walkClauses (replace : Replacement) : Datum → Walked Datum
  | .seq _ items => do return .list (← walkClauseItems replace items)
  | other => do
      match ← Walked.of other.entries with
      | [] => return .list []
      | entry :: _ => Walked.fail (clauseFault (.text entry))

def Command.walk (replace : Replacement) : Command → Walked Command
  | .pipe behind items => do return .pipe behind (← items.walkEach replace)
  | .simple line assignments arguments redirs => do
      return .simple line (← assignments.walkEach replace) (← arguments.walkEach replace)
        (← redirs.walkEach replace)
  | .subshell line body redirs => do
      return .subshell line (← body.walk replace) (← redirs.walkEach replace)
  | .and left right noBraces => do
      return .and (← left.walk replace) (← right.walk replace) noBraces
  | .or left right noBraces => do
      return .or (← left.walk replace) (← right.walk replace) noBraces
  | .semi left right semicolon => do
      return .semi (← left.walk replace) (← right.walk replace) semicolon
  | .not body noBraces => do return .not (← body.walk replace) noBraces
  | .redirected line node redirs => do
      return .redirected line (← node.walk replace) (← redirs.walkEach replace)
  | .background line node redirs after noBraces => do
      let inner ← node.walk replace
      let redirected ← redirs.walkEach replace
      let next ← if after.truthy then after.walk replace else pure .null
      return .background line inner redirected next noBraces
  | .defun line name body bashMode => do
      return .defun line (← name.walk replace) (← body.walk replace) bashMode
  | .forLoop line argument body name => do
      return .forLoop line (← argument.walkEach replace) (← body.walk replace)
        (← name.walk replace)
  | .whileLoop test body => do
      return .whileLoop (← test.walk replace) (← body.walk replace)
  | .ifElse test thenBranch elseBranch => do
      let tested ← test.walk replace
      let first ← thenBranch.walk replace
      let second ← if elseBranch.truthy then elseBranch.walk replace else pure .null
      return .ifElse tested first second
  | .case line argument cases => do
      let clauses ← cases.walkClauses replace
      return .case line (← argument.walk replace) clauses
  | .select line name body choices => do
      return .select line (← name.walk replace) (← body.walk replace)
        (← choices.walkEach replace)
  | .arith line body => do return .arith line (← body.walkEach replace)
  | .cond line kind op left right inverted => do
      let operator ← if op.truthy then op.walk replace else pure .null
      let first ← if left.truthy then left.walk replace else pure .null
      let second ← if right.truthy then right.walk replace else pure .null
      return .cond line kind operator first second inverted
  | .arithFor line start test step action => do
      return .arithFor line (← start.walk replace) (← test.walk replace) (← step.walk replace)
        (← action.walk replace)
  | .coproc name body => do return .coproc (← name.walk replace) (← body.walk replace)
  | .time posix node => do return .time posix (← node.walk replace)
  | .group body => do return .group (← body.walk replace)

def WordPart.walk (replace : Replacement) : WordPart → Walked WordPart
  | .char code bashMode => pure (.char code bashMode)
  | .escaped code => pure (.escaped code)
  | .tilde user => pure (.tilde user)
  | .arith arg => do return .arith (← arg.walk replace)
  | .param format nullTest var arg => do
      return .param format nullTest var (← arg.walk replace)
  | .quoted arg => do return .quoted (← arg.walk replace)
  | .command node => do return .command (← node.walk replace)
  | .process op node => pure (.process op node)

def Redirection.walk (replace : Replacement) : Redirection → Walked Redirection
  | .file kind fd arg => do
      let descriptor ← fd.walkFd replace
      let word ← if arg.truthy then arg.walk replace else pure .null
      return .file kind descriptor word
  | .dup kind fd arg move => do
      return .dup kind (← fd.walkFd replace) (← arg.walkFd replace) move
  | .heredoc kind fd arg killLeading eof => do
      return .heredoc kind (← fd.walkFd replace) (← arg.walk replace) killLeading eof
  | .single kind fd => do return .single kind (← fd.walkFd replace)

end

def noReplacement : Replacement :=
  fun _ => .ok none

def walkQuadruples (replace : Replacement) : List (List Datum) → Walked (List Datum)
  | [] => pure []
  | [node, _, _, _] :: rest => do
      let first ← node.walk replace
      let others ← walkQuadruples replace rest
      return first :: others
  | _ :: _ => Walked.fail .wrongLength

def Datum.label : Datum → String
  | .null => "NoneType"
  | .bool _ => "bool"
  | .int _ => "int"
  | .float _ => "float"
  | .text _ => "str"
  | .seq .list items => "list:" ++ toString items.length
  | .seq .tuple items => "tuple:" ++ toString items.length
  | .dict _ => "dict"
  | .condKind _ => "CondType"
  | .command value => value.tag.label
  | .part value => value.tag.label
  | .redir value => value.tag.label
  | .assign .. => Tag.assign.label

/-- A rule of replacement: what it is for, what must be equal, and what is put in place. -/
structure Rule where
  on : String
  conditions : List (String × Datum)
  replacement : Datum

namespace Rule

def operationsOf : Datum → List String
  | .part _ => ["json", "pretty", "format"]
  | .redir (.heredoc ..) => ["json", "pretty", "header_pretty", "body_pretty"]
  | .command _ => ["json", "pretty"]
  | .redir _ => ["json", "pretty"]
  | .assign .. => ["json", "pretty"]
  | _ => []

/--
A field of a construct by name; the name of the construct counts as one.  There
is no datum under the name of an operation.
-/
def fieldOf (datum : Datum) (name : String) : Except Fault (Option Datum) :=
  match datum.namedFields.lookup name, datum.tag? with
  | some value, _ => .ok (some value)
  | none, none => .error .noField
  | none, some tag =>
      if name = "NodeName" then .ok (some (.text tag.name))
      else if tag = .single ∧ name = "arg" then .ok (some .null)
      else if (operationsOf datum).contains name then .ok none
      else .error .noField

/-- Do the conditions hold of a datum?  They are tried in order up to the first that fails. -/
def holds (datum : Datum) : List (String × Datum) → Except Fault Bool
  | [] => .ok true
  | (name, expected) :: rest => do
      match ← fieldOf datum name with
      | some value => if value.equal expected then holds datum rest else return false
      | none => return false

def apply : List Rule → Replacement
  | [], _ => .ok none
  | rule :: rest, datum => do
      if rule.on = datum.label then
        if ← holds datum rule.conditions then
          match rule.replacement with
          | .null => return none
          | other => return some other
        else apply rest datum
      else apply rest datum

end Rule

end ShellTree
