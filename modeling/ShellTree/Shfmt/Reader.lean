import ShellTree.Print.Render
import ShellTree.Shfmt.Kind
import ShellTree.Shfmt.Operator
import ShellTree.Shfmt.Source
import ShellTree.Text.Digit

/-!
# Reading the nodes of shfmt

Statements become commands, and words become lists of parts.  A part of a word
that points into the script is read from the script.  Otherwise quotes and
substitutions become parts of their own, and expansions that have no part of
their own are written out as characters.
-/

namespace ShellTree

namespace Shfmt

def kindOf? : Json → Option Kind
  | .str label => Kind.ofLabel? label
  | _ => none

def shown (value : Json) : Except Fault String :=
  (Datum.ofJson value).display

def refuse {α : Type} (construct : Construct) (value : Json) : Except Fault α := do
  throw (.unsupported construct (← shown value))

def textValue : Json → Except Fault String
  | .str text => .ok text
  | _ => .error .wrongKind

def cells (text : String) : List Datum :=
  text.toList.map fun c => .part (.char (.int c.toNat) (.bool true))

def cellOf (text : String) : Except Fault Datum :=
  match text.toList with
  | [c] => .ok (.part (.char (.int c.toNat) (.bool true)))
  | _ => .error .wrongKind

/-- The characters of a value as parts of a word. -/
def cellsOf : Json → Except Fault (List Datum)
  | .str text => .ok (cells text)
  | .arr items => items.mapM fun item =>
      match item with
      | .str text => cellOf text
      | _ => .error .wrongKind
  | .obj fields => fields.mapM fun field => cellOf field.1
  | _ => .error .wrongKind

/-- The characters of a literal, which may be left out. -/
def literalCells (literal : Json) : Except Fault (List Datum) :=
  if literal.truthy then do cellsOf (← literal.textField "Value") else .ok []

def textOf (parts : List Datum) : Except Fault String :=
  Datum.renderWord .unquoted (.list parts)

/-- The value of a word that is one literal, else an empty text. -/
def wordLiteral (word : Json) : Except Fault Json :=
  if word.truthy then
    match word with
    | .obj fields =>
        match fields.lookup "Parts" with
        | none => .ok (.str "")
        | some (.arr [part]) => do
            let kind ← part.fetch "Type"
            if kindOf? kind.1 = some .literal then part.textField "Value"
            else return .str ""
        | some (.arr _) => .ok (.str "")
        | some (.str text) => if text.length = 1 then .error .noField else .ok (.str "")
        | some (.obj parts) => if parts.length = 1 then .error .missingKey else .ok (.str "")
        | some _ => .error .wrongKind
    | _ => .error .noField
  else .ok (.str "")

/-- Does a value consist of digits?  Only a text can be asked. -/
def digits : Json → Except Fault Bool
  | .str text => .ok (Text.isDigits text)
  | _ => .error .noField

def wordIsNumber (word : Json) : Except Fault Bool := do
  digits (← wordLiteral word)

def anyQuoted : List Json → Except Fault Bool
  | [] => .ok false
  | part :: rest => do
      let kind ← part.fetch "Type"
      match kindOf? kind.1 with
      | some .singleQuoted => return true
      | some .doubleQuoted => return true
      | _ => anyQuoted rest

def wordHasQuotes (word : Json) : Except Fault Bool :=
  if word.truthy then do
    anyQuoted ((← word.children "Parts").map Subtype.val)
  else .ok false

/-- The descriptor that a redirection names, or else a given one. -/
def readFd (named : Json) (standard : Datum) : Except Fault Datum :=
  if named.truthy then do
    let value ← named.textField "Value"
    if ← digits value then
      return .tuple [.text "fixed", .int (← integerOf value)]
    else return .tuple [.text "var", .list (← cellsOf value)]
  else .ok (.tuple [.text "fixed", standard])

def globText (node : Json) : Except Fault String := do
  let op ← node.fetch "Op"
  let opening ← operator globOps op.1
  let pattern ←
    match node.get? "Pattern" with
    | none => pure (.str "")
    | some inner => inner.textField "Value"
  return opening.getD "?(" ++ (← shown pattern) ++ ")"

def holdsText (part : List Char) : List Char → Bool
  | [] => part.isEmpty
  | c :: rest => part.isPrefixOf (c :: rest) || holdsText part rest

def loopKind (loop : Json) : Except Fault Json :=
  if loop.truthy then
    match loop with
    | .obj fields =>
        match fields.lookup "Type" with
        | some kind => .ok kind
        | none => .error .noLoop
    | .arr items =>
        if items.any (Json.isText "Type") then .error .wrongKind else .error .noLoop
    | .str text =>
        if holdsText "Type".toList text.toList then .error .wrongKind else .error .noLoop
    | _ => .error .wrongKind
  else .error .noLoop

/-- The items of a command in a pipeline: those of a pipeline, or the command itself. -/
def pipeItems : Datum → Except Fault (List Datum)
  | .command (.pipe _ items) => items.items
  | node => .ok [node]

def wordsCommand (line : Int) (words : List (List Datum)) : Datum :=
  .command (.simple (.int line) (.list []) (.list (words.map Datum.list)) (.list []))

/-- What an assignment becomes: an assignment of the command, or one of its words. -/
inductive Assigned where
  | assignment (node : Datum)
  | argument (parts : List Datum)

def Assigned.assignments (results : List Assigned) : List Datum :=
  results.filterMap fun result =>
    match result with
    | .assignment node => some node
    | .argument _ => none

/-- The words among what assignments have become, without the empty ones. -/
def Assigned.arguments (results : List Assigned) : List Datum :=
  results.filterMap fun result =>
    match result with
    | .assignment _ => none
    | .argument parts => if parts.isEmpty then none else some (.list parts)

variable (source : Source)

mutual

def readStatement (stmt : Json) : Except Fault Datum := do
  let ⟨cmd, _⟩ ← stmt.fetch "Cmd"
  let command ← if cmd.truthy then readCommand cmd else pure (.command .empty)
  let redirs ← (← stmt.children "Redirs").mapM fun ⟨redir, _⟩ => readRedir redir
  let negated ← stmt.fetch "Negated"
  let node := if negated.1.truthy then .command (.not command (.bool true)) else command
  let background ← stmt.fetch "Background"
  if background.1.truthy then
    return .command (.background .null node (.list redirs) .null (.bool true))
  else if redirs.isEmpty then return node
  else return .command (.redirected .null node (.list redirs))
termination_by 6 * sizeOf stmt + 0
decreasing_by all_goals omega

def readStatements (node : Json) (key : String) : Except Fault Datum := do
  let nodes ← (← node.children key).mapM fun ⟨stmt, _⟩ => readStatement stmt
  match nodes with
  | [] => return .command .empty
  | first :: rest => return chain first rest
termination_by 6 * sizeOf node + 0
decreasing_by all_goals omega

def readCommand (node : Json) : Except Fault Datum := do
  let kind ← node.fetch "Type"
  match kindOf? kind.1 with
  | some .call => readCall node
  | some .binary => readBinary node
  | some .ifElse => readIf node
  | some .whileLoop => readWhile node
  | some .forLoop => readFor node
  | some .case => readCase node
  | some .subshell => readSubshell node
  | some .block => readBlock node
  | some .function => readFunction node
  | some .arithmCommand => readArithmCommand node
  | some .time => readTime node
  | some .coproc => readCoproc node
  | some .decl => readDecl node
  | some .letExprs => readLet node
  | some .test => readTest node
  | some .testDecl => readTestDecl node
  | _ => refuse .command kind.1
termination_by 6 * sizeOf node + 5
decreasing_by all_goals omega

def readCall (node : Json) : Except Fault Datum := do
  let pos ← node.fetch "Pos"
  let line ← lineOrNone pos.1
  let assigned ← (← node.children "Assigns").mapM fun ⟨assign, _⟩ => readAssign assign
  let words ← (← node.children "Args").mapM fun ⟨word, _⟩ => readWord word
  return .command (.simple line (.list (Assigned.assignments assigned))
    (.list (Assigned.arguments assigned ++ words.map Datum.list)) (.list []))
termination_by 6 * sizeOf node + 4
decreasing_by all_goals omega

def readBinary (node : Json) : Except Fault Datum := do
  let number ← node.fetch "Op"
  let op ← operator binaryOps number.1
  let ⟨x, _⟩ ← node.require "X"
  let left ← readStatement x
  let ⟨y, _⟩ ← node.require "Y"
  let right ← readStatement y
  match op with
  | some .and => return .command (.and left right (.bool true))
  | some .or => return .command (.or left right (.bool true))
  | some _ => do
      let first ← pipeItems left
      let second ← pipeItems right
      return .command (.pipe (.bool false) (.list (first ++ second)))
  | none => refuse .binaryOperator number.1
termination_by 6 * sizeOf node + 4
decreasing_by all_goals omega

/-- Read a choice by a condition; a further condition is a choice in the other branch. -/
def readIf (node : Json) : Except Fault Datum := do
  let test ← readStatements node "Cond"
  let thenBranch ← readStatements node "Then"
  let ⟨otherwise, _⟩ ← node.fetch "Else"
  let elseBranch ←
    if otherwise.truthy then do
      let further ← otherwise.fetch "Cond"
      if further.1.truthy then readIf otherwise else readStatements otherwise "Then"
    else pure .null
  return .command (.ifElse test thenBranch elseBranch)
termination_by 6 * sizeOf node + 4
decreasing_by all_goals omega

def readWhile (node : Json) : Except Fault Datum := do
  let test ← readStatements node "Cond"
  let body ← readStatements node "Do"
  let inverted ← node.fetch "Until"
  return .command (.whileLoop
    (if inverted.1.truthy then .command (.not test (.bool true)) else test) body)
termination_by 6 * sizeOf node + 4
decreasing_by all_goals omega

/-- Read a loop over words, a menu, or a loop with arithmetic control. -/
def readFor (node : Json) : Except Fault Datum := do
  let ⟨loop, _⟩ ← node.fetch "Loop"
  let body ← readStatements node "Do"
  let pos ← node.fetch "ForPos"
  let line ← lineOrNone pos.1
  let kind ← loopKind loop
  match kindOf? kind with
  | some .wordIter => do
      let name ← loop.require "Name"
      let called ← literalCells name.1
      let words ← (← loop.children "Items").mapM fun ⟨word, _⟩ => readWord word
      let choices := Datum.list (words.map Datum.list)
      let select ← node.fetch "Select"
      if select.1.truthy then return .command (.select line (.list called) body choices)
      else return .command (.forLoop line choices body (.list called))
  | some .countedLoop => do
      let ⟨init, _⟩ ← loop.fetch "Init"
      let first ← readArithmWords init
      let ⟨cond, _⟩ ← loop.fetch "Cond"
      let second ← readArithmWords cond
      let ⟨post, _⟩ ← loop.fetch "Post"
      let third ← readArithmWords post
      return .command (.arithFor line first second third body)
  | _ => refuse .forLoop kind
termination_by 6 * sizeOf node + 4
decreasing_by all_goals omega

def readCase (node : Json) : Except Fault Datum := do
  let pos ← node.fetch "Case"
  let line ← lineDatum pos.1
  let ⟨word, _⟩ ← node.require "Word"
  let argument ← readWord word
  let cases ← (← node.children "Items").mapM fun ⟨item, _⟩ => readClause item
  return .command (.case line (.list argument) (.list cases))
termination_by 6 * sizeOf node + 4
decreasing_by all_goals omega

def readClause (item : Json) : Except Fault Datum := do
  let number ← item.fetch "Op"
  let op ← operator caseOps number.1
  let patterns ← (← item.children "Patterns").mapM fun ⟨word, _⟩ => readWord word
  let body ← readStatements item "Stmts"
  let falls := match op with
    | none => false
    | some .stop => false
    | some _ => true
  return .dict [("cpattern", .list (patterns.map Datum.list)), ("cbody", body),
    ("fallthrough", .bool falls)]
termination_by 6 * sizeOf item + 4
decreasing_by all_goals omega

def readSubshell (node : Json) : Except Fault Datum := do
  let pos ← node.fetch "Lparen"
  let line ← lineDatum pos.1
  let body ← readStatements node "Stmts"
  return .command (.subshell line body (.list []))
termination_by 6 * sizeOf node + 4
decreasing_by all_goals omega

def readBlock (node : Json) : Except Fault Datum := do
  let body ← readStatements node "Stmts"
  return .command (.group body)
termination_by 6 * sizeOf node + 4
decreasing_by all_goals omega

def readFunction (node : Json) : Except Fault Datum := do
  let pos ← node.fetch "Position"
  let line ← lineOrNone pos.1
  let literal ← node.fetch "Name"
  let name ← literalCells literal.1
  let ⟨stmt, _⟩ ← node.require "Body"
  let body ← readStatement stmt
  let reserved ← node.fetch "RsrvWord"
  return .command (.defun line (.list name) body (.bool reserved.1.truthy))
termination_by 6 * sizeOf node + 4
decreasing_by all_goals omega

def readArithmCommand (node : Json) : Except Fault Datum := do
  let pos ← node.fetch "Left"
  let line ← lineOrNone pos.1
  let ⟨expr, _⟩ ← node.fetch "X"
  let body ← readArithmWords expr
  return .command (.arith line body)
termination_by 6 * sizeOf node + 4
decreasing_by all_goals omega

def readTime (node : Json) : Except Fault Datum := do
  let ⟨stmt, _⟩ ← node.fetch "Stmt"
  let inner ← if stmt.isNull then pure (.command .empty) else readStatement stmt
  let posix ← node.fetch "PosixFormat"
  return .command (.time (.bool posix.1.truthy) inner)
termination_by 6 * sizeOf node + 4
decreasing_by all_goals omega

def readCoproc (node : Json) : Except Fault Datum := do
  let ⟨word, _⟩ ← node.fetch "Name"
  let name ← if word.truthy then readWord word else pure []
  let ⟨stmt, _⟩ ← node.fetch "Stmt"
  let body ← readStatement stmt
  return .command (.coproc (.list name) body)
termination_by 6 * sizeOf node + 4
decreasing_by all_goals omega

/-- Read a declaration, whose assignments are words. -/
def readDecl (node : Json) : Except Fault Datum := do
  let variant ← node.fetch "Variant"
  let head ←
    if variant.1.truthy then do
      let name ← cellsOf (← variant.1.textField "Value")
      pure [name]
    else pure []
  let words ← (← node.children "Args").mapM fun ⟨assign, _⟩ => do
    cellsOf (← assignText assign)
  return wordsCommand (-1) (head ++ words)
termination_by 6 * sizeOf node + 4
decreasing_by all_goals omega

def readLet (node : Json) : Except Fault Datum := do
  let exprs ← (← node.children "Exprs").mapM fun ⟨expr, _⟩ => arithmText expr
  return wordsCommand (-1) (cells "let" :: exprs.map cells)
termination_by 6 * sizeOf node + 4
decreasing_by all_goals omega

/-- Read a test between double brackets, which becomes a simple command. -/
def readTest (node : Json) : Except Fault Datum := do
  let ⟨expr, _⟩ ← node.fetch "X"
  let words ← readTestWords expr
  return wordsCommand (-1) (cells "[[" :: words ++ [cells "]]"])
termination_by 6 * sizeOf node + 4
decreasing_by all_goals omega

/-- Read a test function, which becomes a simple command of one word. -/
def readTestDecl (node : Json) : Except Fault Datum := do
  let ⟨word, _⟩ ← node.fetch "Description"
  let description ← textOf (← readWord word)
  let ⟨stmt, _⟩ ← node.fetch "Body"
  let body ← readStatement stmt
  let inner ← required (← body.shellText)
  let block := if body.isTag .group then inner else "\x7b " ++ inner ++ " ; \x7d"
  let pos ← node.fetch "Position"
  let line := (← lineOf pos.1).getD 0
  return wordsCommand (if line = 0 then -1 else line)
    [cells ("@test " ++ description ++ " " ++ block)]
termination_by 6 * sizeOf node + 4
decreasing_by all_goals omega

/-- Read an assignment; one that the command cannot hold becomes a word. -/
def readAssign (node : Json) : Except Fault Assigned := do
  let append ← node.fetch "Append"
  let array ← node.fetch "Array"
  let index ← node.fetch "Index"
  let naked ← node.fetch "Naked"
  if append.1.truthy || array.1.truthy || index.1.truthy || naked.1.truthy then
    let text ← assignText node
    return .argument (← cellsOf text)
  else
    let name ← node.fetch "Name"
    let ⟨word, _⟩ ← node.fetch "Value"
    let var := if name.1.isObject then (name.1.get? "Value").getD .null else .str ""
    let value ← if word.truthy then readWord word else pure []
    return .assignment (.assign (Datum.ofJson var) (.list value))
termination_by 6 * sizeOf node + 3
decreasing_by all_goals omega

/-- The text of an assignment; a name that stands alone is taken as it is found. -/
def assignText (node : Json) : Except Fault Json := do
  let name ← node.fetch "Name"
  let var := if name.1.isObject then (name.1.get? "Value").getD .null else .str ""
  let ⟨value, _⟩ ← node.fetch "Value"
  let ⟨array, _⟩ ← node.fetch "Array"
  let ⟨index, _⟩ ← node.fetch "Index"
  let append ← node.fetch "Append"
  let naked ← node.fetch "Naked"
  if naked.1.truthy then
    if var.truthy then return var
    else if value.truthy then
      let parts ← readWord value
      return .str (← textOf parts)
    else return .str ""
  else
    let place ←
      if index.truthy then do
        let inner ← arithmText index
        pure ("[" ++ inner ++ "]")
      else pure ""
    let assigned ←
      if array.truthy then arrayText array
      else if value.truthy then do
        let parts ← readWord value
        textOf parts
      else pure ""
    return .str ((← shown var) ++ place ++ (if append.1.truthy then "+=" else "=") ++ assigned)
termination_by 6 * sizeOf node + 2
decreasing_by all_goals omega

def arrayText (node : Json) : Except Fault String := do
  let elems ← (← node.children "Elems").mapM fun ⟨elem, _⟩ => elementText elem
  return "(" ++ String.intercalate " " (elems.filterMap id) ++ ")"
termination_by 6 * sizeOf node + 2
decreasing_by all_goals omega

/-- The text of an element of an array, which may have an index. -/
def elementText (elem : Json) : Except Fault (Option String) := do
  let ⟨index, _⟩ ← elem.fetch "Index"
  let ⟨value, _⟩ ← elem.fetch "Value"
  if index.isNull then
    if value.isNull then return none
    else
      let parts ← readWord value
      return some (← textOf parts)
  else
    let inner ← arithmText index
    let parts ← if value.isNull then pure [] else readWord value
    return some ("[" ++ inner ++ "]=" ++ (← textOf parts))
termination_by 6 * sizeOf elem + 2
decreasing_by all_goals omega

def readWord (word : Json) : Except Fault (List Datum) := do
  match word with
  | .null => return []
  | other => do
      let parts ← (← other.children "Parts").mapM fun ⟨part, _⟩ => readPart part
      return parts.flatten
termination_by 6 * sizeOf word + 0
decreasing_by all_goals omega

def readPart (part : Json) : Except Fault (List Datum) := do
  match ← literal? source part with
  | some text => return cells text
  | none => do
      let kind ← part.fetch "Type"
      match kindOf? kind.1 with
      | some .literal => do cellsOf (← part.textField "Value")
      | some .singleQuoted => do
          let inner ← cellsOf (← part.textField "Value")
          return [.part (.quoted (.list inner))]
      | some .doubleQuoted => do
          let parts ← (← part.children "Parts").mapM fun ⟨inner, _⟩ => readPart inner
          return [.part (.quoted (.list parts.flatten))]
      | some .param => do
          let text ← paramText part
          return cells text
      | some .commandSubst => do
          let command ← readStatements part "Stmts"
          return [.part (.command command)]
      | some .arithmExpansion => do
          let ⟨expr, _⟩ ← part.fetch "X"
          let text ← arithmText expr
          return [.part (.arith (.list (cells text)))]
      | some .processSubst => do
          let number ← part.fetch "Op"
          let op ← operator processOps number.1
          let command ← readStatements part "Stmts"
          return [.part (.process (.text (op.getD "<(")) command)]
      | some .extGlob => do
          let text ← globText part
          return cells text
      | some .braces => do
          let text ← bracesText part
          return cells text
      | _ => refuse .wordPart kind.1
termination_by 6 * sizeOf part + 3
decreasing_by all_goals omega

/-- The words of an arithmetic expression: one, or none if there is no expression. -/
def readArithmWords (expr : Json) : Except Fault Datum := do
  if expr.truthy then
    let text ← arithmText expr
    return .list [.list (cells text)]
  else return .list []
termination_by 6 * sizeOf expr + 2
decreasing_by all_goals omega

def arithmText (expr : Json) : Except Fault String := do
  let kind ← expr.fetch "Type"
  match kindOf? kind.1 with
  | some .word => do
      let parts ← readWord expr
      textOf parts
  | some .binaryArithm => do
      let number ← expr.fetch "Op"
      match ← operator arithmOps number.1 with
      | none => refuse .arithmeticOperator number.1
      | some op => do
          let ⟨x, _⟩ ← expr.require "X"
          let left ← arithmText x
          let ⟨y, _⟩ ← expr.require "Y"
          let right ← arithmText y
          return left ++ " " ++ op ++ " " ++ right
  | some .unaryArithm => do
      let number ← expr.fetch "Op"
      match ← operator arithmOps number.1 with
      | none => refuse .unaryOperator number.1
      | some op => do
          let ⟨x, _⟩ ← expr.require "X"
          let inner ← arithmText x
          let post ← expr.fetch "Post"
          return if post.1.truthy then inner ++ op else op ++ inner
  | some .parenArithm => do
      let ⟨x, _⟩ ← expr.require "X"
      let inner ← arithmText x
      return "(" ++ inner ++ ")"
  | _ => refuse .arithmeticExpression kind.1
termination_by 6 * sizeOf expr + 1
decreasing_by all_goals omega

def paramText (node : Json) : Except Fault String := do
  let name ← paramName node
  let short ← node.fetch "Short"
  let ⟨index, _⟩ ← node.fetch "Index"
  if short.1.truthy && !index.truthy then
    return "$" ++ (← shown name)
  else
    let length ← node.fetch "Length"
    if length.1.truthy then return "$\x7b#" ++ (← textValue name) ++ "\x7d"
    else
      let excl ← node.fetch "Excl"
      let flags ← node.fetch "Flags"
      let flagText ←
        if flags.1.truthy then do
          let value ← flags.1.textField "Value"
          pure ("(" ++ (← shown value) ++ ")")
        else pure ""
      let called ← textValue name
      let indexText ←
        if index.truthy then do
          let inner ← arithmText index
          pure ("[" ++ inner ++ "]")
        else pure ""
      let ⟨slice, _⟩ ← node.fetch "Slice"
      let slicePart ← if slice.truthy then sliceRange slice else pure ""
      let ⟨repl, _⟩ ← node.fetch "Repl"
      let replPart ← if repl.truthy then replacementText repl else pure ""
      let names ← node.fetch "Names"
      let opened :=
        if names.1.truthy then
          "$\x7b!" ++ called ++ (if (Datum.ofJson names.1).isInt 1 then "*" else "@")
        else
          "$\x7b" ++ (if excl.1.truthy then "!" else "") ++ flagText ++ called ++ indexText ++
            slicePart ++ replPart
      let ⟨exp, _⟩ ← node.fetch "Exp"
      let expPart ← if exp.truthy then operandText exp else pure ""
      return opened ++ expPart ++ "\x7d"
termination_by 6 * sizeOf node + 2
decreasing_by all_goals omega

/-- The name of a parameter, or the text of what stands for it. -/
def paramName (node : Json) : Except Fault Json := do
  let param ← node.fetch "Param"
  let ⟨nested, _⟩ ← node.fetch "NestedParam"
  if param.1.truthy then param.1.textField "Value"
  else if nested.truthy then
    let kind ← nested.fetch "Type"
    match kindOf? kind.1 with
    | some .param => do
        let text ← paramText nested
        return .str text
    | some .commandSubst => do
        let command ← readStatements nested "Stmts"
        return .str ("$(" ++ inserted (← command.shellText) ++ ")")
    | _ => return .str ""
  else return .str ""
termination_by 6 * sizeOf node + 1
decreasing_by all_goals omega

def sliceRange (node : Json) : Except Fault String := do
  let ⟨offset, _⟩ ← node.fetch "Offset"
  let start ← arithmText offset
  let ⟨length, _⟩ ← node.fetch "Length"
  if length.isNull then return ":" ++ start
  else
    let size ← arithmText length
    return ":" ++ start ++ ":" ++ size
termination_by 6 * sizeOf node + 1
decreasing_by all_goals omega

def replacementText (node : Json) : Except Fault String := do
  let ⟨orig, _⟩ ← node.fetch "Orig"
  let parts ← readWord orig
  let pattern ← textOf parts
  let ⟨word, _⟩ ← node.fetch "With"
  let others ← if word.truthy then readWord word else pure []
  return "/" ++ pattern ++ "/" ++ (← textOf others)
termination_by 6 * sizeOf node + 1
decreasing_by all_goals omega

def operandText (node : Json) : Except Fault String := do
  let number ← node.fetch "Op"
  let op ← operator expansionOps number.1
  let ⟨word, _⟩ ← node.fetch "Word"
  let parts ← readWord word
  return op.getD "" ++ (← textOf parts)
termination_by 6 * sizeOf node + 1
decreasing_by all_goals omega

def bracesText (node : Json) : Except Fault String := do
  let elems ← (← node.children "Elems").mapM fun ⟨word, _⟩ => do
    let parts ← readWord word
    textOf parts
  let isSequence ← node.fetch "Sequence"
  return "\x7b" ++ String.intercalate (if isSequence.1.truthy then ".." else ",") elems ++ "\x7d"
termination_by 6 * sizeOf node + 2
decreasing_by all_goals omega

def readRedir (redir : Json) : Except Fault Datum := do
  let number ← redir.fetch "Op"
  match ← operator redirOps number.1 with
  | none => refuse .redirection number.1
  | some op => do
      let named ← redir.fetch "N"
      let fd ← readFd named.1 (.int (if op.reads then 0 else 1))
      let ⟨word, _⟩ ← redir.fetch "Word"
      match op.form with
      | .file kind => readFileRedir kind fd word
      | .heredoc tabs => readHeredoc tabs fd redir
      | .dup kind => readDup kind fd word
      | .single kind => readSingle kind word
termination_by 6 * sizeOf redir + 4
decreasing_by all_goals omega

def readFileRedir (kind : String) (fd : Datum) (word : Json) : Except Fault Datum := do
  let target ← readWord word
  return .redir (.file (.text kind) fd (.list target))
termination_by 6 * sizeOf word + 1
decreasing_by all_goals omega

def readSingle (kind : String) (word : Json) : Except Fault Datum := do
  let target ← readWord word
  return .redir (.single (.text kind) (.tuple [.text "var", .list target]))
termination_by 6 * sizeOf word + 1
decreasing_by all_goals omega

/-- Read a heredoc; its body is expanded unless its marker is quoted. -/
def readHeredoc (tabs : Bool) (fd : Datum) (redir : Json) : Except Fault Datum := do
  let ⟨word, _⟩ ← redir.fetch "Word"
  let marker ← readWord word
  let delimiter ← textOf marker
  let literal ← wordHasQuotes word
  let ⟨heredoc, _⟩ ← redir.fetch "Hdoc"
  let body ← readWord heredoc
  return .redir (.heredoc (.text (if literal then "Here" else "XHere")) fd (.list body)
    (.bool tabs) (.text delimiter))
termination_by 6 * sizeOf redir + 1
decreasing_by all_goals omega

/-- Read a duplicated descriptor; a dash closes it. -/
def readDup (kind : String) (fd : Datum) (word : Json) : Except Fault Datum := do
  if (← wordLiteral word).isText "-" then return .redir (.single (.text "CloseThis") fd)
  else
    let target ← readTarget word
    return .redir (.dup (.text kind) fd target (.bool false))
termination_by 6 * sizeOf word + 2
decreasing_by all_goals omega

def readTarget (word : Json) : Except Fault Datum := do
  if ← wordIsNumber word then
    return .tuple [.text "fixed", .int (← integerOf (← wordLiteral word))]
  else
    let parts ← readWord word
    return .tuple [.text "var", .list parts]
termination_by 6 * sizeOf word + 1
decreasing_by all_goals omega

def readTestWords (expr : Json) : Except Fault (List (List Datum)) := do
  let kind ← expr.fetch "Type"
  match kindOf? kind.1 with
  | some .word => do
      let parts ← readWord expr
      return [parts]
  | some .unaryTest => do
      let number ← expr.fetch "Op"
      let op ← operator unaryTestOps number.1
      let ⟨x, _⟩ ← expr.fetch "X"
      let inner ← readTestWords x
      return cells (op.getD "") :: inner
  | some .binaryTest => do
      let number ← expr.fetch "Op"
      let op ← operator binaryTestOps number.1
      let ⟨x, _⟩ ← expr.fetch "X"
      let left ← readTestWords x
      let ⟨y, _⟩ ← expr.fetch "Y"
      let right ← readTestWords y
      return left ++ [cells (op.getD "")] ++ right
  | some .parenTest => do
      let ⟨x, _⟩ ← expr.fetch "X"
      let inner ← readTestWords x
      return [cells "("] ++ inner ++ [cells ")"]
  | _ => refuse .testExpression kind.1
termination_by 6 * sizeOf expr + 1
decreasing_by all_goals omega

end

def processText (node : Json) : Except Fault String := do
  let number ← node.fetch "Op"
  let op ← operator processOps number.1
  let command ← readStatements source node "Stmts"
  return op.getD "<(" ++ inserted (← command.shellText) ++ ")"

def valueKind : Json → String
  | .null => "NoneType"
  | .bool _ => "bool"
  | .int _ => "int"
  | .float _ => "float"
  | .str _ => "str"
  | .arr _ => "list"
  | .obj _ => "dict"

def readNode (value : Json) : Except Fault Datum :=
  if value.has "Cmd" || value.has "Redirs" || value.has "Background" || value.has "Negated" then
    readStatement source value
  else if ((value.get? "Type").getD .null).truthy then readCommand source value
  else .error (.notStatement (valueKind value))

def isFile (value : Json) : Bool :=
  ((value.get? "Type").getD .null).isText Kind.file.label

/-- Read the statements of a file, of a list, or a single one. -/
def readNodes (value : Json) : Except Fault (List Datum) :=
  if isFile value then
    match value.get? "Stmts" with
    | none => .ok []
    | some (.arr items) => items.mapM (readNode source)
    | some (.str text) => if text.isEmpty then .ok [] else .error (.notStatement "str")
    | some (.obj fields) => if fields.isEmpty then .ok [] else .error (.notStatement "str")
    | some _ => .error .wrongKind
  else
    match value with
    | .arr items => items.mapM (readNode source)
    | other => do return [← readNode source other]

end Shfmt

end ShellTree
