import ShellTree.Print.Escape
import ShellTree.Print.Marker

/-!
# Shell text

The shell text of a tree.  A construct that prints as nothing gives no text at
all, which shows as the word `None` where a text is inserted and is a fault
where it is joined to another.

Commands whose heredocs stand before an operator print the operator first and
the bodies after it, because a body starts on the line after its marker.
-/

namespace ShellTree

def required : Option String → Except Fault String
  | some text => .ok text
  | none => .error .wrongKind

def requiredAll : List (Option String) → Except Fault (List String)
  | [] => .ok []
  | text :: rest => do
      let first ← required text
      let others ← requiredAll rest
      return first :: others

/-- A text as it is inserted in another. -/
def inserted : Option String → String
  | some text => text
  | none => "None"

/-- A sequence prints without braces where they can be left out. -/
def Datum.bareStyle (datum : Datum) : Style :=
  if datum.isTag .semi then .braces true else .plain

def Datum.holdsHeredoc (redirs : Datum) : Except Fault Bool := do
  let tags ← (← redirs.items).mapM Datum.tag
  return tags.contains .heredoc

/-- Does a command hold heredocs that have to wait for the operator after it? -/
def Datum.defersHeredocs (datum : Datum) : Except Fault Bool :=
  match datum with
  | .command (.simple _ _ _ redirs) => redirs.holdsHeredoc
  | other => do
      let _ ← other.tag
      return false

/-- Put a space around a text in parentheses, which would otherwise open an arithmetic one. -/
def paddedParens (body : String) : String :=
  if body.toList.head? == some '(' && body.toList.getLast? == some ')' then
    " " ++ body ++ " "
  else body

def withBodies (headers : String) (bodies : List String) : String :=
  bodies.foldl
    (fun text body =>
      if text.toList.getLast? == some '\n' then text ++ body else text ++ "\n" ++ body)
    headers

/-- The line feed and the blanks that continue a sequence. -/
def sequenceBreak : String :=
  "\n                "

mutual

/-- The shell text of a datum, if it prints as anything. -/
def Datum.render (style : Style) : Datum → Except Fault (Option String)
  | .command value => value.render style
  | .part value => do
      let mode ← style.quoteMode
      let text ← value.render mode
      return some text
  | .redir value => do
      style.none?
      value.render
  | .assign var val => do
      style.none?
      let name ← var.display
      let value ← val.renderWord .unquoted
      return some (name ++ "=" ++ value)
  | _ => .error .noField

def renderItems : List Datum → Except Fault (List (Option String))
  | [] => .ok []
  | item :: rest => do
      let first ← item.render .plain
      let others ← renderItems rest
      return first :: others

/-- The shell text of the parts of a word; a plain dollar sign before another part is escaped. -/
def renderParts (mode : QuoteMode) : List Datum → Except Fault String
  | [] => .ok ""
  | item :: rest => do
      let text ← item.render (.quoting mode) >>= required
      let safe :=
        match item with
        | .part (.char _ bashMode) =>
            if !bashMode.truthy && text == "$" && !rest.isEmpty then "\\$" else text
        | _ => text
      let others ← renderParts mode rest
      return safe ++ others

def Datum.renderWord (mode : QuoteMode) : Datum → Except Fault String
  | .seq _ items => renderParts mode items
  | .text value => if value.isEmpty then .ok "" else .error .noField
  | .dict fields => if fields.isEmpty then .ok "" else .error .missingKey
  | _ => .error .wrongKind

def renderWordItems : List Datum → Except Fault (List String)
  | [] => .ok []
  | item :: rest => do
      let first ← item.renderWord .unquoted
      let others ← renderWordItems rest
      return first :: others

def Datum.renderWords : Datum → Except Fault (List String)
  | .seq _ items => renderWordItems items
  | other => do
      let entries ← other.entries
      if entries.all String.isEmpty then return entries else .error .noField

/-- The shell text of a descriptor, left out where it is the expected one. -/
def Datum.renderFd : Datum → Datum → Except Fault String
  | .seq _ (kind :: target :: _), expected =>
      if kind.isText "var" then do
        let name ← target.renderWord .unquoted
        return "\x7b" ++ name ++ "\x7d"
      else if expected.truthy then shownUnless expected target
      else target.display
  | .seq _ _, _ => .error .outOfBounds
  | .text value, expected =>
      match value.toList with
      | _ :: second :: _ =>
          if expected.truthy then shownUnless expected (.text (String.singleton second))
          else .ok (String.singleton second)
      | _ => .error .outOfBounds
  | .dict _, _ => .error .missingKey
  | _, _ => .error .wrongKind

/-- What stands on the line of a command for a heredoc. -/
def Redirection.header : Redirection → Except Fault String
  | .heredoc kind fd arg killLeading eof => do
      let body ← arg.renderWord .heredoc
      let marker := if eof.truthy then eof else .text (Marker.fresh body)
      let descriptor ← fd.renderFd (.int 0)
      let operator := descriptor ++ "<<" ++ (if killLeading.truthy then "-" else "")
      match marker with
      | .text word =>
          if kind.isText "XHere" then return operator ++ word
          else return operator ++ "'" ++ word ++ "'"
      | _ => .error .wrongKind
  | _ => .error .noField

/-- What stands below the line of a command for a heredoc. -/
def Redirection.body : Redirection → Except Fault String
  | .heredoc _ _ arg _ eof => do
      let body ← arg.renderWord .heredoc
      let marker := if eof.truthy then eof else .text (Marker.fresh body)
      match marker with
      | .text word => return body ++ word ++ "\n"
      | _ => .error .wrongKind
  | _ => .error .noField

def Datum.header : Datum → Except Fault String
  | .redir value => value.header
  | _ => .error .noField

def Datum.body : Datum → Except Fault String
  | .redir value => value.body
  | _ => .error .noField

def headerItems : List Datum → Except Fault (List String)
  | [] => .ok []
  | item :: rest => do
      if (← item.tag) == .heredoc then do
        let first ← item.header
        let others ← headerItems rest
        return first :: others
      else headerItems rest

def bodyItems : List Datum → Except Fault (List String)
  | [] => .ok []
  | item :: rest => do
      if (← item.tag) == .heredoc then do
        let first ← item.body
        let others ← bodyItems rest
        return first :: others
      else bodyItems rest

def Datum.deferredHeaders : Datum → Except Fault (List String)
  | .command (.simple _ _ _ (.seq _ items)) => headerItems items
  | _ => .ok []

def Datum.deferredBodies : Datum → Except Fault (List String)
  | .command (.simple _ _ _ (.seq _ items)) => bodyItems items
  | _ => .ok []

/-- The line of a list of redirections, with the headers of its heredocs or without. -/
def redirectionLine (omitted : Bool) : List Datum → Except Fault String
  | [] => .ok ""
  | item :: rest => do
      if (← item.tag) == .heredoc then
        if omitted then redirectionLine omitted rest
        else do
          let first ← item.header
          let others ← redirectionLine omitted rest
          return " " ++ first ++ others
      else do
        let first ← item.render .plain >>= required
        let others ← redirectionLine omitted rest
        return " " ++ first ++ others

/-- The shell text of redirections: their line, then the bodies of the heredocs on it. -/
def Datum.renderRedirs (omitted : Bool) : Datum → Except Fault String
  | .seq _ items => do
      let line ← redirectionLine omitted items
      if omitted then return line
      else do
        let bodies ← bodyItems items
        return withBodies line bodies
  | other => do
      if (← other.entries).isEmpty then return "" else .error .noField

/-- The shell text of a list of redirections, with each heredoc written out in its place. -/
def renderItemsInPlace : List Datum → Except Fault String
  | [] => .ok ""
  | item :: rest => do
      let first ← item.render .plain >>= required
      let others ← renderItemsInPlace rest
      return " " ++ first ++ others

def Datum.renderRedirsInPlace : Datum → Except Fault String
  | .seq _ items => renderItemsInPlace items
  | other => do
      if (← other.entries).isEmpty then return "" else .error .noField

def Redirection.render : Redirection → Except Fault (Option String)
  | .file kind fd arg => do
      let out ← fd.renderFd (.int 1)
      let into ← fd.renderFd (.int 0)
      let word ←
        match kind with
        | .text "To" => do
            let target ← arg.renderWord .unquoted
            pure (out ++ "> " ++ target)
        | .text "Clobber" => do
            let target ← arg.renderWord .unquoted
            pure (out ++ ">| " ++ target)
        | .text "From" => do
            let target ← arg.renderWord .unquoted
            pure (into ++ "< " ++ target)
        | .text "FromTo" => do
            let target ← arg.renderWord .unquoted
            pure (into ++ "<> " ++ target)
        | .text "Append" => do
            let target ← arg.renderWord .unquoted
            pure (out ++ ">> " ++ target)
        | .text "ReadingString" => do
            let target ← arg.renderWord .unquoted
            pure (into ++ "<<< " ++ target)
        | _ => .error .unknownRedirection
      return some word
  | .dup kind fd arg move => do
      let text ←
        match arg with
        | .seq _ [] => .error .outOfBounds
        | .seq _ [form] =>
            if form.isText "var" then .error .outOfBounds
            else if form.isText "fixed" then
              if kind.isText "ToFD" then do
                let _ ← fd.renderFd (.int 1)
                .error .outOfBounds
              else if kind.isText "FromFD" then do
                let _ ← fd.renderFd (.int 0)
                .error .outOfBounds
              else pure none
            else .error .invalidTarget
        | .seq _ (form :: target :: _) =>
            if form.isText "var" then do
              let _ ← target.length
              if kind.isText "ToFD" then do
                let out ← fd.renderFd (.int 1)
                let word ← target.renderWord .unquoted
                pure (some (out ++ ">&" ++ word))
              else if kind.isText "FromFD" then do
                let into ← fd.renderFd (.int 0)
                let word ← target.renderWord .unquoted
                pure (some (into ++ "<&" ++ word))
              else pure none
            else if form.isText "fixed" then
              if kind.isText "ToFD" then do
                let out ← fd.renderFd (.int 1)
                let number ← target.display
                pure (some (out ++ ">&" ++ number))
              else if kind.isText "FromFD" then do
                let into ← fd.renderFd (.int 0)
                let number ← target.display
                pure (some (into ++ "<&" ++ number))
              else pure none
            else .error .invalidTarget
        | .text value =>
            if value.isEmpty then .error .outOfBounds else .error .invalidTarget
        | .dict _ => .error .missingKey
        | _ => .error .wrongKind
      if move.truthy then do
        let moved ← required text
        return some (moved ++ "-")
      else return text
  | .heredoc kind fd arg killLeading _ => do
      let body ← arg.renderWord .heredoc
      let marker := Marker.fresh body
      let descriptor ← fd.renderFd (.int 0)
      let operator := descriptor ++ "<<" ++ (if killLeading.truthy then "-" else "")
      let word := if kind.isText "XHere" then marker else "'" ++ marker ++ "'"
      return some (operator ++ word ++ "\n" ++ body ++ marker ++ "\n")
  | .single kind fd =>
      if kind.isText "CloseThis" then do
        let descriptor ← fd.renderFd .null
        return some (descriptor ++ ">&-")
      else if kind.isText "ErrAndOut" then do
        let target ← fd.renderNamedTarget
        return some ("&> " ++ target)
      else if kind.isText "AppendErrAndOut" then do
        let target ← fd.renderNamedTarget
        return some ("&>> " ++ target)
      else .error .unknownRedirection

def Datum.renderNamedTarget : Datum → Except Fault String
  | .seq _ [] => .error .outOfBounds
  | .seq _ [form] => if form.isText "var" then .error .outOfBounds else .error .unnamedTarget
  | .seq _ (form :: target :: _) =>
      if form.isText "var" then target.renderWord .unquoted else .error .unnamedTarget
  | .text value => if value.isEmpty then .error .outOfBounds else .error .unnamedTarget
  | .dict _ => .error .missingKey
  | _ => .error .wrongKind

def WordPart.render (mode : QuoteMode) : WordPart → Except Fault String
  | .char code _ => do
      let c ← code.char
      if mode == .quoted && c == '"' then return "\\\"" else return String.singleton c
  | .escaped code => Escape.text mode code
  | .tilde user =>
      match user with
      | .text value =>
          if value = "None" then .ok "~"
          else if value.length = 2 then .error .unknownTilde
          else .error (.oddTilde value)
      | .seq _ [kind, name] =>
          if kind.isText "Some" then
            match name with
            | .text value => .ok ("~" ++ value)
            | _ => .error .wrongKind
          else .error .unknownTilde
      | .seq .list items => do
          let shown ← (Datum.list items).display
          .error (.oddTilde shown)
      | .seq .tuple [item] => do
          let shown ← item.display
          .error (.oddTilde shown)
      | .dict fields =>
          if fields.length = 2 then .error .missingKey
          else do
            let shown ← (Datum.dict fields).display
            .error (.oddTilde shown)
      | _ => .error .wrongKind
  | .arith arg => do
      let inner ← arg.renderWord mode
      return "$((" ++ inner ++ "))"
  | .param format nullTest var arg =>
      match var with
      | .text name =>
          if format.isText "Length" then .ok ("$\x7b#" ++ name ++ "\x7d")
          else do
            let flag ← nullTest.display
            let colon ←
              if flag.toLower = "true" then pure ":"
              else if flag.toLower = "false" then pure ""
              else .error .unknownNullTest
            let operator ← expansionOperator format
            let word ← arg.renderWord mode
            return "$\x7b" ++ name ++ colon ++ operator ++ word ++ "\x7d"
      | _ => .error .wrongKind
  | .quoted arg => do
      let inner ← arg.renderWord .quoted
      return "\"" ++ inner ++ "\""
  | .command node => do
      let body ← node.render .plain >>= required
      return "$(" ++ paddedParens body ++ ")"
  | .process op node => do
      let body ← node.render .plain >>= required
      let mark ← op.display
      return mark ++ paddedParens body ++ ")"

def clauseBody : List (String × Datum) → Except Fault (Option String)
  | [] => .error .missingKey
  | (key, value) :: rest =>
      if key = "cbody" then
        if value.truthy then do
          let text ← value.render .plain
          if (text.getD "").isEmpty || !value.isTag .semi then return text
          else value.render (.braces true)
        else .ok (some "")
      else clauseBody rest

def clausePatterns : List (String × Datum) → Except Fault (List String)
  | [] => .error .missingKey
  | (key, value) :: rest =>
      if key = "cpattern" then
        match value with
        | .seq _ [] => .error .outOfBounds
        | .seq _ (first :: others) => do
            let pattern ← first.renderWord .unquoted
            let patterns ← renderWordItems others
            return pattern :: patterns
        | .text word => if word.isEmpty then .error .outOfBounds else .error .noField
        | .dict _ => .error .missingKey
        | _ => .error .wrongKind
      else clausePatterns rest

def Datum.renderClause : Datum → Except Fault String
  | .dict fields => do
      match fields.lookup "cpattern" with
      | none => .error .missingKey
      | some patterns => if patterns.iterable then pure () else .error .wrongKind
      let body ← clauseBody fields
      let patterns ← clausePatterns fields
      let delimiter :=
        if ((fields.lookup "fallthrough").getD .null).truthy then ";&" else ";;"
      return (if patterns.head? == some "esac" then "(" else "") ++
        String.intercalate "|" patterns ++ ") " ++ inserted body ++ delimiter
  | _ => .error .wrongKind

def renderClauseItems : List Datum → Except Fault (List String)
  | [] => .ok []
  | item :: rest => do
      let first ← item.renderClause
      let others ← renderClauseItems rest
      return first :: others

def Datum.renderClauses : Datum → Except Fault (List String)
  | .seq _ items => renderClauseItems items
  | other => do
      if (← other.entries).isEmpty then return [] else .error .wrongKind

def Command.render (style : Style) : Command → Except Fault (Option String)
  | .pipe behind items => do
      style.none?
      match items with
      | .seq _ [] => .error .outOfBounds
      | .seq _ (first :: rest) => do
          if (← first.defersHeredocs) then do
            let headers ← first.deferredHeaders
            let bodies ← first.deferredBodies
            let start ← first.render (.heredocs true)
            let others ← renderItems rest >>= requiredAll
            return some (inserted start ++ " " ++ String.intercalate " " headers ++
              " |             " ++ String.intercalate " | " others ++ "\n" ++
              String.intercalate " " bodies.reverse)
          else do
            let start ← first.render .plain
            let others ← renderItems rest
            let texts ← requiredAll (start :: others)
            let line := String.intercalate " | " texts
            return some (if behind.truthy then inBackground false line else line)
      | .text value => if value.isEmpty then .error .outOfBounds else .error .noField
      | .dict _ => .error .missingKey
      | _ => .error .wrongKind
  | .simple _ assignments arguments redirs => do
      let omitted ← style.heredocsOmitted
      let assigned ←
        match assignments with
        | .seq _ items => renderItems items >>= requiredAll
        | other => do
            if (← other.entries).isEmpty then pure [] else .error .noField
      let words ← arguments.renderWords
      let redirected ← redirs.renderRedirs omitted
      return some (String.intercalate " " assigned ++
        (if assigned.isEmpty || words.isEmpty then "" else " ") ++
        String.intercalate " " words ++ redirected)
  | .subshell _ body redirs => do
      style.none?
      if (← body.tag) == .semi then do
        let inner ← body.render (.braces true)
        let redirected ← redirs.renderRedirs false
        return some ("( " ++ inserted inner ++ " )" ++ redirected)
      else do
        let inner ← body.render .plain
        let redirected ← redirs.renderRedirs false
        return some (inParens ((← required inner) ++ redirected))
  | .and left right noBraces => do
      style.none?
      if (← left.defersHeredocs) then do
        let headers ← left.deferredHeaders
        let bodies ← left.deferredBodies
        let first ← left.render (.heredocs true) >>= required
        let second ← right.render .plain
        if noBraces.truthy then
          return some (first ++ " " ++ String.intercalate " " headers ++ " &&\n" ++
            String.intercalate " " bodies.reverse ++ "                 " ++ inserted second)
        else do
          let closed ← required second
          return some (inBraces first ++ " " ++ String.intercalate " " headers ++ " &&\n" ++
            String.intercalate " " bodies.reverse ++ "                 " ++ inBraces closed)
      else if noBraces.truthy then do
        let first ← left.render .plain
        let second ← right.render .plain
        return some (inserted first ++ " && " ++ inserted second)
      else do
        let first ← left.render .plain >>= required
        let second ← right.render .plain >>= required
        return some (inBraces first ++ " && " ++ inBraces second)
  | .or left right noBraces => do
      style.none?
      if noBraces.truthy then do
        let first ← left.render .plain
        let second ← right.render .plain
        return some (inserted first ++ " || " ++ inserted second)
      else do
        let first ← left.render .plain >>= required
        let second ← right.render .plain >>= required
        return some (inBraces first ++ " || " ++ inBraces second)
  | .semi left right semicolon => do
      let omitted ← style.bracesOmitted
      if semicolon.truthy then do
        let first ← left.render .plain
        let second ← right.render .plain
        return some (inserted first ++ " ; " ++ inserted second)
      else if omitted then do
        let first ← left.render left.bareStyle
        let second ← right.render right.bareStyle
        return some (inserted first ++ sequenceBreak ++ inserted second)
      else do
        let first ← left.render .plain >>= required
        let second ← right.render .plain >>= required
        return some (inBraces first ++ "\n" ++ inBraces second)
  | .not body noBraces => do
      style.none?
      let inner ← body.render .plain
      if noBraces.truthy then return some ("! " ++ inserted inner)
      else do
        let closed ← required inner
        return some ("! " ++ inBraces closed)
  | .redirected _ node redirs => do
      style.none?
      let inner ← node.render .plain
      let redirected ← redirs.renderRedirs false
      return some ((← required inner) ++ redirected)
  | .background _ node redirs after noBraces => do
      style.none?
      if !after.truthy then do
        let inner ← node.render .plain
        let redirected ← redirs.renderRedirs false
        return some (inBackground noBraces.truthy ((← required inner) ++ redirected))
      else do
        let tag ← after.tag
        let inner ← node.render .plain
        let redirected ← redirs.renderRedirs false
        let start := (← required inner) ++ redirected ++ " "
        let next ← after.render .plain >>= required
        match after with
        | .command (.background _ _ _ more _) =>
            return some (start ++ next ++ (if more.truthy then " &" else ""))
        | _ =>
            if tag == .background then return some (start ++ next)
            else return some (start ++ " &" ++ next)
  | .defun _ name body bashMode => do
      style.none?
      let tag ← body.tag
      let called ← name.renderWord .unquoted
      let inner ← body.render (if tag == .group then .braces true else .plain) >>= required
      return some ((if bashMode.truthy then "function " else "") ++ called ++ " () \x7b\n" ++
        inner ++ "\n\x7d")
  | .forLoop _ argument body name => do
      style.none?
      let called ← name.renderWord .unquoted
      let words ← argument.renderWords
      let inner ← body.render body.bareStyle
      return some ("for " ++ called ++ " in " ++ String.intercalate " " words ++
        "; \n do         " ++ inserted inner ++ "\ndone")
  | .whileLoop (.command (.not test _)) body => do
      style.none?
      let tested ← test.render test.bareStyle
      let inner ← body.render body.bareStyle
      return some ("until " ++ inserted tested ++ "; do             " ++ inserted inner ++
        "; done ")
  | .whileLoop test body => do
      style.none?
      let tested ← test.render test.bareStyle
      let inner ← body.render body.bareStyle
      return some ("while " ++ inserted tested ++ "; do             " ++ inserted inner ++
        "; done ")
  | .ifElse test thenBranch elseBranch => do
      style.none?
      let tested ← test.render test.bareStyle
      let first ← thenBranch.render thenBranch.bareStyle
      let start := "if " ++ inserted tested ++ "        ; then " ++ inserted first
      if !elseBranch.truthy then return some (start ++ "; fi")
      else if (← elseBranch.isEmptyCommand) then return some (start ++ "; fi")
      else if elseBranch.isTag .ifElse then do
        let second ← elseBranch.render .plain >>= required
        return some (start ++ "; el" ++ second)
      else do
        let second ← elseBranch.render elseBranch.bareStyle
        return some (start ++ "; else " ++ inserted second ++ "; fi")
  | .case _ argument cases => do
      style.none?
      let word ← argument.renderWord .unquoted
      let clauses ← cases.renderClauses
      return some ("case " ++ word ++ " in " ++ String.intercalate " " clauses ++ " esac")
  | .select _ name body choices => do
      style.none?
      let called ← name.renderWord .unquoted
      let words ← choices.renderWords
      let inner ← body.render .plain
      return some ("select " ++ called ++ " in " ++ String.intercalate " " words ++
        ";\ndo\n" ++ inserted inner ++ "\ndone")
  | .arith _ body => do
      style.none?
      let words ← body.renderWords
      return some ("((" ++ String.intercalate " " words ++ "))")
  | .cond _ kind op left right inverted => do
      let shown ← style.bracketsShown
      let inner ←
        if kind.isInt CondKind.expr.number then do
          let first ← left.render (.brackets false) >>= required
          pure ("( " ++ first ++ " )")
        else if kind.isInt CondKind.and.number then do
          let first ← left.render (.brackets false) >>= required
          let second ← right.render (.brackets false) >>= required
          pure (first ++ " && " ++ second)
        else if kind.isInt CondKind.or.number then do
          let first ← left.render (.brackets false) >>= required
          let second ← right.render (.brackets false) >>= required
          pure (first ++ " || " ++ second)
        else if kind.isInt CondKind.unary.number then do
          let operator ← op.renderWord .unquoted
          let first ← left.render (.brackets false) >>= required
          pure (operator ++ " " ++ first)
        else if kind.isInt CondKind.binary.number then do
          let first ← left.render (.brackets false) >>= required
          let operator ← op.renderWord .unquoted
          let second ← right.render (.brackets false) >>= required
          pure (first ++ " " ++ operator ++ " " ++ second)
        else if kind.isInt CondKind.term.number then op.renderWord .unquoted
        else .error .invalidCondition
      return some ((if shown then "[[ " else "") ++ (if inverted.truthy then "! " else "") ++
        inner ++ (if shown then " ]]" else ""))
  | .arithFor _ start test step action => do
      style.none?
      let first ← start.renderWords
      let second ← test.renderWords
      let third ← step.renderWords
      let inner ← action.render action.bareStyle
      return some ("for ((" ++ String.intercalate " " first ++ "; " ++
        String.intercalate " " second ++ "; " ++ String.intercalate " " third ++
        "));         do " ++ inserted inner ++ "; done")
  | .coproc name body => do
      style.none?
      if (← body.tag) == .simple then do
        let inner ← body.render .plain
        return some ("coproc " ++ inserted inner)
      else do
        let called ← name.renderWord .unquoted
        let inner ← body.render .plain
        return some ("coproc " ++ called ++ " " ++ inserted inner)
  | .time posix node => do
      style.none?
      let inner ← node.render .plain
      return some ((if posix.truthy then "time -p " else "time ") ++ inserted inner)
  | .group body => do
      let omitted ← style.bracesOmitted
      let tag ← body.tag
      let deferred ← body.defersHeredocs
      if omitted then body.render body.bareStyle
      else do
        let inner ← body.render body.bareStyle >>= required
        let closed : Bool :=
          match body with
          | .command (.background _ _ _ after _) => !after.truthy
          | _ => tag != .semi && deferred
        return some ("\x7b " ++ inner ++ (if closed then " \x7d" else "; \x7d"))

end

def Datum.shellText (datum : Datum) : Except Fault (Option String) :=
  datum.render .plain

end ShellTree
