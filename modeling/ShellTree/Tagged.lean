import ShellTree.Tree.Basic

/-!
# Reading the tagged form

The tagged form of a tree is JSON in which every construct is a pair of a tag
and its fields.  What is not a construct is kept as it stands, so line numbers,
flags and code points are taken on trust.

A pair may also be written as a text of two characters or as an object of two
fields, whose keys then count as the pair.  Such a pair has a text beside its
tag; a text has characters for its fields, and these are rarely what is asked
for, which the functions on texts below spell out.
-/

namespace ShellTree

namespace Tagged

/-- A sequence is missing an item that is asked for, or is no sequence. -/
def itemFault : Json → Fault
  | .arr _ => .outOfBounds
  | .str _ => .outOfBounds
  | .obj _ => .missingKey
  | _ => .wrongKind

/-- A text is asked for a field that no single character can be. -/
def textFault (place : Nat) (text : String) : Fault :=
  if text.length ≤ place then .outOfBounds else .wrongLength

def pairFault (unknown : Fault) (text : String) : Fault :=
  if text.length = 2 then unknown else .wrongLength

/-- The tags of commands, with the place of the first field that is itself a construct. -/
def commandTags : List (Tag × Nat) :=
  [(.pipe, 1), (.simple, 1), (.subshell, 1), (.and, 0), (.or, 0), (.semi, 0),
    (.redirected, 1), (.background, 1), (.defun, 2), (.forLoop, 1), (.whileLoop, 0),
    (.ifElse, 0), (.case, 1)]

def commandFault (tag : Option Tag) (fields : Json) : Fault :=
  match tag.bind fun known => commandTags.lookup known with
  | none => .unknownCommand
  | some place =>
      match fields with
      | .str text => textFault place text
      | other => itemFault other

/-- A word of plain characters from a text, an array of characters or the keys of an object. -/
def nameWord : Json → Except Fault Datum
  | .str text => .ok (wordOf false text.toList)
  | .arr items => do
      let chars ← items.mapM fun item =>
        match item with
        | .str text =>
            match text.toList with
            | [c] => Except.ok c
            | _ => .error .wrongKind
        | _ => .error .wrongKind
      return wordOf false chars
  | .obj fields => do
      let chars ← fields.mapM fun field =>
        match field.1.toList with
        | [c] => Except.ok c
        | _ => .error Fault.wrongKind
      return wordOf false chars
  | _ => .error .wrongKind

/-- A word that is given as a text: only the empty one is a word. -/
def textWord (text : String) : Except Fault Datum :=
  if text.isEmpty then .ok (.list []) else .error .wrongLength

def textPart (tag text : String) : Except Fault Datum :=
  match Tag.ofLabel? tag with
  | some .char => .ok (.part (.char (.text text) (.bool false)))
  | some .escaped => .ok (.part (.escaped (.text text)))
  | some .tilde => .ok (.part (.tilde (.text text)))
  | some .arithPart => do return .part (.arith (← textWord text))
  | some .quoted => do return .part (.quoted (← textWord text))
  | some .param => .error (textFault 3 text)
  | some .commandPart => .error (pairFault .unknownCommand text)
  | some .process => .error (textFault 1 text)
  | _ => .error .unknownPart

/-- A part of a word that is given as a text of two characters. -/
def shortPart (text : String) : Except Fault Datum :=
  match text.toList with
  | [tag, value] => textPart (String.singleton tag) (String.singleton value)
  | _ => .error .wrongLength

def fixedFd (number : Json) : Datum :=
  .tuple [.text "fixed", Datum.ofJson number]

def redirFault (tag : Option Tag) (fields : Json) : Fault :=
  let known := tag = some .file ∨ tag = some .dup ∨ tag = some .heredoc
  if known then
    match fields with
    | .str text => textFault 2 text
    | other => itemFault other
  else .unknownRedirection

mutual

def readCommand : Json → Except Fault Datum
  | .arr [.str tag, fields] =>
      if tag = Tag.not.label then do
        return .command (.not (← readCommand fields) (.bool false))
      else readFields (Tag.ofLabel? tag) fields
  | .arr [_, _] => .error .unknownCommand
  | .arr _ => .error .wrongLength
  | .str text => .error (pairFault .unknownCommand text)
  | .obj [(tag, _), (text, _)] =>
      if tag = Tag.not.label then .error (pairFault .unknownCommand text)
      else .error (commandFault (Tag.ofLabel? tag) (.str text))
  | .obj _ => .error .wrongLength
  | _ => .error .wrongKind

def readFields (tag : Option Tag) : Json → Except Fault Datum
  | .arr fields =>
      match tag with
      | some .pipe =>
          match fields with
          | behind :: items :: _ => do
              return .command (.pipe (Datum.ofJson behind) (← readCommands items))
          | _ => .error .outOfBounds
      | some .simple =>
          match fields with
          | line :: assignments :: rest => do
              let assigned ← readAssigns assignments
              match rest with
              | arguments :: more => do
                  let words ← readWords arguments
                  match more with
                  | redirs :: _ => do
                      return .command (.simple (Datum.ofJson line) assigned words
                        (← readRedirs redirs))
                  | [] => .error .outOfBounds
              | [] => .error .outOfBounds
          | _ => .error .outOfBounds
      | some .subshell =>
          match fields with
          | line :: body :: rest => do
              let inner ← readCommand body
              match rest with
              | redirs :: _ => do
                  return .command (.subshell (Datum.ofJson line) inner (← readRedirs redirs))
              | [] => .error .outOfBounds
          | _ => .error .outOfBounds
      | some .and =>
          match fields with
          | left :: rest => do
              let first ← readCommand left
              match rest with
              | right :: _ => do
                  return .command (.and first (← readCommand right) (.bool false))
              | [] => .error .outOfBounds
          | [] => .error .outOfBounds
      | some .or =>
          match fields with
          | left :: rest => do
              let first ← readCommand left
              match rest with
              | right :: _ => do
                  return .command (.or first (← readCommand right) (.bool false))
              | [] => .error .outOfBounds
          | [] => .error .outOfBounds
      | some .semi =>
          match fields with
          | left :: rest => do
              let first ← readCommand left
              match rest with
              | right :: _ => do
                  return .command (.semi first (← readCommand right) (.bool false))
              | [] => .error .outOfBounds
          | [] => .error .outOfBounds
      | some .redirected =>
          match fields with
          | line :: node :: rest => do
              let inner ← readCommand node
              match rest with
              | redirs :: _ => do
                  return .command (.redirected (Datum.ofJson line) inner (← readRedirs redirs))
              | [] => .error .outOfBounds
          | _ => .error .outOfBounds
      | some .background =>
          match fields with
          | line :: node :: rest => do
              let inner ← readCommand node
              match rest with
              | redirs :: _ => do
                  return .command (.background (Datum.ofJson line) inner (← readRedirs redirs)
                    .null (.bool false))
              | [] => .error .outOfBounds
          | _ => .error .outOfBounds
      | some .defun =>
          match fields with
          | line :: name :: rest => do
              let called ← nameWord name
              match rest with
              | body :: _ => do
                  return .command (.defun (Datum.ofJson line) called (← readCommand body)
                    (.bool false))
              | [] => .error .outOfBounds
          | _ => .error .outOfBounds
      | some .forLoop =>
          match fields with
          | line :: argument :: rest => do
              let words ← readWords argument
              match rest with
              | body :: more => do
                  let inner ← readCommand body
                  match more with
                  | name :: _ => do
                      return .command (.forLoop (Datum.ofJson line) words inner
                        (← nameWord name))
                  | [] => .error .outOfBounds
              | [] => .error .outOfBounds
          | _ => .error .outOfBounds
      | some .whileLoop =>
          match fields with
          | test :: rest => do
              let tested ← readCommand test
              match rest with
              | body :: _ => do
                  return .command (.whileLoop tested (← readCommand body))
              | [] => .error .outOfBounds
          | [] => .error .outOfBounds
      | some .ifElse =>
          match fields with
          | test :: rest => do
              let tested ← readCommand test
              match rest with
              | thenBranch :: more => do
                  let first ← readCommand thenBranch
                  match more with
                  | elseBranch :: _ => do
                      return .command (.ifElse tested first (← readCommand elseBranch))
                  | [] => .error .outOfBounds
              | [] => .error .outOfBounds
          | [] => .error .outOfBounds
      | some .case =>
          match fields with
          | line :: argument :: rest => do
              let word ← readWord argument
              match rest with
              | clauses :: _ => do
                  return .command (.case (Datum.ofJson line) word (← readClauses clauses))
              | [] => .error .outOfBounds
          | _ => .error .outOfBounds
      | _ => .error .unknownCommand
  | other => .error (commandFault tag other)

def readCommandItems : List Json → Except Fault (List Datum)
  | [] => .ok []
  | item :: rest => do
      let first ← readCommand item
      let others ← readCommandItems rest
      return first :: others

def readCommands : Json → Except Fault Datum
  | .arr items => do return .list (← readCommandItems items)
  | .str text => if text.isEmpty then .ok (.list []) else .error .wrongLength
  | .obj fields =>
      match fields with
      | [] => .ok (.list [])
      | (text, _) :: _ => .error (pairFault .unknownCommand text)
  | _ => .error .wrongKind

def readAssign : Json → Except Fault Datum
  | .arr [name, value] => do return .assign (Datum.ofJson name) (← readWord value)
  | .arr _ => .error .wrongLength
  | .str _ => .error .wrongLength
  | .obj [(name, _), (value, _)] => do return .assign (.text name) (← textWord value)
  | .obj _ => .error .wrongLength
  | _ => .error .wrongKind

def readAssignItems : List Json → Except Fault (List Datum)
  | [] => .ok []
  | item :: rest => do
      let first ← readAssign item
      let others ← readAssignItems rest
      return first :: others

def readAssigns : Json → Except Fault Datum
  | .arr items => do return .list (← readAssignItems items)
  | .str text => if text.isEmpty then .ok (.list []) else .error .wrongLength
  | .obj fields => if fields.isEmpty then .ok (.list []) else .error .wrongLength
  | _ => .error .wrongKind

def readRedir : Json → Except Fault Datum
  | .arr [.str tag, .arr fields] =>
      match Tag.ofLabel? tag with
      | some .file =>
          match fields with
          | kind :: fd :: word :: _ => do
              return .redir (.file (Datum.ofJson kind) (fixedFd fd) (← readWord word))
          | _ => .error .outOfBounds
      | some .dup =>
          match fields with
          | kind :: fd :: word :: _ => do
              return .redir (.dup (Datum.ofJson kind) (fixedFd fd)
                (.tuple [.text "var", ← readWord word]) (.bool false))
          | _ => .error .outOfBounds
      | some .heredoc =>
          match fields with
          | kind :: fd :: word :: _ => do
              return .redir (.heredoc (Datum.ofJson kind) (fixedFd fd) (← readWord word)
                (.bool false) .null)
          | _ => .error .outOfBounds
      | _ => .error .unknownRedirection
  | .arr [.str tag, fields] => .error (redirFault (Tag.ofLabel? tag) fields)
  | .arr [_, _] => .error .unknownRedirection
  | .arr _ => .error .wrongLength
  | .str text => .error (pairFault .unknownRedirection text)
  | .obj [(tag, _), (text, _)] => .error (redirFault (Tag.ofLabel? tag) (.str text))
  | .obj _ => .error .wrongLength
  | _ => .error .wrongKind

def readRedirItems : List Json → Except Fault (List Datum)
  | [] => .ok []
  | item :: rest => do
      let first ← readRedir item
      let others ← readRedirItems rest
      return first :: others

def readRedirs : Json → Except Fault Datum
  | .arr items => do return .list (← readRedirItems items)
  | .str text => if text.isEmpty then .ok (.list []) else .error .wrongLength
  | .obj fields =>
      match fields with
      | [] => .ok (.list [])
      | (text, _) :: _ => .error (pairFault .unknownRedirection text)
  | _ => .error .wrongKind

def readPart : Json → Except Fault Datum
  | .arr [.str tag, value] =>
      match Tag.ofLabel? tag with
      | some .char => .ok (.part (.char (Datum.ofJson value) (.bool false)))
      | some .escaped => .ok (.part (.escaped (Datum.ofJson value)))
      | some .tilde => .ok (.part (.tilde (Datum.ofJson value)))
      | some .arithPart => do return .part (.arith (← readWord value))
      | some .quoted => do return .part (.quoted (← readWord value))
      | some .commandPart => do return .part (.command (← readCommand value))
      | some .param =>
          match value with
          | .arr (format :: nullTest :: var :: arg :: _) => do
              return .part (.param (Datum.ofJson format) (Datum.ofJson nullTest)
                (Datum.ofJson var) (← readWord arg))
          | .str text => .error (textFault 3 text)
          | other => .error (itemFault other)
      | some .process =>
          match value with
          | .arr (op :: node :: _) => do
              return .part (.process (Datum.ofJson op) (← readCommand node))
          | .str text => .error (textFault 1 text)
          | other => .error (itemFault other)
      | _ => .error .unknownPart
  | .arr [_, _] => .error .unknownPart
  | .arr _ => .error .wrongLength
  | .str text => shortPart text
  | .obj [(tag, _), (text, _)] => textPart tag text
  | .obj _ => .error .wrongLength
  | _ => .error .wrongKind

def readPartItems : List Json → Except Fault (List Datum)
  | [] => .ok []
  | item :: rest => do
      let first ← readPart item
      let others ← readPartItems rest
      return first :: others

def readWord : Json → Except Fault Datum
  | .arr items => do return .list (← readPartItems items)
  | .str text => textWord text
  | .obj fields => do
      return .list (← fields.mapM fun field => shortPart field.1)
  | _ => .error .wrongKind

def readWordItems : List Json → Except Fault (List Datum)
  | [] => .ok []
  | item :: rest => do
      let first ← readWord item
      let others ← readWordItems rest
      return first :: others

def readWords : Json → Except Fault Datum
  | .arr items => do return .list (← readWordItems items)
  | .str text => if text.isEmpty then .ok (.list []) else .error .wrongLength
  | .obj fields => do
      return .list (← fields.mapM fun field => textWord field.1)
  | _ => .error .wrongKind

def readPatterns : List (String × Json) → Except Fault Datum
  | [] => .error .missingKey
  | (key, value) :: rest =>
      if key = "cpattern" then readWords value else readPatterns rest

def readBody : List (String × Json) → Except Fault Datum
  | [] => .error .missingKey
  | (key, value) :: rest =>
      if key = "cbody" then readCommand value else readBody rest

def readClause : Json → Except Fault Datum
  | .obj fields => do
      let patterns ← readPatterns fields
      let body ← readBody fields
      return .dict [("cpattern", patterns), ("cbody", body)]
  | _ => .error .wrongKind

def readClauseItems : List Json → Except Fault (List Datum)
  | [] => .ok []
  | item :: rest => do
      let first ← readClause item
      let others ← readClauseItems rest
      return first :: others

def readClauses : Json → Except Fault Datum
  | .arr items => do return .list (← readClauseItems items)
  | .str text => if text.isEmpty then .ok (.list []) else .error .wrongKind
  | .obj fields => if fields.isEmpty then .ok (.list []) else .error .wrongKind
  | _ => .error .wrongKind

end

end Tagged

end ShellTree
