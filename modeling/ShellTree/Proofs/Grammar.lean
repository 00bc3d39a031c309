import ShellTree.Proofs.Token

/-!
# The grammar of commands

A *phrase* is a command as the shell language groups it: commands into
pipelines, pipelines into and-or lists, and these into sequences.  Phrases are
read from left to right, one token at a time.  What has been read of the
sequence at hand is a *line*; the lines around it wait in a stack until the
construct that was opened in them is closed.

Loops over words, cases and function definitions are not read.
-/

namespace ShellTree.Grammar

/-- A redirection: a descriptor, an arrow and a word. -/
structure Redirect where
  descriptor : Nat
  arrow : Arrow
  target : String
deriving DecidableEq

/-- Commands as they are grouped. -/
inductive Phrase where
  | call (words : List String)
  | braces (body : Phrase)
  | parens (body : Phrase)
  | ifThen (test body : Phrase)
  | ifElse (test body other : Phrase)
  | whileLoop (test body : Phrase)
  | redirected (command : Phrase) (redirects : List Redirect)
  | pipe (left right : Phrase)
  | not (body : Phrase)
  | and (left right : Phrase)
  | or (left right : Phrase)
  | background (body : Phrase)
  | sequence (left right : Phrase)
deriving DecidableEq

namespace Phrase

/-- A phrase after the last member of a sequence. -/
def andThen : Phrase → Phrase → Phrase
  | .sequence first rest, last => .sequence first (rest.andThen last)
  | first, last => .sequence first last

/-- A phrase after those that were read before it, if any. -/
def after : Option Phrase → Phrase → Phrase
  | none, last => last
  | some first, last => first.andThen last

/-- A command with its redirections, if it has any. -/
def withRedirects (command : Phrase) : List Redirect → Phrase
  | [] => command
  | redirects => .redirected command redirects

/-- The last branch of a conditional below the tests and branches before it. -/
def nested : List (Phrase × Phrase) → Phrase → Phrase
  | [], last => last
  | (test, body) :: rest, last => .ifElse test body (nested rest last)

/-- Is a phrase a single command, as the members of pipelines are? -/
def isCommand : Phrase → Bool
  | .call _ | .braces _ | .parens _ | .ifThen .. | .ifElse .. | .whileLoop .. => true
  | .redirected .. => true
  | _ => false

/-- A phrase without its brace groups, and with its sequences chained to the right. -/
def normal : Phrase → Phrase
  | .call words => .call words
  | .braces body => body.normal
  | .parens body => .parens body.normal
  | .ifThen test body => .ifThen test.normal body.normal
  | .ifElse test body other => .ifElse test.normal body.normal other.normal
  | .whileLoop test body => .whileLoop test.normal body.normal
  | .redirected command redirects => .redirected command.normal redirects
  | .pipe left right => .pipe left.normal right.normal
  | .not body => .not body.normal
  | .and left right => .and left.normal right.normal
  | .or left right => .or left.normal right.normal
  | .background body => .background body.normal
  | .sequence left right => left.normal.andThen right.normal

theorem andThen_assoc (first second third : Phrase) :
    (first.andThen second).andThen third = first.andThen (second.andThen third) := by
  induction first with
  | sequence left right _ ih => simp [andThen, ih]
  | _ => rfl

theorem normal_andThen (first second : Phrase) :
    (first.andThen second).normal = first.normal.andThen second.normal := by
  induction first with
  | sequence left right _ ih => simp [andThen, normal, ih, andThen_assoc]
  | _ => rfl

@[simp] theorem andThen_after (before : Option Phrase) (first second : Phrase) :
    after (some (after before first)) second = after before (first.andThen second) := by
  cases before with
  | none => rfl
  | some phrase => exact andThen_assoc phrase first second

end Phrase

inductive Connective where
  | and
  | or
deriving DecidableEq

def Connective.join : Connective → Phrase → Phrase → Phrase
  | .and, left, right => .and left right
  | .or, left, right => .or left right

/-- What has been read of a sequence. -/
structure Line where
  /-- The members that are complete. -/
  done : Option Phrase
  /-- What stands before the last operator between pipelines. -/
  chain : Option (Connective × Phrase)
  /-- Is the pipeline at hand negated? -/
  negated : Bool
  /-- What stands before the last bar of the pipeline at hand. -/
  piped : Option Phrase
  /-- The command at hand. -/
  command : Option Phrase
  /-- The redirections of the command at hand. -/
  redirects : List Redirect
  /-- The arrow that waits for its word. -/
  arrow : Option (Nat × Arrow)
deriving DecidableEq

namespace Line

/-- A line where the next member of the sequence may start. -/
def fresh (done : Option Phrase) : Line :=
  ⟨done, none, false, none, none, [], none⟩

/-- Is a command still to be read? -/
def awaits (line : Line) : Bool :=
  line.command.isNone && line.arrow.isNone && line.redirects.isEmpty

def put (line : Line) (command : Phrase) : Line :=
  { line with command := some command }

/-- The command at hand, with its redirections. -/
def lastCommand (line : Line) : Option Phrase :=
  match line.arrow with
  | some _ => none
  | none => line.command.map fun command => command.withRedirects line.redirects

/-- The commands between bars up to the one at hand. -/
def bars (line : Line) : Option Phrase :=
  line.lastCommand.map fun command =>
    match line.piped with
    | none => command
    | some before => .pipe before command

def pipeline (line : Line) : Option Phrase :=
  line.bars.map fun phrase => if line.negated then .not phrase else phrase

def andOr (line : Line) : Option Phrase :=
  line.pipeline.map fun phrase =>
    match line.chain with
    | none => phrase
    | some (connective, before) => connective.join before phrase

def barred (line : Line) : Option Line :=
  line.bars.map fun phrase =>
    { line with piped := some phrase, command := none, redirects := [] }

def joined (connective : Connective) (line : Line) : Option Line :=
  line.andOr.map fun phrase =>
    { fresh line.done with chain := some (connective, phrase) }

/-- The line after a semicolon, a line feed or an ampersand. -/
def ended (behind : Bool) (line : Line) : Option Line :=
  line.andOr.map fun phrase =>
    fresh (some (Phrase.after line.done (if behind then .background phrase else phrase)))

/-- The whole sequence, which may or may not have been ended. -/
def content (line : Line) : Option Phrase :=
  if line = fresh line.done then line.done else (line.ended false).bind Line.done

/-- The line after an exclamation mark, which stands at the start of a pipeline. -/
def negate (line : Line) : Option Line :=
  if line.negated || line.piped.isSome then none else some { line with negated := true }

end Line

/-- The words that mean something where a command may start. -/
inductive Keyword where
  | openBrace
  | closeBrace
  | bang
  | ifWord
  | thenWord
  | elifWord
  | elseWord
  | fiWord
  | whileWord
  | untilWord
  | doWord
  | doneWord
  /-- A word of a construct that is not read. -/
  | unread
deriving DecidableEq

def keywords : List (String × Keyword) :=
  [("\x7b", .openBrace), ("\x7d", .closeBrace), ("!", .bang), ("if", .ifWord),
    ("then", .thenWord), ("elif", .elifWord), ("else", .elseWord), ("fi", .fiWord),
    ("while", .whileWord), ("until", .untilWord), ("do", .doWord), ("done", .doneWord),
    ("case", .unread), ("esac", .unread), ("for", .unread), ("in", .unread)]

/-- A construct that was opened. -/
inductive Frame where
  | braces
  | parens
  | test (earlier : List (Phrase × Phrase))
  | branch (earlier : List (Phrase × Phrase)) (test : Phrase)
  | other (earlier : List (Phrase × Phrase)) (test body : Phrase)
  | loopTest (negated : Bool)
  | loopBody (negated : Bool) (test : Phrase)
deriving DecidableEq

/--
What a closing word makes of a construct and the sequence that was read in it:
its next part, or the whole command.
-/
def Frame.close : Frame → Phrase → Keyword → Option (Frame ⊕ Phrase)
  | .braces, body, .closeBrace => some (.inr (.braces body))
  | .test earlier, body, .thenWord => some (.inl (.branch earlier body))
  | .branch earlier tested, body, .elifWord => some (.inl (.test (earlier ++ [(tested, body)])))
  | .branch earlier tested, body, .elseWord => some (.inl (.other earlier tested body))
  | .branch earlier tested, body, .fiWord => some (.inr (.nested earlier (.ifThen tested body)))
  | .other earlier tested first, body, .fiWord =>
      some (.inr (.nested earlier (.ifElse tested first body)))
  | .loopTest negated, body, .doWord => some (.inl (.loopBody negated body))
  | .loopBody negated tested, body, .doneWord =>
      some (.inr (.whileLoop (if negated then .not tested else tested) body))
  | _, _, _ => none

/-- The line at hand, and the constructs around it with the lines they were opened in. -/
structure State where
  stack : List (Frame × Line)
  line : Line
deriving DecidableEq

namespace State

def push (state : State) (frame : Frame) : State :=
  ⟨(frame, state.line) :: state.stack, Line.fresh none⟩

def close (state : State) (word : Keyword) : Option State :=
  match state.stack with
  | [] => none
  | (frame, outer) :: rest =>
      state.line.content.bind fun body =>
        (frame.close body word).map fun part =>
          match part with
          | .inl next => ⟨(next, outer) :: rest, Line.fresh none⟩
          | .inr command => ⟨rest, outer.put command⟩

def keyword (state : State) : Keyword → Option State
  | .openBrace => some (state.push .braces)
  | .bang => state.line.negate.map fun line => ⟨state.stack, line⟩
  | .ifWord => some (state.push (.test []))
  | .whileWord => some (state.push (.loopTest false))
  | .untilWord => some (state.push (.loopTest true))
  | word => state.close word

/-- A word: the target of an arrow, a reserved word, or a word of a call. -/
def word (state : State) (text : String) : Option State :=
  match state.line.arrow, state.line.command with
  | some (descriptor, kind), command =>
      some ⟨state.stack, { state.line with
        command := some (command.getD (.call []))
        redirects := state.line.redirects ++ [⟨descriptor, kind, text⟩]
        arrow := none }⟩
  | none, none =>
      match keywords.lookup text with
      | some word => state.keyword word
      | none => some ⟨state.stack, state.line.put (.call [text])⟩
  | none, some (.call words) => some ⟨state.stack, state.line.put (.call (words ++ [text]))⟩
  | none, some _ =>
      -- words of a call cannot follow any other command, but what closes a construct can
      if state.line.redirects.isEmpty then (keywords.lookup text).bind state.close else none

def step (state : State) : Token → Option State
  | .word text => state.word text
  | .arrow descriptor kind =>
      if state.line.arrow.isSome then none
      else some ⟨state.stack, { state.line with arrow := some (descriptor, kind) }⟩
  | .newline =>
      if state.line.awaits then
        if state.line.negated && state.line.piped.isNone then none else some state
      else (state.line.ended false).map fun line => ⟨state.stack, line⟩
  | .control .semicolon => (state.line.ended false).map fun line => ⟨state.stack, line⟩
  | .control .ampersand => (state.line.ended true).map fun line => ⟨state.stack, line⟩
  | .control .bar => state.line.barred.map fun line => ⟨state.stack, line⟩
  | .control .andIf => (state.line.joined .and).map fun line => ⟨state.stack, line⟩
  | .control .orIf => (state.line.joined .or).map fun line => ⟨state.stack, line⟩
  | .control .openParen => if state.line.awaits then some (state.push .parens) else none
  | .control .closeParen =>
      match state.stack with
      | (.parens, outer) :: rest =>
          state.line.content.map fun body => ⟨rest, outer.put (.parens body)⟩
      | _ => none

def run : State → List Token → Option State
  | state, [] => some state
  | state, token :: rest => (state.step token).bind fun next => next.run rest

end State

/-- The phrase that a text is. -/
def parse (text : String) : Option Phrase :=
  (tokens text.toList).bind fun read =>
    (State.run ⟨[], Line.fresh none⟩ read).bind fun state =>
      if state.stack.isEmpty then state.line.content else none

/-- A bar binds closer than the operators between pipelines, which go from left to right. -/
example : parse "a | b && ! c 2> d || e &\nf" =
    some (.sequence
      (.background (.or (.and (.pipe (.call ["a"]) (.call ["b"]))
        (.not (.redirected (.call ["c"]) [⟨2, .output, "d"⟩]))) (.call ["e"])))
      (.call ["f"])) := by decide

/-- A conditional goes on in its second test. -/
example : parse "if a; then b\nelif \x7b c; \x7d then ( d ); else until e; do f; done; fi > g" =
    some (.redirected
      (.ifElse (.call ["a"]) (.call ["b"])
        (.ifElse (.braces (.call ["c"])) (.parens (.call ["d"]))
          (.whileLoop (.not (.call ["e"])) (.call ["f"]))))
      [⟨1, .output, "g"⟩]) := by decide

end ShellTree.Grammar
