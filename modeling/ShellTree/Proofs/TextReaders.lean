import ShellTree.Print.Escape
import ShellTree.Proofs.Grammar

/-!
# How texts are read

What a text does to the line that it is read in does not depend on the lines
around it.  The texts of constructs are read as the texts of their parts are:
there is one lemma for each way in which texts are put together.
-/

namespace ShellTree.Grammar

theorem State.run_append (state : State) (first second : List Token) :
    state.run (first ++ second) = (state.run first).bind fun next => next.run second := by
  induction first generalizing state with
  | nil => rfl
  | cons token rest ih =>
      simp only [List.cons_append, State.run]
      cases state.step token with
      | none => rfl
      | some next => exact ih next

/-! ## Lines -/

namespace Line

theorem awaits_iff {line : Line} :
    line.awaits = true ↔ line.command = none ∧ line.arrow = none ∧ line.redirects = [] := by
  simp [awaits, and_assoc]

@[simp] theorem awaits_fresh (done : Option Phrase) : (fresh done).awaits = true := rfl

@[simp] theorem content_fresh (done : Option Phrase) : (fresh done).content = done := by
  simp [content, fresh]

/-- A sequence that can be ended need not be. -/
theorem content_of_ended {line : Line} {body : Phrase}
    (ends : line.ended false = some (fresh (some body))) : line.content = some body := by
  have different : line ≠ fresh line.done := by
    intro same
    rw [same] at ends
    cases ends
  rw [content, if_neg different, ends]
  rfl

/-- A command at hand is a whole sequence after what was read before it. -/
theorem ended_put_fresh (done : Option Phrase) (command : Phrase) :
    ((fresh done).put command).ended false =
      some (fresh (some (Phrase.after done command))) := rfl

end Line

/-! ## Tokens that are read as one piece -/

/-- What a text makes of a line in which a command is to be read. -/
abbrev Reader := Line → Option Line

/-- A single command. -/
def Reader.put (command : Phrase) : Reader :=
  fun line => some (line.put command)

/-- The tokens are read as the given reader says, whatever is around them. -/
def Reads (read : List Token) (reader : Reader) : Prop :=
  ∀ (stack : List (Frame × Line)) (line : Line), line.awaits = true →
    State.run ⟨stack, line⟩ read = (reader line).map (State.mk stack)

/-- The reader makes a phrase follow what was read before it. -/
def Reader.Yields (reader : Reader) (body : Phrase) : Prop :=
  ∀ done, ∃ line, reader (Line.fresh done) = some line ∧
    line.ended false = some (Line.fresh (some (Phrase.after done body)))

theorem Reader.yields_put (command : Phrase) : (Reader.put command).Yields command :=
  fun done => ⟨(Line.fresh done).put command, rfl, Line.ended_put_fresh done command⟩

/-- A sequence with a semicolon behind it. -/
theorem Reads.run_semicolon {read : List Token} {reader : Reader} {body : Phrase}
    (reads : Reads read reader) (yields : reader.Yields body)
    (stack : List (Frame × Line)) (done : Option Phrase) :
    State.run ⟨stack, Line.fresh done⟩ (read ++ [.control .semicolon]) =
      some ⟨stack, Line.fresh (some (Phrase.after done body))⟩ := by
  obtain ⟨line, hreader, hended⟩ := yields done
  rw [State.run_append, reads stack _ (Line.awaits_fresh done), hreader]
  simp [State.run, State.step, hended]

/-- The state after a closing word. -/
def State.closed (stack : List (Frame × Line)) (outer : Line) : Frame ⊕ Phrase → State
  | .inl next => ⟨(next, outer) :: stack, Line.fresh none⟩
  | .inr command => ⟨stack, outer.put command⟩

/-- The words that close a part of a construct. -/
def Keyword.closes : Keyword → Bool
  | .openBrace | .bang | .ifWord | .whileWord | .untilWord | .unread => false
  | _ => true

theorem State.step_closing {text : String} {word : Keyword}
    (found : keywords.lookup text = some word) (closes : word.closes = true)
    {frame : Frame} {body : Phrase} {part : Frame ⊕ Phrase}
    (closed : frame.close body word = some part)
    (stack : List (Frame × Line)) (outer : Line) :
    State.step ⟨(frame, outer) :: stack, Line.fresh (some body)⟩ (.word text) =
      some (State.closed stack outer part) := by
  have position : ∀ state : State, state.keyword word = state.close word := by
    intro state
    cases word <;> first | rfl | cases closes
  have empty : (Line.fresh (some body)).arrow = none ∧ (Line.fresh (some body)).command = none :=
    ⟨rfl, rfl⟩
  simp only [State.step, State.word, empty, found, position, State.close, Line.content_fresh,
    Option.bind_some, closed, Option.map_some]
  cases part <;> rfl

/-- A part of a construct: a sequence, a semicolon and a closing word. -/
theorem Reads.run_part {read : List Token} {reader : Reader} {body : Phrase}
    (reads : Reads read reader) (yields : reader.Yields body)
    (frame : Frame) (text : String) {word : Keyword} {part : Frame ⊕ Phrase}
    (found : keywords.lookup text = some word) (closes : word.closes = true)
    (closed : frame.close body word = some part)
    (stack : List (Frame × Line)) (outer : Line) :
    State.run ⟨(frame, outer) :: stack, Line.fresh none⟩
        (read ++ [.control .semicolon, .word text]) =
      some (State.closed stack outer part) := by
  have first := reads.run_semicolon yields ((frame, outer) :: stack) none
  have second := State.step_closing found closes closed stack outer
  rw [show read ++ [.control .semicolon, .word text] =
    (read ++ [.control .semicolon]) ++ [.word text] by simp, State.run_append, first]
  simp [State.run, Phrase.after, second]

/-- A reserved word that opens a construct. -/
theorem State.step_opening (text : String) {word : Keyword} {frame : Frame}
    (found : keywords.lookup text = some word)
    (opens : ∀ state : State, state.keyword word = some (state.push frame))
    (stack : List (Frame × Line)) {line : Line} (awaits : line.awaits = true) :
    State.step ⟨stack, line⟩ (.word text) =
      some ⟨(frame, line) :: stack, Line.fresh none⟩ := by
  obtain ⟨noCommand, noArrow, _⟩ := Line.awaits_iff.mp awaits
  simp [State.step, State.word, noCommand, noArrow, found, opens, State.push]

/-! ## Texts that are read as one piece -/

/-- The text is read as the given reader says. -/
def ReadsAs (text : String) (reader : Reader) : Prop :=
  ∃ read, Lexes text read ∧ Reads read reader

theorem ReadsAs.parse_eq {text : String} {reader : Reader} {body : Phrase}
    (readsAs : ReadsAs text reader) (yields : reader.Yields body) :
    parse text = some body := by
  obtain ⟨read, lexes, reads⟩ := readsAs
  obtain ⟨line, hreader, hended⟩ := yields none
  have run := reads [] (Line.fresh none) (Line.awaits_fresh none)
  rw [hreader] at run
  simp [parse, lexes.tokens_eq, run, Line.content_of_ended hended, Phrase.after]

/-- A text that ends in a word. -/
theorem lexes_of_feed {text : String} {first : List Token} {last : List Char}
    (hfeed : feed .nothing text.toList = some (first, .word [] last)) :
    Lexes text (first ++ [.word (String.ofList last)]) :=
  ⟨first, _, _, hfeed, Pending.ends_word last rfl, rfl⟩

theorem lexes_closeParen : Lexes " )" [.control .closeParen] := by
  refine ⟨[], [.control .closeParen], .operator [] [')'], by decide, ⟨rfl, ?_⟩, rfl⟩
  intro c separator
  have cases : c = ' ' ∨ c = '\n' ∨ c = ';' := by
    simpa [separates, or_assoc] using separator
  rcases cases with rfl | rfl | rfl <;> rfl

/-- A sequence between braces, with a semicolon before the closing one. -/
theorem ReadsAs.braced {text closing : String} {reader : Reader} {body : Phrase}
    (readsAs : ReadsAs text reader) (yields : reader.Yields body) (separated : Separated closing)
    (closes : Lexes closing [.control .semicolon, .word "\x7d"]) :
    ReadsAs ("\x7b " ++ text ++ closing) (Reader.put (.braces body)) := by
  obtain ⟨read, lexes, reads⟩ := readsAs
  refine ⟨[.word "\x7b"] ++ read ++ [.control .semicolon, .word "\x7d"], ?_, ?_⟩
  · have opening : Leads "\x7b " [.word "\x7b"] := by decide
    exact (opening.append lexes).append separated closes
  · intro stack line awaits
    have first := State.step_opening "\x7b" rfl (fun _ => rfl) stack awaits
    have second := reads.run_part yields .braces "\x7d" rfl rfl rfl stack line
    simp only [List.cons_append, List.nil_append, State.run, first, Option.bind_some, second]
    rfl

theorem ReadsAs.inBraces {text : String} {reader : Reader} {body : Phrase}
    (readsAs : ReadsAs text reader) (yields : reader.Yields body) :
    ReadsAs (inBraces text) (Reader.put (.braces body)) := by
  have closing : Lexes " ; \x7d" [.control .semicolon, .word "\x7d"] :=
    lexes_of_feed (by decide :
      feed .nothing " ; \x7d".toList = some ([.control .semicolon], .word [] ['\x7d']))
  exact readsAs.braced yields ⟨_, _, rfl, rfl⟩ closing

theorem ReadsAs.inParens {text : String} {reader : Reader} {body : Phrase}
    (readsAs : ReadsAs text reader) (yields : reader.Yields body) :
    ReadsAs (inParens text) (Reader.put (.parens body)) := by
  obtain ⟨read, lexes, reads⟩ := readsAs
  obtain ⟨last, hreader, hended⟩ := yields none
  refine ⟨[.control .openParen] ++ read ++ [.control .closeParen], ?_, ?_⟩
  · have opening : Leads "( " [.control .openParen] := by decide
    exact (opening.append lexes).append ⟨_, _, rfl, rfl⟩ lexes_closeParen
  · intro stack line awaits
    have first : State.step ⟨stack, line⟩ (.control .openParen) =
        some ⟨(.parens, line) :: stack, Line.fresh none⟩ := by
      simp [State.step, awaits, State.push]
    have second := reads ((.parens, line) :: stack) (Line.fresh none) rfl
    have content := Line.content_of_ended hended
    simp only [List.cons_append, List.nil_append, State.run, first, Option.bind_some,
      State.run_append, second, hreader, Option.map_some]
    simp [State.step, content, Phrase.after, Reader.put]

/-! ### Operators between commands -/

/-- A line whose last command may still be redirected. -/
structure Line.Open (line : Line) : Prop where
  command : line.command.isSome = true
  arrow : line.arrow = none
  redirects : line.redirects = []

theorem Line.Open.awaits {line : Line} (ready : line.Open) : line.awaits = false := by
  obtain ⟨command, same⟩ := Option.isSome_iff_exists.mp ready.command
  simp [Line.awaits, same]

/-- The reader always leaves a command at hand. -/
def Reader.Complete (reader : Reader) : Prop :=
  ∀ line next, line.awaits = true → reader line = some next → next.Open

theorem Reader.complete_put (command : Phrase) : (Reader.put command).Complete := by
  intro line next awaits same
  obtain ⟨_, noArrow, noRedirects⟩ := Line.awaits_iff.mp awaits
  cases same
  exact ⟨rfl, noArrow, noRedirects⟩

/-- One reader after the other, with an operator between them. -/
def Reader.link (operator : Line → Option Line) (first second : Reader) : Reader :=
  fun line => ((first line).bind operator).bind second

theorem Reader.Complete.link {second : Reader} (complete : second.Complete)
    {operator : Line → Option Line}
    (awaits : ∀ line next, operator line = some next → next.awaits = true) (first : Reader) :
    (Reader.link operator first second).Complete := by
  intro line next _ linked
  obtain ⟨last, operated, read⟩ := Option.bind_eq_some_iff.mp linked
  obtain ⟨middle, _, same⟩ := Option.bind_eq_some_iff.mp operated
  exact complete last next (awaits middle last same) read

/-- A sequence of what two readers make of a line. -/
theorem Reader.Yields.link {first second : Reader} {left right : Phrase}
    (yieldsFirst : first.Yields left) (yieldsSecond : second.Yields right) :
    (Reader.link (Line.ended false) first second).Yields (left.andThen right) := by
  intro done
  obtain ⟨middle, hfirst, hended⟩ := yieldsFirst done
  obtain ⟨last, hsecond, hlast⟩ := yieldsSecond (some (Phrase.after done left))
  refine ⟨last, ?_, ?_⟩
  · simp [Reader.link, hfirst, hended, hsecond]
  · rw [hlast, Phrase.andThen_after]

/-- A separator that does what an operator says to every line with a command at hand. -/
structure Operates (text : String) (operator : Line → Option Line) : Prop where
  separated : Separated text
  reads : ∃ token, Leads text [token] ∧ ∀ (stack : List (Frame × Line)) (line : Line),
    line.awaits = false →
      State.step ⟨stack, line⟩ token = (operator line).map (State.mk stack)
  awaits : ∀ line next, operator line = some next → next.awaits = true

theorem Line.awaits_of_joined {connective : Connective} {line next : Line}
    (joined : line.joined connective = some next) : next.awaits = true := by
  obtain ⟨phrase, _, rfl⟩ := Option.map_eq_some_iff.mp joined
  rfl

theorem Line.awaits_of_ended {behind : Bool} {line next : Line}
    (ended : line.ended behind = some next) : next.awaits = true := by
  obtain ⟨phrase, _, rfl⟩ := Option.map_eq_some_iff.mp ended
  rfl

theorem Line.awaits_of_barred {line next : Line}
    (barred : line.barred = some next) : next.awaits = true := by
  obtain ⟨phrase, bars, rfl⟩ := Option.map_eq_some_iff.mp barred
  have noArrow : line.arrow = none := by
    cases harrow : line.arrow with
    | none => rfl
    | some arrow => simp [Line.bars, Line.lastCommand, harrow] at bars
  simp [Line.awaits, noArrow]

theorem operates_and : Operates " && " (Line.joined .and) :=
  ⟨⟨_, _, rfl, rfl⟩, ⟨.control .andIf, by decide, fun _ _ _ => rfl⟩,
    fun _ _ => Line.awaits_of_joined⟩

theorem operates_or : Operates " || " (Line.joined .or) :=
  ⟨⟨_, _, rfl, rfl⟩, ⟨.control .orIf, by decide, fun _ _ _ => rfl⟩,
    fun _ _ => Line.awaits_of_joined⟩

theorem operates_semicolon : Operates " ; " (Line.ended false) :=
  ⟨⟨_, _, rfl, rfl⟩, ⟨.control .semicolon, by decide, fun _ _ _ => rfl⟩,
    fun _ _ => Line.awaits_of_ended⟩

theorem operates_bar : Operates " | " Line.barred :=
  ⟨⟨_, _, rfl, rfl⟩, ⟨.control .bar, by decide, fun _ _ _ => rfl⟩,
    fun _ _ => Line.awaits_of_barred⟩

/-- A line feed ends a sequence, and the blanks behind it mean nothing. -/
theorem operates_newline {text : String} (leads : Leads text [.newline])
    (separated : Separated text) : Operates text (Line.ended false) := by
  refine ⟨separated, ⟨.newline, leads, ?_⟩, fun _ _ => Line.awaits_of_ended⟩
  intro stack line awaits
  simp [State.step, awaits]

theorem ReadsAs.link {left middle right : String} {operator : Line → Option Line}
    {first second : Reader} (operates : Operates middle operator)
    (readsFirst : ReadsAs left first) (complete : first.Complete)
    (readsSecond : ReadsAs right second) :
    ReadsAs (left ++ middle ++ right) (Reader.link operator first second) := by
  obtain ⟨readLeft, lexesLeft, readsLeft⟩ := readsFirst
  obtain ⟨readRight, lexesRight, readsRight⟩ := readsSecond
  obtain ⟨token, leads, steps⟩ := operates.reads
  refine ⟨readLeft ++ [token] ++ readRight, ?_, ?_⟩
  · exact (lexesLeft.append_leads operates.separated leads).append lexesRight
  · intro stack line awaits
    rw [List.append_assoc, State.run_append, readsLeft stack line awaits]
    cases hfirst : first line with
    | none => simp [Reader.link, hfirst]
    | some middle =>
        have stepped := steps stack middle (complete line middle awaits hfirst).awaits
        cases hoperator : operator middle with
        | none => simp [Reader.link, hfirst, hoperator, State.run, stepped]
        | some next =>
            have follows := readsRight stack next (operates.awaits middle next hoperator)
            simp [Reader.link, hfirst, hoperator, State.run, stepped, follows]

theorem Line.awaits_of_negate {line next : Line} (awaits : line.awaits = true)
    (negated : line.negate = some next) : next.awaits = true := by
  obtain ⟨_, rfl⟩ : _ ∧ { line with negated := true } = next := by
    simpa [Line.negate] using negated
  exact awaits

/-- A negated pipeline. -/
def Reader.negated (reader : Reader) : Reader :=
  fun line => line.negate.bind reader

theorem Reader.Complete.negated {reader : Reader} (complete : reader.Complete) :
    reader.negated.Complete := by
  intro line next awaits read
  obtain ⟨middle, negated, last⟩ := Option.bind_eq_some_iff.mp read
  exact complete middle next (Line.awaits_of_negate awaits negated) last

theorem ReadsAs.negated {text : String} {reader : Reader} (readsAs : ReadsAs text reader) :
    ReadsAs ("! " ++ text) reader.negated := by
  obtain ⟨read, lexes, reads⟩ := readsAs
  have opening : Leads "! " [.word "!"] := by decide
  refine ⟨[.word "!"] ++ read, opening.append lexes, ?_⟩
  intro stack line awaits
  obtain ⟨noCommand, noArrow, _⟩ := Line.awaits_iff.mp awaits
  have found : keywords.lookup "!" = some .bang := rfl
  cases hnegate : line.negate with
  | none =>
      simp [State.run, State.step, State.word, noCommand, noArrow, found, State.keyword,
        Reader.negated, hnegate]
  | some next =>
      have still := Line.awaits_of_negate awaits hnegate
      simp [State.run, State.step, State.word, noCommand, noArrow, found, State.keyword,
        Reader.negated, hnegate, reads stack next still]

/-! ### Conditionals and loops -/

theorem Phrase.nested_append (earlier : List (Phrase × Phrase)) (test body last : Phrase) :
    nested (earlier ++ [(test, body)]) last = nested earlier (.ifElse test body last) := by
  induction earlier with
  | nil => rfl
  | cons branch rest ih => simp [nested, ih]

/-- The text is read as the rest of a conditional after its first word, also below other tests. -/
def Continues (text : String) (conditional : Phrase) : Prop :=
  ∃ read, Lexes text read ∧
    ∀ (earlier : List (Phrase × Phrase)) (outer : Line) (stack : List (Frame × Line)),
      State.run ⟨(.test earlier, outer) :: stack, Line.fresh none⟩ read =
        some ⟨stack, outer.put (.nested earlier conditional)⟩

theorem Continues.readsAs {text : String} {conditional : Phrase}
    (continues : Continues text conditional) :
    ReadsAs ("if " ++ text) (Reader.put conditional) := by
  obtain ⟨read, lexes, runs⟩ := continues
  have opening : Leads "if " [.word "if"] := by decide
  refine ⟨[.word "if"] ++ read, opening.append lexes, ?_⟩
  intro stack line awaits
  have first := State.step_opening "if" rfl (fun _ => rfl) stack awaits
  simp only [List.cons_append, List.nil_append, State.run, first, Option.bind_some, runs]
  rfl

section Conditional

variable {testText bodyText otherText : String} {testReader bodyReader otherReader : Reader}
variable {test body other : Phrase}

/-- The text of a test and of the branch below it, up to the next part of the conditional. -/
theorem lexes_branch {readTest readBody : List Token} (lexesTest : Lexes testText readTest)
    (lexesBody : Lexes bodyText readBody) :
    Lexes (testText ++ "        ; then " ++ bodyText)
      ((readTest ++ [.control .semicolon, .word "then"]) ++ readBody) := by
  have middle : Leads "        ; then " [.control .semicolon, .word "then"] := by decide
  exact (lexesTest.append_leads ⟨_, _, rfl, rfl⟩ middle).append lexesBody

theorem lexes_fi : Lexes "; fi" [.control .semicolon, .word "fi"] :=
  lexes_of_feed (by decide :
    feed .nothing "; fi".toList = some ([.control .semicolon], .word [] ['f', 'i']))

theorem continues_ifThen (readsTest : ReadsAs testText testReader)
    (yieldsTest : testReader.Yields test) (readsBody : ReadsAs bodyText bodyReader)
    (yieldsBody : bodyReader.Yields body) :
    Continues (testText ++ "        ; then " ++ bodyText ++ "; fi") (.ifThen test body) := by
  obtain ⟨readTest, lexesTest, runsTest⟩ := readsTest
  obtain ⟨readBody, lexesBody, runsBody⟩ := readsBody
  refine ⟨_, (lexes_branch lexesTest lexesBody).append ⟨_, _, rfl, rfl⟩ lexes_fi, ?_⟩
  intro earlier outer stack
  have first := runsTest.run_part yieldsTest (.test earlier) "then" rfl rfl rfl stack outer
  have second := runsBody.run_part yieldsBody (.branch earlier test) "fi" rfl rfl rfl stack outer
  rw [List.append_assoc, State.run_append, first]
  exact second

theorem continues_ifElse (readsTest : ReadsAs testText testReader)
    (yieldsTest : testReader.Yields test) (readsBody : ReadsAs bodyText bodyReader)
    (yieldsBody : bodyReader.Yields body) (readsOther : ReadsAs otherText otherReader)
    (yieldsOther : otherReader.Yields other) :
    Continues (testText ++ "        ; then " ++ bodyText ++ "; else " ++ otherText ++ "; fi")
      (.ifElse test body other) := by
  obtain ⟨readTest, lexesTest, runsTest⟩ := readsTest
  obtain ⟨readBody, lexesBody, runsBody⟩ := readsBody
  obtain ⟨readOther, lexesOther, runsOther⟩ := readsOther
  have middle : Leads "; else " [.control .semicolon, .word "else"] := by decide
  refine ⟨_, (((lexes_branch lexesTest lexesBody).append_leads ⟨_, _, rfl, rfl⟩ middle).append
    lexesOther).append ⟨_, _, rfl, rfl⟩ lexes_fi, ?_⟩
  intro earlier outer stack
  have first := runsTest.run_part yieldsTest (.test earlier) "then" rfl rfl rfl stack outer
  have second :=
    runsBody.run_part yieldsBody (.branch earlier test) "else" rfl rfl rfl stack outer
  have third :=
    runsOther.run_part yieldsOther (.other earlier test body) "fi" rfl rfl rfl stack outer
  simp only [State.closed] at first second
  rw [List.append_assoc, List.append_assoc, List.append_assoc, State.run_append, first,
    Option.bind_some, ← List.append_assoc, State.run_append, second]
  exact third

/-- A conditional that goes on with a further test. -/
theorem continues_elif (readsTest : ReadsAs testText testReader)
    (yieldsTest : testReader.Yields test) (readsBody : ReadsAs bodyText bodyReader)
    (yieldsBody : bodyReader.Yields body) (continues : Continues otherText other) :
    Continues (testText ++ "        ; then " ++ bodyText ++ "; elif " ++ otherText)
      (.ifElse test body other) := by
  obtain ⟨readTest, lexesTest, runsTest⟩ := readsTest
  obtain ⟨readBody, lexesBody, runsBody⟩ := readsBody
  obtain ⟨readOther, lexesOther, runsOther⟩ := continues
  have middle : Leads "; elif " [.control .semicolon, .word "elif"] := by decide
  refine ⟨_, ((lexes_branch lexesTest lexesBody).append_leads ⟨_, _, rfl, rfl⟩ middle).append
    lexesOther, ?_⟩
  intro earlier outer stack
  have first := runsTest.run_part yieldsTest (.test earlier) "then" rfl rfl rfl stack outer
  have second :=
    runsBody.run_part yieldsBody (.branch earlier test) "elif" rfl rfl rfl stack outer
  simp only [State.closed] at first second
  rw [List.append_assoc, List.append_assoc, State.run_append, first, Option.bind_some,
    ← List.append_assoc, State.run_append, second, Option.bind_some, runsOther,
    Phrase.nested_append]

/-- A loop that goes on while its test succeeds, or until it does. -/
theorem readsAs_loop (negated : Bool) (readsTest : ReadsAs testText testReader)
    (yieldsTest : testReader.Yields test) (readsBody : ReadsAs bodyText bodyReader)
    (yieldsBody : bodyReader.Yields body) :
    ReadsAs ((if negated then "until " else "while ") ++ testText ++ "; do             " ++
        bodyText ++ "; done ")
      (Reader.put (.whileLoop (if negated then .not test else test) body)) := by
  obtain ⟨readTest, lexesTest, runsTest⟩ := readsTest
  obtain ⟨readBody, lexesBody, runsBody⟩ := readsBody
  have opening : Leads (if negated then "until " else "while ")
      [.word (if negated then "until" else "while")] := by cases negated <;> decide
  have middle : Leads "; do             " [.control .semicolon, .word "do"] := by decide
  have closing : Leads "; done " [.control .semicolon, .word "done"] := by decide
  refine ⟨_, (((opening.append lexesTest).append_leads ⟨_, _, rfl, rfl⟩ middle).append
    lexesBody).append ⟨_, _, rfl, rfl⟩ closing.lexes, ?_⟩
  intro stack line awaits
  have opens : State.step ⟨stack, line⟩ (.word (if negated then "until" else "while")) =
      some ⟨(.loopTest negated, line) :: stack, Line.fresh none⟩ := by
    cases negated with
    | false => exact State.step_opening "while" rfl (fun _ => rfl) stack awaits
    | true => exact State.step_opening "until" rfl (fun _ => rfl) stack awaits
  have first := runsTest.run_part yieldsTest (.loopTest negated) "do" rfl rfl rfl stack line
  have second :=
    runsBody.run_part yieldsBody (.loopBody negated test) "done" rfl rfl rfl stack line
  simp only [State.closed] at first second
  rw [List.append_assoc, List.append_assoc, List.append_assoc, List.cons_append, List.nil_append,
    State.run, opens, Option.bind_some, ← List.append_assoc, State.run_append, first,
    Option.bind_some, second]
  rfl

end Conditional

/-! ### Calls -/

theorem lexes_words (first : String) (rest : List String)
    (words : ∀ word ∈ first :: rest, isWord word = true) :
    Lexes (String.intercalate " " (first :: rest)) ((first :: rest).map Token.word) := by
  induction rest generalizing first with
  | nil =>
      rw [String.intercalate_singleton]
      exact lexes_of_isWord (words first List.mem_cons_self)
  | cons second others ih =>
      have head := lexes_of_isWord (words first List.mem_cons_self)
      have tail := ih second fun word inside => words word (List.mem_cons_of_mem first inside)
      have blank : Leads " " [] := by decide
      rw [String.intercalate_cons_cons]
      exact (head.append_leads ⟨_, _, rfl, rfl⟩ blank).append tail

theorem State.run_words (stack : List (Frame × Line)) (line : Line) (noArrow : line.arrow = none)
    (before words : List String) :
    State.run ⟨stack, line.put (.call before)⟩ (words.map Token.word) =
      some ⟨stack, line.put (.call (before ++ words))⟩ := by
  induction words generalizing before with
  | nil => simp [State.run]
  | cons word rest ih =>
      have step : State.step ⟨stack, line.put (.call before)⟩ (.word word) =
          some ⟨stack, line.put (.call (before ++ [word]))⟩ := by
        simp [State.step, State.word, Line.put, noArrow]
      simp [State.run, step, ih]

theorem readsAs_call (name : String) (arguments : List String)
    (unreserved : keywords.lookup name = none)
    (words : ∀ word ∈ name :: arguments, isWord word = true) :
    ReadsAs (String.intercalate " " (name :: arguments))
      (Reader.put (.call (name :: arguments))) := by
  refine ⟨_, lexes_words name arguments words, ?_⟩
  intro stack line awaits
  obtain ⟨noCommand, noArrow, _⟩ := Line.awaits_iff.mp awaits
  have first : State.step ⟨stack, line⟩ (.word name) = some ⟨stack, line.put (.call [name])⟩ := by
    simp [State.step, State.word, noCommand, noArrow, unreserved]
  have others := State.run_words stack line noArrow [name] arguments
  rw [List.map_cons, State.run, first, Option.bind_some, others]
  rfl

end ShellTree.Grammar
