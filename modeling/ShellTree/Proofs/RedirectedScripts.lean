import ShellTree.Proofs.Heredoc
import ShellTree.Proofs.ScriptReadBack

/-!
# Redirected scripts

Redirections stand behind the text of what they are attached to, and the last
command of that text takes them.  That is the whole script where it is a single
command, and only the end of it where it is not.  A subshell puts its
redirections behind the closing parenthesis where it holds a sequence, and
before it otherwise.
-/

namespace ShellTree

open Grammar

namespace Grammar

/-- How a redirection is called in a tree. -/
def Arrow.kind : Arrow → String
  | .output => "To"
  | .clobber => "Clobber"
  | .append => "Append"
  | .input => "From"
  | .inputOutput => "FromTo"
  | .inputText => "ReadingString"

/-- The tokens of redirections. -/
def Redirect.tokens (redirects : List Redirect) : List Token :=
  redirects.flatMap fun redirect =>
    [.arrow redirect.descriptor redirect.arrow, .word redirect.target]

/-- The phrase with redirections on its last command. -/
def Phrase.redirectLast (redirects : List Redirect) : Phrase → Phrase
  | .pipe left right => .pipe left (right.redirectLast redirects)
  | .not body => .not (body.redirectLast redirects)
  | .and left right => .and left (right.redirectLast redirects)
  | .or left right => .or left (right.redirectLast redirects)
  | .background body => .background (body.redirectLast redirects)
  | .sequence left right => .sequence left (right.redirectLast redirects)
  | command => command.withRedirects redirects

theorem Phrase.redirectLast_eq_iff {phrase command : Phrase} {first : Redirect}
    {rest : List Redirect} :
    phrase.redirectLast (first :: rest) = .redirected command (first :: rest) ↔
      phrase.isCommand = true ∧ phrase = command := by
  cases phrase <;> simp [redirectLast, withRedirects, isCommand]

/-- The line with further redirections of the command at hand. -/
def Line.redirect (redirects : List Redirect) (line : Line) : Line :=
  { line with redirects := line.redirects ++ redirects }

/-- What a reader makes of a line, with redirections behind it. -/
def Reader.redirected (redirects : List Redirect) (reader : Reader) : Reader :=
  fun line => (reader line).map (Line.redirect redirects)

theorem State.run_redirects (stack : List (Frame × Line)) (line : Line)
    (command : line.command.isSome = true) (noArrow : line.arrow = none)
    (redirects : List Redirect) :
    State.run ⟨stack, line⟩ (Redirect.tokens redirects) =
      some ⟨stack, line.redirect redirects⟩ := by
  obtain ⟨atHand, hcommand⟩ := Option.isSome_iff_exists.mp command
  induction redirects generalizing line with
  | nil => simp [Redirect.tokens, State.run, Line.redirect]
  | cons redirect rest ih =>
      have next := ih (line.redirect [redirect]) command noArrow hcommand
      have joined : (line.redirect [redirect]).redirect rest = line.redirect (redirect :: rest) := by
        simp [Line.redirect]
      have stepped : { line with
          command := some atHand, redirects := line.redirects ++ [redirect], arrow := none } =
            line.redirect [redirect] := by
        simp [Line.redirect, hcommand, noArrow]
      rw [joined] at next
      simp only [Redirect.tokens, List.flatMap_cons, List.cons_append, List.nil_append, State.run,
        State.step, State.word, noArrow, hcommand, Option.isSome_none, Bool.false_eq_true, if_false,
        Option.bind_some, Option.getD_some, stepped]
      exact next

theorem Reader.redirected_link (operator : Line → Option Line) (first second : Reader)
    (redirects : List Redirect) :
    (Reader.link operator first second).redirected redirects =
      Reader.link operator first (second.redirected redirects) := by
  funext line
  simp only [Reader.redirected, Reader.link, Option.map_bind]
  rfl

/-- A command with redirections behind it. -/
theorem Reader.yields_redirected_put (command : Phrase) (first : Redirect) (rest : List Redirect) :
    ((Reader.put command).redirected (first :: rest)).Yields
      (.redirected command (first :: rest)) :=
  fun _ => ⟨_, rfl, rfl⟩

/-- Redirections are read onto the command that stands before them. -/
theorem ReadsAs.redirected {text behind : String} {reader : Reader} {redirects : List Redirect}
    (readsAs : ReadsAs text reader) (complete : reader.Complete)
    (follows : ∀ {before read}, Lexes before read →
      Lexes (before ++ behind) (read ++ Redirect.tokens redirects)) :
    ReadsAs (text ++ behind) (reader.redirected redirects) := by
  obtain ⟨read, lexes, reads⟩ := readsAs
  refine ⟨_, follows lexes, ?_⟩
  intro stack line awaits
  rw [State.run_append, reads stack line awaits]
  cases hreader : reader line with
  | none => simp [Reader.redirected, hreader]
  | some next =>
      have ready := complete line next awaits hreader
      simp [Reader.redirected, hreader, State.run_redirects stack next ready.command ready.arrow]

end Grammar

/-! ## Redirections in print -/

/-- A redirection of a descriptor to or from a file, whose target prints as one word. -/
structure FileRedirect where
  descriptor : Nat
  arrow : Arrow
  target : Datum
  text : String
  printed : target.renderWord .unquoted = .ok text
  word : isWord text = true

namespace FileRedirect

/-- The redirection in a tree. -/
def value (redirect : FileRedirect) : Redirection :=
  .file (.text redirect.arrow.kind) (.tuple [.text "fixed", .int redirect.descriptor])
    redirect.target

/-- The tree of a redirection. -/
def tree (redirect : FileRedirect) : Datum :=
  .redir redirect.value

/-- The redirection that is meant. -/
def read (redirect : FileRedirect) : Redirect :=
  ⟨redirect.descriptor, redirect.arrow, redirect.text⟩

/-- The descriptor, which is left out where output is expected to go to it. -/
def number (redirect : FileRedirect) : String :=
  if redirect.arrow.descriptor = 1 ∧ redirect.descriptor = 1 then ""
  else toString redirect.descriptor

/-- The text of a redirection. -/
def shown (redirect : FileRedirect) : String :=
  redirect.number ++ (redirect.arrow.spelling ++ " ") ++ redirect.text

/-- The text of a list of redirections. -/
def shownAll : List FileRedirect → String
  | [] => ""
  | redirect :: rest => " " ++ redirect.shown ++ shownAll rest

theorem renderFd_output (descriptor : Nat) :
    Datum.renderFd (.tuple [.text "fixed", .int descriptor]) (.int 1) =
      .ok (if descriptor = 1 then "" else toString descriptor) := by
  have rendered : Datum.renderFd (.tuple [.text "fixed", .int descriptor]) (.int 1) =
      if ((1 : Int) == descriptor) then .ok "" else .ok (toString descriptor) := rfl
  rw [rendered]
  by_cases usual : descriptor = 1
  · simp [usual]
  · have other : ¬ (1 : Int) = descriptor := by omega
    simp [usual, other]

theorem renderFd_input (descriptor : Nat) :
    Datum.renderFd (.tuple [.text "fixed", .int descriptor]) (.int 0) =
      .ok (toString descriptor) := by
  rfl

theorem render_file {target : Datum} {text : String} (printed : target.renderWord .unquoted = .ok text)
    (arrow : Arrow) (descriptor : Nat) :
    Redirection.render (.file (.text arrow.kind) (.tuple [.text "fixed", .int descriptor]) target) =
      .ok (some ((if arrow.descriptor = 1 ∧ descriptor = 1 then "" else toString descriptor) ++
        (arrow.spelling ++ " ") ++ text)) := by
  cases arrow <;>
    simp only [Arrow.kind, Redirection.render, renderFd_output, renderFd_input, printed,
      Arrow.descriptor, true_and]
  all_goals rfl

theorem render_value (redirect : FileRedirect) :
    redirect.value.render = .ok (some redirect.shown) :=
  render_file redirect.printed redirect.arrow redirect.descriptor

theorem redirectionLine_tree (redirects : List FileRedirect) :
    redirectionLine false (redirects.map tree) = .ok (shownAll redirects) := by
  induction redirects with
  | nil => rfl
  | cons redirect rest ih => exact redirectionLine_cons rfl redirect.render_value ih

theorem bodyItems_tree (redirects : List FileRedirect) :
    bodyItems (redirects.map tree) = .ok [] := by
  induction redirects with
  | nil => rfl
  | cons redirect rest ih => exact (bodyItems_cons rfl).trans ih

theorem renderRedirs_tree (redirects : List FileRedirect) :
    (Datum.list (redirects.map tree)).renderRedirs false = .ok (shownAll redirects) := by
  simp only [Datum.renderRedirs, redirectionLine_tree, bodyItems_tree]
  rfl

theorem leads_number (redirect : FileRedirect) :
    Leads (" " ++ redirect.number ++ redirect.arrow.spelling ++ " ")
      [.arrow redirect.descriptor redirect.arrow] := by
  by_cases usual : redirect.arrow.descriptor = 1 ∧ redirect.descriptor = 1
  · have leads := leads_arrow redirect.arrow
    rw [usual.1, ← usual.2] at leads
    rw [number, if_pos usual, String.append_empty]
    exact leads
  · rw [number, if_neg usual]
    exact leads_numbered_arrow redirect.descriptor redirect.arrow

/-- Redirections can stand behind every text. -/
theorem lexes_shownAll (redirects : List FileRedirect) {before : String} {read : List Token}
    (lexes : Lexes before read) :
    Lexes (before ++ shownAll redirects)
      (read ++ Redirect.tokens (redirects.map FileRedirect.read)) := by
  induction redirects generalizing before read with
  | nil => simpa [shownAll, Redirect.tokens] using lexes
  | cons redirect rest ih =>
      have blank : Separated (" " ++ redirect.number ++ redirect.arrow.spelling ++ " ") :=
        ⟨' ', _, by simp only [String.toList_append, List.append_assoc]; rfl, rfl⟩
      have first := (lexes.append_leads blank redirect.leads_number).append
        (lexes_of_isWord redirect.word)
      have others := ih first
      simpa [shownAll, shown, Redirect.tokens, FileRedirect.read, String.append_assoc] using others

end FileRedirect

/-! ## Scripts with redirections -/

/-- The text is one command with the given redirections, and that command is the given phrase. -/
def Encloses (text : String) (body : Phrase) (redirects : List Redirect) : Prop :=
  ∃ command, parse text = some (.redirected command redirects) ∧ command.isCommand = true ∧
    command.normal = body.normal

/-- Redirections that the last command of a phrase takes are on all of it if it is a command. -/
theorem encloses_iff_of_parse {text : String} {phrase body : Phrase} {first : Redirect}
    {rest : List Redirect} (parsed : parse text = some (phrase.redirectLast (first :: rest)))
    (same : phrase.normal = body.normal) :
    Encloses text body (first :: rest) ↔ phrase.isCommand = true := by
  simp only [Encloses, parsed, Option.some.injEq, Phrase.redirectLast_eq_iff]
  constructor
  · rintro ⟨command, ⟨single, _⟩, _, _⟩
    exact single
  · intro single
    exact ⟨phrase, ⟨single, rfl⟩, single, same⟩

namespace Script

theorem yields_redirected (script : Script) (first : Redirect) (rest : List Redirect) :
    ((script.reader false).redirected (first :: rest)).Yields
      ((script.printed false).redirectLast (first :: rest)) := by
  cases script with
  | semi left right =>
      have yields := (Reader.yields_put (.braces (left.printed false))).link
        (Reader.yields_redirected_put (.braces (right.printed false)) first rest)
      rwa [← Reader.redirected_link] at yields
  | whileLoop test body => cases test <;> exact fun done => ⟨_, rfl, rfl⟩
  | _ => exact fun done => ⟨_, rfl, rfl⟩

theorem isCommand_printed (script : Script) :
    (script.printed false).isCommand = script.isCommand := by
  cases script with
  | whileLoop test body => cases test <;> rfl
  | _ => rfl

/-- Only sequences print in two ways. -/
theorem text_of_single {script : Script} (single : script.isSemi = false) :
    script.text true = script.text false := by
  cases script with
  | semi => cases single
  | whileLoop test body => cases test <;> rfl
  | _ => rfl

theorem reader_of_single {script : Script} (single : script.isSemi = false) :
    script.reader true = script.reader false := by
  cases script with
  | semi => cases single
  | whileLoop test body => cases test <;> rfl
  | _ => rfl

section Texts

variable (script : Script) (line : Datum) (first : FileRedirect) (rest : List FileRedirect)

/-- What a redirected script is read as. -/
theorem parse_redirected :
    ∃ text, (Datum.command (.redirected line script.tree
        (.list ((first :: rest).map FileRedirect.tree)))).shellText = .ok (some text) ∧
      parse text = some
        ((script.printed false).redirectLast ((first :: rest).map FileRedirect.read)) := by
  have rendered := script.render_tree false
  have redirs := FileRedirect.renderRedirs_tree (first :: rest)
  rw [style] at rendered
  refine ⟨script.text false ++ FileRedirect.shownAll (first :: rest), ?_, ?_⟩
  · simp only [Datum.shellText, Datum.render, Command.render, rendered, redirs]
    rfl
  · have read := (script.readsBack false).whole.redirected (script.complete_reader false)
      (FileRedirect.lexes_shownAll (first :: rest))
    exact read.parse_eq (script.yields_redirected first.read (rest.map FileRedirect.read))

/-- What a subshell with redirections is read as. -/
theorem parse_redirected_subshell :
    ∃ text, (Datum.command (.subshell line script.tree
        (.list ((first :: rest).map FileRedirect.tree)))).shellText = .ok (some text) ∧
      parse text = some
        (if script.isSemi then
          .redirected (.parens (script.printed true)) ((first :: rest).map FileRedirect.read)
        else .parens
          ((script.printed false).redirectLast ((first :: rest).map FileRedirect.read))) := by
  have reads := (script.readsBack true).whole
  have whole := render_subshell line (script.render_tree true)
    (FileRedirect.renderRedirs_tree (first :: rest))
  refine ⟨_, whole, ?_⟩
  cases semi : script.isSemi with
  | true =>
      have read := (reads.inParens (script.yields_reader true)).redirected
        (Reader.complete_put _) (FileRedirect.lexes_shownAll (first :: rest))
      exact read.parse_eq
        (Reader.yields_redirected_put _ first.read (rest.map FileRedirect.read))
  | false =>
      rw [reader_of_single semi, text_of_single semi] at reads
      rw [text_of_single semi]
      have read := reads.redirected (script.complete_reader false)
        (FileRedirect.lexes_shownAll (first :: rest))
      have yields := script.yields_redirected first.read (rest.map FileRedirect.read)
      exact (read.inParens yields).parse_eq (Reader.yields_put _)

/--
The redirections of a script are on the whole of it just where it is a single
command, and those of a subshell are on the whole of it just where it holds a
sequence.
-/
theorem encloses_iff :
    ∃ text inner,
      (Datum.command (.redirected line script.tree
        (.list ((first :: rest).map FileRedirect.tree)))).shellText = .ok (some text) ∧
      (Datum.command (.subshell line script.tree
        (.list ((first :: rest).map FileRedirect.tree)))).shellText = .ok (some inner) ∧
      (Encloses text script.phrase ((first :: rest).map FileRedirect.read) ↔
        script.isCommand = true) ∧
      (Encloses inner (.parens script.phrase) ((first :: rest).map FileRedirect.read) ↔
        script.isSemi = true) := by
  obtain ⟨text, printed, parsed⟩ := script.parse_redirected line first rest
  obtain ⟨inner, printedInner, parsedInner⟩ := script.parse_redirected_subshell line first rest
  refine ⟨text, inner, printed, printedInner, ?_, ?_⟩
  · rw [← script.isCommand_printed]
    exact encloses_iff_of_parse parsed (script.normal_printed false)
  · cases semi : script.isSemi with
    | true =>
        rw [semi, if_pos rfl] at parsedInner
        have same : (Phrase.parens (script.printed true)).normal =
            (Phrase.parens script.phrase).normal := by
          rw [Phrase.normal, Phrase.normal, script.normal_printed true]
        exact encloses_iff_of_parse parsedInner same
    | false =>
        rw [semi, if_neg Bool.false_ne_true] at parsedInner
        refine ⟨?_, fun same => absurd same Bool.false_ne_true⟩
        rintro ⟨command, parsed, _, _⟩
        rw [parsedInner] at parsed
        cases parsed

end Texts

/-- The redirection of a conjunction goes to its second half. -/
theorem redirected_and_not_enclosed :
    ∃ script : Script, script.phrase = .and (.call ["a"]) (.call ["b"]) ∧
      (Datum.command (.redirected (.int 1) script.tree (.list [.redir (.file (.text "To")
        (.tuple [.text "fixed", .int 1]) (wordOf false ['f']))]))).shellText =
          .ok (some "\x7b a ; \x7d && \x7b b ; \x7d > f") ∧
      ¬ Encloses "\x7b a ; \x7d && \x7b b ; \x7d > f" script.phrase
        [⟨1, .output, "f"⟩] := by
  refine ⟨.and (.call (.int 1) ⟨"a", by decide, by decide, by decide⟩ [])
    (.call (.int 1) ⟨"b", by decide, by decide, by decide⟩ []), rfl, by rfl, ?_⟩
  rintro ⟨command, parsed, _, _⟩
  have read : parse "\x7b a ; \x7d && \x7b b ; \x7d > f" =
      some (.and (.braces (.call ["a"]))
        (.redirected (.braces (.call ["b"])) [⟨1, .output, "f"⟩])) := by decide
  rw [read] at parsed
  cases parsed

end Script

end ShellTree
