import ShellTree.Proofs.RedirectedScripts

/-!
# Pipelines and jobs

The texts of the members of a pipeline are joined by bars, and a job is the
text of a script with an ampersand behind it.  A bar binds closer than all that
a script can be put together with, and an ampersand closer than a line feed.  So
a pipeline is read as one of its members if these are single commands, and a
job is read as one of the whole script if this is no sequence.
-/

namespace ShellTree

open Grammar

namespace Grammar

namespace Line

/-- The line holds something before the pipeline at hand, or a negation of it. -/
def Mixed (line : Line) : Prop :=
  line.done.isSome = true ∨ line.chain.isSome = true ∨ line.negated = true

theorem mixed_of_joined {connective : Connective} {line next : Line}
    (joined : line.joined connective = some next) : next.Mixed := by
  obtain ⟨phrase, _, rfl⟩ := Option.map_eq_some_iff.mp joined
  exact .inr (.inl rfl)

theorem mixed_of_ended {behind : Bool} {line next : Line}
    (ended : line.ended behind = some next) : next.Mixed := by
  obtain ⟨phrase, _, rfl⟩ := Option.map_eq_some_iff.mp ended
  exact .inl rfl

theorem mixed_of_negate {line next : Line} (negated : line.negate = some next) :
    next.Mixed := by
  obtain ⟨_, rfl⟩ : _ ∧ { line with negated := true } = next := by
    simpa [negate] using negated
  exact .inr (.inr rfl)

/-- A bar leaves what stands before the pipeline. -/
theorem Mixed.barred {line next : Line} (mixed : line.Mixed) (barred : line.barred = some next) :
    next.Mixed := by
  obtain ⟨phrase, _, rfl⟩ := Option.map_eq_some_iff.mp barred
  exact mixed

/-- A command at hand continues what was piped before it. -/
theorem bars_put {line : Line} (awaits : line.awaits = true) (command : Phrase) :
    (line.put command).bars =
      some (line.piped.elim command fun before => .pipe before command) := by
  obtain ⟨_, noArrow, noRedirects⟩ := awaits_iff.mp awaits
  cases piped : line.piped <;>
    simp [bars, lastCommand, put, noArrow, noRedirects, piped, Phrase.withRedirects]

end Line

/-! ## Readers that do more than read a command -/

namespace Reader

/-- Whatever was read before, there is now more on the line than a pipeline. -/
def Mixes (reader : Reader) : Prop :=
  ∀ line next, reader line = some next → next.Mixed

/-- If there was more on the line than a pipeline, there still is. -/
def KeepsMixed (reader : Reader) : Prop :=
  ∀ line next, line.Mixed → reader line = some next → next.Mixed

theorem keepsMixed_put (command : Phrase) : (Reader.put command).KeepsMixed := by
  intro line next mixed same
  cases same
  exact mixed

theorem Mixes.keepsMixed {reader : Reader} (mixes : reader.Mixes) : reader.KeepsMixed :=
  fun line next _ => mixes line next

/-- An operator that leaves more than a pipeline before a command. -/
theorem mixes_link_put {operator : Line → Option Line}
    (mixed : ∀ line next, operator line = some next → next.Mixed) (first : Reader)
    (command : Phrase) : (Reader.link operator first (Reader.put command)).Mixes := by
  intro line next linked
  obtain ⟨last, operated, read⟩ := Option.bind_eq_some_iff.mp linked
  obtain ⟨middle, _, same⟩ := Option.bind_eq_some_iff.mp operated
  exact keepsMixed_put command last next (mixed middle last same) read

theorem mixes_negated_put (command : Phrase) : (Reader.put command).negated.Mixes := by
  intro line next read
  obtain ⟨middle, negated, last⟩ := Option.bind_eq_some_iff.mp read
  exact keepsMixed_put command middle next (Line.mixed_of_negate negated) last

theorem KeepsMixed.link_barred {first second : Reader} (keepsFirst : first.KeepsMixed)
    (keepsSecond : second.KeepsMixed) : (Reader.link Line.barred first second).KeepsMixed := by
  intro line next mixed linked
  obtain ⟨last, operated, read⟩ := Option.bind_eq_some_iff.mp linked
  obtain ⟨middle, hmiddle, barred⟩ := Option.bind_eq_some_iff.mp operated
  exact keepsSecond last next ((keepsFirst line middle mixed hmiddle).barred barred) read

theorem Mixes.link_barred_left {first second : Reader} (mixes : first.Mixes)
    (keeps : second.KeepsMixed) : (Reader.link Line.barred first second).Mixes := by
  intro line next linked
  obtain ⟨last, operated, read⟩ := Option.bind_eq_some_iff.mp linked
  obtain ⟨middle, hmiddle, barred⟩ := Option.bind_eq_some_iff.mp operated
  exact keeps last next ((mixes line middle hmiddle).barred barred) read

theorem Mixes.link_barred_right {second : Reader} (mixes : second.Mixes) (first : Reader) :
    (Reader.link Line.barred first second).Mixes := by
  intro line next linked
  obtain ⟨last, _, read⟩ := Option.bind_eq_some_iff.mp linked
  exact mixes last next read

/-- Readers with bars between them. -/
def pipeline : Reader → List Reader → Reader
  | first, [] => first
  | first, second :: rest => Reader.link Line.barred first (pipeline second rest)

theorem complete_pipeline (first : Reader) (rest : List Reader)
    (complete : ∀ reader ∈ first :: rest, reader.Complete) : (pipeline first rest).Complete := by
  induction rest generalizing first with
  | nil => exact complete first List.mem_cons_self
  | cons second others ih =>
      have last := ih second fun reader inside => complete reader (List.mem_cons_of_mem first inside)
      exact last.link operates_bar.awaits first

theorem keepsMixed_pipeline (first : Reader) (rest : List Reader)
    (keeps : ∀ reader ∈ first :: rest, reader.KeepsMixed) :
    (pipeline first rest).KeepsMixed := by
  induction rest generalizing first with
  | nil => exact keeps first List.mem_cons_self
  | cons second others ih =>
      have last := ih second fun reader inside => keeps reader (List.mem_cons_of_mem first inside)
      exact (keeps first List.mem_cons_self).link_barred last

/-- One member that is more than a command makes the whole more than a pipeline. -/
theorem mixes_pipeline (first : Reader) (rest : List Reader)
    (keeps : ∀ reader ∈ first :: rest, reader.KeepsMixed)
    (mixes : ∃ reader ∈ first :: rest, reader.Mixes) : (pipeline first rest).Mixes := by
  induction rest generalizing first with
  | nil =>
      obtain ⟨reader, inside, mixes⟩ := mixes
      rw [List.mem_singleton.mp inside] at mixes
      exact mixes
  | cons second others ih =>
      have keepsRest : ∀ reader ∈ second :: others, reader.KeepsMixed :=
        fun reader inside => keeps reader (List.mem_cons_of_mem first inside)
      obtain ⟨reader, inside, mixes⟩ := mixes
      rcases List.mem_cons.mp inside with rfl | later
      · exact mixes.link_barred_left (keepsMixed_pipeline second others keepsRest)
      · exact (ih second keepsRest ⟨reader, later, mixes⟩).link_barred_right first

/-- Commands with bars between them are one pipeline, after what was piped before. -/
theorem pipeline_put {line : Line} (awaits : line.awaits = true) (first : Phrase)
    (rest : List Phrase) :
    ∃ next, pipeline (Reader.put first) (rest.map Reader.put) line = some next ∧
      next.done = line.done ∧ next.chain = line.chain ∧ next.negated = line.negated ∧
      next.bars =
        some (rest.foldl .pipe (line.piped.elim first fun before => .pipe before first)) := by
  induction rest generalizing line first with
  | nil => exact ⟨line.put first, rfl, rfl, rfl, rfl, Line.bars_put awaits first⟩
  | cons second others ih =>
      have bars := Line.bars_put awaits first
      let start := line.piped.elim first fun before => .pipe before first
      let middle : Line := { line.put first with piped := some start, command := none, redirects := [] }
      have barred : (line.put first).barred = some middle := by rw [Line.barred, bars]; rfl
      obtain ⟨next, read, done, chain, negated, last⟩ :=
        ih (Line.awaits_of_barred barred) second
      refine ⟨next, ?_, done, chain, negated, last⟩
      rw [← read]
      simp only [List.map_cons, pipeline, Reader.link, Reader.put, Option.bind_some, barred]

end Reader

/-! ## Texts with bars and ampersands -/

/-- Texts with bars between them are read by their readers one after the other. -/
theorem ReadsAs.pipeline (first : String × Reader) (rest : List (String × Reader))
    (reads : ∀ item ∈ first :: rest, ReadsAs item.1 item.2 ∧ item.2.Complete) :
    ReadsAs (String.intercalate " | " ((first :: rest).map Prod.fst))
      (Reader.pipeline first.2 (rest.map Prod.snd)) := by
  obtain ⟨readsFirst, complete⟩ := reads first List.mem_cons_self
  induction rest generalizing first with
  | nil =>
      rw [List.map_singleton, String.intercalate_singleton]
      exact readsFirst
  | cons second others ih =>
      have later := fun item inside => reads item (List.mem_cons_of_mem first inside)
      have readsOthers := ih second later (later second List.mem_cons_self).1
        (later second List.mem_cons_self).2
      rw [List.map_cons, List.map_cons, String.intercalate_cons_cons]
      exact .link operates_bar readsFirst complete readsOthers

/-- What the line is once it is ended, in the background or not. -/
def Line.outcome (behind : Bool) (line : Line) : Option Phrase :=
  line.andOr.map fun last => Phrase.after line.done (if behind then .background last else last)

theorem Line.Open.content_eq {line : Line} (ready : line.Open) :
    line.content = line.outcome false := by
  have different : line ≠ Line.fresh line.done := by
    intro same
    have command := ready.command
    rw [same] at command
    cases command
  rw [Line.content, if_neg different, Line.ended, Line.outcome, Option.bind_map]
  cases line.andOr <;> rfl

theorem ReadsAs.parse_outcome {text : String} {reader : Reader} (readsAs : ReadsAs text reader)
    (complete : reader.Complete) :
    parse text = (reader (Line.fresh none)).bind (Line.outcome false) := by
  obtain ⟨read, lexes, reads⟩ := readsAs
  have run := reads [] (Line.fresh none) (Line.awaits_fresh none)
  cases hreader : reader (Line.fresh none) with
  | none => simp [parse, lexes.tokens_eq, run, hreader]
  | some line =>
      have ready := complete _ line (Line.awaits_fresh none) hreader
      simp [parse, lexes.tokens_eq, run, hreader, ready.content_eq]

/-- A job in braces. -/
theorem ReadsAs.inBackground {text : String} {reader : Reader} (readsAs : ReadsAs text reader) :
    ReadsAs (inBackground false text) fun line =>
      ((reader (Line.fresh none)).bind (Line.outcome true)).map fun body =>
        line.put (.braces body) := by
  obtain ⟨read, lexes, reads⟩ := readsAs
  refine ⟨[.word "\x7b"] ++ read ++ [.control .ampersand, .word "\x7d"], ?_, ?_⟩
  · have opening : Leads "\x7b " [.word "\x7b"] := by decide
    have closing : Lexes " & \x7d" [.control .ampersand, .word "\x7d"] :=
      lexes_of_feed (by decide :
        feed .nothing " & \x7d".toList = some ([.control .ampersand], .word [] ['\x7d']))
    exact (opening.append lexes).append ⟨_, _, rfl, rfl⟩ closing
  · intro stack line awaits
    have first := State.step_opening "\x7b" rfl (fun _ => rfl) stack awaits
    have second := reads ((.braces, line) :: stack) (Line.fresh none) (Line.awaits_fresh none)
    simp only [List.cons_append, List.nil_append, State.run, first, Option.bind_some,
      State.run_append, second]
    cases reader (Line.fresh none) with
    | none => rfl
    | some inner =>
        cases andOr : inner.andOr with
        | none => simp [State.step, Line.ended, Line.outcome, andOr]
        | some last =>
            let body := Phrase.after inner.done (.background last)
            have third : State.step ⟨(.braces, line) :: stack, inner⟩ (.control .ampersand) =
                some ⟨(.braces, line) :: stack, Line.fresh (some body)⟩ := by
              simp [State.step, Line.ended, andOr, body]
            have fourth : State.step ⟨(.braces, line) :: stack, Line.fresh (some body)⟩
                (.word "\x7d") = some (State.closed stack line (.inr (.braces body))) :=
              State.step_closing rfl rfl rfl stack line
            simp [third, fourth, State.closed, Line.outcome, andOr, body]

theorem ReadsAs.parse_inBackground {text : String} {reader : Reader}
    (readsAs : ReadsAs text reader) :
    parse (ShellTree.inBackground false text) =
      ((reader (Line.fresh none)).bind (Line.outcome true)).map .braces := by
  have complete : Reader.Complete fun line =>
      ((reader (Line.fresh none)).bind (Line.outcome true)).map fun body =>
        line.put (.braces body) := by
    intro line next awaits read
    obtain ⟨body, _, same⟩ := Option.map_eq_some_iff.mp read
    exact Reader.complete_put (.braces body) line next awaits (congrArg some same)
  rw [readsAs.inBackground.parse_outcome complete, Option.bind_map]
  cases (reader (Line.fresh none)).bind (Line.outcome true) <;> rfl

/-- What a text is, also as a job in braces. -/
theorem ReadsAs.parse_behind {text : String} {reader : Reader} (readsAs : ReadsAs text reader)
    (complete : reader.Complete) (behind : Bool) :
    parse (if behind then ShellTree.inBackground false text else text) =
      ((reader (Line.fresh none)).bind (Line.outcome behind)).map fun body =>
        if behind then .braces body else body := by
  cases behind with
  | false => simpa using readsAs.parse_outcome complete
  | true => exact readsAs.parse_inBackground

/-! ## Pipelines -/

namespace Phrase

/-- Is a phrase a command, or are there commands with bars between them? -/
def isPipeline : Phrase → Bool
  | .pipe .. => true
  | phrase => phrase.isCommand

/-- The phrase has bars between commands that are the given phrases. -/
def PipelineOf (phrase : Phrase) (items : List Phrase) : Prop :=
  ∃ first rest, phrase = rest.foldl .pipe first ∧
    (∀ command ∈ first :: rest, command.isCommand = true) ∧
    (first :: rest).map normal = items.map normal

theorem isPipeline_foldl {first : Phrase} (start : first.isPipeline = true)
    (rest : List Phrase) : (rest.foldl .pipe first).isPipeline = true := by
  induction rest generalizing first with
  | nil => exact start
  | cons second others ih => exact ih rfl

theorem PipelineOf.isPipeline {phrase : Phrase} {items : List Phrase}
    (pipelineOf : phrase.PipelineOf items) : phrase.isPipeline = true := by
  obtain ⟨first, rest, rfl, commands, _⟩ := pipelineOf
  have command := commands first List.mem_cons_self
  have start : first.isPipeline = true := by
    cases first <;> first | rfl | exact command
  exact isPipeline_foldl start rest

theorem exists_andThen (first second : Phrase) :
    ∃ left right, first.andThen second = .sequence left right := by
  cases first <;> exact ⟨_, _, rfl⟩

/-- The phrase with its last member in the background. -/
def lastBehind : Phrase → Phrase
  | .sequence left right => .sequence left right.lastBehind
  | phrase => .background phrase

@[simp] theorem redirectLast_nil (phrase : Phrase) : phrase.redirectLast [] = phrase := by
  induction phrase <;> simp_all [redirectLast, withRedirects]

end Phrase

/-- The text is a pipeline of the given phrases, in the background or not. -/
def Pipes (text : String) (behind : Bool) (items : List Phrase) : Prop :=
  ∃ phrase, parse text = some (if behind then .braces (.background phrase) else phrase) ∧
    phrase.PipelineOf items

/-- The text is one job in the background, and that job is the given phrase. -/
def JobOf (text : String) (body : Phrase) : Prop :=
  ∃ phrase, parse text = some phrase ∧ phrase.normal = .background body.normal

/-- More than a pipeline on a line is no pipeline when the line is ended. -/
theorem Line.Mixed.isPipeline {line : Line} (mixed : line.Mixed) {behind : Bool} {phrase : Phrase}
    (outcome : line.outcome behind = some (if behind then .background phrase else phrase)) :
    phrase.isPipeline = false := by
  obtain ⟨last, andOr, same⟩ := Option.map_eq_some_iff.mp outcome
  cases done : line.done with
  | some before =>
      obtain ⟨left, right, sequence⟩ :=
        before.exists_andThen (if behind then .background last else last)
      rw [done, Phrase.after, sequence] at same
      cases behind with
      | true => cases same
      | false =>
          cases same
          rfl
  | none =>
      have whole : last = phrase := by
        rw [done, Phrase.after] at same
        cases behind with
        | true => exact Phrase.background.inj same
        | false => exact same
      subst whole
      obtain ⟨pipeline, hpipeline, same⟩ := Option.map_eq_some_iff.mp andOr
      obtain ⟨bars, hbars, negation⟩ := Option.map_eq_some_iff.mp hpipeline
      rcases mixed with isSome | isSome | negated
      · simp [done] at isSome
      · obtain ⟨⟨connective, before⟩, chain⟩ := Option.isSome_iff_exists.mp isSome
        rw [chain] at same
        subst same
        cases connective <;> rfl
      · rw [negated, if_pos rfl] at negation
        subst negation same
        cases chain : line.chain with
        | none => rfl
        | some link =>
            obtain ⟨connective, before⟩ := link
            cases connective <;> rfl

end Grammar

namespace Script

theorem reader_of_isCommand {script : Script} (single : script.isCommand = true) :
    script.reader false = Reader.put (script.printed false) := by
  cases script <;> first | rfl | cases single

theorem mixes_reader {script : Script} (several : script.isCommand = false) :
    (script.reader false).Mixes := by
  cases script with
  | and left right => exact Reader.mixes_link_put (fun _ _ => Line.mixed_of_joined) _ _
  | or left right => exact Reader.mixes_link_put (fun _ _ => Line.mixed_of_joined) _ _
  | semi left right => exact Reader.mixes_link_put (fun _ _ => Line.mixed_of_ended) _ _
  | not body => exact Reader.mixes_negated_put _
  | _ => cases several

theorem keepsMixed_reader (script : Script) : (script.reader false).KeepsMixed := by
  cases single : script.isCommand with
  | true =>
      rw [reader_of_isCommand single]
      exact Reader.keepsMixed_put _
  | false => exact (mixes_reader single).keepsMixed

/-- Scripts with bars between them. -/
def pipelineReader (first : Script) (rest : List Script) : Reader :=
  Reader.pipeline (first.reader false) (rest.map (reader false))

theorem readsAs_pipeline (first : Script) (rest : List Script) :
    ReadsAs (String.intercalate " | " ((first :: rest).map (text false)))
      (pipelineReader first rest) := by
  have reads := ReadsAs.pipeline (first.text false, first.reader false)
    (rest.map fun script => (script.text false, script.reader false)) (by
      intro item inside
      obtain ⟨script, _, rfl⟩ := List.mem_map.mp (List.map_cons ▸ inside :
        item ∈ (first :: rest).map fun script => (script.text false, script.reader false))
      exact ⟨(script.readsBack false).whole, script.complete_reader false⟩)
  simpa [pipelineReader, Function.comp_def] using reads

theorem renderItems_tree (scripts : List Script) :
    renderItems (scripts.map tree) = .ok ((scripts.map (text false)).map some) := by
  induction scripts with
  | nil => rfl
  | cons script rest ih =>
      have rendered := script.render_tree false
      rw [style] at rendered
      simp only [List.map_cons, renderItems, rendered, ih]
      rfl

theorem complete_pipelineReader (first : Script) (rest : List Script) :
    (pipelineReader first rest).Complete := by
  apply Reader.complete_pipeline
  intro reader inside
  obtain ⟨script, _, rfl⟩ := List.mem_map.mp (List.map_cons ▸ inside :
    reader ∈ (first :: rest).map (Script.reader false))
  exact script.complete_reader false

/-- Single commands with bars between them are the pipeline of them. -/
theorem outcome_of_commands {first : Script} {rest : List Script}
    (commands : ∀ script ∈ first :: rest, script.isCommand = true) (behind : Bool) :
    (pipelineReader first rest (Line.fresh none)).bind (Line.outcome behind) =
      let whole := (rest.map (printed false)).foldl Phrase.pipe (first.printed false)
      some (if behind then .background whole else whole) := by
  have puts : rest.map (reader false) = (rest.map (printed false)).map Reader.put := by
    rw [List.map_map]
    exact List.map_congr_left fun script inside =>
      reader_of_isCommand (commands script (List.mem_cons_of_mem first inside))
  obtain ⟨line, read, done, chain, negated, bars⟩ :=
    Reader.pipeline_put (Line.awaits_fresh none) (first.printed false) (rest.map (printed false))
  rw [pipelineReader, reader_of_isCommand (commands first List.mem_cons_self), puts, read]
  simp only [Line.fresh] at done chain negated
  simp [Line.outcome, Line.andOr, Line.pipeline, bars, done, chain, negated, Phrase.after, Line.fresh]

/-- Anything else among them is read as more than a pipeline, if it is read at all. -/
theorem isPipeline_outcome {first : Script} {rest : List Script}
    (several : ¬ ∀ script ∈ first :: rest, script.isCommand = true) {behind : Bool}
    {phrase : Phrase}
    (outcome : (pipelineReader first rest (Line.fresh none)).bind (Line.outcome behind) =
      some (if behind then .background phrase else phrase)) : phrase.isPipeline = false := by
  obtain ⟨line, read, outcome⟩ := Option.bind_eq_some_iff.mp outcome
  have keeps : ∀ member ∈ (first :: rest).map (reader false), member.KeepsMixed := by
    intro member inside
    obtain ⟨script, _, rfl⟩ := List.mem_map.mp inside
    exact script.keepsMixed_reader
  have mixes : ∃ member ∈ (first :: rest).map (reader false), member.Mixes := by
    simp only [Classical.not_forall, Bool.not_eq_true] at several
    obtain ⟨script, inside, several⟩ := several
    exact ⟨_, List.mem_map_of_mem inside, mixes_reader several⟩
  have mixed := Reader.mixes_pipeline (first.reader false) (rest.map (reader false)) keeps mixes
  exact (mixed _ _ read).isPipeline outcome

/-- A pipeline whose first item has nothing to wait for has bars between its items. -/
theorem render_pipe_items {first : Datum} {rest : List Datum} {text : String}
    {texts : List String} (behind : Datum) (prompt : first.defersHeredocs = .ok false)
    (rendered : first.render .plain = .ok (some text))
    (others : renderItems rest = .ok (texts.map some)) :
    (Datum.command (.pipe behind (.list (first :: rest)))).shellText =
      let line := String.intercalate " | " (text :: texts)
      .ok (some (if behind.truthy then inBackground false line else line)) := by
  have required := requiredAll_some (text :: texts)
  simp only [List.map_cons] at required
  simp only [Datum.shellText, Datum.render, Command.render, prompt, rendered, others]
  simp only [bind, Except.bind, pure, Except.pure, Style.none?, required]
  rfl

theorem render_pipe (behind : Datum) (first : Script) (rest : List Script) :
    (Datum.command (.pipe behind (.list ((first :: rest).map tree)))).shellText =
      let line := String.intercalate " | " ((first :: rest).map (text false))
      .ok (some (if behind.truthy then inBackground false line else line)) :=
  render_pipe_items behind first.defersHeredocs_tree (first.render_tree false)
    (renderItems_tree rest)

/-- A pipeline is read as one of its members just where they are single commands. -/
theorem pipes_iff {behind : Bool} {line : String} {first : Script} {rest : List Script}
    (reads : ReadsAs line (pipelineReader first rest)) :
    Pipes (if behind then inBackground false line else line) behind
        ((first :: rest).map phrase) ↔
      ∀ script ∈ first :: rest, script.isCommand = true := by
  have parsed := reads.parse_behind (complete_pipelineReader first rest) behind
  constructor
  · rintro ⟨phrase, same, pipelineOf⟩
    apply Classical.byContradiction
    intro several
    have outcome : (pipelineReader first rest (Line.fresh none)).bind (Line.outcome behind) =
        some (if behind then .background phrase else phrase) := by
      obtain ⟨body, outcome, closed⟩ := Option.map_eq_some_iff.mp (parsed.symm.trans same)
      rw [outcome]
      cases behind with
      | true => exact congrArg some (Phrase.braces.inj closed)
      | false => exact congrArg some closed
    have notPipeline := isPipeline_outcome several outcome
    rw [pipelineOf.isPipeline] at notPipeline
    cases notPipeline
  · intro commands
    rw [outcome_of_commands commands behind] at parsed
    refine ⟨(rest.map (printed false)).foldl .pipe (first.printed false), ?_, ?_⟩
    · rw [parsed]
      cases behind <;> rfl
    · refine ⟨first.printed false, rest.map (printed false), rfl, ?_, ?_⟩
      · intro command inside
        obtain ⟨script, member, rfl⟩ := List.mem_map.mp
          (show command ∈ (first :: rest).map (printed false) from inside)
        rw [isCommand_printed]
        exact commands script member
      · rw [← List.map_cons, List.map_map, List.map_map]
        exact List.map_congr_left fun script _ => script.normal_printed false

/-! ## Jobs -/

theorem render_background (line : Datum) (script : Script) (redirects : List FileRedirect) :
    (Datum.command (.background line script.tree
        (.list (redirects.map FileRedirect.tree)) .null (.bool false))).shellText =
      .ok (some (inBackground false (script.text false ++ FileRedirect.shownAll redirects))) := by
  have rendered := script.render_tree false
  have redirs := FileRedirect.renderRedirs_tree redirects
  rw [style] at rendered
  simp only [Datum.shellText, Datum.render, Command.render, rendered, redirs]
  rfl

/-- An ampersand behind a script with redirections takes the last member of the sequence. -/
theorem outcome_redirected (script : Script) (redirects : List Redirect) :
    ((script.reader false).redirected redirects (Line.fresh none)).bind (Line.outcome true) =
      some ((script.printed false).redirectLast redirects).lastBehind := by
  cases script with
  | whileLoop test body => cases test <;> cases redirects <;> rfl
  | _ => cases redirects <;> rfl

theorem normal_redirectLast_eq_iff (script : Script) (first : Redirect) (rest : List Redirect) :
    ((script.printed false).redirectLast (first :: rest)).normal =
        (Phrase.redirected script.phrase (first :: rest)).normal ↔ script.isCommand = true := by
  constructor
  · intro same
    cases script with
    | semi left right =>
        obtain ⟨before, last, sequence⟩ := (left.printed false).normal.exists_andThen
          (.redirected (right.printed false).normal (first :: rest))
        cases sequence.symm.trans same
    | and left right => cases same
    | or left right => cases same
    | not body => cases same
    | _ => rfl
  · intro single
    rw [Phrase.redirectLast_eq_iff.mpr ⟨script.isCommand_printed.trans single, rfl⟩,
      Phrase.normal, Phrase.normal, script.normal_printed false]

/-- A sequence is never one job. -/
theorem normal_lastBehind_semi (left right : Script) (redirects : List Redirect) (body : Phrase) :
    (((Script.semi left right).printed false).redirectLast redirects).lastBehind.normal ≠
      .background body := by
  obtain ⟨before, last, sequence⟩ := (left.printed false).normal.exists_andThen
    ((Phrase.braces (right.printed false)).redirectLast redirects).lastBehind.normal
  intro same
  cases sequence.symm.trans same

theorem lastBehind_redirectLast {script : Script} (single : script.isSemi = false)
    (redirects : List Redirect) :
    ((script.printed false).redirectLast redirects).lastBehind =
      .background ((script.printed false).redirectLast redirects) := by
  cases script with
  | semi left right => cases single
  | whileLoop test body => cases test <;> cases redirects <;> rfl
  | _ => cases redirects <;> rfl

/--
A job is read as one of the whole script just where this is a single command,
or has no redirections and is no sequence.
-/
theorem jobOf_iff {text : String} {script : Script} {redirects : List Redirect}
    (reads : ReadsAs text ((script.reader false).redirected redirects)) :
    JobOf (inBackground false text) (script.phrase.withRedirects redirects) ↔
      script.isCommand = true ∨ redirects = [] ∧ script.isSemi = false := by
  have parsed := reads.parse_inBackground
  rw [outcome_redirected, Option.map_some] at parsed
  have read : JobOf (inBackground false text) (script.phrase.withRedirects redirects) ↔
      ((script.printed false).redirectLast redirects).lastBehind.normal =
        .background (script.phrase.withRedirects redirects).normal := by
    simp [JobOf, parsed, Phrase.normal]
  rw [read]
  cases semi : script.isSemi with
  | true =>
      cases script with
      | semi left right =>
          have different := normal_lastBehind_semi left right redirects
          simp [different, isCommand]
      | _ => cases semi
  | false =>
      rw [lastBehind_redirectLast semi, Phrase.normal, Phrase.background.injEq]
      cases redirects with
      | nil => simp [Phrase.withRedirects, script.normal_printed false]
      | cons first rest =>
          have enclosed := script.normal_redirectLast_eq_iff first rest
          simpa [Phrase.withRedirects] using enclosed

/--
A pipeline of scripts is read as one of its members just where all of them are
single commands, and a job is read as one of the whole script just where this
is a single command, or has no redirections and is no sequence.
-/
theorem pipes_and_jobOf_iff (behind line : Datum) (first : Script) (rest : List Script)
    (script : Script) (redirects : List FileRedirect) :
    (∃ text, (Datum.command (.pipe behind (.list ((first :: rest).map tree)))).shellText =
        .ok (some text) ∧
      (Pipes text behind.truthy ((first :: rest).map phrase) ↔
        ∀ member ∈ first :: rest, member.isCommand = true)) ∧
    (∃ text, (Datum.command (.background line script.tree
        (.list (redirects.map FileRedirect.tree)) .null (.bool false))).shellText =
          .ok (some text) ∧
      (JobOf text (script.phrase.withRedirects (redirects.map FileRedirect.read)) ↔
        script.isCommand = true ∨ redirects = [] ∧ script.isSemi = false)) := by
  constructor
  · exact ⟨_, render_pipe behind first rest, pipes_iff (readsAs_pipeline first rest)⟩
  · have reads := (script.readsBack false).whole.redirected (script.complete_reader false)
      (FileRedirect.lexes_shownAll redirects)
    refine ⟨_, render_background line script redirects, ?_⟩
    rw [jobOf_iff reads, List.map_eq_nil_iff]

/-- A pipeline that starts with a conjunction is read as a conjunction. -/
theorem pipe_and_not_grouped :
    ∃ first second : Script, first.phrase = .and (.call ["a"]) (.call ["b"]) ∧
      second.phrase = .call ["c"] ∧
      (Datum.command (.pipe (.bool false) (.list [first.tree, second.tree]))).shellText =
        .ok (some "\x7b a ; \x7d && \x7b b ; \x7d | c") ∧
      ¬ Pipes "\x7b a ; \x7d && \x7b b ; \x7d | c" false [first.phrase, second.phrase] := by
  refine ⟨.and (.call (.int 1) ⟨"a", by decide, by decide, by decide⟩ [])
    (.call (.int 1) ⟨"b", by decide, by decide, by decide⟩ []),
    .call (.int 1) ⟨"c", by decide, by decide, by decide⟩ [], rfl, rfl, by rfl, ?_⟩
  rintro ⟨phrase, parsed, pipelineOf⟩
  have read : parse "\x7b a ; \x7d && \x7b b ; \x7d | c" =
      some (.and (.braces (.call ["a"])) (.pipe (.braces (.call ["b"])) (.call ["c"]))) := by
    decide
  rw [read] at parsed
  cases parsed
  cases pipelineOf.isPipeline

end Script

end ShellTree
