import ShellTree.Proofs.PipelinesAndJobs

/-!
# Programs without braces of the printer's own

A *program* is a tree of the shape that the grammar of bash gives: sequences of
and-or lists of pipelines of commands.  It is printed without any braces but
those of its own groups, so its text relies on how closely the operators bind.
The text is read back as the program, where nested pipelines are flattened and
sequences are chained.
-/

namespace ShellTree

open Grammar

/-! ## Flat pipelines and chained sequences -/

namespace Grammar

namespace Phrase

/-- A pipeline after the members of another. -/
def pipeThen (left : Phrase) : Phrase → Phrase
  | .pipe first last => .pipe (left.pipeThen first) last
  | last => .pipe left last

/-- A phrase with its pipelines nested to the left and its sequences chained to the right. -/
def arranged : Phrase → Phrase
  | .call words => .call words
  | .braces body => .braces body.arranged
  | .parens body => .parens body.arranged
  | .ifThen test body => .ifThen test.arranged body.arranged
  | .ifElse test body other => .ifElse test.arranged body.arranged other.arranged
  | .whileLoop test body => .whileLoop test.arranged body.arranged
  | .redirected command redirects => .redirected command.arranged redirects
  | .pipe left right => left.arranged.pipeThen right.arranged
  | .not body => .not body.arranged
  | .and left right => .and left.arranged right.arranged
  | .or left right => .or left.arranged right.arranged
  | .background body => .background body.arranged
  | .sequence left right => left.arranged.andThen right.arranged

theorem pipeThen_assoc (first second third : Phrase) :
    (first.pipeThen second).pipeThen third = first.pipeThen (second.pipeThen third) := by
  induction third with
  | pipe left right ih => simp [pipeThen, ih]
  | _ => rfl

theorem pipeThen_foldl (first second : Phrase) (rest : List Phrase) :
    first.pipeThen (rest.foldl pipeThen second) = rest.foldl pipeThen (first.pipeThen second) := by
  induction rest generalizing second with
  | nil => rfl
  | cons third others ih => rw [List.foldl_cons, List.foldl_cons, ih, pipeThen_assoc]

theorem arranged_foldl (first : Phrase) (rest : List Phrase) :
    (rest.foldl .pipe first).arranged = (rest.map arranged).foldl pipeThen first.arranged := by
  induction rest generalizing first with
  | nil => rfl
  | cons second others ih => rw [List.foldl_cons, ih, List.map_cons, List.foldl_cons, arranged]

end Phrase

/-! ## What readers make of a line -/

namespace Reader

/-- The reader makes its members follow those of the pipeline at hand. -/
def Pipes (reader : Reader) (members : Phrase) : Prop :=
  ∀ line, line.awaits = true → ∃ next, reader line = some next ∧ next.done = line.done ∧
    next.chain = line.chain ∧ next.negated = line.negated ∧
    next.bars = some (line.piped.elim members fun before => before.pipeThen members)

/-- The reader reads a pipeline. -/
def Pipelines (reader : Reader) (pipeline : Phrase) : Prop :=
  ∀ line, line.awaits = true → line.negated = false → line.piped = none →
    ∃ next, reader line = some next ∧ next.done = line.done ∧ next.chain = line.chain ∧
      next.pipeline = some pipeline

/-- The reader reads an and-or list. -/
def Chains (reader : Reader) (andOr : Phrase) : Prop :=
  ∀ done, ∃ next, reader (Line.fresh done) = some next ∧ next.done = done ∧
    next.andOr = some andOr

theorem pipes_put {command : Phrase} (single : ∀ before : Phrase,
    before.pipeThen command = .pipe before command) : (Reader.put command).Pipes command := by
  intro line awaits
  refine ⟨line.put command, rfl, rfl, rfl, rfl, ?_⟩
  rw [Line.bars_put awaits]
  simp only [single]

theorem Pipes.link {first second : Reader} {left right : Phrase} (pipesFirst : first.Pipes left)
    (pipesSecond : second.Pipes right) :
    (Reader.link Line.barred first second).Pipes (left.pipeThen right) := by
  intro line awaits
  obtain ⟨middle, read, done, chain, negated, bars⟩ := pipesFirst line awaits
  have barred : middle.barred = some { middle with
      piped := some (line.piped.elim left fun before => before.pipeThen left)
      command := none, redirects := [] } := by
    rw [Line.barred, bars, Option.map_some]
  obtain ⟨next, readNext, doneNext, chainNext, negatedNext, barsNext⟩ :=
    pipesSecond _ (Line.awaits_of_barred barred)
  refine ⟨next, ?_, doneNext.trans done, chainNext.trans chain, negatedNext.trans negated, ?_⟩
  · rw [Reader.link, read, Option.bind_some, barred, Option.bind_some, readNext]
  · rw [barsNext]
    cases line.piped with
    | none => rfl
    | some before => simp [Phrase.pipeThen_assoc]

theorem Pipes.pipelines {reader : Reader} {members : Phrase} (pipes : reader.Pipes members) :
    reader.Pipelines members := by
  intro line awaits positive empty
  obtain ⟨next, read, done, chain, negated, bars⟩ := pipes line awaits
  refine ⟨next, read, done, chain, ?_⟩
  simp [Line.pipeline, bars, negated, positive, empty]

theorem Pipes.negated {reader : Reader} {members : Phrase} (pipes : reader.Pipes members) :
    reader.negated.Pipelines (.not members) := by
  intro line awaits positive empty
  have negate : line.negate = some { line with negated := true } := by
    simp [Line.negate, positive, empty]
  obtain ⟨next, read, done, chain, negated, bars⟩ :=
    pipes _ (Line.awaits_of_negate awaits negate)
  refine ⟨next, ?_, done, chain, ?_⟩
  · rw [Reader.negated, negate, Option.bind_some, read]
  · simp [Line.pipeline, bars, negated, empty]

theorem Pipelines.chains {reader : Reader} {pipeline : Phrase}
    (pipelines : reader.Pipelines pipeline) : reader.Chains pipeline := by
  intro done
  obtain ⟨next, read, same, chain, whole⟩ := pipelines (Line.fresh done) rfl rfl rfl
  exact ⟨next, read, same, by simp [Line.andOr, whole, chain, Line.fresh]⟩

/-- An operator between pipelines joins what stands before it with the pipeline after it. -/
theorem Chains.link {first second : Reader} {left right : Phrase} (chains : first.Chains left)
    (pipelines : second.Pipelines right) (connective : Connective) :
    (Reader.link (Line.joined connective) first second).Chains (connective.join left right) := by
  intro done
  obtain ⟨middle, read, same, andOr⟩ := chains done
  have joined : middle.joined connective =
      some { Line.fresh done with chain := some (connective, left) } := by
    rw [Line.joined, andOr, same, Option.map_some]
  obtain ⟨next, readNext, sameNext, chain, whole⟩ :=
    pipelines { Line.fresh done with chain := some (connective, left) } rfl rfl rfl
  refine ⟨next, ?_, sameNext, ?_⟩
  · rw [Reader.link, read, Option.bind_some, joined, Option.bind_some, readNext]
  · rw [Line.andOr, whole, chain]
    rfl

theorem Chains.yields {reader : Reader} {andOr : Phrase} (chains : reader.Chains andOr) :
    reader.Yields andOr := by
  intro done
  obtain ⟨next, read, same, whole⟩ := chains done
  exact ⟨next, read, by simp [Line.ended, whole, same]⟩

end Reader

end Grammar

/-! ## Programs -/

/-- The levels of the grammar; a member of a pipeline is a command, or a pipeline inside it. -/
inductive Rank where
  | member
  | pipeline
  | andOr
  | list

/-- The trees of a level. -/
inductive Program : Rank → Type where
  | call (line : Datum) (name : PlainWord) (arguments : List PlainWord) : Program .member
  | group (body : Program .list) : Program .member
  | subshell (line : Datum) (body : Program .list) : Program .member
  | pipe (more : Nat) (members : Fin (more + 2) → Program .member) : Program .member
  | plain (member : Program .member) : Program .pipeline
  | not (member : Program .member) : Program .pipeline
  | alone (pipeline : Program .pipeline) : Program .andOr
  | and (left : Program .andOr) (right : Program .pipeline) : Program .andOr
  | or (left : Program .andOr) (right : Program .pipeline) : Program .andOr
  | last (andOr : Program .andOr) : Program .list
  | semi (left right : Program .list) : Program .list

namespace Program

/-- The tree of a program, with the mark of bash on the characters of its words or without. -/
def tree {rank : Rank} (bashMode : Bool) : Program rank → Datum
  | .call line name arguments =>
      .command (.simple line (.list []) (.list ((name :: arguments).map (PlainWord.tree bashMode)))
        (.list []))
  | .group body => .command (.group (body.tree bashMode))
  | .subshell line body => .command (.subshell line (body.tree bashMode) (.list []))
  | .pipe _ members =>
      .command (.pipe (.bool false) (.list (List.ofFn fun index => (members index).tree bashMode)))
  | .plain member => member.tree bashMode
  | .not member => .command (.not (member.tree bashMode) (.bool true))
  | .alone pipeline => pipeline.tree bashMode
  | .and left right => .command (.and (left.tree bashMode) (right.tree bashMode) (.bool true))
  | .or left right => .command (.or (left.tree bashMode) (right.tree bashMode) (.bool true))
  | .last andOr => andOr.tree bashMode
  | .semi left right => .command (.semi (left.tree bashMode) (right.tree bashMode) (.bool true))

/-- The phrase that a program is. -/
def phrase {rank : Rank} : Program rank → Phrase
  | .call _ name arguments => .call ((name :: arguments).map PlainWord.text)
  | .group body => .braces body.phrase
  | .subshell _ body => .parens body.phrase
  | .pipe _ members =>
      (List.ofFn fun index => (members (Fin.succ index)).phrase).foldl .pipe (members 0).phrase
  | .plain member => member.phrase
  | .not member => .not member.phrase
  | .alone pipeline => pipeline.phrase
  | .and left right => .and left.phrase right.phrase
  | .or left right => .or left.phrase right.phrase
  | .last andOr => andOr.phrase
  | .semi left right => .sequence left.phrase right.phrase

/-- The text of a program. -/
def text {rank : Rank} : Program rank → String
  | .call _ name arguments => String.intercalate " " ((name :: arguments).map PlainWord.text)
  | .group body => "\x7b " ++ body.text ++ "; \x7d"
  | .subshell _ body => inParens body.text
  | .pipe _ members => String.intercalate " | " (List.ofFn fun index => (members index).text)
  | .plain member => member.text
  | .not member => "! " ++ member.text
  | .alone pipeline => pipeline.text
  | .and left right => left.text ++ " && " ++ right.text
  | .or left right => left.text ++ " || " ++ right.text
  | .last andOr => andOr.text
  | .semi left right => left.text ++ " ; " ++ right.text

/-! ## Programs in print -/

theorem defersHeredocs_tree {rank : Rank} (bashMode : Bool) (program : Program rank) :
    (program.tree bashMode).defersHeredocs = .ok false := by
  induction program with
  | plain _ ih | alone _ ih | last _ ih => exact ih
  | _ => rfl

theorem exists_tag_tree {rank : Rank} (bashMode : Bool) (program : Program rank) :
    ∃ tag, (program.tree bashMode).tag = .ok tag := by
  induction program with
  | plain _ ih | alone _ ih | last _ ih => exact ih
  | _ => exact ⟨_, rfl⟩

theorem tree_ne_background {rank : Rank} (bashMode : Bool) (program : Program rank)
    (line node redirs after flag : Datum) :
    program.tree bashMode ≠ .command (.background line node redirs after flag) := by
  induction program with
  | plain _ ih | alone _ ih | last _ ih => exact ih
  | _ => simp [tree]

/-- A sequence that has its own semicolon is printed in one way only. -/
theorem render_bareStyle {rank : Rank} (bashMode : Bool) (program : Program rank) :
    (program.tree bashMode).render (program.tree bashMode).bareStyle =
      (program.tree bashMode).render .plain := by
  induction program with
  | plain _ ih | alone _ ih | last _ ih => exact ih
  | semi left right =>
      have bare : ((semi left right).tree bashMode).bareStyle = .braces true := rfl
      rw [bare, tree, Datum.render, Datum.render, Command.render, Command.render]
      rfl
  | _ => rfl

/-- A group prints its body between braces. -/
theorem render_group {rank : Rank} {bashMode : Bool} {body : Program rank} {inner : String}
    (printed : (body.tree bashMode).render .plain = .ok (some inner)) :
    (Datum.command (.group (body.tree bashMode))).render .plain =
      .ok (some ("\x7b " ++ inner ++ "; \x7d")) := by
  obtain ⟨tag, tagged⟩ := body.exists_tag_tree bashMode
  have different := body.tree_ne_background bashMode
  have bare := (body.render_bareStyle bashMode).trans printed
  simp only [Datum.render, Command.render, tagged, body.defersHeredocs_tree, bare, bind,
    Except.bind, Style.bracesOmitted, Bool.false_eq_true, if_false, required]
  rw [Bool.and_false]
  rfl

theorem renderItems_tree {rank : Rank} {bashMode : Bool} (programs : List (Program rank))
    (printed : ∀ program ∈ programs,
      (program.tree bashMode).render .plain = .ok (some program.text)) :
    renderItems (programs.map (tree bashMode)) = .ok ((programs.map text).map some) := by
  induction programs with
  | nil => rfl
  | cons program rest ih =>
      have others := ih fun other inside => printed other (List.mem_cons_of_mem program inside)
      simp only [List.map_cons, renderItems, printed program List.mem_cons_self, others]
      rfl

/-- A program prints as its text. -/
theorem render_tree {rank : Rank} (bashMode : Bool) (program : Program rank) :
    (program.tree bashMode).render .plain = .ok (some program.text) := by
  induction program with
  | plain _ ih | alone _ ih | last _ ih => exact ih
  | call line name arguments => exact render_call bashMode line (name :: arguments)
  | group body ih => exact render_group ih
  | subshell line body ih =>
      obtain ⟨tag, tagged⟩ := body.exists_tag_tree bashMode
      have printed := render_subshell line tagged ((body.render_bareStyle bashMode).trans ih)
        (show (Datum.list []).renderRedirs false = .ok "" from rfl)
      rw [String.append_empty, String.append_empty, ite_self] at printed
      exact printed
  | pipe more members ih =>
      have others := renderItems_tree (List.ofFn fun index => members (Fin.succ index)) (by
        intro program inside
        obtain ⟨index, rfl⟩ := List.mem_ofFn.mp inside
        exact ih (Fin.succ index))
      rw [List.map_ofFn, List.map_ofFn] at others
      have texts : (List.ofFn fun index => (members index).text) = _ := List.ofFn_succ
      rw [tree, text, texts, List.ofFn_succ]
      exact Script.render_pipe_items (.bool false) ((members 0).defersHeredocs_tree bashMode) (ih 0)
        others
  | not member ih =>
      simp only [tree, Datum.render, Command.render, ih]
      rfl
  | and left right ihl ihr =>
      simp only [tree, Datum.render, Command.render, defersHeredocs_tree, ihl, ihr]
      rfl
  | or left right ihl ihr =>
      simp only [tree, Datum.render, Command.render, ihl, ihr]
      rfl
  | semi left right ihl ihr =>
      simp only [tree, Datum.render, Command.render, ihl, ihr]
      rfl

/-! ## Programs are read back -/

/-- What the text of a program makes of the line that it is read in. -/
def reader {rank : Rank} : Program rank → Reader
  | .call _ name arguments => .put (.call ((name :: arguments).map PlainWord.text))
  | .group body => .put (.braces body.phrase.arranged)
  | .subshell _ body => .put (.parens body.phrase.arranged)
  | .pipe _ members =>
      .pipeline (members 0).reader (List.ofFn fun index => (members (Fin.succ index)).reader)
  | .plain member => member.reader
  | .not member => member.reader.negated
  | .alone pipeline => pipeline.reader
  | .and left right => .link (Line.joined .and) left.reader right.reader
  | .or left right => .link (Line.joined .or) left.reader right.reader
  | .last andOr => andOr.reader
  | .semi left right => .link (Line.ended false) left.reader right.reader

theorem complete_reader {rank : Rank} (program : Program rank) : program.reader.Complete := by
  induction program with
  | plain _ ih | alone _ ih | last _ ih => exact ih
  | call | group | subshell => exact Reader.complete_put _
  | pipe more members ih =>
      apply Reader.complete_pipeline
      intro reader inside
      rcases List.mem_cons.mp inside with rfl | later
      · exact ih 0
      · obtain ⟨index, rfl⟩ := List.mem_ofFn.mp later
        exact ih (Fin.succ index)
  | not _ ih => exact ih.negated
  | and _ _ _ ih => exact ih.link operates_and.awaits _
  | or _ _ _ ih => exact ih.link operates_or.awaits _
  | semi _ _ _ ih => exact ih.link operates_semicolon.awaits _

/-- What is read of a program of each level. -/
def Reads : Rank → Reader → Phrase → Prop
  | .member => Reader.Pipes
  | .pipeline => Reader.Pipelines
  | .andOr => Reader.Chains
  | .list => Reader.Yields

theorem pipes_pipeline (first : Program .member) (rest : List (Program .member))
    (pipes : ∀ member ∈ first :: rest, member.reader.Pipes member.phrase.arranged) :
    (Reader.pipeline first.reader (rest.map reader)).Pipes
      ((rest.map fun member => member.phrase.arranged).foldl Phrase.pipeThen
        first.phrase.arranged) := by
  induction rest generalizing first with
  | nil => exact pipes first List.mem_cons_self
  | cons second others ih =>
      have last := ih second fun member inside => pipes member (List.mem_cons_of_mem first inside)
      have whole := (pipes first List.mem_cons_self).link last
      rwa [Phrase.pipeThen_foldl] at whole

theorem reads_reader {rank : Rank} (program : Program rank) :
    Reads rank program.reader program.phrase.arranged := by
  induction program with
  | call | group | subshell => exact Reader.pipes_put fun _ => rfl
  | pipe more members ih =>
      have whole := pipes_pipeline (members 0) (List.ofFn fun index => members (Fin.succ index)) (by
        intro member inside
        rcases List.mem_cons.mp inside with rfl | later
        · exact ih 0
        · obtain ⟨index, rfl⟩ := List.mem_ofFn.mp later
          exact ih (Fin.succ index))
      rw [List.map_ofFn, List.map_ofFn] at whole
      rw [reader, phrase, Phrase.arranged_foldl, List.map_ofFn]
      exact whole
  | plain _ ih => exact Reader.Pipes.pipelines ih
  | not _ ih => exact Reader.Pipes.negated ih
  | alone _ ih => exact Reader.Pipelines.chains ih
  | and _ _ ihl ihr => exact Reader.Chains.link ihl ihr .and
  | or _ _ ihl ihr => exact Reader.Chains.link ihl ihr .or
  | last _ ih => exact Reader.Chains.yields ih
  | semi _ _ ihl ihr => exact Reader.Yields.link ihl ihr

theorem readsAs_text {rank : Rank} (program : Program rank) :
    ReadsAs program.text program.reader := by
  induction program with
  | plain _ ih | alone _ ih | last _ ih => exact ih
  | call line name arguments => exact name.readsAs_call arguments
  | group body ih =>
      have closing : Lexes "; \x7d" [.control .semicolon, .word "\x7d"] :=
        lexes_of_feed (by decide :
          feed .nothing "; \x7d".toList = some ([.control .semicolon], .word [] ['\x7d']))
      exact ih.braced body.reads_reader ⟨_, _, rfl, rfl⟩ closing
  | subshell line body ih => exact ih.inParens body.reads_reader
  | pipe more members ih =>
      have reads := ReadsAs.pipeline ((members 0).text, (members 0).reader)
        (List.ofFn fun index =>
          ((members (Fin.succ index)).text, (members (Fin.succ index)).reader))
        (by
          intro item inside
          rcases List.mem_cons.mp inside with rfl | later
          · exact ⟨ih 0, (members 0).complete_reader⟩
          · obtain ⟨index, rfl⟩ := List.mem_ofFn.mp later
            exact ⟨ih (Fin.succ index), (members (Fin.succ index)).complete_reader⟩)
      rw [List.map_cons, List.map_ofFn, List.map_ofFn] at reads
      have texts : (List.ofFn fun index => (members index).text) = _ := List.ofFn_succ
      rw [text, reader, texts]
      exact reads
  | not _ ih => exact ih.negated
  | and left _ ihl ihr => exact .link operates_and ihl left.complete_reader ihr
  | or left _ ihl ihr => exact .link operates_or ihl left.complete_reader ihr
  | semi left _ ihl ihr => exact .link operates_semicolon ihl left.complete_reader ihr

/--
The text of a program is read as the program, with flat pipelines and chained
sequences, whether its words carry the mark of bash or not.
-/
theorem parse_shellText_unbraced (bashMode : Bool) (program : Program .list) :
    ∃ text, (program.tree bashMode).shellText = .ok (some text) ∧
      parse text = some program.phrase.arranged :=
  ⟨program.text, program.render_tree bashMode, program.readsAs_text.parse_eq program.reads_reader⟩

end Program

end ShellTree
