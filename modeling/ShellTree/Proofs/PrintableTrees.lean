import ShellTree.Proofs.HeredocCommands
import ShellTree.Proofs.TaggedLayout

/-!
# Printable trees

A construct asks the commands inside it for their text in several styles, and
not every command takes each of them.  A command is printable if it prints in
every style that it can be asked for where it stands.  This is carried from the
inside of a command to the outside: whatever is put together from printable
words, redirections and commands is printable again.
-/

namespace ShellTree

/-! ## What can be printed -/

/-- There is a result. -/
def Succeeds {α : Type} (result : Except Fault α) : Prop :=
  ∃ value, result = .ok value

/-- There is a text. -/
def Prints (result : Except Fault (Option String)) : Prop :=
  ∃ text, result = .ok (some text)

/-- What is said of a step after a value holds of the step after the result. -/
theorem bind_of_ok {α β : Type} {result : Except Fault α} {next : α → Except Fault β}
    {good : Except Fault β → Prop} {value : α} (same : result = .ok value)
    (after : good (next value)) : good (result >>= next) := by
  rw [same]
  exact after

theorem Succeeds.bind {α β : Type} {result : Except Fault α} {next : α → Except Fault β}
    {good : Except Fault β → Prop} (succeeds : Succeeds result)
    (after : ∀ value, good (next value)) : good (result >>= next) := by
  obtain ⟨value, same⟩ := succeeds
  exact bind_of_ok same (after value)

theorem Prints.bind {β : Type} {result : Except Fault (Option String)}
    {next : Option String → Except Fault β} {good : Except Fault β → Prop} (prints : Prints result)
    (after : ∀ text, good (next (some text))) : good (result >>= next) := by
  obtain ⟨text, same⟩ := prints
  exact bind_of_ok same (after text)

theorem Prints.succeeds {result : Except Fault (Option String)} (prints : Prints result) :
    Succeeds result := by
  obtain ⟨text, shown⟩ := prints
  exact ⟨some text, shown⟩

theorem Prints.required {result : Except Fault (Option String)} (prints : Prints result) :
    Succeeds (result >>= ShellTree.required) := by
  obtain ⟨text, rfl⟩ := prints
  exact ⟨text, rfl⟩

/-- A word that prints wherever it stands. -/
def Datum.WordPrints (word : Datum) : Prop :=
  ∃ items, word = .list items ∧ ∀ mode, Succeeds (renderParts mode items)

/-- A redirection that prints, and whose heredoc prints above and below the line break. -/
structure Redirection.Prints (redir : Redirection) : Prop where
  plain : ShellTree.Prints redir.render
  header : redir.tag = .heredoc → Succeeds redir.header
  body : redir.tag = .heredoc → Succeeds redir.body

theorem Redirection.Prints.of_plain {redir : Redirection} (plain : ShellTree.Prints redir.render)
    (other : redir.tag ≠ .heredoc) : redir.Prints :=
  ⟨plain, fun heredoc => (other heredoc).elim, fun heredoc => (other heredoc).elim⟩

/-- A simple command that prints with its heredocs and without them. -/
structure Datum.Defers (datum : Datum) : Prop where
  holds : datum.defersHeredocs = .ok true
  headers : Succeeds datum.deferredHeaders
  bodies : Succeeds datum.deferredBodies
  bare : ShellTree.Prints (datum.render (.heredocs true))

/-- A command that prints in every style that it is asked for. -/
structure Command.Prints (command : Command) : Prop where
  plain : ShellTree.Prints (command.render .plain)
  bare : command.tag = .semi → ShellTree.Prints (command.render (.braces true))
  ungrouped : command.tag ≠ .group
  emptiness : Succeeds (Datum.command command).isEmptyCommand
  deferred : (Datum.command command).defersHeredocs = .ok false ∨ (Datum.command command).Defers
  negated : ∀ body noBraces, command = .not body noBraces →
    ShellTree.Prints (body.render body.bareStyle)

/-- What is read of each kind prints wherever it stands. -/
def Item.Prints : Item → Datum → Prop
  | .command, datum => ∃ command, datum = .command command ∧ command.Prints
  | .part, datum => ∃ part, datum = .part part ∧ ∀ mode, Succeeds (part.render mode)
  | .word, datum => datum.WordPrints
  | .redirection, datum => ∃ redir, datum = .redir redir ∧ redir.Prints
  | .assignment, datum => ShellTree.Prints (datum.render .plain)
  | .clause, datum => Succeeds datum.renderClause

/-! ## Words -/

theorem Datum.WordPrints.renderWord {word : Datum} (prints : word.WordPrints) (mode : QuoteMode) :
    Succeeds (word.renderWord mode) := by
  obtain ⟨items, rfl, each⟩ := prints
  rw [Datum.renderWord]
  exact each mode

/-- A word prints if its parts do. -/
theorem wordPrints_of_parts {items : List Datum}
    (each : ∀ inner ∈ items, Item.part.Prints inner) : (Datum.list items).WordPrints := by
  refine ⟨items, rfl, fun mode => ?_⟩
  induction items with
  | nil => exact ⟨"", rfl⟩
  | cons item rest ih =>
      obtain ⟨part, rfl, printed⟩ := each item List.mem_cons_self
      have following := ih fun inner inside => each inner (List.mem_cons_of_mem _ inside)
      obtain ⟨text, shown⟩ := printed mode
      have first : Prints ((Datum.part part).render (.quoting mode)) := by
        refine ⟨text, ?_⟩
        simp only [Datum.render, Style.quoteMode, bind, Except.bind, shown]
        rfl
      rw [renderParts]
      exact first.required.bind fun _ => following.bind fun _ => ⟨_, rfl⟩

theorem renderWords_of_words {items : List Datum}
    (each : ∀ inner ∈ items, Item.word.Prints inner) : Succeeds (Datum.list items).renderWords := by
  rw [Datum.renderWords]
  induction items with
  | nil => exact ⟨[], rfl⟩
  | cons item rest ih =>
      have first : item.WordPrints := each item List.mem_cons_self
      have following := ih fun inner inside => each inner (List.mem_cons_of_mem _ inside)
      rw [renderWordItems]
      exact (first.renderWord .unquoted).bind fun _ => following.bind fun _ => ⟨_, rfl⟩

theorem wordPrints_wordOf (bashMode : Bool) (chars : List Char) :
    (wordOf bashMode chars).WordPrints := by
  refine wordPrints_of_parts fun inner inside => ?_
  obtain ⟨c, _, rfl⟩ := List.mem_map.mp inside
  refine ⟨_, rfl, fun mode => ?_⟩
  rw [WordPart.render, Datum.char, charOfCode_toNat]
  refine bind_of_ok rfl ?_
  split
  · exact ⟨_, rfl⟩
  · exact ⟨_, rfl⟩

theorem charText_ne_dollar {c : Char} (other : c ≠ '$') (number : String) :
    Escape.charText c number ≠ "$" := by
  intro same
  have chars := congrArg String.toList same
  unfold Escape.charText at chars
  repeat' split at chars
  all_goals simp at chars
  exact other chars

theorem render_escaped_ne_dollar (code : Datum) (mode : QuoteMode) :
    (WordPart.escaped code).render mode ≠ .ok "$" := by
  intro alone
  rw [WordPart.render, Escape.text] at alone
  obtain ⟨c, known, alone⟩ := bind_eq_ok_iff.mp alone
  split at alone
  · have same := congrArg String.toList (Except.ok.inj alone)
    simp at same
  next ordinary =>
      split at alone
      · have same := congrArg String.toList (Except.ok.inj alone)
        simp at same
      · obtain ⟨d, again, alone⟩ := bind_eq_ok_iff.mp alone
        obtain ⟨number, _, alone⟩ := bind_eq_ok_iff.mp alone
        cases known.symm.trans again
        have other : c ≠ '$' := by
          rintro rfl
          exact ordinary (by decide)
        exact charText_ne_dollar other number (Except.ok.inj alone)

theorem render_tilde_ne_dollar (user : Datum) (mode : QuoteMode) :
    (WordPart.tilde user).render mode ≠ .ok "$" := by
  intro alone
  unfold WordPart.render at alone
  split at alone
  next value =>
      split at alone
      · simp at alone
      · split at alone
        · cases alone
        · cases alone
  next kind name =>
      split at alone
      · split at alone
        · have same := congrArg String.toList (Except.ok.inj alone)
          simp at same
        · cases alone
      · cases alone
  next items _ =>
      obtain ⟨shown, _, alone⟩ := bind_eq_ok_iff.mp alone
      cases alone
  next item _ =>
      obtain ⟨shown, _, alone⟩ := bind_eq_ok_iff.mp alone
      cases alone
  next fields =>
      split at alone
      · cases alone
      · obtain ⟨shown, _, alone⟩ := bind_eq_ok_iff.mp alone
        cases alone
  next => cases alone

theorem render_param_ne_dollar (format nullTest var arg : Datum) (mode : QuoteMode) :
    (WordPart.param format nullTest var arg).render mode ≠ .ok "$" := by
  intro alone
  unfold WordPart.render at alone
  split at alone
  next name =>
      split at alone
      · have same := congrArg String.toList (Except.ok.inj alone)
        simp at same
      · obtain ⟨flag, _, alone⟩ := bind_eq_ok_iff.mp alone
        have expansion (colon : String) : (do
            let operator ← expansionOperator format
            let inner ← arg.renderWord mode
            return "$\x7b" ++ name ++ colon ++ operator ++ inner ++ "\x7d") ≠
              Except.ok "$" := by
          intro alone
          obtain ⟨operator, _, alone⟩ := bind_eq_ok_iff.mp alone
          obtain ⟨inner, _, alone⟩ := bind_eq_ok_iff.mp alone
          have same := congrArg String.toList (Except.ok.inj alone)
          simp at same
        split at alone
        · exact expansion ":" alone
        · split at alone
          · exact expansion "" alone
          · cases alone
  next => cases alone

/-- No part of a word but a plain character prints as a dollar sign by itself. -/
theorem tag_of_render_dollar {part : WordPart} {mode : QuoteMode}
    (alone : part.render mode = .ok "$") : part.tag = .char := by
  cases part with
  | char => rfl
  | escaped code => exact absurd alone (render_escaped_ne_dollar code mode)
  | tilde user => exact absurd alone (render_tilde_ne_dollar user mode)
  | param format nullTest var arg =>
      exact absurd alone (render_param_ne_dollar format nullTest var arg mode)
  | arith arg | quoted arg | command node =>
      rw [WordPart.render] at alone
      obtain ⟨inner, _, alone⟩ := bind_eq_ok_iff.mp alone
      have same := congrArg String.toList (Except.ok.inj alone)
      simp at same
  | process op node =>
      rw [WordPart.render] at alone
      obtain ⟨inner, _, alone⟩ := bind_eq_ok_iff.mp alone
      obtain ⟨mark, _, alone⟩ := bind_eq_ok_iff.mp alone
      have same := congrArg (List.getLast? ∘ String.toList) (Except.ok.inj alone)
      simp at same

/-! ## Redirections -/

/-- Redirections print on the line of a command, and below it where they are heredocs. -/
theorem redirections_print {items : List Datum}
    (each : ∀ inner ∈ items, Item.redirection.Prints inner) :
    Succeeds (redirectionLine false items) ∧ Succeeds (bodyItems items) := by
  induction items with
  | nil => exact ⟨⟨_, rfl⟩, ⟨_, rfl⟩⟩
  | cons item rest ih =>
      obtain ⟨redir, rfl, prints⟩ := each item List.mem_cons_self
      obtain ⟨line, bodies⟩ := ih fun inner inside => each inner (List.mem_cons_of_mem _ inside)
      have named : (Datum.redir redir).tag = .ok redir.tag := rfl
      rw [redirectionLine, bodyItems]
      constructor
      · refine bind_of_ok named ?_
        split
        next heredoc =>
            rw [if_neg Bool.false_ne_true, Datum.header]
            exact (prints.header (beq_iff_eq.mp heredoc)).bind fun _ =>
              line.bind fun _ => ⟨_, rfl⟩
        next => exact prints.plain.required.bind fun _ => line.bind fun _ => ⟨_, rfl⟩
      · refine bind_of_ok named ?_
        split
        next heredoc =>
            rw [Datum.body]
            exact (prints.body (beq_iff_eq.mp heredoc)).bind fun _ =>
              bodies.bind fun _ => ⟨_, rfl⟩
        next => exact bodies

theorem renderRedirs_of_redirections {items : List Datum}
    (each : ∀ inner ∈ items, Item.redirection.Prints inner) :
    Succeeds ((Datum.list items).renderRedirs false) := by
  obtain ⟨line, bodies⟩ := redirections_print each
  rw [Datum.renderRedirs]
  exact line.bind fun _ => bodies.bind fun _ => ⟨_, rfl⟩

/-! ## Commands -/

/-- What is no simple command holds no heredocs of its own and is never taken for an empty one. -/
theorem Command.Prints.of_compound {command : Command}
    (plain : ShellTree.Prints (command.render .plain)) (compound : command.tag ≠ .simple)
    (ungrouped : command.tag ≠ .group)
    (bare : command.tag = .semi → ShellTree.Prints (command.render (.braces true)))
    (negated : ∀ body noBraces, command = .not body noBraces →
      ShellTree.Prints (body.render body.bareStyle)) : command.Prints where
  plain := plain
  bare := bare
  ungrouped := ungrouped
  emptiness := by
    cases command with
    | simple => exact (compound rfl).elim
    | _ => exact ⟨false, rfl⟩
  deferred := by
    cases command with
    | simple => exact (compound rfl).elim
    | _ => exact .inl rfl
  negated := negated

/-- Most commands are asked for their plain text only. -/
theorem Command.Prints.of_plain {command : Command}
    (plain : ShellTree.Prints (command.render .plain))
    (apart : command.tag ∉ [Tag.simple, .semi, .not, .group]) : command.Prints := by
  refine .of_compound plain ?_ ?_ ?_ ?_
  · exact fun simple => apart (by simp [simple])
  · exact fun group => apart (by simp [group])
  · exact fun semi => (apart (by simp [semi])).elim
  · rintro body noBraces rfl
    exact (apart (by simp [Command.tag])).elim

theorem Command.Prints.bareStyle {command : Command} (prints : command.Prints) :
    ShellTree.Prints ((Datum.command command).render (Datum.command command).bareStyle) := by
  rw [Datum.bareStyle, Datum.render]
  split
  next semi => exact prints.bare (by simpa [Datum.isTag, Datum.tag?] using semi)
  next => exact prints.plain

/-- The texts of several commands. -/
theorem renderItems_of_commands {items : List Datum}
    (each : ∀ inner ∈ items, ShellTree.Prints (inner.render .plain)) :
    ∃ texts : List String, renderItems items = .ok (texts.map some) := by
  induction items with
  | nil => exact ⟨[], rfl⟩
  | cons item rest ih =>
      obtain ⟨first, shown⟩ := each item List.mem_cons_self
      obtain ⟨others, following⟩ :=
        ih fun inner inside => each inner (List.mem_cons_of_mem _ inside)
      refine ⟨first :: others, ?_⟩
      rw [renderItems, shown, following]
      rfl

theorem Item.Prints.plain {datum : Datum} (prints : Item.command.Prints datum) :
    ShellTree.Prints (datum.render .plain) := by
  obtain ⟨command, rfl, inner⟩ := prints
  exact inner.plain

theorem Item.Prints.bare {datum : Datum} (prints : Item.command.Prints datum) :
    ShellTree.Prints (datum.render datum.bareStyle) := by
  obtain ⟨command, rfl, inner⟩ := prints
  exact inner.bareStyle

/-- A pipeline prints if there is something in it. -/
theorem prints_pipe (behind first : Datum) (rest : List Datum)
    (each : ∀ inner ∈ first :: rest, Item.command.Prints inner) :
    Command.Prints (.pipe behind (.list (first :: rest))) := by
  refine .of_plain ?_ (by simp [Command.tag])
  obtain ⟨command, rfl, prints⟩ := each first List.mem_cons_self
  obtain ⟨texts, others⟩ := renderItems_of_commands fun inner inside =>
    (each inner (List.mem_cons_of_mem _ inside)).plain
  rw [Command.render]
  refine bind_of_ok rfl ?_
  rcases prints.deferred with direct | deferred
  · exact bind_of_ok direct <| prints.plain.bind fun text => bind_of_ok others <|
      bind_of_ok (requiredAll_some (text :: texts)) ⟨_, rfl⟩
  · refine bind_of_ok deferred.holds ?_
    have following : Succeeds (renderItems rest >>= requiredAll) := by
      rw [others]
      exact ⟨texts, requiredAll_some texts⟩
    exact deferred.headers.bind fun _ => deferred.bodies.bind fun _ =>
      deferred.bare.bind fun _ => following.bind fun _ => ⟨_, rfl⟩

/-- A simple command prints with its heredocs, and without those that another command prints. -/
theorem prints_simple (line : Datum) {assignments arguments redirs : List Datum}
    (assigned : ∀ inner ∈ assignments, Item.assignment.Prints inner)
    (words : ∀ inner ∈ arguments, Item.word.Prints inner)
    (each : ∀ inner ∈ redirs, Item.redirection.Prints inner) :
    Command.Prints (.simple line (.list assignments) (.list arguments) (.list redirs)) := by
  obtain ⟨texts, first⟩ := renderItems_of_commands assigned
  obtain ⟨shown, second⟩ := renderWords_of_words words
  obtain ⟨behind, whole⟩ := renderRedirs_of_redirections each
  obtain ⟨⟨above, printed⟩, bodies, below⟩ := redirections_print each
  obtain ⟨headers, bare, omitted⟩ := Redirs.headers_of_redirectionLine printed
  obtain ⟨tags, named, _⟩ := Redirs.tags_of_bodyItems below
  have alone : (Datum.list redirs).renderRedirs true = .ok bare := by
    rw [Datum.renderRedirs, omitted]
    rfl
  refine ⟨⟨_, render_simple line first second rfl whole⟩, ?_, ?_, ?_, ?_, ?_⟩
  · exact fun semi => by cases semi
  · exact fun group => by cases group
  · rw [Datum.isEmptyCommand]
    split
    · refine bind_of_ok rfl ?_
      split
      · exact ⟨false, rfl⟩
      · refine bind_of_ok rfl ?_
        split
        · exact ⟨false, rfl⟩
        · exact ⟨_, rfl⟩
    · exact ⟨false, rfl⟩
  · have asked : (Datum.command (.simple line (.list assignments) (.list arguments)
        (.list redirs))).defersHeredocs = .ok (tags.contains .heredoc) := by
      simp only [Datum.defersHeredocs, Datum.holdsHeredoc, Datum.items, bind, Except.bind, named]
      rfl
    cases holds : tags.contains .heredoc with
    | false => exact .inl (asked.trans (congrArg _ holds))
    | true =>
        exact .inr ⟨asked.trans (congrArg _ holds), headers, ⟨bodies, below⟩,
          _, render_simple line first second rfl alone⟩
  · exact fun body noBraces same => by cases same

/-- Two commands print with an operator between them. -/
theorem prints_connected {left right : Datum} (leftPrints : Item.command.Prints left)
    (rightPrints : Item.command.Prints right) :
    Command.Prints (.and left right (.bool false)) ∧ Command.Prints (.or left right (.bool false)) ∧
      Command.Prints (.semi left right (.bool false)) := by
  refine ⟨.of_plain ?_ (by simp [Command.tag]), .of_plain ?_ (by simp [Command.tag]),
    .of_compound ?_ (by simp [Command.tag]) (by simp [Command.tag]) (fun _ => ?_)
      fun _ _ same => by cases same⟩
  · rw [Command.render]
    refine bind_of_ok rfl ?_
    obtain ⟨command, rfl, prints⟩ := leftPrints
    rcases prints.deferred with direct | deferred
    · exact bind_of_ok direct <| prints.plain.required.bind fun _ =>
        rightPrints.plain.required.bind fun _ => ⟨_, rfl⟩
    · exact bind_of_ok deferred.holds <| deferred.headers.bind fun _ =>
        deferred.bodies.bind fun _ => deferred.bare.required.bind fun _ =>
        rightPrints.plain.bind fun _ => ⟨_, rfl⟩
  · rw [Command.render]
    exact bind_of_ok rfl <| leftPrints.plain.required.bind fun _ =>
      rightPrints.plain.required.bind fun _ => ⟨_, rfl⟩
  · rw [Command.render]
    exact bind_of_ok rfl <| leftPrints.plain.required.bind fun _ =>
      rightPrints.plain.required.bind fun _ => ⟨_, rfl⟩
  · rw [Command.render]
    exact bind_of_ok rfl <| leftPrints.bare.bind fun _ => rightPrints.bare.bind fun _ => ⟨_, rfl⟩

/-- A command prints with redirections behind it. -/
theorem prints_redirected (line : Datum) {body : Datum} {redirs : List Datum}
    (prints : Item.command.Prints body)
    (each : ∀ inner ∈ redirs, Item.redirection.Prints inner) :
    Command.Prints (.subshell line body (.list redirs)) ∧
      Command.Prints (.redirected line body (.list redirs)) ∧
      Command.Prints (.background line body (.list redirs) .null (.bool false)) := by
  have redirected := renderRedirs_of_redirections each
  refine ⟨.of_plain ?_ (by simp [Command.tag]), .of_plain ?_ (by simp [Command.tag]),
    .of_plain ?_ (by simp [Command.tag])⟩
  · obtain ⟨command, rfl, inner⟩ := prints
    rw [Command.render]
    refine bind_of_ok rfl (bind_of_ok rfl ?_)
    split
    next semi =>
        exact (inner.bare (beq_iff_eq.mp semi)).bind fun _ => redirected.bind fun _ => ⟨_, rfl⟩
    next => exact inner.plain.bind fun _ => redirected.bind fun _ => ⟨_, rfl⟩
  · rw [Command.render]
    exact bind_of_ok rfl <| prints.plain.bind fun _ => redirected.bind fun _ => ⟨_, rfl⟩
  · rw [Command.render]
    exact bind_of_ok rfl <| prints.plain.bind fun _ => redirected.bind fun _ => ⟨_, rfl⟩

/-- A negated command prints, also where it is the test of a loop and prints without the sign. -/
theorem prints_not {body : Datum} (prints : Item.command.Prints body) :
    Command.Prints (.not body (.bool false)) := by
  refine .of_compound ?_ (by simp [Command.tag]) (by simp [Command.tag])
    (fun semi => by cases semi) fun _ _ same => ?_
  · rw [Command.render]
    exact bind_of_ok rfl <| prints.plain.bind fun _ => ⟨_, rfl⟩
  · cases same
    exact prints.bare

theorem prints_whileLoop {test body : Datum} (testPrints : Item.command.Prints test)
    (bodyPrints : Item.command.Prints body) : Command.Prints (.whileLoop test body) := by
  refine .of_plain ?_ (by simp [Command.tag])
  by_cases negation : ∃ inner noBraces, test = .command (.not inner noBraces)
  · obtain ⟨inner, noBraces, rfl⟩ := negation
    obtain ⟨command, same, prints⟩ := testPrints
    cases same
    rw [Command.render]
    exact bind_of_ok rfl <| (prints.negated inner noBraces rfl).bind fun _ =>
      bodyPrints.bare.bind fun _ => ⟨_, rfl⟩
  · rw [Command.render]
    · exact bind_of_ok rfl <| testPrints.bare.bind fun _ => bodyPrints.bare.bind fun _ => ⟨_, rfl⟩
    · exact fun inner noBraces same => negation ⟨inner, noBraces, same⟩

/-- A conditional prints, whether its second branch is empty, a conditional or something else. -/
theorem prints_ifElse {test thenBranch elseBranch : Datum} (testPrints : Item.command.Prints test)
    (thenPrints : Item.command.Prints thenBranch) (elsePrints : Item.command.Prints elseBranch) :
    Command.Prints (.ifElse test thenBranch elseBranch) := by
  refine .of_plain ?_ (by simp [Command.tag])
  rw [Command.render]
  refine bind_of_ok rfl <| testPrints.bare.bind fun _ => thenPrints.bare.bind fun _ => ?_
  have plain := elsePrints.plain.required
  have bare := elsePrints.bare
  obtain ⟨command, rfl, prints⟩ := elsePrints
  refine prints.emptiness.bind fun _ => ?_
  split
  · exact ⟨_, rfl⟩
  · split
    · exact plain.bind fun _ => ⟨_, rfl⟩
    · exact bare.bind fun _ => ⟨_, rfl⟩

theorem prints_defun (line : Datum) {name body : Datum} (called : name.WordPrints)
    (prints : Item.command.Prints body) : Command.Prints (.defun line name body (.bool false)) := by
  refine .of_plain ?_ (by simp [Command.tag])
  obtain ⟨command, rfl, inner⟩ := prints
  have style : (if command.tag == .group then Style.braces true else .plain) = .plain :=
    if_neg (by simpa using inner.ungrouped)
  rw [Command.render]
  refine bind_of_ok rfl <| bind_of_ok rfl <| (called.renderWord .unquoted).bind fun _ => ?_
  rw [style]
  exact inner.plain.required.bind fun _ => ⟨_, rfl⟩

theorem prints_forLoop (line : Datum) {name body : Datum} {words : List Datum}
    (called : name.WordPrints) (prints : Item.command.Prints body)
    (each : ∀ inner ∈ words, Item.word.Prints inner) :
    Command.Prints (.forLoop line (.list words) body name) := by
  refine .of_plain ?_ (by simp [Command.tag])
  rw [Command.render]
  exact bind_of_ok rfl <| (called.renderWord .unquoted).bind fun _ =>
    (renderWords_of_words each).bind fun _ => prints.bare.bind fun _ => ⟨_, rfl⟩

/-- A clause prints if it has a pattern. -/
theorem prints_clause {first body : Datum} {rest : List Datum}
    (words : ∀ inner ∈ first :: rest, Item.word.Prints inner) (prints : Item.command.Prints body) :
    Item.clause.Prints (buildClause [.list (first :: rest), body]) := by
  have pattern : first.WordPrints := words first List.mem_cons_self
  have others : Succeeds (Datum.list rest).renderWords :=
    renderWords_of_words fun inner inside => words inner (List.mem_cons_of_mem _ inside)
  let fields := [("cpattern", .list (first :: rest)), ("cbody", body)]
  have shown : Succeeds (clauseBody fields) := by
    obtain ⟨command, rfl, inner⟩ := prints
    rw [clauseBody, if_neg (by decide), clauseBody, if_pos rfl, if_pos (by rfl)]
    refine inner.plain.bind fun _ => ?_
    split
    · exact ⟨_, rfl⟩
    next asked =>
        have semi : command.tag = .semi := by
          simp only [Bool.or_eq_true, not_or, Bool.not_eq_true, Bool.not_eq_false'] at asked
          simpa [Datum.isTag, Datum.tag?] using asked.2
        exact (inner.bare semi).succeeds
  have patterns : Succeeds (clausePatterns fields) := by
    rw [clausePatterns, if_pos rfl]
    exact (pattern.renderWord .unquoted).bind fun _ => others.bind fun _ => ⟨_, rfl⟩
  change Succeeds (Datum.dict fields).renderClause
  rw [Datum.renderClause]
  exact shown.bind fun _ => patterns.bind fun _ => ⟨_, rfl⟩

theorem prints_case (line : Datum) {word : Datum} {clauses : List Datum} (chosen : word.WordPrints)
    (each : ∀ inner ∈ clauses, Item.clause.Prints inner) :
    Command.Prints (.case line word (.list clauses)) := by
  refine .of_plain ?_ (by simp [Command.tag])
  have shown : Succeeds (Datum.list clauses).renderClauses := by
    rw [Datum.renderClauses]
    induction clauses with
    | nil => exact ⟨[], rfl⟩
    | cons clause rest ih =>
        have first : Succeeds clause.renderClause := each clause List.mem_cons_self
        have following := ih fun inner inside => each inner (List.mem_cons_of_mem _ inside)
        rw [renderClauseItems]
        exact first.bind fun _ => following.bind fun _ => ⟨_, rfl⟩
  rw [Command.render]
  exact bind_of_ok rfl <| (chosen.renderWord .unquoted).bind fun _ => shown.bind fun _ => ⟨_, rfl⟩

end ShellTree
