import ShellTree.Proofs.AlikeCommands
import ShellTree.Proofs.Outcome

/-!
# The pieces of a text

The text of a command is put together from pieces: what its construct writes
itself, the texts of words and redirections, and the texts of the commands
inside.  Which pieces these are can be told from the command and the style that
it is asked for, without printing anything.
-/

namespace ShellTree

/-- A piece of the text of a command. -/
inductive Piece where
  /-- What the construct writes itself. -/
  | fixed (text : String)
  /-- A command inside, in the style that it is asked for. -/
  | inner (datum : Datum) (style : Style)
  /-- A word. -/
  | word (datum : Datum)
  /-- Words with blanks between them. -/
  | words (datum : Datum)
  /-- The assignments of a simple command, and its words. -/
  | call (assignments arguments : Datum)
  /-- Redirections, with their heredocs or without. -/
  | redirs (omitted : Bool) (datum : Datum)
  /-- The headers of the heredocs that wait for an operator. -/
  | headers (datum : Datum)
  /-- The bodies of the heredocs that wait for an operator. -/
  | bodies (datum : Datum)
  /-- The patterns of a clause of a case. -/
  | patterns (fields : List (String × Datum))

/-- The texts of the assignments of a simple command. -/
def Datum.renderAssignments : Datum → Except Fault (List String)
  | .seq _ items => renderItems items >>= requiredAll
  | other => do
      if (← other.entries).isEmpty then pure [] else .error .noField

/-- The text of a piece. -/
def Piece.Spells : Piece → String → Prop
  | .fixed text, spelled => spelled = text
  | .inner datum style, spelled => ∃ text, datum.render style = .ok text ∧ spelled = inserted text
  | .word datum, spelled => datum.renderWord .unquoted = .ok spelled
  | .words datum, spelled =>
      ∃ words, datum.renderWords = .ok words ∧ spelled = String.intercalate " " words
  | .call assignments arguments, spelled =>
      ∃ assigned words, assignments.renderAssignments = .ok assigned ∧
        arguments.renderWords = .ok words ∧
        spelled = String.intercalate " " assigned ++
          (if assigned.isEmpty || words.isEmpty then "" else " ") ++ String.intercalate " " words
  | .redirs omitted datum, spelled => datum.renderRedirs omitted = .ok spelled
  | .headers datum, spelled =>
      ∃ headers, datum.deferredHeaders = .ok headers ∧ spelled = String.intercalate " " headers
  | .bodies datum, spelled =>
      ∃ bodies, datum.deferredBodies = .ok bodies ∧
        spelled = String.intercalate " " bodies.reverse
  | .patterns fields, spelled =>
      ∃ patterns, clausePatterns fields = .ok patterns ∧
        spelled = (if patterns.head? == some "esac" then "(" else "") ++
          String.intercalate "|" patterns ++ ") "

/-- Pieces one after the other are a text. -/
def Spelled (pieces : List Piece) (text : String) : Prop :=
  ∃ texts, List.Forall₂ Piece.Spells pieces texts ∧ text = String.join texts

/-! ## The pieces of each construct -/

/-- Do the heredocs of a command wait for the operator after it? -/
def Datum.waits (datum : Datum) : Bool :=
  match datum.defersHeredocs with
  | .ok waits => waits
  | .error _ => false

/-- The command that a loop tests, which goes on until it holds if the test is inverted. -/
def Datum.tested : Datum → String × Datum
  | .command (.not test _) => ("until ", test)
  | test => ("while ", test)

/-- Commands in a row, with something between them. -/
def piecesBetween (mark : String) : List Datum → List Piece
  | [] => []
  | [item] => [.inner item .plain]
  | item :: next :: rest => .inner item .plain :: .fixed mark :: piecesBetween mark (next :: rest)

/-- Redirections, where there are any. -/
def redirPieces (omitted : Bool) (redirs : Datum) : List Piece :=
  if redirs.truthy then [.redirs omitted redirs] else []

/-- The command of a clause of a case, if it has one. -/
def clauseCommand : List (String × Datum) → List Piece
  | [] => []
  | (key, value) :: rest =>
      if key = "cbody" then if value.truthy then [.inner value value.bareStyle] else []
      else clauseCommand rest

/-- Does a clause of a case go on with the next one? -/
def fallsThrough (fields : List (String × Datum)) : Bool :=
  ((fields.lookup "fallthrough").getD .null).truthy

/-- The pieces of a clause of a case. -/
def Datum.clausePieces : Datum → List Piece
  | .dict fields =>
      .patterns fields :: clauseCommand fields ++
        [.fixed (if fallsThrough fields then ";&" else ";;")]
  | _ => []

/-- Clauses in a row, with blanks between them. -/
def clausesBetween : List Datum → List Piece
  | [] => []
  | [clause] => clause.clausePieces
  | clause :: next :: rest => clause.clausePieces ++ .fixed " " :: clausesBetween (next :: rest)

/-- The clauses of a case, or none if there is no list of them. -/
def Datum.clauses : Datum → List Datum
  | .seq _ items => items
  | _ => []

/-- The pieces between the brackets of a condition. -/
def condPieces (kind op left right : Datum) : List Piece :=
  if kind.isInt CondKind.expr.number then
    [.fixed "( ", .inner left (.brackets false), .fixed " )"]
  else if kind.isInt CondKind.and.number then
    [.inner left (.brackets false), .fixed " && ", .inner right (.brackets false)]
  else if kind.isInt CondKind.or.number then
    [.inner left (.brackets false), .fixed " || ", .inner right (.brackets false)]
  else if kind.isInt CondKind.unary.number then
    [.word op, .fixed " ", .inner left (.brackets false)]
  else if kind.isInt CondKind.binary.number then
    [.inner left (.brackets false), .fixed " ", .word op, .fixed " ",
      .inner right (.brackets false)]
  else [.word op]

/-- Is a group closed without a semicolon?  It is behind a job, and behind heredocs. -/
def Datum.closesItself (body : Datum) : Bool :=
  if body.isTag .background then !body.behind.truthy else !body.isTag .semi && body.waits

/-- The pieces of a pipeline, in the background or not. -/
def pipePieces (behind : Bool) : Datum → List Piece
  | .seq _ (first :: rest) =>
      if first.waits then
        [.inner first (.heredocs true), .fixed " ", .headers first, .fixed " |             "] ++
          piecesBetween " | " rest ++ [.fixed "\n", .bodies first]
      else if behind then
        .fixed "\x7b " :: piecesBetween " | " (first :: rest) ++ [.fixed " & \x7d"]
      else piecesBetween " | " (first :: rest)
  | _ => []

/-- The pieces of a command in the style that it is asked for. -/
def Command.pieces (style : Style) : Command → List Piece
  | .pipe behind items => pipePieces behind.truthy items
  | .simple _ assignments arguments redirs =>
      .call assignments arguments :: redirPieces (style = .heredocs true) redirs
  | .subshell _ body redirs =>
      if body.isTag .semi then
        [.fixed "( ", .inner body (.braces true), .fixed " )"] ++ redirPieces false redirs
      else
        [.fixed "( ", .inner body .plain] ++ redirPieces false redirs ++ [.fixed " )"]
  | .and left right noBraces =>
      if left.waits then
        if noBraces.truthy then
          [.inner left (.heredocs true), .fixed " ", .headers left, .fixed " &&\n", .bodies left,
            .fixed "                 ", .inner right .plain]
        else
          [.fixed "\x7b ", .inner left (.heredocs true), .fixed " ; \x7d ", .headers left,
            .fixed " &&\n", .bodies left, .fixed "                 \x7b ", .inner right .plain,
            .fixed " ; \x7d"]
      else if noBraces.truthy then [.inner left .plain, .fixed " && ", .inner right .plain]
      else
        [.fixed "\x7b ", .inner left .plain, .fixed " ; \x7d && \x7b ", .inner right .plain,
          .fixed " ; \x7d"]
  | .or left right noBraces =>
      if noBraces.truthy then [.inner left .plain, .fixed " || ", .inner right .plain]
      else
        [.fixed "\x7b ", .inner left .plain, .fixed " ; \x7d || \x7b ", .inner right .plain,
          .fixed " ; \x7d"]
  | .semi left right semicolon =>
      if semicolon.truthy then [.inner left .plain, .fixed " ; ", .inner right .plain]
      else if style = .braces true then
        [.inner left left.bareStyle, .fixed sequenceBreak, .inner right right.bareStyle]
      else
        [.fixed "\x7b ", .inner left .plain, .fixed " ; \x7d\n\x7b ", .inner right .plain,
          .fixed " ; \x7d"]
  | .not body noBraces =>
      if noBraces.truthy then [.fixed "! ", .inner body .plain]
      else [.fixed "! \x7b ", .inner body .plain, .fixed " ; \x7d"]
  | .redirected _ node redirs => .inner node .plain :: redirPieces false redirs
  | .background _ node redirs after noBraces =>
      if !after.truthy then
        if noBraces.truthy then .inner node .plain :: redirPieces false redirs ++ [.fixed " &"]
        else
          [.fixed "\x7b ", .inner node .plain] ++ redirPieces false redirs ++ [.fixed " & \x7d"]
      else
        .inner node .plain :: redirPieces false redirs ++
          if after.isTag .background then
            [.fixed " ", .inner after .plain] ++ if after.behind.truthy then [.fixed " &"] else []
          else [.fixed "  &", .inner after .plain]
  | .defun _ name body bashMode =>
      (if bashMode.truthy then [.fixed "function "] else []) ++
        [.word name, .fixed " () \x7b\n",
          .inner body (if body.isTag .group then .braces true else .plain), .fixed "\n\x7d"]
  | .forLoop _ argument body name =>
      [.fixed "for ", .word name, .fixed " in ", .words argument, .fixed "; \n do         ",
        .inner body body.bareStyle, .fixed "\ndone"]
  | .whileLoop test body =>
      [.fixed test.tested.1, .inner test.tested.2 test.tested.2.bareStyle,
        .fixed "; do             ", .inner body body.bareStyle, .fixed "; done "]
  | .ifElse test thenBranch elseBranch =>
      [.fixed "if ", .inner test test.bareStyle, .fixed "        ; then ",
        .inner thenBranch thenBranch.bareStyle] ++
        if !elseBranch.truthy || elseBranch.isEmptyCommand = .ok true then [.fixed "; fi"]
        else if elseBranch.isTag .ifElse then [.fixed "; el", .inner elseBranch .plain]
        else [.fixed "; else ", .inner elseBranch elseBranch.bareStyle, .fixed "; fi"]
  | .case _ argument cases =>
      [.fixed "case ", .word argument, .fixed " in "] ++ clausesBetween cases.clauses ++
        [.fixed " esac"]
  | .select _ name body choices =>
      [.fixed "select ", .word name, .fixed " in ", .words choices, .fixed ";\ndo\n",
        .inner body .plain, .fixed "\ndone"]
  | .arith _ body => [.fixed "((", .words body, .fixed "))"]
  | .cond _ kind op left right inverted =>
      (if style ≠ .brackets false then [.fixed "[[ "] else []) ++
        (if inverted.truthy then [.fixed "! "] else []) ++ condPieces kind op left right ++
        if style ≠ .brackets false then [.fixed " ]]"] else []
  | .arithFor _ start test step action =>
      [.fixed "for ((", .words start, .fixed "; ", .words test, .fixed "; ", .words step,
        .fixed "));         do ", .inner action action.bareStyle, .fixed "; done"]
  | .coproc name body =>
      if body.isTag .simple then [.fixed "coproc ", .inner body .plain]
      else [.fixed "coproc ", .word name, .fixed " ", .inner body .plain]
  | .time posix node =>
      [.fixed (if posix.truthy then "time -p " else "time "), .inner node .plain]
  | .group body =>
      if style = .braces true then [.inner body body.bareStyle]
      else
        [.fixed "\x7b ", .inner body body.bareStyle,
          .fixed (if body.closesItself then " \x7d" else "; \x7d")]

/-! ## Texts of pieces -/

/-- A piece has one text. -/
theorem Piece.Spells.eq {piece : Piece} {text other : String} (spells : piece.Spells text)
    (spelled : piece.Spells other) : text = other := by
  cases piece with
  | fixed => exact spells.trans spelled.symm
  | word | redirs => exact Except.ok.inj (spells.symm.trans spelled)
  | inner | words | headers | bodies | patterns =>
      obtain ⟨first, same, rfl⟩ := spells
      obtain ⟨second, again, rfl⟩ := spelled
      rw [Except.ok.inj (same.symm.trans again)]
  | call =>
      obtain ⟨assigned, words, before, behind, rfl⟩ := spells
      obtain ⟨others, again, same, following, rfl⟩ := spelled
      rw [Except.ok.inj (before.symm.trans same), Except.ok.inj (behind.symm.trans following)]

namespace Spelled

variable {pieces others : List Piece} {text next : String}

theorem nil : Spelled [] "" :=
  ⟨[], .nil, rfl⟩

theorem cons {piece : Piece} (first : piece.Spells text) (rest : Spelled pieces next) :
    Spelled (piece :: pieces) (text ++ next) := by
  obtain ⟨texts, each, rfl⟩ := rest
  exact ⟨text :: texts, .cons first each, by rw [String.join_cons]⟩

theorem one {piece : Piece} (only : piece.Spells text) : Spelled [piece] text :=
  ⟨[text], .cons only .nil, by rw [String.join_cons, String.join_nil, String.append_empty]⟩

theorem cast (spelled : Spelled pieces text) (same : text = next) : Spelled pieces next :=
  same ▸ spelled

/-- A construct writes something, or leaves it out. -/
theorem optional (condition : Prop) [Decidable condition] (text : String) :
    Spelled (if condition then [.fixed text] else []) (if condition then text else "") := by
  split
  · exact one rfl
  · exact nil

theorem append (first : Spelled pieces text) (second : Spelled others next) :
    Spelled (pieces ++ others) (text ++ next) := by
  obtain ⟨texts, each, rfl⟩ := first
  obtain ⟨rest, following, rfl⟩ := second
  exact ⟨texts ++ rest, List.rel_append each following, by rw [String.join_append]⟩

theorem cons_cases {piece : Piece} (spelled : Spelled (piece :: pieces) text) :
    ∃ first rest, piece.Spells first ∧ Spelled pieces rest ∧ text = first ++ rest := by
  obtain ⟨texts, each, rfl⟩ := spelled
  cases each with
  | cons spells rest => exact ⟨_, _, spells, ⟨_, rest, rfl⟩, String.join_cons⟩

theorem append_cases (spelled : Spelled (pieces ++ others) text) :
    ∃ first rest, Spelled pieces first ∧ Spelled others rest ∧ text = first ++ rest := by
  induction pieces generalizing text with
  | nil => exact ⟨"", text, nil, spelled, by simp⟩
  | cons piece pieces ih =>
      obtain ⟨start, more, spells, following, rfl⟩ := cons_cases spelled
      obtain ⟨first, rest, before, behind, rfl⟩ := ih following
      exact ⟨start ++ first, rest, cons spells before, behind, by rw [String.append_assoc]⟩

theorem spells_of_one {piece : Piece} (spelled : Spelled [piece] text) : piece.Spells text := by
  obtain ⟨first, rest, spells, ⟨texts, each, rfl⟩, rfl⟩ := cons_cases spelled
  cases each
  simpa using spells

end Spelled

theorem required_eq_ok_iff {shown : Option String} {text : String} :
    required shown = .ok text ↔ shown = some text := by
  cases shown with
  | none => simp [required]
  | some inner => simp [required]

theorem omitted_of_heredocs {style : Style} {omitted : Bool}
    (asked : style.heredocsOmitted = .ok omitted) : omitted = decide (style = .heredocs true) := by
  cases style with
  | plain => cases asked; rfl
  | heredocs flag => cases flag <;> cases asked <;> rfl
  | _ => cases asked

theorem omitted_of_braces {style : Style} {omitted : Bool}
    (asked : style.bracesOmitted = .ok omitted) : omitted = decide (style = .braces true) := by
  cases style with
  | plain => cases asked; rfl
  | braces flag => cases flag <;> cases asked <;> rfl
  | _ => cases asked

theorem shown_of_brackets {style : Style} {brackets : Bool}
    (asked : style.bracketsShown = .ok brackets) :
    brackets = !decide (style = .brackets false) := by
  cases style with
  | plain => cases asked; rfl
  | brackets flag => cases flag <;> cases asked <;> rfl
  | _ => cases asked

theorem tested_of_ne {test : Datum} (positive : ∀ inner flag, test ≠ .command (.not inner flag)) :
    test.tested = ("while ", test) := by
  unfold Datum.tested
  split
  next inner flag => exact absurd rfl (positive inner flag)
  next => rfl

theorem tested_cases (test : Datum) : test.tested.1 = "until " ∨ test.tested.1 = "while " := by
  unfold Datum.tested
  split
  · exact .inl rfl
  · exact .inr rfl

theorem tag?_of_tag {datum : Datum} {tag : Tag} (same : datum.tag = .ok tag) :
    datum.tag? = some tag := by
  rw [Datum.tag] at same
  split at same
  next found => cases same; exact found
  next => cases same

/-- Only commands have the tags of commands. -/
theorem exists_command_of_isTag {datum : Datum} {tag : Tag} (tagged : datum.isTag tag = true)
    (known : tag = .background ∨ tag = .semi ∨ tag = .ifElse) :
    ∃ value, datum = .command value ∧ value.tag = tag := by
  have same : datum.tag? = some tag := by simpa [Datum.isTag] using tagged
  cases datum with
  | command value => exact ⟨value, rfl, Option.some.inj same⟩
  | part value => rcases known with rfl | rfl | rfl <;> cases value <;> cases same
  | redir value => rcases known with rfl | rfl | rfl <;> cases value <;> cases same
  | assign var val => rcases known with rfl | rfl | rfl <;> cases same
  | _ => cases same

theorem exists_job_of_isTag {datum : Datum} (job : datum.isTag .background = true) :
    ∃ line node redirs after noBraces,
      datum = .command (.background line node redirs after noBraces) := by
  obtain ⟨value, rfl, tag⟩ := exists_command_of_isTag job (.inl rfl)
  cases value <;> cases tag
  exact ⟨_, _, _, _, _, rfl⟩

theorem waits_eq {datum : Datum} {waits : Bool} (defers : datum.defersHeredocs = .ok waits) :
    datum.waits = waits := by
  rw [Datum.waits, defers]

/-- Redirections print as nothing just where there are none. -/
theorem renderRedirs_of_falsy {redirs : Datum} {omitted : Bool} {text : String}
    (rendered : redirs.renderRedirs omitted = .ok text) (none : redirs.truthy = false) :
    text = "" := by
  cases redirs with
  | seq kind items =>
      cases items with
      | nil =>
          unfold Datum.renderRedirs at rendered
          cases omitted <;> cases rendered <;> rfl
      | cons first rest => cases none
  | _ =>
      unfold Datum.renderRedirs at rendered
      obtain ⟨entries, same, rendered⟩ := bind_eq_ok_iff.mp rendered
      split at rendered
      · cases rendered
        rfl
      · cases rendered

theorem spelled_redirPieces {redirs : Datum} {omitted : Bool} {text : String}
    (rendered : redirs.renderRedirs omitted = .ok text) :
    Spelled (redirPieces omitted redirs) text := by
  rw [redirPieces]
  split
  next => exact .one rendered
  next none =>
      rw [renderRedirs_of_falsy rendered (by simpa using none)]
      exact .nil

theorem spelled_piecesBetween {items : List Datum} {shown : List (Option String)}
    {texts : List String} (mark : String) (rendered : renderItems items = .ok shown)
    (all : requiredAll shown = .ok texts) :
    Spelled (piecesBetween mark items) (String.intercalate mark texts) := by
  induction items generalizing shown texts with
  | nil =>
      cases rendered
      cases all
      exact .nil
  | cons first rest ih =>
      simp only [renderItems, bind_eq_ok_iff] at rendered
      obtain ⟨start, started, others, listed, rendered⟩ := rendered
      cases rendered
      simp only [requiredAll, bind_eq_ok_iff, required_eq_ok_iff] at all
      obtain ⟨text, rfl, following, more, all⟩ := all
      cases all
      cases rest with
      | nil =>
          cases listed
          cases more
          exact .one ⟨_, started, rfl⟩
      | cons next rest =>
          have row := ih listed more
          have present : following ≠ [] := by
            rintro rfl
            simp only [renderItems, bind_eq_ok_iff] at listed
            obtain ⟨_, _, _, _, listed⟩ := listed
            cases listed
            simp only [requiredAll, bind_eq_ok_iff] at more
            obtain ⟨_, _, _, _, more⟩ := more
            cases more
          obtain ⟨second, others, rfl⟩ := List.exists_cons_of_ne_nil present
          exact .cast (.cons ⟨_, started, rfl⟩ (.cons rfl row))
            (by rw [String.intercalate_cons_cons]; simp [inserted, String.append_assoc])

/-- A sequence is never printed as nothing. -/
theorem semi_not_empty {value : Datum} {text : Option String} (sequence : value.isTag .semi = true)
    (rendered : value.render .plain = .ok text) : (text.getD "").isEmpty = false := by
  obtain ⟨command, rfl, tag⟩ := exists_command_of_isTag sequence (.inr (.inl rfl))
  cases command <;> cases tag
  unfold Datum.render Command.render at rendered
  obtain ⟨omitted, asked, rendered⟩ := bind_eq_ok_iff.mp rendered
  cases asked
  split at rendered <;> simp only [bind_eq_ok_iff, if_neg Bool.false_ne_true] at rendered <;>
    obtain ⟨first, _, second, _, rendered⟩ := rendered <;> cases rendered <;>
    simp [inBraces, String.isEmpty_eq_false_iff]

theorem spelled_clauseCommand {fields : List (String × Datum)} {body : Option String}
    (rendered : clauseBody fields = .ok body) : Spelled (clauseCommand fields) (inserted body) := by
  induction fields with
  | nil => cases rendered
  | cons field rest ih =>
      obtain ⟨key, value⟩ := field
      rw [clauseBody] at rendered
      rw [clauseCommand]
      split at rendered
      next named =>
          rw [if_pos named]
          split at rendered
          next present =>
              rw [if_pos present, Datum.bareStyle]
              obtain ⟨text, plain, rendered⟩ := bind_eq_ok_iff.mp rendered
              by_cases sequence : value.isTag .semi = true
              · rw [semi_not_empty sequence plain, sequence] at rendered
                rw [if_pos sequence]
                exact .one ⟨_, rendered, rfl⟩
              · have kept : ((text.getD "").isEmpty || !value.isTag .semi) = true := by
                  simp [sequence]
                rw [if_pos kept] at rendered
                cases rendered
                rw [if_neg sequence]
                exact .one ⟨_, plain, rfl⟩
          next absent =>
              cases rendered
              rw [if_neg absent]
              exact .nil
      next other =>
          rw [if_neg other]
          exact ih rendered

theorem spelled_clause {clause : Datum} {text : String}
    (rendered : clause.renderClause = .ok text) : Spelled clause.clausePieces text := by
  cases clause with
  | dict fields =>
      unfold Datum.renderClause at rendered
      cases found : fields.lookup "cpattern" with
      | none =>
          rw [found] at rendered
          cases rendered
      | some words =>
          rw [found] at rendered
          by_cases listable : words.iterable = true
          · simp only [if_pos listable, bind_eq_ok_iff] at rendered
            obtain ⟨body, inside, patterns, listed, rendered⟩ := rendered
            cases rendered
            rw [Datum.clausePieces, fallsThrough]
            exact .cast (.append (.cons ⟨_, listed, rfl⟩ (spelled_clauseCommand inside)) (.one rfl))
              (by simp [String.append_assoc])
          · simp only [if_neg listable] at rendered
            cases rendered
  | _ => cases rendered

theorem spelled_clausesBetween {items : List Datum} {texts : List String}
    (rendered : renderClauseItems items = .ok texts) :
    Spelled (clausesBetween items) (String.intercalate " " texts) := by
  induction items generalizing texts with
  | nil =>
      cases rendered
      exact .nil
  | cons clause rest ih =>
      simp only [renderClauseItems, bind_eq_ok_iff] at rendered
      obtain ⟨first, started, others, listed, rendered⟩ := rendered
      cases rendered
      cases rest with
      | nil =>
          cases listed
          exact spelled_clause started
      | cons next rest =>
          have row := ih listed
          simp only [renderClauseItems, bind_eq_ok_iff] at listed
          obtain ⟨second, _, following, _, listed⟩ := listed
          cases listed
          exact .cast ((spelled_clause started).append (.cons rfl row))
            (by rw [String.intercalate_cons_cons]; simp [String.append_assoc])

theorem spelled_clauses {cases : Datum} {texts : List String}
    (rendered : cases.renderClauses = .ok texts) :
    Spelled (clausesBetween cases.clauses) (String.intercalate " " texts) := by
  cases cases with
  | seq kind items => exact spelled_clausesBetween rendered
  | _ =>
      obtain ⟨entries, same, rendered⟩ := bind_eq_ok_iff.mp rendered
      split at rendered
      · cases rendered
        exact .nil
      · cases rendered

/-! ## Each construct in pieces -/

namespace Spelled

variable {left right body : Datum} {style other : Style} {shown next : Option String}

/-- A command with something before it and behind it. -/
theorem enclosed (opening closing : String) (inside : body.render style = .ok shown) :
    Spelled [.fixed opening, .inner body style, .fixed closing]
      (opening ++ inserted shown ++ closing) :=
  .cast (.cons rfl (.cons ⟨_, inside, rfl⟩ (.one rfl))) (by rw [String.append_assoc])

/-- Two commands with something between them. -/
theorem joined (mark : String) (before : left.render style = .ok shown)
    (behind : right.render other = .ok next) :
    Spelled [.inner left style, .fixed mark, .inner right other]
      (inserted shown ++ mark ++ inserted next) :=
  .cast (.cons ⟨_, before, rfl⟩ (.cons rfl (.one ⟨_, behind, rfl⟩))) (by rw [String.append_assoc])

/-- Two commands in braces of their own, with an operator between them. -/
theorem braced {operator mark first second : String}
    (before : left.render .plain = .ok (some first))
    (behind : right.render .plain = .ok (some second))
    (same : mark = " ; \x7d" ++ operator ++ "\x7b ") :
    Spelled [.fixed "\x7b ", .inner left .plain, .fixed mark, .inner right .plain,
      .fixed " ; \x7d"] (inBraces first ++ operator ++ inBraces second) := by
  refine .cast (.cons rfl ((joined mark before behind).append (.one rfl))) ?_
  rw [same]
  apply String.toList_injective
  simp [inserted, inBraces]

/-- A loop over words: its variable, the words and the body. -/
theorem loop (keyword opening closing : String) {name words : Datum} {called : String}
    {listed : List String} (named : name.renderWord .unquoted = .ok called)
    (given : words.renderWords = .ok listed) (inside : body.render style = .ok shown) :
    Spelled [.fixed keyword, .word name, .fixed " in ", .words words, .fixed opening,
      .inner body style, .fixed closing]
      (keyword ++ called ++ " in " ++ String.intercalate " " listed ++ opening ++
        inserted shown ++ closing) :=
  .cast (.cons rfl (.cons named (.cons rfl (.cons ⟨_, given, rfl⟩ (enclosed _ _ inside)))))
    (by simp only [String.append_assoc])

end Spelled

section Constructs

variable {style : Style} {shown : Option String}

/-- A pipeline whose first member has heredocs that wait for the operator. -/
theorem spelled_pipe_waiting {first : Datum} {rest : List Datum} {start : Option String}
    {headers bodies texts : List String} {others : List (Option String)}
    (started : first.render (.heredocs true) = .ok start)
    (headed : first.deferredHeaders = .ok headers) (bodied : first.deferredBodies = .ok bodies)
    (listed : renderItems rest = .ok others) (all : requiredAll others = .ok texts) :
    Spelled ([.inner first (.heredocs true), .fixed " ", .headers first,
        .fixed " |             "] ++ piecesBetween " | " rest ++ [.fixed "\n", .bodies first])
      (inserted start ++ " " ++ String.intercalate " " headers ++ " |             " ++
        String.intercalate " | " texts ++ "\n" ++ String.intercalate " " bodies.reverse) := by
  have before : Spelled [.inner first (.heredocs true), .fixed " ", .headers first,
      .fixed " |             "] _ :=
    .cons ⟨_, started, rfl⟩ (.cons rfl (.cons ⟨_, headed, rfl⟩ (.one rfl)))
  have below : Spelled [.fixed "\n", .bodies first] _ := .cons rfl (.one ⟨_, bodied, rfl⟩)
  refine .cast ((before.append (spelled_piecesBetween " | " listed all)).append below) ?_
  simp [String.append_assoc]

theorem spelled_pipe {behind items : Datum}
    (rendered : (Command.pipe behind items).render style = .ok shown) :
    Spelled ((Command.pipe behind items).pieces style) (inserted shown) := by
  unfold Command.render at rendered
  obtain ⟨_, plain, rendered⟩ := bind_eq_ok_iff.mp rendered
  cases items with
  | seq kind items =>
      cases items with
      | nil => cases rendered
      | cons first rest =>
          obtain ⟨waits, defers, rendered⟩ := bind_eq_ok_iff.mp rendered
          rw [Command.pieces, pipePieces, waits_eq defers]
          split at rendered
          next wait =>
              simp only [bind_eq_ok_iff] at rendered
              obtain ⟨headers, headed, bodies, bodied, start, started, texts,
                ⟨others, listed, all⟩, rendered⟩ := rendered
              cases rendered
              rw [if_pos wait]
              exact spelled_pipe_waiting started headed bodied listed all
          next ready =>
              simp only [bind_eq_ok_iff] at rendered
              obtain ⟨start, started, others, listed, texts, all, rendered⟩ := rendered
              have row : renderItems (first :: rest) = .ok (start :: others) := by
                rw [renderItems, started, listed]
                rfl
              have line := spelled_piecesBetween " | " row all
              cases rendered
              rw [if_neg ready]
              split
              next job =>
                  refine .cast (.cons rfl (line.append (.one rfl))) ?_
                  simp [inserted, inBackground, String.append_assoc]
              next => exact line
  | text value =>
      dsimp only at rendered
      split at rendered <;> cases rendered
  | _ => cases rendered

theorem spelled_simple {line assignments arguments redirs : Datum}
    (rendered : (Command.simple line assignments arguments redirs).render style = .ok shown) :
    Spelled ((Command.simple line assignments arguments redirs).pieces style)
      (inserted shown) := by
  unfold Command.render at rendered
  obtain ⟨omitted, asked, rendered⟩ := bind_eq_ok_iff.mp rendered
  have peeled : ∃ assigned, assignments.renderAssignments = .ok assigned ∧
      (arguments.renderWords >>= fun words => redirs.renderRedirs omitted >>= fun text =>
        pure (some (String.intercalate " " assigned ++
          (if assigned.isEmpty || words.isEmpty then "" else " ") ++
          String.intercalate " " words ++ text))) = .ok shown := by
    cases assignments with
    | seq kind items => exact bind_eq_ok_iff.mp rendered
    | _ =>
        obtain ⟨entries, same, rendered⟩ := bind_eq_ok_iff.mp rendered
        split at rendered
        next none =>
            refine ⟨[], ?_, rendered⟩
            rw [Datum.renderAssignments]
            · rw [same]
              exact if_pos none
            · simp
        next => cases rendered
  simp only [bind_eq_ok_iff] at peeled
  obtain ⟨assigned, before, words, called, text, behind, peeled⟩ := peeled
  cases peeled
  rw [Command.pieces, ← omitted_of_heredocs asked]
  exact .cast (.cons ⟨_, _, before, called, rfl⟩ (spelled_redirPieces behind)) rfl

theorem spelled_subshell {line body redirs : Datum}
    (rendered : (Command.subshell line body redirs).render style = .ok shown) :
    Spelled ((Command.subshell line body redirs).pieces style) (inserted shown) := by
  unfold Command.render at rendered
  simp only [bind_eq_ok_iff] at rendered
  obtain ⟨_, plain, tag, tagged, rendered⟩ := rendered
  rw [Command.pieces, Datum.isTag, tag?_of_tag tagged]
  split at rendered
  next sequence =>
      simp only [bind_eq_ok_iff] at rendered
      obtain ⟨inner, inside, text, behind, rendered⟩ := rendered
      cases rendered
      rw [if_pos (by simpa using sequence)]
      exact (Spelled.enclosed "( " " )" inside).append (spelled_redirPieces behind)
  next single =>
      simp only [bind_eq_ok_iff, required_eq_ok_iff] at rendered
      obtain ⟨inner, inside, text, behind, first, rfl, rendered⟩ := rendered
      cases rendered
      rw [if_neg (by simpa using single)]
      exact .cast (.append (.append (.cons rfl (.one ⟨_, inside, rfl⟩))
        (spelled_redirPieces behind)) (.one rfl))
        (by simp [inserted, inParens, String.append_assoc])

/-- An operator behind a command whose heredocs wait for it. -/
theorem spelled_and_waiting {left right : Datum} {first : String} {second : Option String}
    {headers bodies : List String} (headed : left.deferredHeaders = .ok headers)
    (bodied : left.deferredBodies = .ok bodies)
    (before : left.render (.heredocs true) = .ok (some first))
    (behind : right.render .plain = .ok second) :
    Spelled [.inner left (.heredocs true), .fixed " ", .headers left, .fixed " &&\n",
        .bodies left, .fixed "                 ", .inner right .plain]
      (first ++ " " ++ String.intercalate " " headers ++ " &&\n" ++
        String.intercalate " " bodies.reverse ++ "                 " ++ inserted second) :=
  .cast (.cons ⟨_, before, rfl⟩ (.cons rfl (.cons ⟨_, headed, rfl⟩ (.cons rfl
    (.cons ⟨_, bodied, rfl⟩ (.cons rfl (.one ⟨_, behind, rfl⟩)))))))
    (by simp [inserted, String.append_assoc])

/-- The same with braces around both commands. -/
theorem spelled_and_waiting_braced {left right : Datum} {first second : String}
    {headers bodies : List String} (headed : left.deferredHeaders = .ok headers)
    (bodied : left.deferredBodies = .ok bodies)
    (before : left.render (.heredocs true) = .ok (some first))
    (behind : right.render .plain = .ok (some second)) :
    Spelled [.fixed "\x7b ", .inner left (.heredocs true), .fixed " ; \x7d ", .headers left,
        .fixed " &&\n", .bodies left, .fixed "                 \x7b ", .inner right .plain,
        .fixed " ; \x7d"]
      (inBraces first ++ " " ++ String.intercalate " " headers ++ " &&\n" ++
        String.intercalate " " bodies.reverse ++ "                 " ++ inBraces second) :=
  .cast (.cons rfl (.cons ⟨_, before, rfl⟩ (.cons rfl (.cons ⟨_, headed, rfl⟩ (.cons rfl
    (.cons ⟨_, bodied, rfl⟩ (Spelled.enclosed _ _ behind)))))))
    (by apply String.toList_injective; simp [inserted, inBraces])

theorem spelled_and {left right noBraces : Datum}
    (rendered : (Command.and left right noBraces).render style = .ok shown) :
    Spelled ((Command.and left right noBraces).pieces style) (inserted shown) := by
  unfold Command.render at rendered
  simp only [bind_eq_ok_iff] at rendered
  obtain ⟨_, plain, waits, defers, rendered⟩ := rendered
  rw [Command.pieces, waits_eq defers]
  split at rendered
  next wait =>
      simp only [bind_eq_ok_iff, required_eq_ok_iff, exists_eq_right] at rendered
      obtain ⟨headers, headed, bodies, bodied, first, before, second, behind, rendered⟩ :=
        rendered
      rw [if_pos wait]
      split at rendered
      next omitted =>
          cases rendered
          rw [if_pos omitted]
          exact spelled_and_waiting headed bodied before behind
      next shut =>
          simp only [bind_eq_ok_iff, required_eq_ok_iff] at rendered
          obtain ⟨closed, rfl, rendered⟩ := rendered
          cases rendered
          rw [if_neg shut]
          exact spelled_and_waiting_braced headed bodied before behind
  next ready =>
      rw [if_neg ready]
      split at rendered
      next omitted =>
          simp only [bind_eq_ok_iff] at rendered
          obtain ⟨first, before, second, behind, rendered⟩ := rendered
          cases rendered
          rw [if_pos omitted]
          exact .joined " && " before behind
      next shut =>
          simp only [bind_eq_ok_iff, required_eq_ok_iff, exists_eq_right] at rendered
          obtain ⟨first, before, second, behind, rendered⟩ := rendered
          cases rendered
          rw [if_neg shut]
          exact .braced before behind rfl

theorem spelled_or {left right noBraces : Datum}
    (rendered : (Command.or left right noBraces).render style = .ok shown) :
    Spelled ((Command.or left right noBraces).pieces style) (inserted shown) := by
  unfold Command.render at rendered
  obtain ⟨_, plain, rendered⟩ := bind_eq_ok_iff.mp rendered
  rw [Command.pieces]
  split at rendered
  next omitted =>
      simp only [bind_eq_ok_iff] at rendered
      obtain ⟨first, before, second, behind, rendered⟩ := rendered
      cases rendered
      rw [if_pos omitted]
      exact .joined " || " before behind
  next shut =>
      simp only [bind_eq_ok_iff, required_eq_ok_iff, exists_eq_right] at rendered
      obtain ⟨first, before, second, behind, rendered⟩ := rendered
      cases rendered
      rw [if_neg shut]
      exact .braced before behind rfl

theorem spelled_semi {left right semicolon : Datum}
    (rendered : (Command.semi left right semicolon).render style = .ok shown) :
    Spelled ((Command.semi left right semicolon).pieces style) (inserted shown) := by
  unfold Command.render at rendered
  obtain ⟨omitted, asked, rendered⟩ := bind_eq_ok_iff.mp rendered
  rw [Command.pieces]
  split at rendered
  next mark =>
      simp only [bind_eq_ok_iff] at rendered
      obtain ⟨first, before, second, behind, rendered⟩ := rendered
      cases rendered
      rw [if_pos mark]
      exact .joined " ; " before behind
  next unmarked =>
      rw [if_neg unmarked]
      split at rendered
      next bare =>
          simp only [bind_eq_ok_iff] at rendered
          obtain ⟨first, before, second, behind, rendered⟩ := rendered
          cases rendered
          rw [if_pos (by simpa [omitted_of_braces asked] using bare)]
          exact .joined sequenceBreak before behind
      next shut =>
          simp only [bind_eq_ok_iff, required_eq_ok_iff, exists_eq_right] at rendered
          obtain ⟨first, before, second, behind, rendered⟩ := rendered
          cases rendered
          rw [if_neg (by simpa [omitted_of_braces asked] using shut)]
          exact .braced before behind rfl

theorem spelled_not {body noBraces : Datum}
    (rendered : (Command.not body noBraces).render style = .ok shown) :
    Spelled ((Command.not body noBraces).pieces style) (inserted shown) := by
  unfold Command.render at rendered
  simp only [bind_eq_ok_iff] at rendered
  obtain ⟨_, plain, inner, inside, rendered⟩ := rendered
  rw [Command.pieces]
  split at rendered
  next omitted =>
      cases rendered
      rw [if_pos omitted]
      exact .cons rfl (.one ⟨_, inside, rfl⟩)
  next shut =>
      simp only [bind_eq_ok_iff, required_eq_ok_iff] at rendered
      obtain ⟨closed, rfl, rendered⟩ := rendered
      cases rendered
      rw [if_neg shut]
      exact .cast (.enclosed "! \x7b " " ; \x7d" inside)
        (by apply String.toList_injective; simp [inserted, inBraces])

theorem spelled_redirected {line node redirs : Datum}
    (rendered : (Command.redirected line node redirs).render style = .ok shown) :
    Spelled ((Command.redirected line node redirs).pieces style) (inserted shown) := by
  unfold Command.render at rendered
  simp only [bind_eq_ok_iff, required_eq_ok_iff] at rendered
  obtain ⟨_, plain, inner, inside, text, behind, first, rfl, rendered⟩ := rendered
  cases rendered
  rw [Command.pieces]
  exact .cons ⟨_, inside, rfl⟩ (spelled_redirPieces behind)

/-- A job that nothing follows. -/
theorem spelled_last_job {node redirs noBraces : Datum} {first text : String}
    (inside : node.render .plain = .ok (some first))
    (behind : redirs.renderRedirs false = .ok text) :
    Spelled (if noBraces.truthy then .inner node .plain :: redirPieces false redirs ++ [.fixed " &"]
      else [.fixed "\x7b ", .inner node .plain] ++ redirPieces false redirs ++ [.fixed " & \x7d"])
      (inBackground noBraces.truthy (first ++ text)) := by
  split
  next omitted =>
      exact .cast (.append (.cons ⟨_, inside, rfl⟩ (spelled_redirPieces behind)) (.one rfl))
        (by simp [inserted, inBackground, omitted, String.append_assoc])
  next shut =>
      exact .cast (.append (.append (.cons rfl (.one ⟨_, inside, rfl⟩))
        (spelled_redirPieces behind)) (.one rfl))
        (by simp [inserted, inBackground, shut, String.append_assoc])

theorem spelled_background {line node redirs after noBraces : Datum}
    (rendered : (Command.background line node redirs after noBraces).render style = .ok shown) :
    Spelled ((Command.background line node redirs after noBraces).pieces style)
      (inserted shown) := by
  unfold Command.render at rendered
  obtain ⟨_, plain, rendered⟩ := bind_eq_ok_iff.mp rendered
  rw [Command.pieces]
  split at rendered
  next last =>
      simp only [bind_eq_ok_iff, required_eq_ok_iff] at rendered
      obtain ⟨inner, inside, text, behind, first, rfl, rendered⟩ := rendered
      cases rendered
      rw [if_pos last]
      exact spelled_last_job inside behind
  next more =>
      simp only [bind_eq_ok_iff, required_eq_ok_iff, exists_eq_right] at rendered
      obtain ⟨tag, tagged, inner, inside, text, behind, first, rfl, next, following,
        rendered⟩ := rendered
      rw [if_neg more]
      have start : Spelled (.inner node .plain :: redirPieces false redirs) (first ++ text) :=
        .cons ⟨_, inside, rfl⟩ (spelled_redirPieces behind)
      by_cases job : after.isTag .background = true
      · obtain ⟨_, _, _, beyond, _, rfl⟩ := exists_job_of_isTag job
        cases rendered
        rw [if_pos job]
        exact .cast (start.append (.append (.cons rfl (.one ⟨_, following, rfl⟩))
          (.optional (beyond.truthy = true) " &")))
          (by simp [inserted, String.append_assoc])
      · rw [if_neg job]
        split at rendered
        next => exact absurd rfl job
        next =>
            have other : ¬ (tag == .background) = true := by
              intro same
              rw [eq_of_beq same] at tagged
              exact job (by rw [Datum.isTag, tag?_of_tag tagged]; rfl)
            rw [if_neg other] at rendered
            cases rendered
            exact .cast (start.append (.cons rfl (.one ⟨_, following, rfl⟩)))
              (by apply String.toList_injective; simp [inserted])

theorem spelled_defun {line name body bashMode : Datum}
    (rendered : (Command.defun line name body bashMode).render style = .ok shown) :
    Spelled ((Command.defun line name body bashMode).pieces style) (inserted shown) := by
  unfold Command.render at rendered
  simp only [bind_eq_ok_iff, required_eq_ok_iff, exists_eq_right] at rendered
  obtain ⟨_, plain, tag, tagged, called, named, inner, inside, rendered⟩ := rendered
  cases rendered
  have asked : (if tag == .group then Style.braces true else .plain) =
      if body.isTag .group then .braces true else .plain := by
    rw [Datum.isTag, tag?_of_tag tagged]
    rfl
  rw [Command.pieces, ← asked]
  exact .cast ((Spelled.optional (bashMode.truthy = true) "function ").append
    (.cons named (.enclosed _ _ inside)))
    (by simp [inserted, String.append_assoc])

theorem spelled_forLoop {line argument body name : Datum}
    (rendered : (Command.forLoop line argument body name).render style = .ok shown) :
    Spelled ((Command.forLoop line argument body name).pieces style) (inserted shown) := by
  unfold Command.render at rendered
  simp only [bind_eq_ok_iff] at rendered
  obtain ⟨_, plain, called, named, words, listed, inner, inside, rendered⟩ := rendered
  cases rendered
  rw [Command.pieces]
  exact .loop "for " "; \n do         " "\ndone" named listed inside

theorem spelled_select {line name body choices : Datum}
    (rendered : (Command.select line name body choices).render style = .ok shown) :
    Spelled ((Command.select line name body choices).pieces style) (inserted shown) := by
  unfold Command.render at rendered
  simp only [bind_eq_ok_iff] at rendered
  obtain ⟨_, plain, called, named, words, listed, inner, inside, rendered⟩ := rendered
  cases rendered
  rw [Command.pieces]
  exact .loop "select " ";\ndo\n" "\ndone" named listed inside

theorem spelled_whileLoop {test body : Datum}
    (rendered : (Command.whileLoop test body).render style = .ok shown) :
    Spelled ((Command.whileLoop test body).pieces style) (inserted shown) := by
  have loop : ∃ tested inner,
      test.tested.2.render test.tested.2.bareStyle = .ok tested ∧
      body.render body.bareStyle = .ok inner ∧
      shown = some (test.tested.1 ++ inserted tested ++ "; do             " ++
        inserted inner ++ "; done ") := by
    by_cases inverted : ∃ inner flag, test = .command (.not inner flag)
    · obtain ⟨inner, flag, rfl⟩ := inverted
      rw [Command.render] at rendered
      simp only [bind_eq_ok_iff] at rendered
      obtain ⟨_, plain, tested, before, inner, inside, rendered⟩ := rendered
      cases rendered
      exact ⟨tested, inner, before, inside, rfl⟩
    · have positive : ∀ inner flag, test ≠ .command (.not inner flag) := by
        intro inner flag same
        exact inverted ⟨inner, flag, same⟩
      rw [Command.render] at rendered
      · simp only [bind_eq_ok_iff] at rendered
        obtain ⟨_, plain, tested, before, inner, inside, rendered⟩ := rendered
        cases rendered
        rw [tested_of_ne positive]
        exact ⟨tested, inner, before, inside, rfl⟩
      · exact positive
  obtain ⟨tested, inner, before, inside, rfl⟩ := loop
  rw [Command.pieces]
  exact .cast (.cons rfl ((Spelled.joined _ before inside).append (.one rfl)))
    (by simp [inserted, String.append_assoc])

theorem spelled_ifElse {test thenBranch elseBranch : Datum}
    (rendered : (Command.ifElse test thenBranch elseBranch).render style = .ok shown) :
    Spelled ((Command.ifElse test thenBranch elseBranch).pieces style) (inserted shown) := by
  unfold Command.render at rendered
  simp only [bind_eq_ok_iff] at rendered
  obtain ⟨_, plain, tested, before, first, inside, rendered⟩ := rendered
  have start : Spelled [.fixed "if ", .inner test test.bareStyle, .fixed "        ; then ",
      .inner thenBranch thenBranch.bareStyle]
      ("if " ++ inserted tested ++ "        ; then " ++ inserted first) :=
    .cast (.cons rfl (.joined _ before inside)) (by simp only [String.append_assoc])
  rw [Command.pieces]
  split at rendered
  next absent =>
      cases rendered
      rw [if_pos (by simp [absent])]
      exact start.append (.one rfl)
  next present =>
      obtain ⟨empty, known, rendered⟩ := bind_eq_ok_iff.mp rendered
      split at rendered
      next nothing =>
          cases rendered
          rw [if_pos (by simp [known, nothing])]
          exact start.append (.one rfl)
      next something =>
          rw [if_neg (by simpa [known, something] using present)]
          split at rendered
          next again =>
              simp only [bind_eq_ok_iff, required_eq_ok_iff, exists_eq_right] at rendered
              obtain ⟨second, behind, rendered⟩ := rendered
              cases rendered
              rw [if_pos again]
              exact .cast (start.append (.cons rfl (.one ⟨_, behind, rfl⟩)))
                (by simp [inserted, String.append_assoc])
          next other =>
              simp only [bind_eq_ok_iff] at rendered
              obtain ⟨second, behind, rendered⟩ := rendered
              cases rendered
              rw [if_neg other]
              exact .cast (start.append (.enclosed "; else " "; fi" behind))
                (by simp only [inserted, String.append_assoc])

theorem spelled_case {line argument cases : Datum}
    (rendered : (Command.case line argument cases).render style = .ok shown) :
    Spelled ((Command.case line argument cases).pieces style) (inserted shown) := by
  unfold Command.render at rendered
  simp only [bind_eq_ok_iff] at rendered
  obtain ⟨_, plain, word, named, clauses, listed, rendered⟩ := rendered
  cases rendered
  rw [Command.pieces]
  exact .cast (.append (.append (.cons rfl (.cons named (.one rfl)))
    (spelled_clauses listed)) (.one rfl))
    (by simp [inserted, String.append_assoc])

theorem spelled_arith {line body : Datum}
    (rendered : (Command.arith line body).render style = .ok shown) :
    Spelled ((Command.arith line body).pieces style) (inserted shown) := by
  unfold Command.render at rendered
  simp only [bind_eq_ok_iff] at rendered
  obtain ⟨_, plain, words, listed, rendered⟩ := rendered
  cases rendered
  rw [Command.pieces]
  exact .cast (.cons rfl (.cons ⟨_, listed, rfl⟩ (.one rfl)))
    (by simp [inserted, String.append_assoc])

/-- The text between the brackets of a condition. -/
def condText (kind op left right : Datum) : Except Fault String :=
  if kind.isInt CondKind.expr.number then do
    let first ← left.render (.brackets false) >>= required
    return "( " ++ first ++ " )"
  else if kind.isInt CondKind.and.number then do
    let first ← left.render (.brackets false) >>= required
    let second ← right.render (.brackets false) >>= required
    return first ++ " && " ++ second
  else if kind.isInt CondKind.or.number then do
    let first ← left.render (.brackets false) >>= required
    let second ← right.render (.brackets false) >>= required
    return first ++ " || " ++ second
  else if kind.isInt CondKind.unary.number then do
    let operator ← op.renderWord .unquoted
    let first ← left.render (.brackets false) >>= required
    return operator ++ " " ++ first
  else if kind.isInt CondKind.binary.number then do
    let first ← left.render (.brackets false) >>= required
    let operator ← op.renderWord .unquoted
    let second ← right.render (.brackets false) >>= required
    return first ++ " " ++ operator ++ " " ++ second
  else if kind.isInt CondKind.term.number then op.renderWord .unquoted
  else .error .invalidCondition

theorem render_cond (line kind op left right inverted : Datum) :
    (Command.cond line kind op left right inverted).render style = (do
      let brackets ← style.bracketsShown
      let inner ← condText kind op left right
      return some ((if brackets then "[[ " else "") ++ (if inverted.truthy then "! " else "") ++
        inner ++ (if brackets then " ]]" else ""))) := by
  unfold Command.render condText
  refine congrArg (style.bracketsShown >>= ·) (funext fun brackets => ?_)
  dsimp only
  repeat' split
  all_goals simp only [bind_assoc]

theorem spelled_condPieces {kind op left right : Datum} {inner : String}
    (rendered : condText kind op left right = .ok inner) :
    Spelled (condPieces kind op left right) inner := by
  unfold condText at rendered
  unfold condPieces
  split at rendered
  next isExpr =>
      simp only [bind_eq_ok_iff, required_eq_ok_iff, exists_eq_right] at rendered
      obtain ⟨first, inside, rendered⟩ := rendered
      cases rendered
      rw [if_pos isExpr]
      exact .enclosed "( " " )" inside
  next isExpr =>
  rw [if_neg isExpr]
  split at rendered
  next isAnd =>
      simp only [bind_eq_ok_iff, required_eq_ok_iff, exists_eq_right] at rendered
      obtain ⟨first, before, second, behind, rendered⟩ := rendered
      cases rendered
      rw [if_pos isAnd]
      exact .joined " && " before behind
  next isAnd =>
  rw [if_neg isAnd]
  split at rendered
  next isOr =>
      simp only [bind_eq_ok_iff, required_eq_ok_iff, exists_eq_right] at rendered
      obtain ⟨first, before, second, behind, rendered⟩ := rendered
      cases rendered
      rw [if_pos isOr]
      exact .joined " || " before behind
  next isOr =>
  rw [if_neg isOr]
  split at rendered
  next isUnary =>
      simp only [bind_eq_ok_iff, required_eq_ok_iff, exists_eq_right] at rendered
      obtain ⟨operator, named, first, inside, rendered⟩ := rendered
      cases rendered
      rw [if_pos isUnary]
      exact .cast (.cons named (.cons rfl (.one ⟨_, inside, rfl⟩)))
        (by rw [String.append_assoc]; rfl)
  next isUnary =>
  rw [if_neg isUnary]
  split at rendered
  next isBinary =>
      simp only [bind_eq_ok_iff, required_eq_ok_iff, exists_eq_right] at rendered
      obtain ⟨first, before, operator, named, second, behind, rendered⟩ := rendered
      cases rendered
      rw [if_pos isBinary]
      exact .cast (.cons ⟨_, before, rfl⟩ (.cons rfl (.cons named (.cons rfl
        (.one ⟨_, behind, rfl⟩))))) (by simp only [String.append_assoc]; rfl)
  next isBinary =>
  rw [if_neg isBinary]
  split at rendered
  next => exact .one rendered
  next => cases rendered

theorem spelled_cond {line kind op left right inverted : Datum}
    (rendered : (Command.cond line kind op left right inverted).render style = .ok shown) :
    Spelled ((Command.cond line kind op left right inverted).pieces style) (inserted shown) := by
  rw [render_cond] at rendered
  simp only [bind_eq_ok_iff] at rendered
  obtain ⟨brackets, asked, inner, inside, rendered⟩ := rendered
  cases rendered
  rw [Command.pieces, shown_of_brackets asked]
  exact .cast ((((Spelled.optional (style ≠ .brackets false) "[[ ").append
    (.optional (inverted.truthy = true) "! ")).append (spelled_condPieces inside)).append
      (.optional (style ≠ .brackets false) " ]]"))
    (by simp [inserted])

theorem spelled_arithFor {line start test step action : Datum}
    (rendered : (Command.arithFor line start test step action).render style = .ok shown) :
    Spelled ((Command.arithFor line start test step action).pieces style) (inserted shown) := by
  unfold Command.render at rendered
  simp only [bind_eq_ok_iff] at rendered
  obtain ⟨_, plain, first, started, second, tested, third, stepped, inner, inside,
    rendered⟩ := rendered
  cases rendered
  rw [Command.pieces]
  exact .cast (.cons rfl (.cons ⟨_, started, rfl⟩ (.cons rfl (.cons ⟨_, tested, rfl⟩ (.cons rfl
    (.cons ⟨_, stepped, rfl⟩ (.enclosed _ _ inside)))))))
    (by simp [inserted, String.append_assoc])

theorem spelled_coproc {name body : Datum}
    (rendered : (Command.coproc name body).render style = .ok shown) :
    Spelled ((Command.coproc name body).pieces style) (inserted shown) := by
  unfold Command.render at rendered
  simp only [bind_eq_ok_iff] at rendered
  obtain ⟨_, plain, tag, tagged, rendered⟩ := rendered
  rw [Command.pieces, Datum.isTag, tag?_of_tag tagged]
  split at rendered
  next simple =>
      simp only [bind_eq_ok_iff] at rendered
      obtain ⟨inner, inside, rendered⟩ := rendered
      cases rendered
      rw [if_pos (by simpa using simple)]
      exact .cons rfl (.one ⟨_, inside, rfl⟩)
  next compound =>
      simp only [bind_eq_ok_iff] at rendered
      obtain ⟨called, named, inner, inside, rendered⟩ := rendered
      cases rendered
      rw [if_neg (by simpa using compound)]
      exact .cast (.cons rfl (.cons named (.cons rfl (.one ⟨_, inside, rfl⟩))))
        (by simp [inserted, String.append_assoc])

theorem spelled_time {posix node : Datum}
    (rendered : (Command.time posix node).render style = .ok shown) :
    Spelled ((Command.time posix node).pieces style) (inserted shown) := by
  unfold Command.render at rendered
  simp only [bind_eq_ok_iff] at rendered
  obtain ⟨_, plain, inner, inside, rendered⟩ := rendered
  cases rendered
  rw [Command.pieces]
  exact .cons rfl (.one ⟨_, inside, rfl⟩)

theorem spelled_group {body : Datum}
    (rendered : (Command.group body).render style = .ok shown) :
    Spelled ((Command.group body).pieces style) (inserted shown) := by
  unfold Command.render at rendered
  simp only [bind_eq_ok_iff] at rendered
  obtain ⟨omitted, asked, tag, tagged, waits, defers, rendered⟩ := rendered
  rw [Command.pieces]
  split at rendered
  next bare =>
      rw [if_pos (by simpa [omitted_of_braces asked] using bare)]
      exact .one ⟨_, rendered, rfl⟩
  next shut =>
      simp only [bind_eq_ok_iff, required_eq_ok_iff, exists_eq_right] at rendered
      obtain ⟨inner, inside, rendered⟩ := rendered
      rw [if_neg (by simpa [omitted_of_braces asked] using shut)]
      have finish {closed : Bool} (same : body.closesItself = closed) :
          Spelled [.fixed "\x7b ", .inner body body.bareStyle,
            .fixed (if body.closesItself then " \x7d" else "; \x7d")]
            ("\x7b " ++ inner ++ if closed then " \x7d" else "; \x7d") := by
        rw [same]
        exact .enclosed _ _ inside
      by_cases job : body.isTag .background = true
      · obtain ⟨_, _, _, after, _, rfl⟩ := exists_job_of_isTag job
        cases rendered
        exact finish rfl
      · have other : body.closesItself = (tag != .semi && waits) := by
          rw [Datum.closesItself, if_neg job, waits_eq defers, Datum.isTag,
            tag?_of_tag tagged]
          rfl
        split at rendered
        next => exact absurd rfl job
        next =>
            cases rendered
            exact finish other

end Constructs

/-- A command prints as its pieces do, one after the other. -/
theorem spelled_of_render {value : Command} {style : Style} {shown : Option String}
    (rendered : value.render style = .ok shown) :
    Spelled (value.pieces style) (inserted shown) := by
  cases value with
  | pipe => exact spelled_pipe rendered
  | simple => exact spelled_simple rendered
  | subshell => exact spelled_subshell rendered
  | and => exact spelled_and rendered
  | or => exact spelled_or rendered
  | semi => exact spelled_semi rendered
  | not => exact spelled_not rendered
  | redirected => exact spelled_redirected rendered
  | background => exact spelled_background rendered
  | defun => exact spelled_defun rendered
  | forLoop => exact spelled_forLoop rendered
  | whileLoop => exact spelled_whileLoop rendered
  | ifElse => exact spelled_ifElse rendered
  | case => exact spelled_case rendered
  | select => exact spelled_select rendered
  | arith => exact spelled_arith rendered
  | cond => exact spelled_cond rendered
  | arithFor => exact spelled_arithFor rendered
  | coproc => exact spelled_coproc rendered
  | time => exact spelled_time rendered
  | group => exact spelled_group rendered

/-! ## Commands inside -/

section Inside

variable {inner : Datum} {asked : Style}

theorem inner_not_mem_redirPieces (omitted : Bool) (redirs : Datum) :
    Piece.inner inner asked ∉ redirPieces omitted redirs := by
  rw [redirPieces]
  split <;> simp

theorem mem_piecesBetween {mark : String} {items : List Datum} :
    Piece.inner inner asked ∈ piecesBetween mark items ↔ inner ∈ items ∧ asked = .plain := by
  induction items with
  | nil => simp [piecesBetween]
  | cons item rest ih =>
      cases rest with
      | nil => simp [piecesBetween]
      | cons next rest =>
          rw [piecesBetween, List.mem_cons, List.mem_cons, ih, List.mem_cons (b := item)]
          simp only [Piece.inner.injEq, reduceCtorEq, false_or, or_and_right]

theorem mem_clauseCommand {fields : List (String × Datum)}
    (inside : Piece.inner inner asked ∈ clauseCommand fields) :
    ∃ key, (key, inner) ∈ fields ∧ asked = inner.bareStyle := by
  induction fields with
  | nil => cases inside
  | cons field rest ih =>
      obtain ⟨key, value⟩ := field
      rw [clauseCommand] at inside
      split at inside
      next =>
          split at inside
          next =>
              cases List.mem_singleton.mp inside
              exact ⟨key, List.mem_cons_self, rfl⟩
          next => cases inside
      next =>
          obtain ⟨key, found, same⟩ := ih inside
          exact ⟨key, List.mem_cons_of_mem _ found, same⟩

theorem mem_clausesBetween {items : List Datum}
    (inside : Piece.inner inner asked ∈ clausesBetween items) :
    ∃ fields, .dict fields ∈ items ∧ Piece.inner inner asked ∈ clauseCommand fields := by
  have single {clause : Datum} (inside : Piece.inner inner asked ∈ clause.clausePieces) :
      ∃ fields, clause = .dict fields ∧ Piece.inner inner asked ∈ clauseCommand fields := by
    cases clause with
    | dict fields => exact ⟨fields, rfl, by simpa [Datum.clausePieces] using inside⟩
    | _ => cases inside
  induction items with
  | nil => cases inside
  | cons clause rest ih =>
      cases rest with
      | nil =>
          obtain ⟨fields, rfl, held⟩ := single inside
          exact ⟨fields, List.mem_cons_self, held⟩
      | cons next rest =>
          rw [clausesBetween, List.mem_append, List.mem_cons] at inside
          rcases inside with first | blank | others
          · obtain ⟨fields, rfl, held⟩ := single first
            exact ⟨fields, List.mem_cons_self, held⟩
          · cases blank
          · obtain ⟨fields, found, held⟩ := ih others
            exact ⟨fields, List.mem_cons_of_mem _ found, held⟩

theorem mem_condPieces {kind op left right : Datum}
    (inside : Piece.inner inner asked ∈ condPieces kind op left right) :
    (inner = left ∨ inner = right) ∧ asked = .brackets false := by
  unfold condPieces at inside
  repeat' split at inside
  all_goals simp at inside
  all_goals tauto

theorem sizeOf_tested_le (test : Datum) : sizeOf test.tested.2 ≤ sizeOf test := by
  unfold Datum.tested
  split
  · simp
    omega
  · exact Nat.le_refl _

theorem mem_pipePieces {behind : Bool} {items : Datum}
    (inside : Piece.inner inner asked ∈ pipePieces behind items) :
    ∃ kind members, items = .seq kind members ∧ inner ∈ members := by
  cases items with
  | seq kind members =>
      refine ⟨kind, members, rfl, ?_⟩
      cases members with
      | nil => cases inside
      | cons first rest =>
          rw [pipePieces] at inside
          split at inside
          · simp [mem_piecesBetween] at inside
            grind
          · split at inside <;> simp [mem_piecesBetween] at inside <;> simp [inside]
  | _ => cases inside

/-- The commands whose texts are among the pieces are smaller than the command around them. -/
theorem sizeOf_lt_of_mem_pieces {value : Command} {style : Style}
    (inside : Piece.inner inner asked ∈ value.pieces style) : sizeOf inner < sizeOf value := by
  cases value with
  | pipe behind items =>
      obtain ⟨kind, members, rfl, held⟩ := mem_pipePieces inside
      have smaller := List.sizeOf_lt_of_mem held
      simp
      omega
  | whileLoop test body =>
      have tested := sizeOf_tested_le test
      rw [Command.pieces] at inside
      simp at inside
      simp only [Command.whileLoop.sizeOf_spec]
      rcases inside with ⟨rfl, _⟩ | ⟨rfl, _⟩ <;> omega
  | case line argument cases =>
      have listed : Piece.inner inner asked ∈ clausesBetween cases.clauses := by
        simpa [Command.pieces] using inside
      obtain ⟨fields, found, held⟩ := mem_clausesBetween listed
      obtain ⟨key, field, _⟩ := mem_clauseCommand held
      have inField := List.sizeOf_lt_of_mem field
      cases cases with
      | seq kind clauses =>
          rw [Datum.clauses] at found
          have inClause := List.sizeOf_lt_of_mem found
          simp at inClause inField ⊢
          omega
      | _ => cases found
  | cond line kind op left right inverted =>
      have held : Piece.inner inner asked ∈ condPieces kind op left right := by
        simp only [Command.pieces, List.mem_append] at inside
        rcases inside with ((bracket | mark) | held) | bracket
        · split at bracket <;> simp at bracket
        · split at mark <;> simp at mark
        · exact held
        · split at bracket <;> simp at bracket
      rcases (mem_condPieces held).1 with rfl | rfl <;> simp <;> omega
  | _ =>
      simp only [Command.pieces] at inside
      repeat' split at inside
      all_goals simp [inner_not_mem_redirPieces] at inside ⊢
      all_goals grind

end Inside

end ShellTree
