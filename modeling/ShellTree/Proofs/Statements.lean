import ShellTree.Proofs.StatementReadings

/-!
# Statements one below the other

The statements of a list become commands that are no sequences, and these are
chained.  This is the only way in which sequences come about: every sequence in
what a file becomes stands on the spine of one list of statements in the file.

All readings are sound by induction on the size of the value that is read.
-/

namespace ShellTree

namespace Shfmt

variable {source : Source} {lists : List Datum → Prop} {value : Json}

/-! ## Commands -/

section

variable (below : Below source lists value) (covers : Covers source lists value)

include below covers

theorem always_readCall : Always (readCall source value) (ArrangedCommand lists) := by
  rw [readCall]
  refine .skip fun pos => (always_lineOrNone lists pos.1).bind fun line plain => ?_
  refine (covers.children "Assigns").bind fun _ inside => ?_
  refine (Always.mapM fun assign member =>
    (below assign.1 assign.2 (inside assign member)).assignment).bind fun assigned each => ?_
  obtain ⟨assignments, arguments⟩ := eachArranged_assigned each
  refine (covers.children "Args").bind fun _ inside => ?_
  refine (Always.mapM fun word member =>
    (below word.1 word.2 (inside word member)).word).bind fun words each => .pure ?_
  exact .of_fields rfl rfl
    (by simp [Command.fields, plain, assignments, arguments, eachArranged_lists each])

theorem always_readBinary : Always (readBinary source value) (ArrangedCommand lists) := by
  rw [readBinary]
  refine .skip fun number => .skip fun op => (covers.require "X").bind ?_
  rintro ⟨x, smaller⟩ known
  refine (below x smaller known).statement.bind fun left leftGood => ?_
  refine (covers.require "Y").bind ?_
  rintro ⟨y, smaller⟩ known
  refine (below y smaller known).statement.bind fun right rightGood => ?_
  have connected : EachArranged lists [left, right, .bool true] := by
    simp [leftGood.arranged, rightGood.arranged]
  split
  · exact .pure (.of_fields rfl trivial connected)
  · exact .pure (.of_fields rfl trivial connected)
  · refine (always_pipeItems leftGood).bind fun first inFirst => ?_
    refine (always_pipeItems rightGood).bind fun second inSecond => .pure ?_
    refine .of_fields rfl ⟨rfl, _, rfl, ?_, ?_⟩ (by simp [Command.fields, inFirst.1, inSecond.1])
    · have one := List.length_pos_iff.mpr inFirst.2.1
      have other := List.length_pos_iff.mpr inSecond.2.1
      rw [List.length_append]
      omega
    · exact List.forall_mem_append.mpr ⟨inFirst.2.2, inSecond.2.2⟩
  · exact always_refuse _ _

/-- What follows a condition is read in the same way, however many conditions there are. -/
theorem always_readIf : Always (readIf source value) (ArrangedCommand lists) := by
  rw [readIf]
  refine (always_readStatements below covers "Cond" (by decide)).bind fun test first => ?_
  refine (always_readStatements below covers "Then" (by decide)).bind fun body second => ?_
  refine (covers.fetch "Else").bind ?_
  rintro ⟨otherwise, smaller⟩ known
  have whole {other : Datum} (third : other.Arranged lists) :
      ArrangedCommand lists (.command (.ifElse test body other)) :=
    .of_fields rfl trivial (by simp [Command.fields, first.arranged, second.arranged, third])
  have inside : Below source lists otherwise := fun inner less =>
    below inner (Nat.lt_trans less smaller)
  refine .ite (fun _ => .skip fun further => ?_) fun _ => .pure (whole arranged_null)
  refine .either ((below otherwise smaller known).conditional.mono fun _ single => single.arranged)
    ((always_readStatements inside known "Then" (by decide)).mono fun _ body => body.arranged)
    fun other third => .pure (whole third)

theorem always_readWhile : Always (readWhile source value) (ArrangedCommand lists) := by
  rw [readWhile]
  refine (always_readStatements below covers "Cond" (by decide)).bind fun test first => ?_
  refine (always_readStatements below covers "Do" (by decide)).bind fun body second => ?_
  refine .skip fun inverted => .pure ?_
  have tested : Datum.Arranged lists
      (if inverted.1.truthy then .command (.not test (.bool true)) else test) := by
    split
    · have negation : ArrangedCommand lists (.command (.not test (.bool true))) :=
        .of_fields rfl trivial (by simp [Command.fields, first.arranged])
      exact negation.arranged
    · exact first.arranged
  exact .of_fields rfl trivial (by simp [Command.fields, tested, second.arranged])

theorem always_readFor : Always (readFor source value) (ArrangedCommand lists) := by
  rw [readFor]
  refine (covers.fetch "Loop").bind ?_
  rintro ⟨loop, smaller⟩ known
  refine (always_readStatements below covers "Do" (by decide)).bind fun body good => ?_
  refine .skip fun pos => (always_lineOrNone lists pos.1).bind fun line plain => ?_
  refine .skip fun kind => ?_
  split
  · refine .skip fun name => (always_literalCells lists name.1).bind fun called each => ?_
    refine (known.children "Items").bind fun _ inside => ?_
    refine (Always.mapM fun word member => (below word.1 (Nat.lt_trans word.2 smaller)
      (inside word member)).word).bind fun words others => ?_
    have choices := eachArranged_lists others
    refine .skip fun select => .ite (fun _ => .pure ?_) fun _ => .pure ?_
    · exact .of_fields rfl trivial (by simp [Command.fields, plain, each, good.arranged, choices])
    · exact .of_fields rfl trivial (by simp [Command.fields, plain, each, good.arranged, choices])
  · refine .skip fun init => (always_readArithmWords lists init).bind fun start first => ?_
    refine .skip fun cond => (always_readArithmWords lists cond).bind fun test second => ?_
    refine .skip fun post => (always_readArithmWords lists post).bind fun step third => ?_
    exact .pure (.of_fields rfl trivial
      (by simp [Command.fields, plain, first, second, third, good.arranged]))
  · exact always_refuse _ _

theorem always_readCase : Always (readCase source value) (ArrangedCommand lists) := by
  rw [readCase]
  refine .skip fun pos => (always_lineDatum lists pos.1).bind fun line plain => ?_
  refine (covers.require "Word").bind ?_
  rintro ⟨word, smaller⟩ known
  refine (below word smaller known).word.bind fun argument each => ?_
  refine (covers.children "Items").bind fun _ inside => ?_
  refine (Always.mapM fun item member =>
    (below item.1 item.2 (inside item member)).clause).bind fun clauses others => .pure ?_
  have inClauses : EachArranged lists clauses := others
  exact .of_fields rfl trivial (by simp [Command.fields, plain, each, inClauses])

theorem always_readSubshell : Always (readSubshell source value) (ArrangedCommand lists) := by
  rw [readSubshell]
  refine .skip fun pos => (always_lineDatum lists pos.1).bind fun line plain => ?_
  refine (always_readStatements below covers "Stmts" (by decide)).bind fun body good => .pure ?_
  exact .of_fields rfl trivial (by simp [Command.fields, plain, good.arranged])

theorem always_readBlock : Always (readBlock source value) (ArrangedCommand lists) := by
  rw [readBlock]
  refine (always_readStatements below covers "Stmts" (by decide)).bind fun body good => .pure ?_
  exact .of_fields rfl good.command (by simp [Command.fields, good.arranged])

theorem always_readFunction : Always (readFunction source value) (ArrangedCommand lists) := by
  rw [readFunction]
  refine .skip fun pos => (always_lineOrNone lists pos.1).bind fun line plain => ?_
  refine .skip fun literal => (always_literalCells lists literal.1).bind fun name each => ?_
  refine (covers.require "Body").bind ?_
  rintro ⟨stmt, smaller⟩ known
  refine (below stmt smaller known).statement.bind fun body single => .skip fun _ => .pure ?_
  exact .of_fields rfl trivial (by simp [Command.fields, plain, each, single.arranged])

omit below covers in
theorem always_readArithmCommand (lists : List Datum → Prop) (node : Json) :
    Always (readArithmCommand source node) (ArrangedCommand lists) := by
  rw [readArithmCommand]
  refine .skip fun pos => (always_lineOrNone lists pos.1).bind fun line plain => ?_
  refine .skip fun expr => (always_readArithmWords lists expr).bind fun body arranged => .pure ?_
  exact .of_fields rfl trivial (by simp [Command.fields, plain, arranged])

theorem always_readTime : Always (readTime source value) (ArrangedCommand lists) := by
  rw [readTime]
  refine (covers.fetch "Stmt").bind ?_
  rintro ⟨stmt, smaller⟩ known
  refine .either (.pure arrangedCommand_empty) (below stmt smaller known).statement ?_
  intro inner single
  exact .skip fun _ => .pure (.of_fields rfl trivial (by simp [Command.fields, single.arranged]))

theorem always_readCoproc : Always (readCoproc source value) (ArrangedCommand lists) := by
  rw [readCoproc]
  refine (covers.fetch "Name").bind ?_
  rintro ⟨word, smaller⟩ known
  refine .either (below word smaller known).word (.pure eachArranged_nil) fun name each => ?_
  refine (covers.fetch "Stmt").bind ?_
  rintro ⟨stmt, smaller⟩ known
  refine (below stmt smaller known).statement.bind fun body single => .pure ?_
  exact .of_fields rfl trivial (by simp [Command.fields, each, single.arranged])

omit below covers in
/-- A declaration becomes a command that has words of characters only. -/
theorem always_readDecl (lists : List Datum → Prop) (node : Json) :
    Always (readDecl source node) (ArrangedCommand lists) := by
  have whole {head : List (List Datum)} (each : ∀ word ∈ head, EachArranged lists word) :
      Always (do
        let words ← (← node.children "Args").mapM fun assign => do
          cellsOf (← assignText source assign.1)
        return wordsCommand (-1) (head ++ words)) (ArrangedCommand lists) := by
    refine .skip fun items => ?_
    refine (Always.mapM fun assign _ =>
      .skip fun text => always_cellsOf lists text).bind fun words others => .pure ?_
    exact arrangedCommand_wordsCommand _ (List.forall_mem_append.mpr ⟨each, others⟩)
  rw [readDecl]
  refine .skip fun variant => .ite (fun _ => .skip fun text => ?_) fun _ => whole (by simp)
  refine (always_cellsOf lists text).bind fun name each => whole ?_
  exact List.forall_mem_singleton.mpr each

omit below covers in
theorem always_readLet (lists : List Datum → Prop) (node : Json) :
    Always (readLet source node) (ArrangedCommand lists) := by
  rw [readLet]
  refine .skip fun _ => .skip fun exprs => .pure (arrangedCommand_wordsCommand _ ?_)
  refine List.forall_mem_cons.mpr ⟨eachArranged_cells _, List.forall_mem_map.mpr ?_⟩
  exact fun text _ => eachArranged_cells text

theorem always_readTest : Always (readTest source value) (ArrangedCommand lists) := by
  rw [readTest]
  refine (covers.fetch "X").bind ?_
  rintro ⟨expr, smaller⟩ known
  refine (below expr smaller known).test.bind fun words each => .pure ?_
  refine arrangedCommand_wordsCommand _ ?_
  exact List.forall_mem_append.mpr ⟨List.forall_mem_cons.mpr ⟨eachArranged_cells _, each⟩,
    List.forall_mem_singleton.mpr (eachArranged_cells _)⟩

omit below covers in
theorem always_readTestDecl (lists : List Datum → Prop) (node : Json) :
    Always (readTestDecl source node) (ArrangedCommand lists) := by
  rw [readTestDecl]
  refine .skip fun word => .skip fun parts => .skip fun description => ?_
  refine .skip fun stmt => .skip fun body => .skip fun shown => .skip fun inner => ?_
  refine .skip fun pos => .skip fun line => ?_
  refine .pure (arrangedCommand_wordsCommand _ ?_)
  exact List.forall_mem_singleton.mpr (eachArranged_cells _)

/-- No kind of command is read as a sequence. -/
theorem always_readCommand : Always (readCommand source value) (ArrangedCommand lists) := by
  rw [readCommand]
  refine .skip fun kind => ?_
  split
  · exact always_readCall below covers
  · exact always_readBinary below covers
  · exact always_readIf below covers
  · exact always_readWhile below covers
  · exact always_readFor below covers
  · exact always_readCase below covers
  · exact always_readSubshell below covers
  · exact always_readBlock below covers
  · exact always_readFunction below covers
  · exact always_readArithmCommand lists value
  · exact always_readTime below covers
  · exact always_readCoproc below covers
  · exact always_readDecl lists value
  · exact always_readLet lists value
  · exact always_readTest below covers
  · exact always_readTestDecl lists value
  · exact always_refuse _ _

end

/-! ## Files -/

/-- Every value is read soundly: what is read inside it is smaller. -/
theorem sound (value : Json) (covers : Covers source lists value) : Sound source lists value := by
  have below : Below source lists value := fun inner smaller known => sound inner known
  exact ⟨always_readStatement below covers, always_readCommand below covers,
    always_readIf below covers, always_readClause below covers, always_readRedir below covers,
    always_readAssign below covers, always_readWord below covers, always_readPart below covers,
    always_readTestWords below covers⟩
termination_by sizeOf value

theorem always_readNode (covers : Covers source lists value) :
    Always (readNode source value) (ArrangedCommand lists) := by
  unfold readNode
  refine .ite (fun _ => (sound value covers).statement) fun _ => ?_
  exact .ite (fun _ => (sound value covers).command) fun _ => .fault _

/--
The commands that one list of statements of a file becomes.  In the list of the
file itself, a command may stand in the place of a statement.
-/
def FileLists (source : Source) (file : Json) (commands : List Datum) : Prop :=
  Lists source file commands ∨ ∃ stmts, file.get? "Stmts" = some (.arr stmts) ∧
    stmts.mapM (readNode source) = .ok commands

/-- The nodes of a file are those of its statements, if there are any. -/
theorem readNodes_cases {file : Json} {nodes : List Datum} (whole : isFile file = true)
    (read : readNodes source file = .ok nodes) :
    nodes = [] ∨ ∃ stmts, file.get? "Stmts" = some (.arr stmts) ∧
      stmts.mapM (readNode source) = .ok nodes := by
  unfold readNodes at read
  rw [if_pos whole] at read
  split at read
  next => exact .inl (Except.ok.inj read).symm
  next stmts found => exact .inr ⟨stmts, found, read⟩
  next text _ =>
      split at read
      · exact .inl (Except.ok.inj read).symm
      · cases read
  next fields _ =>
      split at read
      · exact .inl (Except.ok.inj read).symm
      · cases read
  next => cases read

/-- The nodes of a file are no sequences. -/
theorem spinedCommand_of_readNodes {file : Json} {nodes : List Datum} (whole : isFile file = true)
    (read : readNodes source file = .ok nodes) :
    ∀ node ∈ nodes, SpinedCommand (FileLists source file) node := by
  have covers : Covers source (FileLists source file) file := fun _ listed => .inl listed
  rcases readNodes_cases whole read with rfl | ⟨stmts, found, each⟩
  · simp
  · refine Always.mapM (fun stmt member =>
      (always_readNode (covers.of_encloses ?_)).mono fun _ good => good.spined) nodes each
    cases file with
    | obj fields => exact (Json.encloses_of_lookup found).trans (.item member (.self stmt))
    | _ => cases found

/--
Scripts print statement by statement.  If a file has several statements and each
of their nodes prints, the chain of the nodes prints these texts in order, with a
line break and an indentation between them.  Every sequence in the nodes, or in
their chain, stands on the spine of one list of statements of the file.
-/
theorem render_statements_and_onSpine {file : Json} {nodes : List Datum}
    (whole : isFile file = true) (read : readNodes source file = .ok nodes) :
    (∀ texts : List String, 2 ≤ nodes.length →
      nodes.map Datum.shellText = texts.map (fun text => .ok (some text)) →
      ∃ tree, chainAll nodes = .ok tree ∧
        tree.render (.braces true) = .ok (some (String.intercalate sequenceBreak texts))) ∧
    ∀ tree, tree ∈ nodes ∨ chainAll nodes = .ok tree → ∀ position left right mark,
      tree.reach? position = some (.command (.semi left right mark)) →
        tree.OnSpine (FileLists source file) position left right := by
  have each := spinedCommand_of_readNodes whole read
  constructor
  · intro texts several printed
    match nodes, several with
    | first :: second :: rest, _ =>
        refine ⟨_, rfl, Datum.render_chain ?_ printed⟩
        exact fun command member => (each command member).single
  · rintro tree (member | chained) position left right mark found
    · exact (each tree member).spined.onSpine found
    · rcases readNodes_cases whole read with rfl | ⟨stmts, listed, converted⟩
      · cases chained
      · cases nodes with
        | nil => cases chained
        | cons first rest =>
            cases chained
            refine Datum.Spined.onSpine (.spine (.inr ⟨stmts, listed, converted⟩) ?_ ?_) found
            · exact fun command member => (each command member).single
            · exact fun command member => (each command member).spined

/-! ## A file -/

theorem readStatement_of_readCommand {cmd : Json} {command : Datum} (there : cmd.truthy = true)
    (read : readCommand source cmd = .ok command) :
    readStatement source (.obj [("Cmd", cmd)]) = .ok command := by
  rw [readStatement]
  change ite (cmd.truthy = true) _ _ = _
  rw [if_pos there, read]
  rfl

theorem readCommand_block {first second : Json} {left right : Datum}
    (readLeft : readStatement source first = .ok left)
    (readRight : readStatement source second = .ok right) :
    readCommand source (.obj [("Type", .str "Block"), ("Stmts", .arr [first, second])]) =
      .ok (.command (.group (chain left [right]))) := by
  rw [readCommand]
  change readBlock source _ = _
  rw [readBlock, readStatements]
  change (((readStatement source first >>= fun left => readStatement source second >>= fun right =>
    Except.ok [left, right]) >>= _) >>= _) = _
  rw [readLeft, readRight]
  rfl

/-- The statement that calls a command by a literal name. -/
def callStatement (name : String) : Json :=
  let word : Json := .obj [("Parts", .arr [.obj [("Type", .str "Lit"), ("Value", .str name)]])]
  .obj [("Cmd", .obj [("Type", .str "CallExpr"), ("Args", .arr [word])])]

/-- The command that a call by a literal name becomes. -/
def callCommand (name : String) : Datum :=
  .command (.simple (.int (-1)) (.list []) (.list [wordOf true name.toList]) (.list []))

theorem readStatement_callStatement (name : String) :
    readStatement none (callStatement name) = .ok (callCommand name) := by
  have part : readPart none (.obj [("Type", .str "Lit"), ("Value", .str name)]) =
      .ok (cells name) := by
    rw [readPart]
    rfl
  have word : readWord none (.obj [("Parts", .arr [.obj [("Type", .str "Lit"),
      ("Value", .str name)]])]) = .ok (cells name) := by
    unfold readWord
    change ((readPart none _ >>= fun cells => Except.ok [cells]) >>= _) = _
    rw [part]
    simp [bind, Except.bind, pure, Except.pure]
  refine readStatement_of_readCommand rfl ?_
  rw [readCommand]
  change readCall none _ = _
  rw [readCall]
  change ((readWord none _ >>= fun parts => Except.ok [parts]) >>= _) = _
  rw [word]
  rfl

/-- A block of two statements, and a third one after it. -/
theorem render_statements_and_onSpine_block :
    let block : Json :=
      .obj [("Type", .str "Block"), ("Stmts", .arr [callStatement "a", callStatement "b"])]
    let file : Json :=
      .obj [("Type", .str "File"), ("Stmts", .arr [.obj [("Cmd", block)], callStatement "c"])]
    let nodes :=
      [.command (.group (chain (callCommand "a") [callCommand "b"])), callCommand "c"]
    let texts := ["\x7b a\n                b; \x7d", "c"]
    isFile file = true ∧ readNodes none file = .ok nodes ∧
      nodes.map Datum.shellText = texts.map (fun text => .ok (some text)) ∧
      ∃ tree, chainAll nodes = .ok tree ∧
        tree.render (.braces true) = .ok (some (String.intercalate sequenceBreak texts)) ∧
        tree.OnSpine (FileLists none file) [0, 0] (callCommand "a") (callCommand "b") := by
  intro block file nodes texts
  have whole : isFile file = true := by decide
  have read : readNodes none file = .ok nodes := by
    have grouped := readStatement_of_readCommand rfl
      (readCommand_block (readStatement_callStatement "a") (readStatement_callStatement "b"))
    change (readStatement none _ >>= fun first => readStatement none _ >>= fun second =>
      Except.ok [first, second]) = _
    rw [grouped, readStatement_callStatement]
    rfl
  have printed : nodes.map Datum.shellText = texts.map (fun text => .ok (some text)) := by
    rfl
  obtain ⟨prints, spines⟩ := render_statements_and_onSpine whole read
  obtain ⟨tree, chained, shown⟩ := prints texts (by decide) printed
  refine ⟨whole, read, printed, tree, chained, shown, ?_⟩
  cases chained
  exact spines _ (.inr rfl) [0, 0] _ _ (.bool false) rfl

end Shfmt

end ShellTree
