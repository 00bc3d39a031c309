import ShellTree.Proofs.NodeFields
import ShellTree.Proofs.Statements

/-!
# Pipelines

A pipe joins two statements, and the statements of a longer pipeline are joined
two by two, in whatever order.  The reader looks for a pipeline on either side
of a pipe and takes over its items.  Since a pipeline that was read before has no
pipeline among its items, looking once is enough: every pipeline that is read is
flat, and its items are the statements that the pipes stand between.  A sign, an
ampersand or redirections go around the whole pipeline, so where a statement
inside has them, it is an item of its own.
-/

namespace ShellTree

namespace Shfmt

/-- A command that is a pipe between two statements. -/
structure IsPipe (cmd left right : Json) : Prop where
  kind : cmd.get? "Type" = some (.str Kind.binary.label)
  op : ∃ number op, cmd.get? "Op" = some number ∧ operator binaryOps number = .ok (some op) ∧
    (op = .pipe ∨ op = .pipeAll)
  left : cmd.get? "X" = some left
  right : cmd.get? "Y" = some right

/-- A statement that adds nothing to its command: no sign, no ampersand and no redirections. -/
structure IsBare (stmt cmd : Json) : Prop where
  command : stmt.get? "Cmd" = some cmd
  positive : ((stmt.get? "Negated").getD .null).truthy = false
  waited : ((stmt.get? "Background").getD .null).truthy = false
  direct : stmt.children "Redirs" = .ok []

/--
A statement beside a pipe is put together by more pipes from others, or it is not
a pipe itself.
-/
inductive PipeSide : Json → List Json → Prop where
  | leaf {stmt : Json} (single : ∀ cmd left right, IsBare stmt cmd → ¬ IsPipe cmd left right) :
      PipeSide stmt [stmt]
  | pipe {stmt cmd left right : Json} {leaves others : List Json} (bare : IsBare stmt cmd)
      (joins : IsPipe cmd left right) (first : PipeSide left leaves)
      (second : PipeSide right others) : PipeSide stmt (leaves ++ others)

/-- A command is put together by pipes from statements, whatever the statement around it adds. -/
inductive PipeTree : Json → List Json → Prop where
  | pipe {cmd left right : Json} {leaves others : List Json} (joins : IsPipe cmd left right)
      (first : PipeSide left leaves) (second : PipeSide right others) :
      PipeTree cmd (leaves ++ others)

variable {source : Source} {stmt cmd left right : Json}

/-! ## Reading a pipe -/

theorem label_of_kindOf? {value : Json} {kind : Kind} (known : kindOf? value = some kind) :
    value = .str kind.label := by
  cases value with
  | str label =>
      have same := List.find?_some known
      rw [of_decide_eq_true same]
  | _ => cases known

theorem readCommand_of_isPipe (joins : IsPipe cmd left right) :
    readCommand source cmd = (do
      let first ← readStatement source left
      let second ← readStatement source right
      let items ← pipeItems first
      let others ← pipeItems second
      return .command (.pipe (.bool false) (.list (items ++ others)))) := by
  obtain ⟨number, op, numbered, known, isPipe⟩ := joins.op
  obtain ⟨_, kind⟩ := Json.fetch_of_get? joins.kind
  obtain ⟨_, fetched⟩ := Json.fetch_of_get? numbered
  obtain ⟨_, onLeft⟩ := Json.require_of_get? joins.left
  obtain ⟨_, onRight⟩ := Json.require_of_get? joins.right
  rw [readCommand]
  simp only [kind, kindOf?_label, ok_bind]
  rw [readBinary]
  simp only [fetched, known, onLeft, onRight, ok_bind]
  rcases isPipe with rfl | rfl <;> rfl

/-- What a statement makes of its command. -/
def dress (source : Source) (stmt : Json) (command : Datum) : Except Fault Datum := do
  let redirs ← (← stmt.children "Redirs").mapM fun redir => readRedir source redir.1
  let negated ← stmt.fetch "Negated"
  let node := if negated.1.truthy then .command (.not command (.bool true)) else command
  let background ← stmt.fetch "Background"
  if background.1.truthy then
    return .command (.background .null node (.list redirs) .null (.bool true))
  else if redirs.isEmpty then return node
  else return .command (.redirected .null node (.list redirs))

/-- The command of a statement, which is empty if there is none. -/
def heldCommand (source : Source) (stmt : Json) : Except Fault Datum := do
  let cmd ← stmt.fetch "Cmd"
  if cmd.1.truthy then readCommand source cmd.1 else return .command .empty

theorem readStatement_eq_dress (source : Source) (stmt : Json) :
    readStatement source stmt = heldCommand source stmt >>= dress source stmt := by
  rw [readStatement, heldCommand]
  cases stmt.fetch "Cmd" with
  | error => rfl
  | ok cmd =>
      obtain ⟨cmd, _⟩ := cmd
      simp only [ok_bind]
      split <;> rfl

theorem heldCommand_of_get? (found : stmt.get? "Cmd" = some cmd) (there : cmd.truthy = true) :
    heldCommand source stmt = readCommand source cmd := by
  obtain ⟨_, fetched⟩ := Json.fetch_of_get? found
  rw [heldCommand, fetched, ok_bind, if_pos there]

/-- A statement becomes a pipeline only if its command is one and nothing is added to it. -/
theorem bare_of_dress {command behind items : Datum}
    (dressed : dress source stmt command = .ok (.command (.pipe behind items))) :
    command = .command (.pipe behind items) ∧
      ((stmt.get? "Negated").getD .null).truthy = false ∧
      ((stmt.get? "Background").getD .null).truthy = false ∧ stmt.children "Redirs" = .ok [] := by
  simp only [dress, bind_eq_ok_iff] at dressed
  obtain ⟨redirs, listed, read, each, negated, signed, background, sent, dressed⟩ := dressed
  rw [← Json.val_of_fetch signed, ← Json.val_of_fetch sent]
  by_cases job : background.1.truthy = true
  · rw [if_pos job] at dressed
    cases dressed
  rw [if_neg job] at dressed
  cases read with
  | cons => cases dressed
  | nil =>
      by_cases sign : negated.1.truthy = true
      · rw [if_pos List.isEmpty_nil, if_pos sign] at dressed
        cases dressed
      · rw [if_pos List.isEmpty_nil, if_neg sign] at dressed
        cases dressed
        refine ⟨rfl, by simpa using sign, by simpa using job, ?_⟩
        cases redirs with
        | nil => exact listed
        | cons =>
            simp only [List.mapM_cons, bind_eq_ok_iff] at each
            obtain ⟨_, _, _, _, each⟩ := each
            cases each

theorem dress_of_isBare (bare : IsBare stmt cmd) (command : Datum) :
    dress source stmt command = .ok command := by
  have object := Json.isObject_of_get? bare.command
  obtain ⟨_, negated⟩ := Json.fetch_eq object "Negated"
  obtain ⟨_, background⟩ := Json.fetch_eq object "Background"
  simp only [dress, bare.direct, negated, background, bare.positive, bare.waited, ok_bind]
  rfl

/-- No other kind of command becomes a pipeline. -/
theorem always_not_pipe (other : cmd.get? "Type" ≠ some (.str Kind.binary.label)) :
    Always (readCommand source cmd) fun command => command.isTag .pipe = false := by
  rw [readCommand]
  refine Always.self.bind fun kind fetched => ?_
  split
  next =>
      rw [readCall]
      iterate 6 refine .skip fun _ => ?_
      exact .pure rfl
  next isBinary =>
      refine absurd ?_ other
      have named := label_of_kindOf? isBinary
      cases found : cmd.get? "Type" with
      | none =>
          rw [Json.val_of_fetch fetched, found] at named
          cases named
      | some value =>
          rw [Json.val_of_fetch fetched, found] at named
          exact congrArg some named
  next =>
      rw [readIf]
      refine .skip fun _ => .skip fun _ => .skip ?_
      rintro ⟨otherwise, _⟩
      refine .ite (fun _ => .skip fun _ => .ite ?_ ?_) fun _ => .pure rfl
      all_goals exact fun _ => .skip fun _ => .pure rfl
  next =>
      rw [readWhile]
      exact .skip fun _ => .skip fun _ => .skip fun _ => .pure rfl
  next =>
      rw [readFor]
      refine .skip ?_
      rintro ⟨loop, _⟩
      refine .skip fun _ => .skip fun _ => .skip fun _ => .skip fun _ => ?_
      split
      · iterate 5 refine .skip fun _ => ?_
        exact .ite (fun _ => .pure rfl) fun _ => .pure rfl
      · iterate 6 refine .skip fun _ => ?_
        exact .pure rfl
      · exact always_refuse _ _
  next =>
      rw [readCase]
      iterate 6 refine .skip fun _ => ?_
      exact .pure rfl
  next =>
      rw [readSubshell]
      exact .skip fun _ => .skip fun _ => .skip fun _ => .pure rfl
  next =>
      rw [readBlock]
      exact .skip fun _ => .pure rfl
  next =>
      rw [readFunction]
      iterate 7 refine .skip fun _ => ?_
      exact .pure rfl
  next =>
      rw [readArithmCommand]
      iterate 4 refine .skip fun _ => ?_
      exact .pure rfl
  next =>
      rw [readTime]
      refine .skip ?_
      rintro ⟨stmt, _⟩
      refine .ite ?_ ?_
      all_goals exact fun _ => .skip fun _ => .skip fun _ => .pure rfl
  next =>
      rw [readCoproc]
      refine .skip ?_
      rintro ⟨word, _⟩
      refine .ite ?_ ?_
      all_goals exact fun _ => .skip fun _ => .skip fun _ => .skip fun _ => .pure rfl
  next =>
      rw [readDecl]
      refine .skip fun _ => .ite (fun _ => .skip fun _ => .skip fun _ => ?_) fun _ => ?_
      all_goals exact .skip fun _ => .skip fun _ => .skip fun _ => .pure rfl
  next =>
      rw [readLet]
      exact .skip fun _ => .skip fun _ => .pure rfl
  next =>
      rw [readTest]
      exact .skip fun _ => .skip fun _ => .pure rfl
  next =>
      rw [readTestDecl]
      iterate 9 refine .skip fun _ => ?_
      exact .pure rfl
  next => exact always_refuse _ _

theorem isPipe_of_readCommand {behind items : Datum}
    (read : readCommand source cmd = .ok (.command (.pipe behind items))) :
    ∃ left right, IsPipe cmd left right := by
  by_cases kind : cmd.get? "Type" = some (.str Kind.binary.label)
  · obtain ⟨_, fetched⟩ := Json.fetch_of_get? kind
    rw [readCommand] at read
    simp only [fetched, kindOf?_label, ok_bind] at read
    rw [readBinary] at read
    simp only [bind_eq_ok_iff] at read
    obtain ⟨number, numbered, op, known, left, onLeft, _, _, right, onRight, _, _, read⟩ := read
    refine ⟨left.1, right.1, kind, ?_, Json.get?_of_require onLeft, Json.get?_of_require onRight⟩
    have joined : op = some .pipe ∨ op = some .pipeAll := by
      cases op with
      | none =>
          have refused : Always (refuse .binaryOperator number.1) fun _ : Datum => False :=
            always_refuse _ _
          exact (refused _ read).elim
      | some op =>
          cases op with
          | and => cases read
          | or => cases read
          | pipe => exact .inl rfl
          | pipeAll => exact .inr rfl
    have found : cmd.get? "Op" = some number.1 := by
      have same := Json.val_of_fetch numbered
      cases present : cmd.get? "Op" with
      | some value =>
          rw [same, present]
          rfl
      | none =>
          rw [same, present] at known
          rcases joined with rfl | rfl <;> cases known
    rcases joined with rfl | rfl
    · exact ⟨_, _, found, known, .inl rfl⟩
    · exact ⟨_, _, found, known, .inr rfl⟩
  · exact absurd (always_not_pipe kind _ read) (by simp [Datum.isTag, Datum.tag?, Command.tag])

/-- A statement that becomes a pipeline is a pipe and adds nothing to it. -/
theorem isBare_of_readStatement {behind items : Datum}
    (read : readStatement source stmt = .ok (.command (.pipe behind items))) :
    ∃ cmd left right, IsBare stmt cmd ∧ IsPipe cmd left right := by
  rw [readStatement_eq_dress] at read
  obtain ⟨command, held, dressed⟩ := bind_eq_ok_iff.mp read
  obtain ⟨rfl, positive, waited, direct⟩ := bare_of_dress dressed
  obtain ⟨cmd, fetched, held⟩ := bind_eq_ok_iff.mp held
  split at held
  next there =>
      obtain ⟨left, right, joins⟩ := isPipe_of_readCommand held
      refine ⟨cmd.1, left, right, ⟨?_, positive, waited, direct⟩, joins⟩
      have same := Json.val_of_fetch fetched
      cases found : stmt.get? "Cmd" with
      | some value =>
          rw [same, found]
          rfl
      | none =>
          rw [same, found] at there
          cases there
  next => cases held

/-! ## Trees of pipes -/

theorem arrangedCommand_of_readStatement {command : Datum}
    (read : readStatement source stmt = .ok command) :
    ArrangedCommand (fun _ => True) command :=
  (sound stmt fun _ _ => trivial).statement command read

theorem arrangedCommand_of_readNodes {value : Json} {nodes : List Datum}
    (read : readNodes source value = .ok nodes) :
    ∀ node ∈ nodes, ArrangedCommand (fun _ => True) node := by
  have each (stmts : List Json) : Always (stmts.mapM (readNode source)) fun nodes =>
      ∀ node ∈ nodes, ArrangedCommand (fun _ => True) node :=
    .mapM fun stmt _ => always_readNode fun _ _ => trivial
  have all : Always (readNodes source value) fun nodes =>
      ∀ node ∈ nodes, ArrangedCommand (fun _ => True) node := by
    unfold readNodes
    refine .ite (fun _ => ?_) fun _ => ?_
    · split
      · exact .pure (by simp)
      · exact each _
      · exact .ite (fun _ => .pure (by simp)) fun _ => .fault _
      · exact .ite (fun _ => .pure (by simp)) fun _ => .fault _
      · exact .fault _
    · split
      · exact each _
      · refine (always_readNode fun _ _ => trivial).bind fun node good => .pure ?_
        exact List.forall_mem_singleton.mpr good
  exact all nodes read

theorem exists_pipeItems {command : Datum} (read : readStatement source stmt = .ok command) :
    ∃ items, pipeItems command = .ok items := by
  have good := arrangedCommand_of_readStatement read
  unfold pipeItems
  split
  next behind items =>
      have tidy : (Datum.command (.pipe behind items)).Tidy :=
        good.arranged.tidy_of_reach? (show Datum.reach? _ [] = _ from rfl)
      obtain ⟨_, stages, rfl, _⟩ := tidy
      exact ⟨stages, rfl⟩
  next => exact ⟨_, rfl⟩

/-- A pipe takes over the items on its two sides. -/
theorem readCommand_eq_bind (joins : IsPipe cmd left right) :
    readCommand source cmd = (do
      let items ← readStatement source left >>= pipeItems
      let others ← readStatement source right >>= pipeItems
      return .command (.pipe (.bool false) (.list (items ++ others)))) := by
  rw [readCommand_of_isPipe joins]
  cases first : readStatement source left with
  | error => rfl
  | ok command =>
      obtain ⟨items, known⟩ := exists_pipeItems first
      cases second : readStatement source right with
      | error =>
          simp only [ok_bind, known]
          rfl
      | ok other =>
          obtain ⟨others, found⟩ := exists_pipeItems second
          simp only [ok_bind, known, found]

/-- The items on the two sides of a pipe make up one pipeline. -/
theorem readCommand_eq_pipeline {leaves others : List Json} (joins : IsPipe cmd left right)
    (first : readStatement source left >>= pipeItems = leaves.mapM (readStatement source))
    (second : readStatement source right >>= pipeItems = others.mapM (readStatement source)) :
    readCommand source cmd = ((leaves ++ others).mapM (readStatement source)).map fun items =>
      .command (.pipe (.bool false) (.list items)) := by
  rw [readCommand_eq_bind joins, first, second, List.mapM_append]
  cases leaves.mapM (readStatement source) with
  | error => rfl
  | ok items => cases others.mapM (readStatement source) <;> rfl

/-- The items of a statement beside a pipe are the statements that pipes stand between in it. -/
theorem readStatement_bind_pipeItems {leaves : List Json} (side : PipeSide stmt leaves) :
    readStatement source stmt >>= pipeItems = leaves.mapM (readStatement source) := by
  induction side with
  | @leaf stmt single =>
      rw [List.mapM_cons, List.mapM_nil]
      cases read : readStatement source stmt with
      | error => rfl
      | ok command =>
          rw [ok_bind, ok_bind]
          unfold pipeItems
          split
          next behind items =>
              obtain ⟨cmd, left, right, bare, joins⟩ := isBare_of_readStatement read
              exact absurd joins (single cmd left right bare)
          next => rfl
  | @pipe stmt cmd left right leaves others bare joins _ _ ih ihOther =>
      have plain : dress source stmt = Except.ok := funext (dress_of_isBare bare)
      rw [readStatement_eq_dress, plain,
        heldCommand_of_get? bare.command (Json.truthy_of_get? joins.kind),
        readCommand_eq_pipeline joins ih ihOther]
      cases (leaves ++ others).mapM (readStatement source) <;> rfl

theorem PipeTree.readCommand_eq {leaves : List Json} (tree : PipeTree cmd leaves) :
    readCommand source cmd = (leaves.mapM (readStatement source)).map fun items =>
      .command (.pipe (.bool false) (.list items)) := by
  cases tree with
  | pipe joins first second =>
      exact readCommand_eq_pipeline joins (readStatement_bind_pipeItems first)
        (readStatement_bind_pipeItems second)

theorem PipeTree.truthy {leaves : List Json} (tree : PipeTree cmd leaves) :
    cmd.truthy = true := by
  cases tree with
  | pipe joins => exact Json.truthy_of_get? joins.kind

/--
Pipelines are flat and complete.  Every pipeline in what is read has at least two
items, and none of them is a pipeline.  A command that is put together by pipes
becomes the pipeline of the statements between the pipes, from left to right, and
fails only as one of these does.  A sign, an ampersand and redirections of the
statement around it go around this pipeline.
-/
theorem pipelines_of_read (source : Source) :
    (∀ value nodes, readNodes source value = .ok nodes → ∀ node ∈ nodes,
      ∀ position behind items, node.reach? position = some (.command (.pipe behind items)) →
        ∃ stages, items = .list stages ∧ 2 ≤ stages.length ∧
          ∀ stage ∈ stages, stage.isTag .pipe = false) ∧
    ∀ cmd leaves, PipeTree cmd leaves →
      (readCommand source cmd = (leaves.mapM (readStatement source)).map fun items =>
        .command (.pipe (.bool false) (.list items))) ∧
      ∀ stmt, stmt.get? "Cmd" = some cmd →
        readStatement source stmt = (do
          let items ← leaves.mapM (readStatement source)
          dress source stmt (.command (.pipe (.bool false) (.list items)))) := by
  constructor
  · intro value nodes read node member position behind items found
    have tidy := (arrangedCommand_of_readNodes read node member).arranged.tidy_of_reach? found
    obtain ⟨_, stages, rfl, several, each⟩ := tidy
    refine ⟨stages, rfl, several, fun stage member => ?_⟩
    obtain ⟨value, rfl, other⟩ := each stage member
    simpa [Datum.isTag, Datum.tag?] using other
  · intro cmd leaves tree
    refine ⟨tree.readCommand_eq, fun stmt found => ?_⟩
    rw [readStatement_eq_dress, heldCommand_of_get? found tree.truthy, tree.readCommand_eq]
    cases leaves.mapM (readStatement source) <;> rfl

/-! ## A pipeline of pipelines -/

/-- The command that joins two statements by an operator. -/
def joinCommand (op : Int) (left right : Json) : Json :=
  .obj [("Type", .str Kind.binary.label), ("Op", .int op), ("X", left), ("Y", right)]

/-- The statement that joins two others by an operator. -/
def joinStatement (op : Int) (left right : Json) : Json :=
  .obj [("Cmd", joinCommand op left right)]

theorem isPipe_joinCommand {op : Int} (known : op = 12 ∨ op = 13) (left right : Json) :
    IsPipe (joinCommand op left right) left right := by
  refine ⟨rfl, ?_, rfl, rfl⟩
  rcases known with rfl | rfl
  · exact ⟨_, .pipe, rfl, rfl, .inl rfl⟩
  · exact ⟨_, .pipeAll, rfl, rfl, .inr rfl⟩

theorem PipeSide.join {leaves others : List Json} (first : PipeSide left leaves)
    (second : PipeSide right others) {op : Int} (known : op = 12 ∨ op = 13) :
    PipeSide (joinStatement op left right) (leaves ++ others) :=
  .pipe ⟨rfl, rfl, rfl, rfl⟩ (isPipe_joinCommand known left right) first second

theorem pipeSide_callStatement (name : String) :
    PipeSide (callStatement name) [callStatement name] := by
  refine .leaf fun cmd left right bare joins => ?_
  cases bare.command
  exact absurd (Json.str.inj (Option.some.inj joins.kind)) (by decide)

/--
Two pipes on either side of a third one, with errors piped as well or without, in
a job whose status is inverted.
-/
theorem pipelines_of_read_nested :
    let cmd := joinCommand 12 (joinStatement 13 (callStatement "a") (callStatement "b"))
      (joinStatement 12 (callStatement "c") (callStatement "d"))
    let stmt := Json.obj [("Cmd", cmd), ("Negated", .bool true), ("Background", .bool true)]
    let stages := ["a", "b", "c", "d"].map callCommand
    let pipeline := Datum.command (.pipe (.bool false) (.list stages))
    PipeTree cmd (["a", "b", "c", "d"].map callStatement) ∧
      readCommand none cmd = .ok pipeline ∧
      readNodes none stmt = .ok [.command (.background .null
        (.command (.not pipeline (.bool true))) (.list []) .null (.bool true))] ∧
      2 ≤ stages.length ∧ ∀ stage ∈ stages, stage.isTag .pipe = false := by
  intro cmd stmt stages pipeline
  have leaf := pipeSide_callStatement
  have tree : PipeTree cmd (["a", "b", "c", "d"].map callStatement) :=
    .pipe (isPipe_joinCommand (.inl rfl) _ _) ((leaf "a").join (leaf "b") (.inr rfl))
      ((leaf "c").join (leaf "d") (.inl rfl))
  have converted : (["a", "b", "c", "d"].map callStatement).mapM (readStatement none) =
      .ok stages := by
    simp only [List.map_cons, List.map_nil, List.mapM_cons, List.mapM_nil,
      readStatement_callStatement, ok_bind]
    rfl
  obtain ⟨command, dressed⟩ := (pipelines_of_read none).2 cmd _ tree
  rw [converted] at command
  have read : readNodes none stmt = .ok [.command (.background .null
      (.command (.not pipeline (.bool true))) (.list []) .null (.bool true))] := by
    change (readStatement none stmt >>= fun node => Except.ok [node]) = _
    rw [dressed stmt rfl, converted]
    rfl
  obtain ⟨_, same, several, flat⟩ :=
    (pipelines_of_read none).1 stmt _ read _ List.mem_cons_self [1, 0] _ _ rfl
  cases same
  exact ⟨tree, command, read, several, flat⟩

end Shfmt

end ShellTree
