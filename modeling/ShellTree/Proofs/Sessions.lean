import ShellTree.Proofs.FunctionNesting

/-!
# Commands read one after the other

Whether a command has a fault, and which one, does not depend on the session.
What it leaves behind does: a fault in the body of a function leaves the session
in that function, and lists of later commands are marked as standing in it.  A
command without a fault leaves a session as it was at the start, so commands
without faults can be read in any order.
-/

namespace ShellTree

namespace Bash

/-- A session reads commands one after the other, whatever becomes of them. -/
def Session.readAll (session : Session) : List Record → List (Except Fault Datum × Session)
  | [] => []
  | node :: rest => session.read node :: (session.read node).2.readAll rest

/-! ## Commands without faults -/

theorem Session.eq_start_iff {session : Session} :
    session = Session.start ↔ ¬ session.inFunction := by
  rcases session with ⟨_ | _⟩ <;> simp [start]

/-- Without a fault, a command that is read from the start leaves no trace. -/
theorem Session.read_start_of_ok {node : Record} {tree : Datum}
    (came : (Session.start.read node).1 = .ok tree) :
    Session.start.read node = (.ok tree, Session.start) := by
  rcases read : Session.start.read node with ⟨outcome, after⟩
  rw [read] at came
  subst came
  have outside : ¬ after.inFunction := by
    rw [inFunction_of_read read]
    exact fun both => Bool.false_ne_true both.1
  rw [eq_start_iff.mpr outside]

/-- Commands that leave no trace when they are alone leave none in a session. -/
theorem Session.readAll_start_eq_iff (nodes : List Record) :
    Session.start.readAll nodes =
        nodes.map (fun node => ((Session.start.read node).1, Session.start)) ↔
      ∀ node ∈ nodes, (Session.start.read node).2 = Session.start := by
  induction nodes with
  | nil => simp [readAll]
  | cons node rest ih =>
      rw [List.forall_mem_cons, ← ih, readAll, List.map_cons, List.cons.injEq]
      constructor
      · rintro ⟨first, others⟩
        have untouched : (Session.start.read node).2 = Session.start := congrArg Prod.snd first
        exact ⟨untouched, by rwa [untouched] at others⟩
      · rintro ⟨untouched, others⟩
        exact ⟨Prod.ext rfl untouched, by rw [untouched, others]⟩

theorem Session.follow_of_alone {nodes : List Record} {trees : List Datum}
    (alone : nodes.map Session.start.read = trees.map fun tree => (.ok tree, Session.start)) :
    Session.start.follow (nodes.map .command) = (.ok trees, Session.start) := by
  induction nodes generalizing trees with
  | nil =>
      cases trees with
      | nil => rfl
      | cons tree others => cases alone
  | cons node rest ih =>
      cases trees with
      | nil => cases alone
      | cons tree others =>
          obtain ⟨first, alone⟩ := List.cons.inj alone
          exact follow_command_eq_ok.mpr ⟨tree, others, .start, first, ih alone, rfl⟩

theorem exists_map_eq {α β γ : Type} {first : α → γ} {second : β → γ} {items : List α}
    (each : ∀ item ∈ items, ∃ other, first item = second other) :
    ∃ others : List β, items.map first = others.map second := by
  induction items with
  | nil => exact ⟨[], rfl⟩
  | cons item rest ih =>
      obtain ⟨⟨other, same⟩, each⟩ := List.forall_mem_cons.mp each
      obtain ⟨others, alike⟩ := ih each
      exact ⟨other :: others, by rw [List.map_cons, List.map_cons, same, alike]⟩

theorem takes_each {record : Record} (items : List record.Inside) :
    Takes (items.mapM fun node => readCommand node.1) (items.map fun node => .command node.1)
      fun trees _ read => read = trees := by
  induction items with
  | nil => exact .done fun _ => rfl
  | cons node rest ih =>
      rw [List.mapM_cons, List.map_cons]
      exact .command fun tree => .map ih fun same => congrArg (tree :: ·) same

/-- A list of commands is read command by command. -/
theorem takes_readCommands (nodes : List Record) :
    Takes (readCommands (.list nodes)) (nodes.map .command) fun trees _ read => read = trees := by
  obtain ⟨inside, items, values⟩ := Record.items_list nodes
  have steps : inside.map (fun node => .command node.1) = nodes.map Step.command :=
    List.map_map.symm.trans (congrArg (List.map Step.command) values)
  rw [readCommands, items, liftM_ok_bind, ← steps]
  exact takes_each inside

/--
Commands that can each be read from the start can be read in any order: each
becomes what it becomes alone, and the session is as at the start after each.
-/
theorem readCommands_of_perm {nodes others : List Record}
    (alone : ∀ node ∈ nodes, ∃ tree, (Session.start.read node).1 = .ok tree)
    (perm : others.Perm nodes) :
    ∃ trees, (readCommands (.list others)).run.run Session.start = (.ok trees, Session.start) ∧
      others.map (fun node => (Session.start.read node).1) = trees.map .ok ∧
      Session.start.readAll others = trees.map fun tree => (.ok tree, Session.start) := by
  have each (node : Record) (held : node ∈ others) :
      ∃ tree, Session.start.read node = (.ok tree, Session.start) := by
    obtain ⟨tree, came⟩ := alone node (perm.subset held)
    exact ⟨tree, Session.read_start_of_ok came⟩
  obtain ⟨trees, read⟩ := exists_map_eq each
  obtain ⟨_, came, same⟩ := (takes_readCommands others).value (Session.follow_of_alone read)
  rw [same] at came
  have outcomes : others.map (fun node => (Session.start.read node).1) = trees.map .ok := by
    simpa [Function.comp_def] using congrArg (List.map Prod.fst) read
  have untouched : ∀ node ∈ others, (Session.start.read node).2 = Session.start := by
    intro node held
    obtain ⟨tree, came⟩ := each node held
    rw [came]
  refine ⟨trees, came, outcomes, ?_⟩
  rw [(Session.readAll_start_eq_iff others).mpr untouched]
  simpa [Function.comp_def] using
    congrArg (List.map fun outcome => (outcome, Session.start)) outcomes

/-- A list of letters and nested functions, in either order. -/
theorem readCommands_of_perm_nestedFunctions :
    ∃ trees, (readCommands (.list [listRecord (letterCommand 'a') (letterCommand 'b'),
        nestedFunctions])).run.run Session.start = (.ok trees, Session.start) ∧
      [listRecord (letterCommand 'a') (letterCommand 'b'), nestedFunctions].map
        (fun node => (Session.start.read node).1) = trees.map .ok ∧
      Session.start.readAll [listRecord (letterCommand 'a') (letterCommand 'b'),
        nestedFunctions] = trees.map fun tree => (.ok tree, Session.start) := by
  have letters : Session.start.Reads (listRecord (letterCommand 'a') (letterCommand 'b')) .start :=
    .list (.letter 'a') (.letter 'b')
  obtain ⟨first, letters⟩ := letters
  obtain ⟨second, functions⟩ := reads_nestedFunctions
  have alone : ∀ node ∈ [nestedFunctions, listRecord (letterCommand 'a') (letterCommand 'b')],
      ∃ tree, (Session.start.read node).1 = .ok tree := by
    simp [letters, functions]
  exact readCommands_of_perm alone (.swap _ _ [])

/-! ## The trail of a command -/

/-- What reading a command goes through, the commands inside included. -/
inductive Mark where
  | fault (cause : Fault)
  | enter
  | leave

/-- The trail of reading a command, as if no fault stopped it. -/
def Record.trail (node : Record) : List Mark :=
  node.steps.attach.flatMap fun
    | ⟨.fault cause, _⟩ => [.fault cause]
    | ⟨.enter, _⟩ => [.enter]
    | ⟨.command inner, held⟩ =>
        have := Record.sizeOf_lt_of_mem_steps held
        inner.trail
    | ⟨.leave, _⟩ => [.leave]
termination_by sizeOf node

def Step.trail : Step → List Mark
  | .fault cause => [.fault cause]
  | .enter => [.enter]
  | .command inner => inner.trail
  | .leave => [.leave]

theorem Record.trail_eq (node : Record) : node.trail = node.steps.flatMap Step.trail := by
  have same : node.trail = node.steps.attach.flatMap fun step => step.1.trail := by
    rw [trail]
    refine congrArg (node.steps.attach.flatMap ·) (funext fun ⟨step, held⟩ => ?_)
    cases step <;> rfl
  rw [same, List.flatMap_def, List.attach_map_val, List.flatMap_def]

/-- What a session comes to by a trail: the first fault, and the session at that time. -/
def Session.pass (session : Session) : List Mark → Option Fault × Session
  | [] => (none, session)
  | .fault cause :: _ => (some cause, session)
  | .enter :: rest => Session.pass ⟨true⟩ rest
  | .leave :: rest => Session.pass ⟨false⟩ rest

theorem Session.pass_append (session : Session) (marks others : List Mark) :
    session.pass (marks ++ others) =
      match session.pass marks with
      | (some cause, after) => (some cause, after)
      | (none, after) => after.pass others := by
  induction marks generalizing session with
  | nil => rfl
  | cons mark rest ih =>
      cases mark with
      | fault cause => rfl
      | enter => exact ih ⟨true⟩
      | leave => exact ih ⟨false⟩

/-- The fault that is found does not depend on the session. -/
theorem Session.pass_fault (session other : Session) (marks : List Mark) :
    (session.pass marks).1 = (other.pass marks).1 := by
  cases marks with
  | nil => rfl
  | cons mark rest => cases mark <;> rfl

/-- The fault of an outcome. -/
def faultOf {α : Type} : Except Fault α → Option Fault
  | .error cause => some cause
  | .ok _ => none

/-- A session comes to what the trails of the steps come to. -/
theorem Session.pass_of_follow {steps : List Step}
    (each : ∀ inner, .command inner ∈ steps → ∀ session : Session,
      session.pass inner.trail = (faultOf (session.read inner).1, (session.read inner).2))
    (session : Session) :
    session.pass (steps.flatMap Step.trail) =
      (faultOf (session.follow steps).1, (session.follow steps).2) := by
  induction steps generalizing session with
  | nil => rfl
  | cons step rest ih =>
      have goesOn := ih fun inner held => each inner (List.mem_cons_of_mem _ held)
      rw [List.flatMap_cons]
      cases step with
      | fault cause => rfl
      | enter => exact goesOn ⟨true⟩
      | leave => exact goesOn ⟨false⟩
      | command inner =>
          rw [Step.trail, pass_append, each inner List.mem_cons_self, follow]
          rcases session.read inner with ⟨cause | tree, after⟩
          · rfl
          · simp only [faultOf]
            rw [goesOn]
            rcases (after.follow rest).1 with cause | trees <;> rfl

/-- Reading a command goes along its trail to the first fault. -/
theorem Session.pass_trail (session : Session) (node : Record) :
    session.pass node.trail = (faultOf (session.read node).1, (session.read node).2) := by
  rw [Record.trail_eq,
    pass_of_follow (fun inner held session => Session.pass_trail session inner) session]
  rcases came : session.follow node.steps with ⟨cause | trees, after⟩
  · have failed : session.read node = _ := (takes_readCommand node).fault came
    rw [failed]
    rfl
  · obtain ⟨tree, read, _⟩ := (takes_readCommand node).value came
    have read : session.read node = _ := read
    rw [read]
    rfl
termination_by sizeOf node
decreasing_by exact Record.sizeOf_lt_of_mem_steps held

/-! ## Faults in functions -/

/-- The first fault of a trail comes right after a function begins: none has ended since. -/
def Abandoned (marks : List Mark) : Prop :=
  ∃ before cause rest, marks = before ++ .enter :: .fault cause :: rest ∧
    ∀ fault, .fault fault ∉ before

theorem abandoned_cons {mark : Mark} {rest : List Mark} :
    Abandoned (mark :: rest) ↔
      (mark = .enter ∧ ∃ cause others, rest = .fault cause :: others) ∨
        ((∀ fault, mark ≠ .fault fault) ∧ Abandoned rest) := by
  constructor
  · rintro ⟨before, cause, others, same, faultless⟩
    cases before with
    | nil =>
        obtain ⟨rfl, rfl⟩ := List.cons.inj same
        exact .inl ⟨rfl, cause, others, rfl⟩
    | cons first before =>
        obtain ⟨rfl, rfl⟩ := List.cons.inj same
        refine .inr ⟨?_, before, cause, others, rfl, fun fault held => ?_⟩
        · rintro fault rfl
          exact faultless fault List.mem_cons_self
        · exact faultless fault (List.mem_cons_of_mem _ held)
  · rintro (⟨rfl, cause, others, rfl⟩ | ⟨notFault, before, cause, others, rfl, faultless⟩)
    · exact ⟨[], cause, others, rfl, by simp⟩
    · refine ⟨mark :: before, cause, others, rfl, fun fault held => ?_⟩
      rcases List.mem_cons.mp held with same | held
      · exact notFault fault same.symm
      · exact faultless fault held

/-- A session with a fault is in a function if it has begun one last, or nothing at all. -/
theorem Session.inFunction_of_pass {session after : Session} {marks : List Mark} {cause : Fault}
    (passed : session.pass marks = (some cause, after)) :
    after.inFunction ↔ Abandoned marks ∨
      (session.inFunction ∧ ∃ cause rest, marks = .fault cause :: rest) := by
  induction marks generalizing session with
  | nil => cases passed
  | cons mark rest ih =>
      rw [abandoned_cons]
      cases mark with
      | fault other =>
          cases passed
          simp
      | enter => rw [ih passed]; simp [or_comm]
      | leave => rw [ih passed]; simp

/-- Reading a command comes to a fault after a function has begun, before any has ended. -/
def Record.Abandons (node : Record) : Prop :=
  Abandoned node.trail

theorem Session.faultless_of_pass {session after : Session} {marks : List Mark}
    (passed : session.pass marks = (none, after)) : ∀ cause, .fault cause ∉ marks := by
  induction marks generalizing session with
  | nil => simp
  | cons mark rest ih =>
      intro cause held
      cases mark with
      | fault other => cases passed
      | enter => exact ih passed cause (by simpa using held)
      | leave => exact ih passed cause (by simpa using held)

/-- A command leaves a trace in a session from the start exactly if it has a fault in a function. -/
theorem Session.read_start_eq_iff (node : Record) :
    (Session.start.read node).2 = Session.start ↔ ¬ node.Abandons := by
  have passed := Session.start.pass_trail node
  rcases read : Session.start.read node with ⟨cause | tree, after⟩
  · rw [read] at passed
    have inFunction : after.inFunction ↔ node.Abandons := by
      simpa [start, Record.Abandons] using inFunction_of_pass passed
    rw [eq_start_iff, inFunction]
  · rw [read] at passed
    have untouched : after = Session.start := by
      cases (read_start_of_ok (congrArg Prod.fst read)).symm.trans read
      rfl
    have faultless : ¬ node.Abandons := by
      rintro ⟨before, cause, rest, trail, _⟩
      exact faultless_of_pass passed cause (by simp [trail])
    exact iff_of_true untouched faultless

/-- The faults of commands in a session are those that they have alone. -/
theorem Session.faults_readAll (session : Session) (nodes : List Record) :
    (session.readAll nodes).map (fun step => faultOf step.1) =
      nodes.map fun node => faultOf (Session.start.read node).1 := by
  induction nodes generalizing session with
  | nil => rfl
  | cons node rest ih =>
      have alike : faultOf (session.read node).1 = faultOf (Session.start.read node).1 := by
        simpa only [pass_trail] using pass_fault session .start node.trail
      rw [readAll, List.map_cons, List.map_cons, ih, alike]

/--
Commands that are read one after the other have the faults that they have alone.
They become what they become alone, and leave the session as at the start after
each, exactly if none of them has a fault in a function.
-/
theorem readAll_eq_alone_iff (nodes : List Record) :
    (Session.start.readAll nodes).map (fun step => faultOf step.1) =
        nodes.map (fun node => faultOf (Session.start.read node).1) ∧
      (Session.start.readAll nodes =
          nodes.map (fun node => ((Session.start.read node).1, Session.start)) ↔
        ∀ node ∈ nodes, ¬ node.Abandons) := by
  refine ⟨Session.start.faults_readAll nodes, ?_⟩
  rw [Session.readAll_start_eq_iff]
  exact forall₂_congr fun node _ => Session.read_start_eq_iff node

/-- The definition of a function with a body that is no command. -/
def abandonedFunction : Record :=
  functionRecord 'f' (.object [("type", .int 99)])

theorem read_abandonedFunction (session : Session) :
    session.read abandonedFunction = (.error .invalidCommand, ⟨true⟩) := by
  have body : Session.read ⟨true⟩ (.object [("type", .int 99)]) =
      (.error .invalidCommand, ⟨true⟩) :=
    (takes_readCommand _).fault rfl
  refine (takes_readCommand _).fault ?_
  rw [abandonedFunction, steps_functionRecord, Session.follow, Session.follow, body]

/-- After a fault in a function, a list is marked as if it stood in that function. -/
theorem readAll_after_abandonedFunction : ∃ tree alone,
    Session.start.readAll
        [abandonedFunction, listRecord (letterCommand 'a') (letterCommand 'b')] =
      [(.error .invalidCommand, ⟨true⟩), (.ok tree, ⟨true⟩)] ∧
    Session.start.read (listRecord (letterCommand 'a') (letterCommand 'b')) =
      (.ok alone, Session.start) ∧ tree ≠ alone := by
  have letters (session : Session) :
      session.Reads (listRecord (letterCommand 'a') (letterCommand 'b')) session :=
    .list (.letter 'a') (.letter 'b')
  obtain ⟨tree, read⟩ := letters ⟨true⟩
  obtain ⟨alone, readAlone⟩ := letters .start
  refine ⟨tree, alone, ?_, readAlone, ?_⟩
  · rw [Session.readAll, read_abandonedFunction, Session.readAll, read, Session.readAll]
  · rintro rfl
    obtain ⟨_, _, made⟩ := Session.made_of_read read
    obtain ⟨_, _, madeAlone⟩ := Session.made_of_read readAlone
    obtain ⟨left, right, marked⟩ := made.marked (isList_listRecord _ _)
    obtain ⟨_, _, markedAlone⟩ := madeAlone.marked (isList_listRecord _ _)
    cases marked.symm.trans markedAlone

end Bash

end ShellTree
