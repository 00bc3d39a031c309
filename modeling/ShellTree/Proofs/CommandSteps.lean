import ShellTree.Bash.Reader

/-!
# The steps of reading a command

Reading a command of bash goes through steps: something without commands in it
is looked at and may be faulty, a command inside is read, or a function begins
or ends.  Which steps these are is told by the record alone, whatever the
session remembers and whatever has become of the commands before.

Only the definition of a function has steps that begin or end a function, and
every command that is read is smaller than the one it stands in.
-/

namespace ShellTree

namespace Bash

/-! ## Types and connectors -/

namespace Record

/-- What a record holds under a key. -/
def get? (record : Record) (key : String) : Option Record :=
  match record with
  | .object fields => fields.lookup key
  | _ => none

theorem get?_of_field {record : Record} {key : String} {inner : record.Inside}
    (holds : record.field key = .ok inner) : record.get? key = some inner.1 := by
  unfold field at holds
  split at holds
  · split at holds
    · next found =>
        cases holds
        exact found
    · cases holds
  · cases holds

/-- The type with the number that a record holds. -/
def type? (number : Record) : Option CommandType :=
  number.integer?.bind CommandType.ofNumber?

/-- The connector with the number that a record holds. -/
def connector? (number : Record) : Option Connector :=
  number.integer?.bind Connector.ofNumber?

/-- The type of a command. -/
def kind? (node : Record) : Option CommandType :=
  (node.get? "type").bind type?

/-- A connection is a list if a semicolon stands between its commands. -/
def Separates (com : Record) : Prop :=
  (com.get? "connector").bind connector? = some .semicolon

/-- The command is a list of two commands. -/
def IsList (node : Record) : Prop :=
  node.kind? = some .connection ∧
    ∃ value com, node.get? "value" = some value ∧ value.get? "connection" = some com ∧
      com.Separates

end Record

/-! ## Steps -/

/-- A step of reading a command. -/
inductive Step where
  | fault (cause : Fault)
  | enter
  | command (inner : Record)
  | leave

/-- Go on with what is found; a fault is the last step. -/
def given {α : Type} (outcome : Except Fault α) (next : α → List Step) : List Step :=
  match outcome with
  | .error cause => [.fault cause]
  | .ok value => next value

/-- Read a command, unless it is left out, and go on. -/
def whenPresent (inner : Record) (next : List Step) : List Step :=
  if inner.truthy then .command inner :: next else next

def forSteps (com : Record) : List Step :=
  given (com.field "line") fun _ =>
  given (com.field "action") fun action =>
  given (com.field "name") fun name =>
  given (com.field "map_list") fun choices =>
  given (readWords choices.1) fun _ =>
  .command action.1 ::
  given (readWord name.1) fun _ => []

def clauseSteps (clause : Record) : List Step :=
  given (clause.field "patterns") fun patterns =>
  given (readWords patterns.1) fun _ =>
  given (clause.field "action") fun action =>
  whenPresent action.1 <|
  given (clause.field "flags") fun flags =>
  given (flags.1.holds fallThrough) fun _ => []

def caseSteps (com : Record) : List Step :=
  given (com.field "line") fun _ =>
  given (com.field "word") fun word =>
  given (com.field "clauses") fun clauses =>
  given (readWord word.1) fun _ =>
  given clauses.1.items fun items =>
  items.flatMap fun clause => clauseSteps clause.1

def whileSteps (com : Record) : List Step :=
  given (com.field "test") fun test =>
  given (com.field "action") fun action =>
  [.command test.1, .command action.1]

def ifSteps (com : Record) : List Step :=
  given (com.field "test") fun test =>
  given (com.field "true_case") fun thenCase =>
  given (com.field "false_case") fun elseCase =>
  .command test.1 :: .command thenCase.1 :: whenPresent elseCase.1 []

def selectSteps (com : Record) : List Step :=
  given (com.field "line") fun _ =>
  given (com.field "action") fun action =>
  given (com.field "name") fun name =>
  given (com.field "map_list") fun choices =>
  .command action.1 ::
  given (readWord name.1) fun _ =>
  given (readWords choices.1) fun _ => []

def connectionSteps (com redirects : Record) : List Step :=
  given (com.field "connector") fun connector =>
  given (com.field "first") fun left =>
  given (com.field "second") fun right =>
  match connector.1.connector? with
  | some .ampersand =>
      .command left.1 ::
      given (readRedirs redirects) fun _ => whenPresent right.1 []
  | some .pipe =>
      match right.1 with
      | .null => [.command left.1]
      | other => [.command left.1, .command other]
  | some .newline => [.fault .newlineConnection]
  | some _ => [.command left.1, .command right.1]
  | none => [.fault .invalidConnection]

def functionSteps (com : Record) : List Step :=
  given (com.field "line") fun _ =>
  given (com.field "name") fun name =>
  given (com.field "command") fun command =>
  .enter ::
  given (readWord name.1) fun _ => [.command command.1, .leave]

def groupSteps (com : Record) : List Step :=
  given (com.field "command") fun command => [.command command.1]

def subshellSteps (com : Record) : List Step :=
  given (com.field "line") fun _ => groupSteps com

def arithForSteps (com : Record) : List Step :=
  given (com.field "line") fun _ =>
  given (com.field "init") fun start =>
  given (com.field "test") fun test =>
  given (com.field "step") fun step =>
  given (com.field "action") fun action =>
  given (readWords start.1) fun _ =>
  given (readWords test.1) fun _ =>
  given (readWords step.1) fun _ => [.command action.1]

def coprocSteps (com : Record) : List Step :=
  given (com.field "name") fun name =>
  given (com.field "command") fun command =>
  match name.1 with
  | .text word => given (wordOfText word) fun _ => [.command command.1]
  | _ => [.fault .noField]

/-- The field that holds what a command of a type is about. -/
def CommandType.key : CommandType → String
  | .forLoop => "for_com"
  | .case => "case_com"
  | .whileLoop => "while_com"
  | .ifElse => "if_com"
  | .simple => "simple_com"
  | .select => "select_com"
  | .connection => "connection"
  | .functionDef => "function_def"
  | .untilLoop => "while_com"
  | .group => "group_com"
  | .arith => "arith_com"
  | .cond => "cond_com"
  | .arithFor => "arith_for_com"
  | .subshell => "subshell_com"
  | .coproc => "coproc_com"

/-- The steps of what a command of a type is about. -/
def CommandType.steps (kind : CommandType) (node com : Record) : List Step :=
  match kind with
  | .forLoop => forSteps com
  | .case => caseSteps com
  | .whileLoop => whileSteps com
  | .ifElse => ifSteps com
  | .simple => given (readSimple com) fun _ => []
  | .select => selectSteps com
  | .connection =>
      given (node.field "redirects") fun redirects => connectionSteps com redirects.1
  | .functionDef => functionSteps com
  | .untilLoop => whileSteps com
  | .group => groupSteps com
  | .arith => given (readArith com) fun _ => []
  | .cond => given (readCond com) fun _ => []
  | .arithFor => arithForSteps com
  | .subshell => subshellSteps com
  | .coproc => coprocSteps com

/-- Put the redirections and flags of a command around it. -/
def finish (node : Record) (inner : Datum) : Except Fault Datum := do
  let redirects ← node.field "redirects"
  let redirected ← withRedirs inner redirects.1
  let flags ← node.field "flags"
  withFlags redirected flags.1

/-- The steps of reading a command. -/
def Record.steps (node : Record) : List Step :=
  given (node.field "type") fun number =>
  match number.1.type? with
  | none => [.fault .invalidCommand]
  | some kind =>
      given (node.field "value") fun value =>
      given (value.1.field kind.key) fun com =>
      kind.steps node com.1 ++
      given (finish node .null) fun _ => []

/-! ## What can be a step -/

/-- The step finds a fault, or reads a command inside the record. -/
def Step.Reads (record : Record) : Step → Prop
  | .fault _ => True
  | .enter => False
  | .command inner => sizeOf inner < sizeOf record
  | .leave => False

/-- None of the steps begins or ends a function, and all the commands are inside the record. -/
def AllRead (record : Record) (steps : List Step) : Prop :=
  ∀ step ∈ steps, step.Reads record

namespace AllRead

variable {record : Record}

theorem nil : AllRead record [] := by
  simp [AllRead]

theorem fault {cause : Fault} : AllRead record [.fault cause] := by
  simp [AllRead, Step.Reads]

theorem command (inner : record.Inside) {steps : List Step} (rest : AllRead record steps) :
    AllRead record (.command inner.1 :: steps) :=
  List.forall_mem_cons.mpr ⟨inner.2, rest⟩

theorem given {α : Type} {outcome : Except Fault α} {next : α → List Step}
    (each : ∀ value, AllRead record (next value)) : AllRead record (given outcome next) := by
  cases outcome with
  | error cause => exact fault
  | ok value => exact each value

theorem whenPresent (inner : record.Inside) {steps : List Step} (rest : AllRead record steps) :
    AllRead record (whenPresent inner.1 steps) := by
  unfold Bash.whenPresent
  split
  · exact rest.command inner
  · exact rest

theorem inside {steps : List Step} (inner : record.Inside) (all : AllRead inner.1 steps) :
    AllRead record steps := by
  intro step held
  have reads := all step held
  cases step with
  | command other => exact Nat.lt_trans reads inner.2
  | _ => exact reads

end AllRead

theorem allRead_forSteps (com : Record) : AllRead com (forSteps com) :=
  .given fun _ => .given fun action => .given fun _ => .given fun _ => .given fun _ =>
    .command action <| .given fun _ => .nil

theorem allRead_caseSteps (com : Record) : AllRead com (caseSteps com) := by
  refine .given fun _ => .given fun _ => .given fun clauses => .given fun _ =>
    .given fun items => .inside clauses ?_
  intro step held
  obtain ⟨clause, _, held⟩ := List.mem_flatMap.mp held
  have all : AllRead clause.1 (clauseSteps clause.1) :=
    .given fun _ => .given fun _ => .given fun action => .whenPresent action <|
      .given fun _ => .given fun _ => .nil
  exact all.inside clause step held

theorem allRead_whileSteps (com : Record) : AllRead com (whileSteps com) :=
  .given fun test => .given fun action => .command test <| .command action .nil

theorem allRead_ifSteps (com : Record) : AllRead com (ifSteps com) :=
  .given fun test => .given fun thenCase => .given fun elseCase => .command test <|
    .command thenCase <| .whenPresent elseCase .nil

theorem allRead_selectSteps (com : Record) : AllRead com (selectSteps com) :=
  .given fun _ => .given fun action => .given fun _ => .given fun _ => .command action <|
    .given fun _ => .given fun _ => .nil

theorem allRead_connectionSteps (com redirects : Record) :
    AllRead com (connectionSteps com redirects) := by
  refine .given fun connector => .given fun left => .given fun right => ?_
  split
  · exact .command left <| .given fun _ => .whenPresent right .nil
  · split
    · exact .command left .nil
    · exact .command left <| .command right .nil
  · exact .fault
  · exact .command left <| .command right .nil
  · exact .fault

theorem allRead_groupSteps (com : Record) : AllRead com (groupSteps com) :=
  .given fun command => .command command .nil

theorem allRead_arithForSteps (com : Record) : AllRead com (arithForSteps com) :=
  .given fun _ => .given fun _ => .given fun _ => .given fun _ => .given fun action =>
    .given fun _ => .given fun _ => .given fun _ => .command action .nil

theorem allRead_coprocSteps (com : Record) : AllRead com (coprocSteps com) := by
  refine .given fun name => .given fun command => ?_
  split
  · exact .given fun _ => .command command .nil
  · exact .fault

/-- Nothing but the definition of a function begins or ends a function. -/
theorem CommandType.allRead_steps {kind : CommandType} (other : kind ≠ .functionDef)
    (node com : Record) : AllRead com (kind.steps node com) := by
  cases kind with
  | forLoop => exact allRead_forSteps com
  | case => exact allRead_caseSteps com
  | whileLoop => exact allRead_whileSteps com
  | ifElse => exact allRead_ifSteps com
  | simple => exact .given fun _ => .nil
  | select => exact allRead_selectSteps com
  | connection => exact .given fun redirects => allRead_connectionSteps com redirects.1
  | functionDef => exact absurd rfl other
  | untilLoop => exact allRead_whileSteps com
  | group => exact allRead_groupSteps com
  | arith => exact .given fun _ => .nil
  | cond => exact .given fun _ => .nil
  | arithFor => exact allRead_arithForSteps com
  | subshell => exact .given fun _ => allRead_groupSteps com
  | coproc => exact allRead_coprocSteps com

/-- Where nothing is faulty, the steps of a function are its beginning, its body and its end. -/
theorem functionSteps_cases (com : Record) :
    (∃ cause, functionSteps com = [.fault cause]) ∨
      (∃ cause, functionSteps com = [.enter, .fault cause]) ∨
      ∃ body, sizeOf body < sizeOf com ∧
        functionSteps com = [.enter, .command body, .leave] := by
  unfold functionSteps
  cases com.field "line" with
  | error cause => exact .inl ⟨cause, rfl⟩
  | ok _ =>
      cases com.field "name" with
      | error cause => exact .inl ⟨cause, rfl⟩
      | ok name =>
          cases com.field "command" with
          | error cause => exact .inl ⟨cause, rfl⟩
          | ok body =>
              simp only [given]
              cases readWord name.1 with
              | error cause => exact .inr (.inl ⟨cause, rfl⟩)
              | ok _ => exact .inr (.inr ⟨body.1, body.2, rfl⟩)

theorem CommandType.sizeOf_lt_of_mem_steps {kind : CommandType} {node com inner : Record}
    (held : .command inner ∈ kind.steps node com) : sizeOf inner < sizeOf com := by
  by_cases isFunction : kind = .functionDef
  · subst isFunction
    rw [CommandType.steps] at held
    rcases functionSteps_cases com with ⟨_, steps⟩ | ⟨_, steps⟩ | ⟨body, smaller, steps⟩
    · simp [steps] at held
    · simp [steps] at held
    · have same : inner = body := by simpa [steps] using held
      rwa [same]
  · exact CommandType.allRead_steps isFunction node com _ held

/-! ## The commands inside a command -/

/-- Either there is a fault at once, or the steps are those of the type, up to a last fault. -/
theorem Record.steps_cases (node : Record) :
    (∃ cause, node.steps = [.fault cause]) ∨
      ∃ kind com, node.kind? = some kind ∧ sizeOf com < sizeOf node ∧
        (node.steps = kind.steps node com ∨
          ∃ cause, node.steps = kind.steps node com ++ [.fault cause]) := by
  unfold Record.steps
  cases holds : node.field "type" with
  | error cause => exact .inl ⟨cause, rfl⟩
  | ok number =>
      simp only [given]
      have isKind : node.kind? = number.1.type? := by
        rw [Record.kind?, Record.get?_of_field holds, Option.bind_some]
      cases found : number.1.type? with
      | none => exact .inl ⟨_, rfl⟩
      | some kind =>
          cases node.field "value" with
          | error cause => exact .inl ⟨cause, rfl⟩
          | ok value =>
              dsimp only
              cases value.1.field kind.key with
              | error cause => exact .inl ⟨cause, rfl⟩
              | ok com =>
                  refine .inr ⟨kind, com.1, isKind.trans found, Nat.lt_trans com.2 value.2, ?_⟩
                  cases finish node .null with
                  | error cause => exact .inr ⟨cause, rfl⟩
                  | ok _ => exact .inl (List.append_nil _)

theorem Record.sizeOf_lt_of_mem_steps {node inner : Record}
    (held : .command inner ∈ node.steps) : sizeOf inner < sizeOf node := by
  rcases node.steps_cases with ⟨_, steps⟩ | ⟨kind, com, _, smaller, steps⟩
  · simp [steps] at held
  · have held : .command inner ∈ kind.steps node com := by
      rcases steps with steps | ⟨_, steps⟩ <;> simpa [steps] using held
    exact Nat.lt_trans (CommandType.sizeOf_lt_of_mem_steps held) smaller

/-- The command that a step reads. -/
def Step.command? : Step → Option Record
  | .command inner => some inner
  | _ => none

/-- The commands directly inside a command, in the order in which they are read. -/
def Record.commands (node : Record) : List Record :=
  node.steps.filterMap Step.command?

theorem Record.sizeOf_lt_of_mem_commands {node inner : Record} (held : inner ∈ node.commands) :
    sizeOf inner < sizeOf node := by
  obtain ⟨step, held, isInner⟩ := List.mem_filterMap.mp held
  cases step with
  | command other =>
      cases isInner
      exact sizeOf_lt_of_mem_steps held
  | _ => cases isInner

theorem AllRead.eq_map_command {record : Record} {steps : List Step} (all : AllRead record steps)
    (faultless : ∀ cause, .fault cause ∉ steps) :
    steps = (steps.filterMap Step.command?).map .command := by
  induction steps with
  | nil => rfl
  | cons step rest ih =>
      obtain ⟨reads, allRest⟩ := List.forall_mem_cons.mp all
      have faultlessRest : ∀ cause, .fault cause ∉ rest :=
        fun cause held => faultless cause (List.mem_cons_of_mem _ held)
      cases step with
      | fault cause => exact absurd List.mem_cons_self (faultless cause)
      | enter => exact reads.elim
      | command inner => exact congrArg (_ :: ·) (ih allRest faultlessRest)
      | leave => exact reads.elim

/-- The command is the definition of a function. -/
def Record.IsFunction (node : Record) : Prop :=
  node.kind? = some .functionDef

/--
Without a fault, the definition of a function reads its body between beginning
and ending the function, and any other command just reads the commands inside.
-/
theorem Record.steps_of_faultless {node : Record} (faultless : ∀ cause, .fault cause ∉ node.steps) :
    (node.IsFunction ∧ ∃ body, node.commands = [body] ∧
        node.steps = [.enter, .command body, .leave]) ∨
      (¬ node.IsFunction ∧ node.steps = node.commands.map .command) := by
  rcases node.steps_cases with ⟨cause, steps⟩ | ⟨kind, com, isKind, _, steps | ⟨cause, steps⟩⟩
  · exact absurd (by simp [steps]) (faultless cause)
  · unfold IsFunction commands
    rw [steps] at faultless ⊢
    rw [isKind, Option.some.injEq]
    by_cases isFunction : kind = .functionDef
    · refine .inl ⟨isFunction, ?_⟩
      subst isFunction
      rw [CommandType.steps] at faultless ⊢
      rcases functionSteps_cases com with ⟨cause, steps⟩ | ⟨cause, steps⟩ | ⟨body, _, steps⟩
      · exact absurd (by simp [steps]) (faultless cause)
      · exact absurd (by simp [steps]) (faultless cause)
      · exact ⟨body, by rw [steps]; rfl, steps⟩
    · exact .inr ⟨isFunction,
        (CommandType.allRead_steps isFunction node com).eq_map_command faultless⟩
  · exact absurd (by simp [steps]) (faultless cause)

end Bash

end ShellTree
