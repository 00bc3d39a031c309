import ShellTree.Proofs.SessionSteps
import ShellTree.Proofs.WordReadings

/-!
# How commands are put together

What the reader makes of a command is said once, type by type: which construct
comes about, what in it are words and redirections, and where the commands
inside have gone.  Redirections and flags are put around it at the end.  In the
tree the commands inside stand in the order in which they have been read.
-/

namespace ShellTree

namespace Bash

/-! ## The types of commands -/

/-- The connector of a connection. -/
def Record.joint? (com : Record) : Option Connector :=
  (com.get? "connector").bind connector?

/-- What a command, or what a simple command is about, holds as its redirections. -/
def Record.redirects (node : Record) : Record :=
  (node.get? "redirects").getD .null

theorem Record.redirects_of_field {node : Record} {inner : node.Inside}
    (holds : node.field "redirects" = .ok inner) : node.redirects = inner.1 := by
  rw [redirects, get?_of_field holds, Option.getD_some]

/-- What a command of a type is about. -/
def Record.about? (node : Record) (kind : CommandType) : Option Record :=
  (node.get? "value").bind fun value => value.get? kind.key

theorem Record.about?_of_field {node : Record} {kind : CommandType} {value : node.Inside}
    {com : value.1.Inside} (inValue : node.field "value" = .ok value)
    (inCom : value.1.field kind.key = .ok com) : node.about? kind = some com.1 := by
  rw [about?, get?_of_field inValue, Option.bind_some, get?_of_field inCom]

/-- A clause of a choice. -/
def clause (words body : Datum) (falls : Bool) : Datum :=
  .dict [("cpattern", words), ("cbody", body), ("fallthrough", .bool falls)]

/-- The clauses of a choice, put together from what their commands have become. -/
inductive Clauses : List Datum → List Datum → Prop where
  | nil : Clauses [] []
  | absent {words : Datum} {falls : Bool} {trees clauses : List Datum}
      (areWords : AreWords words) (rest : Clauses trees clauses) :
      Clauses trees (clause words .null falls :: clauses)
  | present {words body : Datum} {falls : Bool} {trees clauses : List Datum}
      (areWords : AreWords words) (rest : Clauses trees clauses) :
      Clauses (body :: trees) (clause words body falls :: clauses)

/-- A condition, or nothing. -/
inductive Condition : Datum → Prop where
  | absent : Condition .null
  | test {line kind : Record} {operator left right : Datum} {inverted : Bool}
      (isName : IsName operator)
      (first : Condition left) (second : Condition right) :
      Condition (.command (.cond line.datum kind.datum operator left right (.bool inverted)))

/--
A command of a type, put together from what the commands inside have become, in
the session that they have left.
-/
inductive Assembled (node com : Record) :
    CommandType → List Datum → Session → Datum → Prop where
  | forLoop {line : Record} {words body called : Datum} {session : Session}
      (areWords : AreWords words) (isWord : IsWord called) :
      Assembled node com .forLoop [body] session
        (.command (.forLoop line.datum words body called))
  | case {line : Record} {argument : Datum} {trees clauses : List Datum} {session : Session}
      (isWord : IsWord argument) (inside : Clauses trees clauses) :
      Assembled node com .case trees session
        (.command (.case line.datum argument (.list clauses)))
  | whileLoop {test body : Datum} {session : Session} :
      Assembled node com .whileLoop [test, body] session (.command (.whileLoop test body))
  | untilLoop {test body : Datum} {session : Session} :
      Assembled node com .untilLoop [test, body] session
        (.command (.whileLoop (.command (.not test (.bool false))) body))
  | ifThen {test first : Datum} {session : Session} :
      Assembled node com .ifElse [test, first] session
        (.command (.ifElse test first .null))
  | ifElse {test first second : Datum} {session : Session} :
      Assembled node com .ifElse [test, first, second] session
        (.command (.ifElse test first second))
  | simple {line : Record} {assignments arguments : List Datum} {redirs : Datum}
      {session : Session} (areAssigns : ∀ assignment ∈ assignments, IsAssign assignment)
      (areWords : ∀ argument ∈ arguments, IsWord argument)
      (redirected : readRedirs com.redirects = .ok redirs) :
      Assembled node com .simple [] session
        (.command (.simple line.datum (.list assignments) (.list arguments) redirs))
  | select {line : Record} {words body called : Datum} {session : Session}
      (areWords : AreWords words) (isWord : IsWord called) :
      Assembled node com .select [body] session
        (.command (.select line.datum called body words))
  | lastJob {first redirs : Datum} {session : Session} (joint : com.joint? = some .ampersand)
      (redirected : readRedirs node.redirects = .ok redirs) :
      Assembled node com .connection [first] session
        (.command (.background .null first redirs .null (.bool true)))
  | job {first second redirs : Datum} {session : Session} (joint : com.joint? = some .ampersand)
      (redirected : readRedirs node.redirects = .ok redirs) :
      Assembled node com .connection [first, second] session
        (.command (.background .null first redirs second (.bool true)))
  | semi {first second : Datum} {session : Session} (joint : com.joint? = some .semicolon) :
      Assembled node com .connection [first, second] session
        (.command (.semi first second (.bool (!session.inFunction))))
  | pipe {items : List Datum} {session : Session} (joint : com.joint? = some .pipe) :
      Assembled node com .connection items session
        (.command (.pipe (.bool false) (.list items)))
  | and {first second : Datum} {session : Session} (joint : com.joint? = some .and) :
      Assembled node com .connection [first, second] session
        (.command (.and first second (.bool true)))
  | or {first second : Datum} {session : Session} (joint : com.joint? = some .or) :
      Assembled node com .connection [first, second] session
        (.command (.or first second (.bool true)))
  | functionDef {line : Record} {body called : Datum} {session : Session}
      (isWord : IsWord called) :
      Assembled node com .functionDef [body] session
        (.command (.defun line.datum called body (.bool true)))
  | group {body : Datum} {session : Session} :
      Assembled node com .group [body] session (.command (.group body))
  | arith {line : Record} {words : Datum} {session : Session} (areWords : AreWords words) :
      Assembled node com .arith [] session (.command (.arith line.datum words))
  | cond {value : Command} {session : Session} (isTest : Condition (.command value)) :
      Assembled node com .cond [] session (.command value)
  | arithFor {line : Record} {start test step body : Datum} {session : Session}
      (started : AreWords start) (tested : AreWords test) (stepped : AreWords step) :
      Assembled node com .arithFor [body] session
        (.command (.arithFor line.datum start test step body))
  | subshell {line : Record} {body : Datum} {session : Session} :
      Assembled node com .subshell [body] session
        (.command (.subshell line.datum body (.list [])))
  | coproc {body called : Datum} {session : Session} (isWord : IsWord called) :
      Assembled node com .coproc [body] session (.command (.coproc called body))

/-! ## What is read for each type -/

section Types

variable {node com : Record}

theorem takes_readFor :
    Takes (readFor com) (forSteps com) (Assembled node com .forLoop) := by
  rw [readFor]
  refine .given fun line _ => .given fun action _ => .given fun name _ => .given fun choices _ =>
    .given fun words chosen => .command fun body => .given fun called named => .done fun _ => ?_
  exact .forLoop (always_readWords _ _ chosen) (always_readWord _ _ named)

theorem takes_readWhile :
    Takes (readWhile false com) (whileSteps com) (Assembled node com .whileLoop) := by
  rw [readWhile]
  exact .given fun test _ => .given fun action _ => .command fun tested => .command fun body =>
    .done fun _ => .whileLoop

theorem takes_readUntil :
    Takes (readWhile true com) (whileSteps com) (Assembled node com .untilLoop) := by
  rw [readWhile]
  exact .given fun test _ => .given fun action _ => .command fun tested => .command fun body =>
    .done fun _ => .untilLoop

theorem takes_readIf : Takes (readIf com) (ifSteps com) (Assembled node com .ifElse) := by
  rw [readIf]
  exact .given fun test _ => .given fun thenCase _ => .given fun elseCase _ =>
    .command fun tested => .command fun first => .whenPresent (.done fun _ => .ifThen)
      fun second => .done fun _ => .ifElse

theorem takes_readSelect :
    Takes (readSelect com) (selectSteps com) (Assembled node com .select) := by
  rw [readSelect]
  refine .given fun line _ => .given fun action _ => .given fun name _ => .given fun choices _ =>
    .command fun body => .given fun called named => .given fun words chosen => .done fun _ => ?_
  exact .select (always_readWords _ _ chosen) (always_readWord _ _ named)

theorem takes_readFunction :
    Takes (readFunction com) (functionSteps com) (Assembled node com .functionDef) := by
  rw [readFunction]
  exact .given fun line _ => .given fun name _ => .given fun command _ => .enter <|
    .given fun called named => .command fun body => .leave <| .done fun _ =>
      .functionDef (always_readWord _ _ named)

theorem takes_readGroup :
    Takes (readGroup com) (groupSteps com) (Assembled node com .group) := by
  rw [readGroup]
  exact .given fun command _ => .command fun body => .done fun _ => .group

theorem takes_readSubshell :
    Takes (readSubshell com) (subshellSteps com) (Assembled node com .subshell) := by
  rw [readSubshell]
  exact .given fun line _ => .given fun command _ => .command fun body => .done fun _ => .subshell

theorem takes_readArithFor :
    Takes (readArithFor com) (arithForSteps com) (Assembled node com .arithFor) := by
  rw [readArithFor]
  refine .given fun line _ => .given fun start _ => .given fun test _ => .given fun step _ =>
    .given fun action _ => .given fun first started => .given fun second tested =>
    .given fun third stepped => .command fun body => .done fun _ => ?_
  exact .arithFor (always_readWords _ _ started) (always_readWords _ _ tested)
    (always_readWords _ _ stepped)

theorem takes_readCoproc :
    Takes (readCoproc com) (coprocSteps com) (Assembled node com .coproc) := by
  rw [readCoproc]
  refine .given fun ⟨name, _⟩ _ => .given fun command _ => ?_
  cases name with
  | text word =>
      exact .given fun called named => .command fun body => .done fun _ =>
        .coproc (always_wordOfBytes _ _ named)
  | _ => exact .fail_bind

theorem takes_readClause (record : Record) :
    Takes (readClause record) (clauseSteps record) fun trees _ read =>
      ∀ {others clauses}, Clauses others clauses → Clauses (trees ++ others) (read :: clauses) := by
  rw [readClause]
  refine .given fun patterns _ => .given fun words read => .given fun action _ => ?_
  have areWords := always_readWords _ _ read
  exact .whenPresent
    (.given fun flags _ => .given fun falls _ => .done fun _ _ _ rest => .absent areWords rest)
    fun body => .given fun flags _ => .given fun falls _ => .done fun _ _ _ rest =>
      .present areWords rest

theorem takes_clauses {record : Record} (clauses : List record.Inside) :
    Takes (clauses.mapM fun clause => readClause clause.1)
      (clauses.flatMap fun clause => clauseSteps clause.1) fun trees _ read =>
        Clauses trees read := by
  induction clauses with
  | nil => exact .done fun _ => .nil
  | cons clause rest ih =>
      let following (read : Datum) (trees : List Datum) (_ : Session) (all : List Datum) : Prop :=
        ∃ others, all = read :: others ∧ Clauses trees others
      have goesOn (read : Datum) : Takes (do return read :: (← rest.mapM fun clause =>
          readClause clause.1)) (rest.flatMap fun clause => clauseSteps clause.1)
          (following read) :=
        .map ih fun inside => ⟨_, rfl, inside⟩
      rw [List.mapM_cons, List.flatMap_cons]
      refine .append (takes_readClause clause.1) goesOn ?_
      rintro first second read _ _ _ inside ⟨others, rfl, insideOthers⟩
      exact inside insideOthers

theorem takes_readCase :
    Takes (readCase com) (caseSteps com) (Assembled node com .case) := by
  rw [readCase]
  exact .given fun line _ => .given fun word _ => .given fun clauses _ =>
    .given fun argument read => .given fun items _ =>
      .map (takes_clauses items) (.case (always_readWord _ _ read))

theorem takes_readConnection :
    Takes (readConnection com node.redirects) (connectionSteps com node.redirects)
      (Assembled node com .connection) := by
  rw [readConnection]
  refine .given fun connector holds => .given fun left _ => .given fun ⟨right, _⟩ _ => ?_
  have joint : com.joint? = connector.1.connector? := by
    rw [Record.joint?, Record.get?_of_field holds, Option.bind_some]
  unfold Record.connector? at joint ⊢
  cases found : connector.1.integer?.bind Connector.ofNumber? with
  | none => exact .fail
  | some kind =>
      rw [found] at joint
      cases kind with
      | ampersand =>
          exact .command fun first => .given fun redirs redirected =>
            .whenPresent (.done fun _ => .lastJob joint redirected)
              fun second => .done fun _ => .job joint redirected
      | semicolon =>
          exact .command fun first => .command fun second => .ask fun session => .semi joint
      | pipe =>
          cases right with
          | null => exact .command fun first => .done fun _ => .pipe joint
          | _ => exact .command fun first => .command fun second => .done fun _ => .pipe joint
      | and => exact .command fun first => .command fun second => .done fun _ => .and joint
      | or => exact .command fun first => .command fun second => .done fun _ => .or joint
      | newline => exact .fail

theorem Takes.lift {outcome : Except Fault Datum} {made : List Datum → Session → Datum → Prop}
    (always : Always outcome fun tree => ∀ session, made [] session tree) :
    Takes (liftM outcome) (Bash.given outcome fun _ => []) made := by
  have takes : Takes (liftM outcome >>= pure) (Bash.given outcome fun _ => []) made :=
    .given fun tree came => .done (always tree came)
  rwa [bind_pure] at takes

theorem takes_readSimple : Takes (liftM (readSimple com))
    (given (readSimple com) fun _ => []) (Assembled node com .simple) := by
  refine .lift ?_
  unfold readSimple
  refine .skip fun line => .skip fun words => .bind .self fun held holds => .skip fun items =>
    .bind .self ?_
  rintro ⟨assignments, arguments⟩ read
  obtain ⟨areAssigns, areWords⟩ := always_readSimpleWords _ _ _ read
  refine .bind .self fun redirs redirected => .pure fun _ => ?_
  exact .simple areAssigns areWords (Record.redirects_of_field holds ▸ redirected)

theorem takes_readArith : Takes (liftM (readArith com))
    (given (readArith com) fun _ => []) (Assembled node com .arith) := by
  refine .lift ?_
  unfold readArith
  exact .skip fun exp => .skip fun line => .bind (always_readWords _) fun words areWords =>
    .pure fun _ => .arith areWords

theorem condition_of_readCond (com : Record) :
    Always (readCond com) fun tree => Condition tree ∧ ∃ value, tree = .command value := by
  rw [readCond]
  have absent : Always (pure .null) Condition := .pure .absent
  have inside (inner : com.Inside) : Always (readCond inner.1) Condition :=
    (condition_of_readCond inner.1).mono fun _ isTest => isTest.1
  have named (word : Record) : Always (readWord word) IsName :=
    (always_readWord word).mono fun _ => .inr
  refine .skip fun line => .skip fun kind => .skip fun op =>
    .either (named op.1) (.pure (.inl rfl)) fun operator isName => ?_
  refine .skip fun left => .either (inside left) absent fun first isFirst => ?_
  refine .skip fun right => .either (inside right) absent fun second isSecond => ?_
  exact .skip fun flags => .skip fun inverted => .pure ⟨.test isName isFirst isSecond, _, rfl⟩
termination_by sizeOf com
decreasing_by exact inner.2

theorem takes_readCond : Takes (liftM (readCond com))
    (given (readCond com) fun _ => []) (Assembled node com .cond) := by
  refine .lift ((condition_of_readCond com).mono ?_)
  rintro _ ⟨isTest, value, rfl⟩ _
  exact .cond isTest

end Types

/-! ## Redirections and flags -/

/-- Something is put around a command, whatever it is; or there is always the same fault. -/
def Wraps (around : Datum → Except Fault Datum) : Prop :=
  (∃ cause, ∀ inner, around inner = .error cause) ∨
    ∃ wrap : Datum → Datum, ∀ inner, around inner = .ok (wrap inner)

theorem Wraps.given {α : Type} {outcome : Except Fault α} {around : α → Datum → Except Fault Datum}
    (wraps : ∀ value, Wraps (around value)) : Wraps fun inner => outcome >>= (around · inner) := by
  cases outcome with
  | error cause => exact .inl ⟨cause, fun _ => rfl⟩
  | ok value => exact wraps value

theorem Wraps.bind {first second : Datum → Except Fault Datum} (inside : Wraps first)
    (outside : Wraps second) : Wraps fun inner => first inner >>= second := by
  rcases inside with ⟨cause, failed⟩ | ⟨wrap, came⟩
  · refine .inl ⟨cause, fun inner => ?_⟩
    change first inner >>= second = _
    rw [failed]
    rfl
  · have again (inner : Datum) : first inner >>= second = second (wrap inner) := by
      rw [came]
      rfl
    simp only [again]
    rcases outside with ⟨cause, failed⟩ | ⟨wrapAgain, cameAgain⟩
    · exact .inl ⟨cause, fun inner => failed _⟩
    · exact .inr ⟨fun inner => wrapAgain (wrap inner), fun inner => cameAgain _⟩

theorem wraps_withRedirs (redirects : Record) : Wraps fun inner => withRedirs inner redirects := by
  unfold withRedirs
  refine .given fun count => ?_
  by_cases some : count > 0
  · simp only [some, if_true]
    exact .given fun redirs => .inr ⟨_, fun _ => rfl⟩
  · simp only [some, if_false]
    exact .inr ⟨_, fun _ => rfl⟩

theorem wraps_withFlags (flags : Record) : Wraps fun inner => withFlags inner flags := by
  unfold withFlags
  refine .given fun inverted => .given fun timed => ?_
  cases timed with
  | true => exact .given fun posix => .inr ⟨_, fun _ => rfl⟩
  | false => exact .inr ⟨_, fun _ => rfl⟩

theorem wraps_finish (node : Record) : Wraps (finish node) :=
  .given fun redirects => .bind (wraps_withRedirs redirects.1) <|
    .given fun flags => wraps_withFlags flags.1

theorem liftM_bind {α β : Type} (outcome : Except Fault α) (next : α → Except Fault β) :
    (liftM (outcome >>= next) : Reading β) = liftM outcome >>= fun value => liftM (next value) := by
  cases outcome <;> rfl

/-- What is read last are the redirections and the flags of the command itself. -/
theorem Takes.finish {reading : Reading Datum} {steps : List Step} (node : Record)
    {part : List Datum → Session → Datum → Prop} (takes : Takes reading steps part) :
    Takes (do
        let inner ← reading
        let redirects ← liftM (node.field "redirects")
        let redirected ← liftM (withRedirs inner redirects.1)
        let flags ← liftM (node.field "flags")
        liftM (withFlags redirected flags.1))
      (steps ++ Bash.given (finish node .null) fun _ => []) fun trees session tree =>
        ∃ inner, part trees session inner ∧ Bash.finish node inner = .ok tree := by
  have last (inner : Datum) : (do
      let redirects ← liftM (node.field "redirects")
      let redirected ← liftM (withRedirs inner redirects.1)
      let flags ← liftM (node.field "flags")
      liftM (withFlags redirected flags.1) : Reading Datum) = liftM (Bash.finish node inner) := by
    simp only [Bash.finish, liftM_bind]
  simp only [last]
  rcases wraps_finish node with ⟨cause, failed⟩ | ⟨wrap, came⟩
  · simp only [failed]
    exact takes.append (fun _ => .fail) fun _ => False.elim
  · simp only [came]
    rw [Bash.given, List.append_nil]
    exact takes.map fun made => ⟨_, made, rfl⟩

/-- A command with its redirections and flags, put together from the commands inside. -/
inductive Completed (node : Record) (trees : List Datum) (session : Session) (tree : Datum) :
    Prop where
  | intro {kind : CommandType} {com : Record} {inner : Datum}
      (isKind : node.kind? = some kind) (about : node.about? kind = some com)
      (assembled : Assembled node com kind trees session inner)
      (finished : finish node inner = .ok tree)

/-- Most commands are read from the field of their type, and then finished. -/
theorem Takes.of_kind {node : Record} {kind : CommandType} (isKind : node.kind? = some kind)
    {read : Record → Reading Datum}
    (takes : ∀ {com}, Takes (read com) (kind.steps node com) (Assembled node com kind)) :
    Takes (do
        let value ← liftM (node.field "value")
        let com ← liftM (value.1.field kind.key)
        let inner ← read com.1
        let redirects ← liftM (node.field "redirects")
        let redirected ← liftM (withRedirs inner redirects.1)
        let flags ← liftM (node.field "flags")
        liftM (withFlags redirected flags.1))
      (Bash.given (node.field "value") fun value =>
        Bash.given (value.1.field kind.key) fun com =>
        kind.steps node com.1 ++ Bash.given (Bash.finish node .null) fun _ => [])
      (Completed node) := by
  refine .given fun value inValue => .given fun com inCom => (takes.finish node).mono ?_
  rintro trees session tree ⟨inner, assembled, finished⟩
  exact .intro isKind (Record.about?_of_field inValue inCom) assembled finished

/-- The reader takes the steps of a command. -/
theorem takes_readCommand (node : Record) :
    Takes (readCommand node) node.steps (Completed node) := by
  rw [readCommand]
  refine .given fun number holds => ?_
  have isKind : node.kind? = number.1.type? := by
    rw [Record.kind?, Record.get?_of_field holds, Option.bind_some]
  unfold Record.type? at isKind ⊢
  cases found : number.1.integer?.bind CommandType.ofNumber? with
  | none => exact .fail_bind
  | some kind =>
      rw [found] at isKind
      cases kind with
      | forLoop => exact .of_kind isKind takes_readFor
      | case => exact .of_kind isKind takes_readCase
      | whileLoop => exact .of_kind isKind takes_readWhile
      | ifElse => exact .of_kind isKind takes_readIf
      | simple => exact .of_kind isKind takes_readSimple
      | select => exact .of_kind isKind takes_readSelect
      | connection =>
          refine .given fun value inValue => .given fun com inCom => ?_
          have takes : Takes (liftM (node.field "redirects") >>= fun redirects =>
              readConnection com.1 redirects.1)
              (given (node.field "redirects") fun redirects => connectionSteps com.1 redirects.1)
              (Assembled node com.1 .connection) := by
            refine .given fun redirects holds => ?_
            rw [← Record.redirects_of_field holds]
            exact takes_readConnection
          have finished := takes.finish node
          rw [bind_assoc] at finished
          refine finished.mono ?_
          rintro trees session tree ⟨inner, assembled, finished⟩
          exact .intro isKind (Record.about?_of_field inValue inCom) assembled finished
      | functionDef => exact .of_kind isKind takes_readFunction
      | untilLoop => exact .of_kind isKind takes_readUntil
      | group => exact .of_kind isKind takes_readGroup
      | arith => exact .of_kind isKind takes_readArith
      | cond => exact .of_kind isKind takes_readCond
      | arithFor => exact .of_kind isKind takes_readArithFor
      | subshell => exact .of_kind isKind takes_readSubshell
      | coproc => exact .of_kind isKind takes_readCoproc

/-! ## What is put around a command -/

theorem finish_cases {node : Record} {inner tree : Datum}
    (finished : finish node inner = .ok tree) :
    ∃ redirected flags, withRedirs inner node.redirects = .ok redirected ∧
      withFlags redirected flags = .ok tree := by
  obtain ⟨redirects, holds, finished⟩ := bind_eq_ok_iff.mp finished
  obtain ⟨redirected, came, finished⟩ := bind_eq_ok_iff.mp finished
  obtain ⟨flags, _, finished⟩ := bind_eq_ok_iff.mp finished
  exact ⟨redirected, flags.1, Record.redirects_of_field holds ▸ came, finished⟩

theorem withRedirs_cases {redirects : Record} {inner tree : Datum}
    (came : withRedirs inner redirects = .ok tree) :
    (redirects.length = .ok 0 ∧ tree = inner) ∨
      ∃ redirs, readRedirs redirects = .ok redirs ∧
        tree = .command (.redirected .null inner redirs) := by
  obtain ⟨count, counted, came⟩ := bind_eq_ok_iff.mp came
  by_cases some : count > 0
  · rw [if_pos some] at came
    obtain ⟨redirs, read, came⟩ := bind_eq_ok_iff.mp came
    cases came
    exact .inr ⟨redirs, read, rfl⟩
  · rw [if_neg some] at came
    cases came
    exact .inl ⟨Nat.eq_zero_of_not_pos some ▸ counted, rfl⟩

/-- What inversions and timings keep, the flags of a command keep. -/
theorem kept_by_withFlags (good : Datum → Prop) {flags : Record} {inner tree : Datum}
    (came : withFlags inner flags = .ok tree) (held : good inner)
    (inverted : ∀ {inner}, good inner → good (.command (.not inner (.bool true))))
    (timed : ∀ {inner} {posix : Bool}, good inner →
      good (.command (.time (.bool posix) inner))) : good tree := by
  obtain ⟨invert, _, came⟩ := bind_eq_ok_iff.mp came
  obtain ⟨time, _, came⟩ := bind_eq_ok_iff.mp came
  have kept : good (if invert then .command (.not inner (.bool true)) else inner) := by
    cases invert with
    | true => exact inverted held
    | false => exact held
  cases time with
  | true =>
      obtain ⟨posix, _, came⟩ := bind_eq_ok_iff.mp came
      cases came
      exact timed kept
  | false =>
      cases came
      exact kept

/-- What is kept by all that can be put around a command, holds of the whole. -/
theorem kept_by_finish (good : Datum → Prop) {node : Record} {inner tree : Datum}
    (finished : finish node inner = .ok tree) (held : good inner)
    (redirected : ∀ {redirs}, readRedirs node.redirects = .ok redirs →
      good (.command (.redirected .null inner redirs)))
    (inverted : ∀ {inner}, good inner → good (.command (.not inner (.bool true))))
    (timed : ∀ {inner} {posix : Bool}, good inner →
      good (.command (.time (.bool posix) inner))) : good tree := by
  obtain ⟨between, flags, came, finished⟩ := finish_cases finished
  refine kept_by_withFlags good finished ?_ inverted timed
  rcases withRedirs_cases came with ⟨_, rfl⟩ | ⟨redirs, read, rfl⟩
  · exact held
  · exact redirected read

end Bash

/-! ## The commands inside a tree -/

/-- A command without the redirections, inversions and timings around it. -/
def Datum.core : Datum → Datum
  | .command (.not body _) => body.core
  | .command (.redirected _ node _) => node.core
  | .command (.time _ node) => node.core
  | datum => datum

/-- A command that may be left out. -/
def Datum.present : Datum → List Datum
  | .null => []
  | datum => [datum]

theorem Datum.present_of_ne {datum : Datum} (different : datum ≠ .null) :
    datum.present = [datum] := by
  cases datum with
  | null => exact absurd rfl different
  | _ => rfl

/-- The command of a clause, if it has one. -/
def Datum.clauseCommands : Datum → List Datum
  | .dict fields => (fields.lookup "cbody").elim [] Datum.present
  | _ => []

/-- The commands directly inside a command, in the order in which they are written. -/
def Datum.commands : Datum → List Datum
  | .command (.pipe _ (.seq _ items)) => items
  | .command (.subshell _ body _) => [body]
  | .command (.and left right _) => [left, right]
  | .command (.or left right _) => [left, right]
  | .command (.semi left right _) => [left, right]
  | .command (.background _ node _ after _) => node :: after.present
  | .command (.defun _ _ body _) => [body]
  | .command (.forLoop _ _ body _) => [body]
  | .command (.whileLoop test body) => [test, body]
  | .command (.ifElse test thenBranch elseBranch) => test :: thenBranch :: elseBranch.present
  | .command (.case _ _ (.seq _ clauses)) => clauses.flatMap Datum.clauseCommands
  | .command (.select _ _ body _) => [body]
  | .command (.arithFor _ _ _ _ action) => [action]
  | .command (.coproc _ body) => [body]
  | .command (.group body) => [body]
  | _ => []

namespace Bash

/-- A command is made of what the commands inside have become. -/
structure Made (joined : Prop) (trees : List Datum) (session : Session) (tree : Datum) : Prop where
  isCommand : ∃ value, tree = .command value
  inside (present : ∀ inner ∈ trees, inner ≠ .null) :
    tree.core.commands.map Datum.core = trees.map Datum.core
  /-- The mark of a list says whether the session was in a function when the list was read. -/
  marked (joined : joined) : ∃ left right,
    tree.core = .command (.semi left right (.bool (!session.inFunction)))

theorem Clauses.commands_eq {trees clauses : List Datum} (inside : Clauses trees clauses)
    (present : ∀ inner ∈ trees, inner ≠ .null) :
    clauses.flatMap Datum.clauseCommands = trees := by
  induction inside with
  | nil => rfl
  | absent _ _ ih => exact ih present
  | @present _ body _ _ _ _ _ ih =>
      obtain ⟨isThere, present⟩ := List.forall_mem_cons.mp present
      rw [List.flatMap_cons, ih present]
      exact congrArg (· ++ _) (Datum.present_of_ne isThere)

theorem Made.of_commands {joined : Prop} {trees : List Datum} {session : Session}
    {value : Command} (bare : (Datum.command value).core = .command value)
    (inside : (∀ inner ∈ trees, inner ≠ .null) → (Datum.command value).commands = trees)
    (otherwise : ¬ joined) : Made joined trees session (.command value) where
  isCommand := ⟨value, rfl⟩
  inside present := by rw [bare, inside present]
  marked joined := absurd joined otherwise

theorem Assembled.made {node com : Record} {kind : CommandType} {trees : List Datum}
    {session : Session} {tree : Datum} (assembled : Assembled node com kind trees session tree) :
    Made (kind = .connection ∧ com.joint? = some .semicolon) trees session tree := by
  have otherwise {connector : Connector} (joint : com.joint? = some connector)
      (different : connector ≠ .semicolon) :
      ¬ (CommandType.connection = .connection ∧ com.joint? = some .semicolon) :=
    fun joined => different (Option.some.inj (joint.symm.trans joined.2))
  cases assembled with
  | case _ inside => exact .of_commands rfl inside.commands_eq (by simp)
  | untilLoop => exact ⟨⟨_, rfl⟩, fun _ => rfl, by simp⟩
  | @ifElse _ _ second =>
      refine .of_commands rfl (fun present => ?_) (by simp)
      rw [Datum.commands, Datum.present_of_ne (present second (by simp))]
  | lastJob joint => exact .of_commands rfl (fun _ => rfl) (otherwise joint (by decide))
  | @job _ second _ _ joint =>
      refine .of_commands rfl (fun present => ?_) (otherwise joint (by decide))
      rw [Datum.commands, Datum.present_of_ne (present second (by simp))]
  | semi => exact ⟨⟨_, rfl⟩, fun _ => rfl, fun _ => ⟨_, _, rfl⟩⟩
  | pipe joint => exact .of_commands rfl (fun _ => rfl) (otherwise joint (by decide))
  | and joint => exact .of_commands rfl (fun _ => rfl) (otherwise joint (by decide))
  | or joint => exact .of_commands rfl (fun _ => rfl) (otherwise joint (by decide))
  | cond isTest =>
      cases isTest
      exact .of_commands rfl (fun _ => rfl) (by simp)
  | _ => exact .of_commands rfl (fun _ => rfl) (by simp)

theorem Completed.made {node : Record} {trees : List Datum} {session : Session} {tree : Datum}
    (completed : Completed node trees session tree) : Made node.IsList trees session tree := by
  obtain @⟨kind, com, inner, isKind, about, assembled, finished⟩ := completed
  have joined : node.IsList → kind = .connection ∧ com.joint? = some .semicolon := by
    rintro ⟨isConnection, value, other, inValue, inOther, separates⟩
    cases isKind.symm.trans isConnection
    have same : node.about? .connection = some other := by
      rw [Record.about?, inValue]
      exact inOther
    cases about.symm.trans same
    exact ⟨rfl, separates⟩
  have made := assembled.made
  exact kept_by_finish _ finished ⟨made.isCommand, made.inside, made.marked ∘ joined⟩
    (fun _ => ⟨⟨_, rfl⟩, made.inside, made.marked ∘ joined⟩)
    (fun made => ⟨⟨_, rfl⟩, made.inside, made.marked⟩)
    (fun made => ⟨⟨_, rfl⟩, made.inside, made.marked⟩)

end Bash

end ShellTree
