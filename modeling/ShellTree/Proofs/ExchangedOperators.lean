import ShellTree.Proofs.JoinedStatements
import ShellTree.Proofs.Pipelines

/-!
# Exchanged operators

A file is read and printed, and then once more after one operator in it has been
exchanged for another: an operator between two statements, or the one behind a
clause of a case.  Both scripts are the same but for one place, where the mark
of the one operator stands for the mark of the other.

Not every operator has a mark of its own.  A pipe that takes the errors along is
printed as a plain pipe, and all that goes on after a clause is printed alike.
-/

namespace ShellTree

namespace Shfmt

/-! ## Operators and their marks -/

/-- The number of an operator between two statements. -/
def BinaryOp.number : BinaryOp → Int
  | .and => 10
  | .or => 11
  | .pipe => 12
  | .pipeAll => 13

/-- The number of an operator behind a clause. -/
def CaseOp.number : CaseOp → Int
  | .stop => 33
  | .fallThrough => 34
  | .resume => 35
  | .resumeKorn => 36

/-- Does what follows a clause go on after it? -/
def CaseOp.falls : CaseOp → Bool
  | .stop => false
  | _ => true

/-- An operator between two statements, or behind a clause of a case. -/
inductive Separator where
  | between (op : BinaryOp)
  | behind (op : CaseOp)

/-- What is printed for an operator. -/
def Separator.mark : Separator → String
  | .between op => op.mark
  | .behind op => if op.falls then ";&" else ";;"

/-- Two operators are printed alike: they are the same, both pipes, or both go on. -/
def Separator.Merges : Separator → Separator → Prop
  | .between op, .between other => op = other ∨
      (op = .pipe ∨ op = .pipeAll) ∧ (other = .pipe ∨ other = .pipeAll)
  | .behind op, .behind other => op = other ∨ op ≠ .stop ∧ other ≠ .stop
  | _, _ => False

instance (old new : Separator) : Decidable (old.Merges new) :=
  match old, new with
  | .between _, .between _ => inferInstanceAs (Decidable (_ ∨ _))
  | .behind _, .behind _ => inferInstanceAs (Decidable (_ ∨ _))
  | .between _, .behind _ => inferInstanceAs (Decidable False)
  | .behind _, .between _ => inferInstanceAs (Decidable False)

theorem Separator.mark_eq_iff (old new : Separator) : new.mark = old.mark ↔ old.Merges new := by
  cases old with
  | between op =>
      cases new with
      | between other => cases op <;> cases other <;> decide
      | behind other => cases op <;> cases other <;> decide
  | behind op =>
      cases new with
      | between other => cases op <;> cases other <;> decide
      | behind other => cases op <;> cases other <;> decide

theorem operator_number (op : BinaryOp) : operator binaryOps (.int op.number) = .ok (some op) := by
  cases op <;> rfl

theorem operator_number_behind (op : CaseOp) :
    operator caseOps (.int op.number) = .ok (some op) := by
  cases op <;> rfl

/-! ## Where operators stand -/

/-- What a node is to the node around it. -/
inductive Standing where
  | statement
  | command
  | otherwise
  | clause

/-- The fields of a command that hold one statement each. -/
def Kind.statements : Kind → List String
  | .binary => ["X", "Y"]
  | .function => ["Body"]
  | .time => ["Stmt"]
  | .coproc => ["Stmt"]
  | .testDecl => ["Body"]
  | _ => []

/-- The fields of a command that hold a list of statements each. -/
def Kind.lists : Kind → List String
  | .ifElse => ["Cond", "Then"]
  | .whileLoop => ["Cond", "Do"]
  | .forLoop => ["Do"]
  | .subshell => ["Stmts"]
  | .block => ["Stmts"]
  | _ => []

/--
Two nodes are the same but for one operator, which is found by going from
statements to their commands and from commands to the statements inside, and
never into a word.
-/
inductive Exchanged (old new : Separator) : Standing → Json → Json → Prop where
  | between {cmd : Json} {op other : BinaryOp} (isOld : old = .between op)
      (isNew : new = .between other) (kind : cmd.get? "Type" = some (.str Kind.binary.label))
      (found : cmd.get? "Op" = some (.int op.number)) :
      Exchanged old new .command cmd (cmd.withField "Op" (.int other.number))
  | behind {item : Json} {op other : CaseOp} (isOld : old = .behind op)
      (isNew : new = .behind other) (found : item.get? "Op" = some (.int op.number)) :
      Exchanged old new .clause item (item.withField "Op" (.int other.number))
  | command {stmt cmd other : Json} (found : stmt.get? "Cmd" = some cmd)
      (inside : Exchanged old new .command cmd other) :
      Exchanged old new .statement stmt (stmt.withField "Cmd" other)
  | statement {cmd stmt other : Json} {kind : Kind} {key : String}
      (known : cmd.get? "Type" = some (.str kind.label)) (holds : key ∈ kind.statements)
      (found : cmd.get? key = some stmt) (inside : Exchanged old new .statement stmt other) :
      Exchanged old new .command cmd (cmd.withField key other)
  | listed {cmd stmt other : Json} {kind : Kind} {key : String} {before after : List Json}
      (known : cmd.get? "Type" = some (.str kind.label)) (holds : key ∈ kind.lists)
      (found : cmd.get? key = some (.arr (before ++ stmt :: after)))
      (inside : Exchanged old new .statement stmt other) :
      Exchanged old new .command cmd (cmd.withField key (.arr (before ++ other :: after)))
  | clause {cmd item other : Json} {before after : List Json}
      (known : cmd.get? "Type" = some (.str Kind.case.label))
      (found : cmd.get? "Items" = some (.arr (before ++ item :: after)))
      (inside : Exchanged old new .clause item other) :
      Exchanged old new .command cmd (cmd.withField "Items" (.arr (before ++ other :: after)))
  | inClause {item stmt other : Json} {before after : List Json}
      (found : item.get? "Stmts" = some (.arr (before ++ stmt :: after)))
      (inside : Exchanged old new .statement stmt other) :
      Exchanged old new .clause item (item.withField "Stmts" (.arr (before ++ other :: after)))
  | otherwise {cmd branch other : Json}
      (known : cmd.get? "Type" = some (.str Kind.ifElse.label))
      (found : cmd.get? "Else" = some branch) (inside : Exchanged old new .otherwise branch other) :
      Exchanged old new .command cmd (cmd.withField "Else" other)
  | further {node branch other : Json} (tests : ((node.get? "Cond").getD .null).truthy = true)
      (found : node.get? "Else" = some branch)
      (inside : Exchanged old new .otherwise branch other) :
      Exchanged old new .otherwise node (node.withField "Else" other)
  | inBranch {node stmt other : Json} {key : String} {before after : List Json}
      (holds : key = "Cond" ∨ key = "Then")
      (found : node.get? key = some (.arr (before ++ stmt :: after)))
      (inside : Exchanged old new .statement stmt other) :
      Exchanged old new .otherwise node (node.withField key (.arr (before ++ other :: after)))

variable {source : Source} {old new : String} {node cmd stmt : Json} {key changed : String}

/-- Where nothing is read, nothing has to follow. -/
theorem parallel_refuse {α β : Type} {related : α → β → Prop} {other : Except Fault β}
    (construct : Construct) (value : Json) : Parallel related (refuse construct value) other := by
  have never : Always (refuse construct value) fun _ : α => False := always_refuse _ _
  exact fun found refused => (never found refused).elim

/-! ## Lists of statements -/

theorem readStatements_eq (source : Source) (node : Json) (key : String) :
    readStatements source node key = (do
      let items ← node.children key
      let nodes ← items.mapM fun stmt => readStatement source stmt.1
      return inSequence nodes) := by
  rw [readStatements]
  cases node.children key with
  | error => rfl
  | ok items =>
      simp only [ok_bind]
      cases (items.mapM fun stmt => readStatement source stmt.1) with
      | error => rfl
      | ok nodes => cases nodes <;> rfl

/-- The statements of another field are read as before. -/
theorem readStatements_withField (apart : key ≠ changed) (node value : Json) :
    readStatements source (node.withField changed value) key = readStatements source node key := by
  rw [readStatements_eq, readStatements_eq, ← bind_assoc, ← bind_assoc,
    Json.children_withField apart]

theorem parallel_readStatements {other : Json} {before after : List Json}
    (found : node.get? key = some (.arr (before ++ stmt :: after)))
    (inside : Parallel (Datum.Varies old new) (readStatement source stmt)
      (readStatement source other)) :
    Parallel (Datum.Varies old new) (readStatements source node key)
      (readStatements source (node.withField key (.arr (before ++ other :: after))) key) := by
  rw [readStatements_eq, readStatements_eq]
  exact Json.parallel_each_changed found inside fun before behind _ _ varies =>
    .pure (varies.inSequence before behind)

/-! ## Two statements with an operator between them -/

/-- Join two statements, if the operator between them is known. -/
def joinBy (op : Option BinaryOp) (number : Json) (left right : Datum) : Except Fault Datum :=
  match op with
  | some op => op.join left right
  | none => refuse .binaryOperator number

theorem readBinary_eq (source : Source) (node : Json) :
    readBinary source node = (do
      let number ← node.fetch "Op"
      let op ← operator binaryOps number.1
      let x ← node.require "X"
      let left ← readStatement source x.1
      let y ← node.require "Y"
      let right ← readStatement source y.1
      joinBy op number.1 left right) := by
  rw [readBinary]
  refine bind_congr fun number => bind_congr fun op => bind_congr fun x => bind_congr fun left =>
    bind_congr fun y => bind_congr fun right => ?_
  cases op with
  | none => rfl
  | some op => cases op <;> rfl

section

variable {other : Json} {left right first second : Datum}

/-- Two statements are joined, and two others, by the same operator. -/
theorem parallel_joinBy {source' : Source} {x y x' y' number : Json} (op : Option BinaryOp)
    (readLeft : readStatement source x = .ok left) (readRight : readStatement source y = .ok right)
    (readFirst : readStatement source' x' = .ok first)
    (readSecond : readStatement source' y' = .ok second)
    (varies : ∀ mark value changed, Joins mark left right value → Joins mark first second changed →
      (Datum.command value).Varies old new (.command changed)) :
    Parallel (Datum.Varies old new) (joinBy op number left right)
      (joinBy op number first second) := by
  cases op with
  | none => exact parallel_refuse _ _
  | some op =>
      obtain ⟨value, joined, joins⟩ := exists_joins op (arrangedCommand_of_readStatement readLeft)
        (arrangedCommand_of_readStatement readRight)
      obtain ⟨changed, joinedToo, others⟩ := exists_joins op
        (arrangedCommand_of_readStatement readFirst) (arrangedCommand_of_readStatement readSecond)
      rw [joinBy, joinBy, joined, joinedToo]
      exact .pure (varies op.mark value changed joins others)

theorem parallel_left (found : node.get? "X" = some stmt)
    (inside : Parallel (Datum.Varies old new) (readStatement source stmt)
      (readStatement source other)) :
    Parallel (Datum.Varies old new) (readBinary source node)
      (readBinary source (node.withField "X" other)) := by
  rw [readBinary_eq, readBinary_eq]
  refine Json.parallel_fetch (by decide) fun number _ _ => .step fun op _ => ?_
  refine Json.parallel_require_changed found fun _ _ => inside.known.bind ?_
  rintro left first ⟨readLeft, readFirst, varies⟩
  refine Json.parallel_require (by decide) fun y _ _ => .step fun right readRight => ?_
  exact parallel_joinBy op readLeft readRight readFirst readRight
    fun _ _ _ joins others => joins.varies_left others varies

theorem parallel_right (found : node.get? "Y" = some stmt)
    (inside : Parallel (Datum.Varies old new) (readStatement source stmt)
      (readStatement source other)) :
    Parallel (Datum.Varies old new) (readBinary source node)
      (readBinary source (node.withField "Y" other)) := by
  rw [readBinary_eq, readBinary_eq]
  refine Json.parallel_fetch (by decide) fun number _ _ => .step fun op _ => ?_
  refine Json.parallel_require (by decide) fun x _ _ => .step fun left readLeft => ?_
  refine Json.parallel_require_changed found fun _ _ => inside.known.bind ?_
  rintro right second ⟨readRight, readSecond, varies⟩
  exact parallel_joinBy op readLeft readRight readLeft readSecond
    fun _ _ _ joins others => joins.varies_right others varies

/-- Another operator joins the same statements. -/
theorem parallel_operator {op goal : BinaryOp} (found : node.get? "Op" = some (.int op.number)) :
    Parallel (Datum.Varies op.mark goal.mark) (readBinary source node)
      (readBinary source (node.withField "Op" (.int goal.number))) := by
  rw [readBinary_eq, readBinary_eq]
  refine Json.parallel_fetch_changed found fun _ _ => ?_
  simp only [operator_number, ok_bind]
  refine Json.parallel_require (by decide) fun x _ _ => .step fun left readLeft => ?_
  refine Json.parallel_require (by decide) fun y _ _ => .step fun right readRight => ?_
  have first := arrangedCommand_of_readStatement readLeft
  have second := arrangedCommand_of_readStatement readRight
  obtain ⟨value, joined, joins⟩ := exists_joins op first second
  obtain ⟨changed, joinedToo, others⟩ := exists_joins goal first second
  rw [joinBy, joinBy, joined, joinedToo]
  exact .pure (joins.varies_mark others)

end

/-! ## Commands with statements inside -/

section

variable {other : Json} {before after : List Json}
  (inside : Parallel (Datum.Varies old new) (readStatement source stmt)
    (readStatement source other))

include inside

theorem parallel_function (found : node.get? "Body" = some stmt) :
    Parallel (Datum.Varies old new) (readFunction source node)
      (readFunction source (node.withField "Body" other)) := by
  rw [readFunction, readFunction]
  refine Json.parallel_fetch (by decide) fun pos _ _ => .step fun line _ => ?_
  refine Json.parallel_fetch (by decide) fun literal _ _ => .step fun name _ => ?_
  refine Json.parallel_require_changed found fun _ _ => inside.bind fun _ _ varies => ?_
  refine Json.parallel_fetch (by decide) fun reserved _ _ => .pure ?_
  exact (Around.defun _ _ _ varies).varies

theorem parallel_time (found : node.get? "Stmt" = some stmt) (present : stmt.isNull = false)
    (stillPresent : other.isNull = false) :
    Parallel (Datum.Varies old new) (readTime source node)
      (readTime source (node.withField "Stmt" other)) := by
  rw [readTime, readTime]
  refine Json.parallel_fetch_changed found fun _ _ => ?_
  dsimp only
  rw [present, stillPresent]
  refine inside.bind fun _ _ varies => Json.parallel_fetch (by decide) fun posix _ _ => .pure ?_
  exact (Around.time _ varies).varies

theorem parallel_coproc (found : node.get? "Stmt" = some stmt) :
    Parallel (Datum.Varies old new) (readCoproc source node)
      (readCoproc source (node.withField "Stmt" other)) := by
  rw [readCoproc, readCoproc]
  have rest (name : List Datum) : Parallel (Datum.Varies old new)
      (node.fetch "Stmt" >>= fun stmt => readStatement source stmt.1 >>= fun body =>
        return .command (.coproc (.list name) body))
      ((node.withField "Stmt" other).fetch "Stmt" >>= fun stmt =>
        readStatement source stmt.1 >>= fun body => return .command (.coproc (.list name) body)) :=
    Json.parallel_fetch_changed found fun _ _ => inside.bind fun _ _ varies =>
      .pure (Around.coproc _ varies).varies
  refine Json.parallel_fetch (by decide) fun word _ _ => .ite (fun _ => ?_) fun _ => rest []
  exact .step fun name _ => rest name

theorem parallel_testDecl (found : node.get? "Body" = some stmt) :
    Parallel (Datum.Varies old new) (readTestDecl source node)
      (readTestDecl source (node.withField "Body" other)) := by
  rw [readTestDecl, readTestDecl]
  refine Json.parallel_fetch (by decide) fun word _ _ => .step fun parts _ => ?_
  refine .step fun description _ => Json.parallel_fetch_changed found fun _ _ => ?_
  refine inside.bind fun body changed varies => ?_
  have braced := varies.isTag .group (by decide)
  refine Parallel.shown (varies.prints .plain) fun text following swapped => ?_
  refine .bind (Parallel.pure swapped) fun inner others swapped => ?_
  refine Json.parallel_fetch (by decide) fun pos _ _ => .step fun line _ => .pure ?_
  refine varies_wordsCommand (.prepend ?_ _) _
  rw [braced]
  split
  · exact swapped
  · exact (swapped.prepend _).append _

theorem parallel_while_test (found : node.get? "Cond" = some (.arr (before ++ stmt :: after))) :
    Parallel (Datum.Varies old new) (readWhile source node)
      (readWhile source (node.withField "Cond" (.arr (before ++ other :: after)))) := by
  rw [readWhile, readWhile, readStatements_withField (show "Do" ≠ "Cond" by decide)]
  refine (parallel_readStatements found inside).bind fun test changed varies => ?_
  refine .step fun body _ => Json.parallel_fetch (by decide) fun inverted _ _ => .pure ?_
  refine (Around.loopTest _ ?_).varies
  dsimp only
  split
  · exact (Around.negation varies).varies
  · exact varies

theorem parallel_while_body (found : node.get? "Do" = some (.arr (before ++ stmt :: after))) :
    Parallel (Datum.Varies old new) (readWhile source node)
      (readWhile source (node.withField "Do" (.arr (before ++ other :: after)))) := by
  rw [readWhile, readWhile, readStatements_withField (show "Cond" ≠ "Do" by decide)]
  refine .step fun test _ => (parallel_readStatements found inside).bind fun body _ varies => ?_
  refine Json.parallel_fetch (by decide) fun inverted _ _ => .pure ?_
  exact (Around.loopBody _ varies).varies

theorem parallel_subshell (found : node.get? "Stmts" = some (.arr (before ++ stmt :: after))) :
    Parallel (Datum.Varies old new) (readSubshell source node)
      (readSubshell source (node.withField "Stmts" (.arr (before ++ other :: after)))) := by
  rw [readSubshell, readSubshell]
  refine Json.parallel_fetch (by decide) fun pos _ _ => .step fun line _ => ?_
  exact (parallel_readStatements found inside).bind fun _ _ varies =>
    .pure (Around.subshell _ _ varies).varies

theorem parallel_block (found : node.get? "Stmts" = some (.arr (before ++ stmt :: after))) :
    Parallel (Datum.Varies old new) (readBlock source node)
      (readBlock source (node.withField "Stmts" (.arr (before ++ other :: after)))) := by
  rw [readBlock, readBlock]
  exact (parallel_readStatements found inside).bind fun _ _ varies =>
    .pure (Around.group varies).varies

theorem parallel_for (found : node.get? "Do" = some (.arr (before ++ stmt :: after))) :
    Parallel (Datum.Varies old new) (readFor source node)
      (readFor source (node.withField "Do" (.arr (before ++ other :: after)))) := by
  rw [readFor, readFor]
  refine Json.parallel_fetch (by decide) fun loop _ _ => ?_
  refine (parallel_readStatements found inside).bind fun _ _ varies => ?_
  refine Json.parallel_fetch (by decide) fun pos _ _ => .step fun line _ => .step fun kind _ => ?_
  dsimp only
  split
  · refine .step fun name _ => .step fun called _ => .step fun items _ => .step fun words _ => ?_
    refine Json.parallel_fetch (by decide) fun select _ _ => .ite (fun _ => ?_) fun _ => ?_
    · exact .pure (Around.select _ _ _ varies).varies
    · exact .pure (Around.forLoop _ _ _ varies).varies
  · refine .step fun init _ => .step fun first _ => .step fun cond _ => .step fun second _ => ?_
    exact .step fun post _ => .step fun third _ => .pure (Around.arithFor _ _ _ _ varies).varies
  · exact parallel_refuse _ _

end

/-! ## Choices by a condition -/

/-- Read what stands in the other branch: a further choice, or statements. -/
def readOtherwise (source : Source) (node : Json) : Except Fault Datum := do
  let further ← node.fetch "Cond"
  if further.1.truthy then readIf source node else readStatements source node "Then"

/-- Read the other branch of a choice, if there is one. -/
def readElse (source : Source) (branch : Json) : Except Fault Datum :=
  if branch.truthy then readOtherwise source branch else return .null

theorem readIf_eq (source : Source) (node : Json) :
    readIf source node = (do
      let test ← readStatements source node "Cond"
      let thenBranch ← readStatements source node "Then"
      let otherwise ← node.fetch "Else"
      let elseBranch ← readElse source otherwise.1
      return .command (.ifElse test thenBranch elseBranch)) := by
  rw [readIf]
  refine bind_congr fun test => bind_congr fun thenBranch => bind_congr ?_
  rintro ⟨otherwise, _⟩
  simp only [readElse, readOtherwise]
  split
  · rw [bind_assoc]
    refine bind_congr fun further => ?_
    split <;> rfl
  · rfl

section

variable {other : Json} {before after : List Json}

theorem parallel_if_test (found : node.get? "Cond" = some (.arr (before ++ stmt :: after)))
    (inside : Parallel (Datum.Varies old new) (readStatement source stmt)
      (readStatement source other)) :
    Parallel (Datum.Varies old new) (readIf source node)
      (readIf source (node.withField "Cond" (.arr (before ++ other :: after)))) := by
  rw [readIf_eq, readIf_eq, readStatements_withField (show "Then" ≠ "Cond" by decide)]
  refine (parallel_readStatements found inside).bind fun test _ varies => .step fun branch _ => ?_
  refine Json.parallel_fetch (by decide) fun otherwise _ _ => .step fun last _ => .pure ?_
  exact (Around.condition _ _ varies).varies

theorem parallel_if_then (found : node.get? "Then" = some (.arr (before ++ stmt :: after)))
    (inside : Parallel (Datum.Varies old new) (readStatement source stmt)
      (readStatement source other)) :
    Parallel (Datum.Varies old new) (readIf source node)
      (readIf source (node.withField "Then" (.arr (before ++ other :: after)))) := by
  rw [readIf_eq, readIf_eq, readStatements_withField (show "Cond" ≠ "Then" by decide)]
  refine .step fun test _ => (parallel_readStatements found inside).bind fun branch _ varies => ?_
  refine Json.parallel_fetch (by decide) fun otherwise _ _ => .step fun last _ => .pure ?_
  exact (Around.thenBranch _ _ varies).varies

theorem parallel_if_else {branch : Json} (found : node.get? "Else" = some branch)
    (present : branch.truthy = true) (stillPresent : other.truthy = true)
    (inside : Parallel (Datum.Varies old new) (readOtherwise source branch)
      (readOtherwise source other)) :
    Parallel (Datum.Varies old new) (readIf source node)
      (readIf source (node.withField "Else" other)) := by
  rw [readIf_eq, readIf_eq, readStatements_withField (show "Cond" ≠ "Else" by decide),
    readStatements_withField (show "Then" ≠ "Else" by decide)]
  refine .step fun test _ => .step fun first _ => Json.parallel_fetch_changed found fun _ _ => ?_
  rw [readElse, readElse, if_pos present, if_pos stillPresent]
  exact inside.bind fun last _ varies => .pure (Around.elseBranch _ _ varies).varies

/-- The statements of a branch vary, or of the condition that it is tested by. -/
theorem parallel_branch (holds : key = "Cond" ∨ key = "Then")
    (found : node.get? key = some (.arr (before ++ stmt :: after)))
    (inside : Parallel (Datum.Varies old new) (readStatement source stmt)
      (readStatement source other)) :
    Parallel (Datum.Varies old new) (readOtherwise source node)
      (readOtherwise source (node.withField key (.arr (before ++ other :: after)))) := by
  have some_truthy (item : Json) : (Json.arr (before ++ item :: after)).truthy = true := by
    cases before <;> rfl
  rw [readOtherwise, readOtherwise]
  rcases holds with rfl | rfl
  · refine Json.parallel_fetch_changed found fun _ _ => ?_
    rw [if_pos (some_truthy stmt), if_pos (some_truthy other)]
    exact parallel_if_test found inside
  · refine Json.parallel_fetch (by decide) fun further _ _ => .ite (fun _ => ?_) fun _ => ?_
    · exact parallel_if_then found inside
    · exact parallel_readStatements found inside

/-- A further choice is made only if it has a condition. -/
theorem parallel_further {branch : Json} (tests : ((node.get? "Cond").getD .null).truthy = true)
    (found : node.get? "Else" = some branch)
    (present : branch.truthy = true) (stillPresent : other.truthy = true)
    (inside : Parallel (Datum.Varies old new) (readOtherwise source branch)
      (readOtherwise source other)) :
    Parallel (Datum.Varies old new) (readOtherwise source node)
      (readOtherwise source (node.withField "Else" other)) := by
  have chooses {branch : Json} (object : branch.isObject = true)
      (tests : ((branch.get? "Cond").getD .null).truthy = true) :
      readOtherwise source branch = readIf source branch := by
    obtain ⟨_, fetched⟩ := Json.fetch_eq object "Cond"
    rw [readOtherwise, fetched, ok_bind, if_pos tests]
  have object := Json.isObject_of_get? found
  rw [chooses object tests, chooses (by rw [Json.isObject_withField, object])
    (by rw [Json.get?_withField_of_ne (by decide), tests])]
  exact parallel_if_else found present stillPresent inside

end

/-! ## Clauses -/

theorem readClause_eq (source : Source) (item : Json) :
    readClause source item = (do
      let number ← item.fetch "Op"
      let op ← operator caseOps number.1
      let words ← item.children "Patterns"
      let patterns ← words.mapM fun word => readWord source word.1
      let body ← readStatements source item "Stmts"
      return clauseOf (patterns.map Datum.list) body (op.elim false CaseOp.falls)) := by
  rw [readClause]
  refine bind_congr fun number => bind_congr fun op => bind_congr fun words =>
    bind_congr fun patterns => bind_congr fun body => ?_
  cases op with
  | none => rfl
  | some op => cases op <;> rfl

theorem parallel_mark {item : Json} {op goal : CaseOp}
    (found : item.get? "Op" = some (.int op.number)) :
    Parallel (fun clause changed =>
        Parallel (Swapped (Separator.behind op).mark (Separator.behind goal).mark)
          clause.renderClause changed.renderClause)
      (readClause source item) (readClause source (item.withField "Op" (.int goal.number))) := by
  rw [readClause_eq, readClause_eq]
  refine Json.parallel_fetch_changed found fun _ _ => ?_
  simp only [operator_number_behind, ok_bind]
  refine Json.parallel_each (by decide) fun patterns => ?_
  rw [readStatements_withField (by decide)]
  exact .step fun body _ => .pure (parallel_falls _ _ _ _)

section

variable {other : Json} {before after : List Json}

theorem parallel_clause_body {item : Json}
    (found : item.get? "Stmts" = some (.arr (before ++ stmt :: after)))
    (inside : Parallel (Datum.Varies old new) (readStatement source stmt)
      (readStatement source other)) :
    Parallel (fun clause changed =>
        Parallel (Swapped old new) clause.renderClause changed.renderClause)
      (readClause source item)
      (readClause source (item.withField "Stmts" (.arr (before ++ other :: after)))) := by
  rw [readClause_eq, readClause_eq]
  refine Json.parallel_fetch (by decide) fun number _ _ => .step fun op _ => ?_
  refine Json.parallel_each (by decide) fun patterns => ?_
  exact (parallel_readStatements found inside).bind fun _ _ varies =>
    .pure (varies.renderClause _ _)

theorem parallel_case {item : Json}
    (found : node.get? "Items" = some (.arr (before ++ item :: after)))
    (inside : Parallel (fun clause changed =>
        Parallel (Swapped old new) clause.renderClause changed.renderClause)
      (readClause source item) (readClause source other)) :
    Parallel (Datum.Varies old new) (readCase source node)
      (readCase source (node.withField "Items" (.arr (before ++ other :: after)))) := by
  rw [readCase, readCase]
  refine Json.parallel_fetch (by decide) fun pos _ _ => .step fun line _ => ?_
  refine Json.parallel_require (by decide) fun word _ _ => .step fun argument _ => ?_
  exact Json.parallel_each_changed found inside fun before behind _ _ swapped =>
    .pure (varies_case swapped _ _ before behind)

end

/-! ## Statements and commands -/

theorem parallel_dress {value other : Datum} (varies : value.Varies old new other) (cmd : Json) :
    Parallel (Datum.Varies old new) (dress source stmt value)
      (dress source (stmt.withField "Cmd" cmd) other) := by
  rw [dress, dress]
  refine Json.parallel_each (by decide) fun redirs => ?_
  refine Json.parallel_fetch (by decide) fun negated _ _ => ?_
  have signed : Datum.Varies old new
      (if negated.truthy then .command (.not value (.bool true)) else value)
      (if negated.truthy then .command (.not other (.bool true)) else other) := by
    split
    · exact (Around.negation varies).varies
    · exact varies
  refine Json.parallel_fetch (by decide) fun background _ _ => .ite (fun _ => ?_) fun _ => ?_
  · exact .pure (Around.job _ signed).varies
  · refine .ite (fun _ => .pure signed) fun _ => ?_
    exact .pure (Around.redirected _ signed).varies

theorem parallel_statement {other : Json} (found : stmt.get? "Cmd" = some cmd)
    (present : cmd.truthy = true) (stillPresent : other.truthy = true)
    (inside : Parallel (Datum.Varies old new) (readCommand source cmd)
      (readCommand source other)) :
    Parallel (Datum.Varies old new) (readStatement source stmt)
      (readStatement source (stmt.withField "Cmd" other)) := by
  have object := Json.isObject_of_get? found
  rw [readStatement_eq_dress, readStatement_eq_dress, heldCommand_of_get? found present,
    heldCommand_of_get? (Json.get?_withField object "Cmd" other) stillPresent]
  exact inside.bind fun value changed varies => parallel_dress varies other

/-- Read a command of a known kind. -/
def readKind (source : Source) (node : Json) : Kind → Except Fault Datum
  | .call => readCall source node
  | .binary => readBinary source node
  | .ifElse => readIf source node
  | .whileLoop => readWhile source node
  | .forLoop => readFor source node
  | .case => readCase source node
  | .subshell => readSubshell source node
  | .block => readBlock source node
  | .function => readFunction source node
  | .arithmCommand => readArithmCommand source node
  | .time => readTime source node
  | .coproc => readCoproc source node
  | .decl => readDecl source node
  | .letExprs => readLet source node
  | .test => readTest source node
  | .testDecl => readTestDecl source node
  | kind => refuse .command (.str kind.label)

theorem readCommand_eq_readKind {kind : Kind} (known : cmd.get? "Type" = some (.str kind.label)) :
    readCommand source cmd = readKind source cmd kind := by
  obtain ⟨_, fetched⟩ := Json.fetch_of_get? known
  rw [readCommand]
  simp only [fetched, kindOf?_label, ok_bind]
  cases kind <;> rfl

/-- A command is read by its kind, whichever of its other fields is replaced. -/
theorem parallel_readCommand {kind : Kind} {value : Json}
    (known : cmd.get? "Type" = some (.str kind.label)) (apart : "Type" ≠ key)
    (inside : Parallel (Datum.Varies old new) (readKind source cmd kind)
      (readKind source (cmd.withField key value) kind)) :
    Parallel (Datum.Varies old new) (readCommand source cmd)
      (readCommand source (cmd.withField key value)) := by
  have still : (cmd.withField key value).get? "Type" = some (.str kind.label) := by
    rw [Json.get?_withField_of_ne apart, known]
  rwa [readCommand_eq_readKind known, readCommand_eq_readKind still]

/-- A node with an operator in it is there, before and after. -/
theorem Exchanged.present {old new : Separator} {standing : Standing} {node other : Json}
    (exchanged : Exchanged old new standing node other) :
    node.truthy = true ∧ other.truthy = true := by
  have both {node inner : Json} {key : String} (found : node.get? key = some inner)
      (value : Json) : node.truthy = true ∧ (node.withField key value).truthy = true :=
    ⟨Json.truthy_of_get? found,
      Json.truthy_of_get? (Json.get?_withField (Json.isObject_of_get? found) key value)⟩
  cases exchanged with
  | between _ _ _ found => exact both found _
  | behind _ _ found => exact both found _
  | command found => exact both found _
  | statement _ _ found => exact both found _
  | listed _ _ found => exact both found _
  | clause _ found => exact both found _
  | inClause found => exact both found _
  | otherwise _ found => exact both found _
  | further _ found => exact both found _
  | inBranch _ found => exact both found _

theorem isNull_of_truthy (present : node.truthy = true) : node.isNull = false := by
  cases node with
  | null => cases present
  | _ => rfl

/-- A node is read as what it is to the node around it. -/
def Standing.read (source : Source) : Standing → Json → Except Fault Datum
  | .statement => readStatement source
  | .command => readCommand source
  | .otherwise => readOtherwise source
  | .clause => readClause source

/-- Clauses are printed as clauses, and everything else as a command. -/
def Standing.Varies (old new : String) : Standing → Datum → Datum → Prop
  | .clause => fun clause other =>
      Parallel (Swapped old new) clause.renderClause other.renderClause
  | _ => Datum.Varies old new

/-- A statement of a command varies. -/
theorem parallel_statement_of_kind {kind : Kind} {other : Json} (holds : key ∈ kind.statements)
    (found : cmd.get? key = some stmt) (present : stmt.isNull = false)
    (stillPresent : other.isNull = false)
    (inside : Parallel (Datum.Varies old new) (readStatement source stmt)
      (readStatement source other)) :
    Parallel (Datum.Varies old new) (readKind source cmd kind)
      (readKind source (cmd.withField key other) kind) := by
  cases kind <;> simp only [Kind.statements, List.mem_cons, List.not_mem_nil, or_false] at holds
  case binary =>
    rcases holds with rfl | rfl
    · exact parallel_left found inside
    · exact parallel_right found inside
  case function =>
    subst holds
    exact parallel_function inside found
  case time =>
    subst holds
    exact parallel_time inside found present stillPresent
  case coproc =>
    subst holds
    exact parallel_coproc inside found
  case testDecl =>
    subst holds
    exact parallel_testDecl inside found

/-- A statement in a list of a command varies. -/
theorem parallel_list_of_kind {kind : Kind} {other : Json} {before after : List Json}
    (holds : key ∈ kind.lists) (found : cmd.get? key = some (.arr (before ++ stmt :: after)))
    (inside : Parallel (Datum.Varies old new) (readStatement source stmt)
      (readStatement source other)) :
    Parallel (Datum.Varies old new) (readKind source cmd kind)
      (readKind source (cmd.withField key (.arr (before ++ other :: after))) kind) := by
  cases kind <;> simp only [Kind.lists, List.mem_cons, List.not_mem_nil, or_false] at holds
  case ifElse =>
    rcases holds with rfl | rfl
    · exact parallel_if_test found inside
    · exact parallel_if_then found inside
  case whileLoop =>
    rcases holds with rfl | rfl
    · exact parallel_while_test inside found
    · exact parallel_while_body inside found
  case forLoop =>
    subst holds
    exact parallel_for inside found
  case subshell =>
    subst holds
    exact parallel_subshell inside found
  case block =>
    subst holds
    exact parallel_block inside found

/-- The fields that tell a statement from a command, and a command from another. -/
def signFields : List String :=
  ["Type", "Cmd", "Redirs", "Background", "Negated"]

/-- What a node is does not depend on the statements in it. -/
theorem Kind.ne_of_mem_signFields {kind : Kind} {sign : String} (signs : sign ∈ signFields)
    (holds : key ∈ kind.statements ∨ key ∈ kind.lists) : sign ≠ key := by
  have apart :
      (kind.statements ++ kind.lists).all (fun key => !signFields.contains key) = true := by
    cases kind <;> decide
  rintro rfl
  have free := List.all_eq_true.mp apart sign (List.mem_append.mpr holds)
  simp [signs] at free

/-- What is read varies with the operator, wherever it stands. -/
theorem Exchanged.parallel {old new : Separator} {standing : Standing} {node other : Json}
    (exchanged : Exchanged old new standing node other) (source : Source) :
    Parallel (standing.Varies old.mark new.mark) (standing.read source node)
      (standing.read source other) := by
  induction exchanged with
  | between isOld isNew kind found =>
      subst isOld isNew
      exact parallel_readCommand kind (by decide) (parallel_operator found)
  | behind isOld isNew found =>
      subst isOld isNew
      exact parallel_mark found
  | command found inside ih =>
      exact parallel_statement found inside.present.1 inside.present.2 ih
  | statement known holds found inside ih =>
      refine parallel_readCommand known ?_ (parallel_statement_of_kind holds found
        (isNull_of_truthy inside.present.1) (isNull_of_truthy inside.present.2) ih)
      exact Kind.ne_of_mem_signFields (by decide) (.inl holds)
  | listed known holds found inside ih =>
      refine parallel_readCommand known ?_ (parallel_list_of_kind holds found ih)
      exact Kind.ne_of_mem_signFields (by decide) (.inr holds)
  | clause known found inside ih =>
      exact parallel_readCommand known (by decide) (parallel_case found ih)
  | inClause found inside ih => exact parallel_clause_body found ih
  | otherwise known found inside ih =>
      exact parallel_readCommand known (by decide)
        (parallel_if_else found inside.present.1 inside.present.2 ih)
  | further tests found inside ih =>
      exact parallel_further tests found inside.present.1 inside.present.2 ih
  | inBranch holds found inside ih => exact parallel_branch holds found ih

theorem Exchanged.get?_eq {old new : Separator} {node other : Json}
    (exchanged : Exchanged old new .command node other) {sign : String}
    (signs : sign ∈ signFields) : other.get? sign = node.get? sign := by
  have apart {key : String} (holds : key ∉ signFields) : sign ≠ key := by
    rintro rfl
    exact holds signs
  cases exchanged with
  | between => exact Json.get?_withField_of_ne (apart (by decide)) _ _
  | statement _ holds =>
      exact Json.get?_withField_of_ne (Kind.ne_of_mem_signFields signs (.inl holds)) _ _
  | listed _ holds =>
      exact Json.get?_withField_of_ne (Kind.ne_of_mem_signFields signs (.inr holds)) _ _
  | clause => exact Json.get?_withField_of_ne (apart (by decide)) _ _
  | otherwise => exact Json.get?_withField_of_ne (apart (by decide)) _ _

/-! ## Files -/

/--
Two files are the same but for one operator in one of their statements.  In the
list of a file, a command may stand in the place of a statement.
-/
inductive FileExchanged (old new : Separator) : Json → Json → Prop where
  | statement {file stmt other : Json} {before after : List Json} (whole : isFile file = true)
      (found : file.get? "Stmts" = some (.arr (before ++ stmt :: after)))
      (inside : Exchanged old new .statement stmt other) :
      FileExchanged old new file (file.withField "Stmts" (.arr (before ++ other :: after)))
  | command {file cmd other : Json} {before after : List Json} (whole : isFile file = true)
      (found : file.get? "Stmts" = some (.arr (before ++ cmd :: after)))
      (alone : ∀ key ∈ ["Cmd", "Redirs", "Background", "Negated"], cmd.has key = false)
      (inside : Exchanged old new .command cmd other) :
      FileExchanged old new file (file.withField "Stmts" (.arr (before ++ other :: after)))

/-- The script that a file is written out as: its one node, or its nodes one below the other. -/
def writeNodes : List Datum → Except Fault String
  | [] => .ok ""
  | [node] => node.shellText >>= required
  | first :: rest => (chain first rest).render (.braces true) >>= required

/-- The script of a file. -/
def scriptText (source : Source) (file : Json) : Except Fault String :=
  readNodes source file >>= writeNodes

section

variable {old new : Separator} {other : Json}

theorem readNode_of_statement (found : stmt.get? "Cmd" = some cmd) :
    readNode source stmt = readStatement source stmt := by
  have held : stmt.has "Cmd" = true := by
    rw [Json.has, found]
    rfl
  rw [readNode, held]
  rfl

theorem Exchanged.parallel_node (exchanged : Exchanged old new .statement stmt other) :
    Parallel (Datum.Varies old.mark new.mark) (readNode source stmt) (readNode source other) := by
  have inside := exchanged.parallel source
  cases exchanged with
  | command found =>
      have object := Json.isObject_of_get? found
      rw [readNode_of_statement found,
        readNode_of_statement (Json.get?_withField object "Cmd" _)]
      exact inside

theorem Exchanged.parallel_node_command (exchanged : Exchanged old new .command cmd other)
    (alone : ∀ key ∈ ["Cmd", "Redirs", "Background", "Negated"], cmd.has key = false) :
    Parallel (Datum.Varies old.mark new.mark) (readNode source cmd) (readNode source other) := by
  have inside := exchanged.parallel source
  have still (key : String) (member : key ∈ ["Cmd", "Redirs", "Background", "Negated"]) :
      other.has key = false := by
    rw [Json.has, exchanged.get?_eq (List.mem_cons_of_mem _ member)]
    exact alone key member
  have same := exchanged.get?_eq (show "Type" ∈ signFields by decide)
  unfold readNode
  rw [alone _ (by decide), alone _ (by decide), alone _ (by decide), alone _ (by decide),
    still _ (by decide), still _ (by decide), still _ (by decide), still _ (by decide), same]
  exact .ite (fun never => by cases never) fun _ => .ite (fun _ => inside) fun _ => .fault _

theorem readNodes_of_listed {file : Json} {items : List Json} (whole : isFile file = true)
    (found : file.get? "Stmts" = some (.arr items)) :
    readNodes source file = items.mapM (readNode source) := by
  unfold readNodes
  rw [if_pos whole, found]

/-- One node of the file varies, and the others are read as before. -/
theorem FileExchanged.parallel {file : Json} (exchanged : FileExchanged old new file other)
    (source : Source) :
    Parallel (fun nodes others => ∃ before behind node following,
        node.Varies old.mark new.mark following ∧
          nodes = before ++ node :: behind ∧ others = before ++ following :: behind)
      (readNodes source file) (readNodes source other) := by
  have still {file value : Json} (whole : isFile file = true) :
      isFile (file.withField "Stmts" value) = true := by
    rwa [isFile, Json.get?_withField_of_ne (by decide)]
  cases exchanged with
  | statement whole found inside =>
      have object := Json.isObject_of_get? found
      rw [readNodes_of_listed whole found,
        readNodes_of_listed (still whole) (Json.get?_withField object "Stmts" _)]
      exact .mapM inside.parallel_node
  | command whole found alone inside =>
      have object := Json.isObject_of_get? found
      rw [readNodes_of_listed whole found,
        readNodes_of_listed (still whole) (Json.get?_withField object "Stmts" _)]
      exact .mapM (inside.parallel_node_command alone)

end

theorem writeNodes_of_several {nodes : List Datum} (several : 2 ≤ nodes.length) :
    writeNodes nodes = (inSequence nodes).render (.braces true) >>= required := by
  match nodes, several with
  | _ :: _ :: _, _ => rfl

/-- A script with one node that varies is the same but for one place. -/
theorem parallel_writeNodes {node following : Datum} (varies : node.Varies old new following)
    (before behind : List Datum) :
    Parallel (Swapped old new) (writeNodes (before ++ node :: behind))
      (writeNodes (before ++ following :: behind)) := by
  by_cases alone : before = [] ∧ behind = []
  · obtain ⟨rfl, rfl⟩ := alone
    exact varies.required .plain
  · have several (item : Datum) : 2 ≤ (before ++ item :: behind).length := by
      have others : ¬ (before.length = 0 ∧ behind.length = 0) := by
        rwa [List.length_eq_zero_iff, List.length_eq_zero_iff]
      rw [List.length_append, List.length_cons]
      omega
    rw [writeNodes_of_several (several _), writeNodes_of_several (several _)]
    exact (varies.inSequence before behind).required _

/--
Scripts tell most operators apart.  If one operator in a file that can be read
and written out is exchanged for another one, the file can still be written out,
and its script is the same but for one place, where the mark of the new operator
stands for that of the old one.  So the script changes unless the two operators
are the same, are both pipes, or both go on behind a clause.
-/
theorem scriptText_exchanged {old new : Separator} {file other : Json} {text : String}
    (exchanged : FileExchanged old new file other) (source : Source)
    (written : scriptText source file = .ok text) :
    ∃ before after, text = before ++ old.mark ++ after ∧
      scriptText source other = .ok (before ++ new.mark ++ after) ∧
      (before ++ new.mark ++ after = text ↔ old.Merges new) := by
  have parallel : Parallel (Swapped old.mark new.mark) (scriptText source file)
      (scriptText source other) := by
    refine (exchanged.parallel source).bind ?_
    rintro _ _ ⟨before, behind, node, following, varies, rfl, rfl⟩
    exact parallel_writeNodes varies before behind
  obtain ⟨_, rewritten, before, after, rfl, rfl⟩ := parallel text written
  refine ⟨before, after, rfl, rewritten, ?_⟩
  rw [← Separator.mark_eq_iff]
  exact Swapped.eq_iff ⟨before, after, rfl, rfl⟩

/-! ## A pipe in a list -/

theorem readStatement_of_isBare {left right : Json} {first second : Datum} {op : BinaryOp}
    (bare : IsBare stmt cmd) (known : cmd.get? "Type" = some (.str Kind.binary.label))
    (numbered : cmd.get? "Op" = some (.int op.number)) (isLeft : cmd.get? "X" = some left)
    (isRight : cmd.get? "Y" = some right) (onLeft : readStatement source left = .ok first)
    (onRight : readStatement source right = .ok second) :
    readStatement source stmt = op.join first second := by
  obtain ⟨_, numbered⟩ := Json.fetch_of_get? numbered
  obtain ⟨_, isLeft⟩ := Json.require_of_get? isLeft
  obtain ⟨_, isRight⟩ := Json.require_of_get? isRight
  have read : readCommand source cmd = op.join first second := by
    rw [readCommand_eq_readKind known]
    change readBinary source cmd = _
    rw [readBinary_eq]
    simp only [numbered, operator_number, isLeft, isRight, onLeft, onRight, ok_bind, joinBy]
  rw [readStatement_eq_dress, heldCommand_of_get? bare.command (Json.truthy_of_get? known), read]
  cases op.join first second with
  | error => rfl
  | ok command => exact dress_of_isBare bare command

/-- A file of one statement: two commands with an operator between them, and then a third one. -/
def joinedFile (op : BinaryOp) : Json :=
  .obj [("Type", .str Kind.file.label), ("Stmts", .arr [joinStatement BinaryOp.and.number
    (joinStatement op.number (callStatement "a") (callStatement "b")) (callStatement "c")])]

theorem fileExchanged_joinedFile (op other : BinaryOp) :
    FileExchanged (.between op) (.between other) (joinedFile op) (joinedFile other) := by
  have pair : Exchanged (.between op) (.between other) .statement
      (joinStatement op.number (callStatement "a") (callStatement "b"))
      (joinStatement other.number (callStatement "a") (callStatement "b")) :=
    .command rfl (.between rfl rfl rfl rfl)
  have isLeft : "X" ∈ Kind.binary.statements := by decide
  have listed : (joinedFile op).get? "Stmts" = some (.arr ([] ++ _ :: [])) := rfl
  exact .statement rfl listed (.command rfl (.statement rfl isLeft rfl pair))

theorem render_callCommand (name : String) :
    (callCommand name).render .plain = .ok (some name) :=
  render_wordsCommand (-1) name .plain

theorem scriptText_joinedFile (op : BinaryOp) :
    scriptText none (joinedFile op) = .ok ("a" ++ op.mark ++ "b" ++ " && " ++ "c") := by
  have read := readStatement_callStatement
  have arranged (name : String) := arrangedCommand_of_readStatement (read name)
  obtain ⟨pair, joined, joins⟩ := exists_joins op (arranged "a") (arranged "b")
  have inner : readStatement none (joinStatement op.number (callStatement "a")
      (callStatement "b")) = .ok (.command pair) :=
    joined ▸ readStatement_of_isBare ⟨rfl, rfl, rfl, rfl⟩ rfl rfl rfl rfl (read "a") (read "b")
  obtain ⟨whole, joinedToo, others⟩ :=
    exists_joins .and (arrangedCommand_of_readStatement inner) (arranged "c")
  have outer : readStatement none (joinStatement BinaryOp.and.number
      (joinStatement op.number (callStatement "a") (callStatement "b")) (callStatement "c")) =
        .ok (.command whole) :=
    joinedToo ▸ readStatement_of_isBare ⟨rfl, rfl, rfl, rfl⟩ rfl rfl rfl rfl inner (read "c")
  have first : (Datum.command pair).render .plain = .ok (some ("a" ++ op.mark ++ "b")) := by
    rw [Datum.render, joins.prints]
    exact ⟨rfl, _, _, render_callCommand "a", render_callCommand "b", rfl⟩
  have written : (Datum.command whole).render .plain =
      .ok (some ("a" ++ op.mark ++ "b" ++ " && " ++ "c")) := by
    rw [Datum.render, others.prints]
    exact ⟨rfl, _, _, first, render_callCommand "c", rfl⟩
  have listed : (joinedFile op).get? "Stmts" = some (.arr [_]) := rfl
  rw [scriptText, readNodes_of_listed rfl listed, List.mapM_cons, List.mapM_nil,
    readNode_of_statement rfl, outer]
  change (Datum.command whole).render .plain >>= required = _
  rw [written]
  rfl

/-- A pipe on the left side of a conjunction becomes a disjunction. -/
theorem scriptText_exchanged_pipe :
    FileExchanged (.between .pipe) (.between .or) (joinedFile .pipe) (joinedFile .or) ∧
      scriptText none (joinedFile .pipe) = .ok "a | b && c" ∧
      scriptText none (joinedFile .or) = .ok "a || b && c" ∧
      ∃ before after, "a | b && c" = before ++ " | " ++ after ∧
        scriptText none (joinedFile .or) = .ok (before ++ " || " ++ after) ∧
        (before ++ " || " ++ after = "a | b && c" ↔
          (Separator.between .pipe).Merges (.between .or)) :=
  ⟨fileExchanged_joinedFile .pipe .or, scriptText_joinedFile .pipe, scriptText_joinedFile .or,
    scriptText_exchanged (fileExchanged_joinedFile .pipe .or) none (scriptText_joinedFile .pipe)⟩

/-- The script does not tell a pipe that takes the errors along from one that does not. -/
theorem scriptText_pipeAll :
    FileExchanged (.between .pipe) (.between .pipeAll) (joinedFile .pipe) (joinedFile .pipeAll) ∧
      scriptText none (joinedFile .pipe) = .ok "a | b && c" ∧
      scriptText none (joinedFile .pipeAll) = .ok "a | b && c" :=
  ⟨fileExchanged_joinedFile .pipe .pipeAll, scriptText_joinedFile .pipe,
    scriptText_joinedFile .pipeAll⟩

end Shfmt

end ShellTree
