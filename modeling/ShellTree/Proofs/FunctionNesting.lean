import ShellTree.Proofs.CommandAssembly
import ShellTree.Proofs.VerbatimCommands

/-!
# The functions around a list of commands

The mark of a list is taken from the session when both commands of the list
have been read.  At that time the session is in a function if the list stands
in one, unless the end of a function inside it has been read since: a function
that ends leaves the session outside of every function.

Positions count the commands directly inside a command, in the record as in the
tree; the lexicographic order of positions is the order in which commands begin
to be read.
-/

namespace ShellTree

/-- The command at a position inside a command, without what is put around it. -/
def Datum.commandAt? (tree : Datum) : List Nat → Option Datum
  | [] => some tree.core
  | index :: rest => tree.core.commands[index]?.bind fun inner => inner.commandAt? rest

theorem Datum.commandAt?_congr {tree other : Datum} (same : tree.core = other.core)
    (position : List Nat) : tree.commandAt? position = other.commandAt? position := by
  cases position with
  | nil => rw [commandAt?, commandAt?, same]
  | cons index rest => rw [commandAt?, commandAt?, same]

namespace Bash

theorem mem_take_iff {α : Type} {items : List α} {count : Nat} {item : α} :
    item ∈ items.take count ↔ ∃ index < count, items[index]? = some item := by
  simp only [List.mem_iff_getElem?, List.getElem?_take, Option.ite_none_right_eq_some]

/-- Which commands are read up to a position, one step further down. -/
theorem readUpTo_cons {first index : Nat} {other rest : List Nat} :
    (first :: other < index :: rest ∨ index :: rest <+: first :: other) ↔
      first < index ∨ first = index ∧ (other < rest ∨ rest <+: other) := by
  rw [List.cons_lt_cons_iff, List.cons_prefix_cons]
  grind

namespace Record

/-- The command at a position inside a command. -/
def commandAt? (node : Record) : List Nat → Option Record
  | [] => some node
  | index :: rest => node.commands[index]?.bind fun inner => inner.commandAt? rest

/-- A function is defined at a position inside a command. -/
def FunctionAt (node : Record) (position : List Nat) : Prop :=
  ∃ inner, node.commandAt? position = some inner ∧ inner.IsFunction

theorem functionAt_nil {node : Record} : node.FunctionAt [] ↔ node.IsFunction := by
  simp [FunctionAt, commandAt?]

theorem functionAt_cons {node : Record} {index : Nat} {rest : List Nat} :
    node.FunctionAt (index :: rest) ↔
      ∃ inner, node.commands[index]? = some inner ∧ inner.FunctionAt rest := by
  simp only [FunctionAt, commandAt?, Option.bind_eq_some_iff]
  constructor
  · rintro ⟨inner, ⟨child, held, found⟩, isFunction⟩
    exact ⟨child, held, inner, found, isFunction⟩
  · rintro ⟨child, held, inner, found, isFunction⟩
    exact ⟨inner, ⟨child, held, found⟩, isFunction⟩

/-- No function is defined in a command. -/
def Functionless (node : Record) : Prop :=
  ∀ position, ¬ node.FunctionAt position

theorem functionless_iff {node : Record} :
    node.Functionless ↔ ¬ node.IsFunction ∧ ∀ inner ∈ node.commands, inner.Functionless := by
  constructor
  · refine fun none => ⟨none [] ∘ functionAt_nil.mpr, fun inner held position isFunction => ?_⟩
    obtain ⟨index, found⟩ := List.mem_iff_getElem?.mp held
    exact none (index :: position) (functionAt_cons.mpr ⟨inner, found, isFunction⟩)
  · rintro ⟨notFunction, none⟩ position isFunction
    cases position with
    | nil => exact notFunction (functionAt_nil.mp isFunction)
    | cons index rest =>
        obtain ⟨inner, found, isFunction⟩ := functionAt_cons.mp isFunction
        exact none inner (List.mem_of_getElem? found) rest isFunction

/-- No function is begun before the command at a position has been read. -/
def FunctionlessUpTo (node : Record) (position : List Nat) : Prop :=
  ∀ other, other < position ∨ position <+: other → ¬ node.FunctionAt other

theorem functionlessUpTo_nil {node : Record} :
    node.FunctionlessUpTo [] ↔ node.Functionless := by
  simp [FunctionlessUpTo, Functionless]

/-- What is read inside a command up to a position are earlier commands and a part of one. -/
theorem functionlessUpTo_below {node inner : Record} {index : Nat} {rest : List Nat}
    (held : node.commands[index]? = some inner) :
    (∀ other, other ≠ [] → other < index :: rest ∨ index :: rest <+: other →
        ¬ node.FunctionAt other) ↔
      (∀ earlier ∈ node.commands.take index, earlier.Functionless) ∧
        inner.FunctionlessUpTo rest := by
  constructor
  · intro none
    constructor
    · intro earlier among position isFunction
      obtain ⟨before, less, found⟩ := mem_take_iff.mp among
      exact none (before :: position) (List.cons_ne_nil _ _) (readUpTo_cons.mpr (.inl less))
        (functionAt_cons.mpr ⟨earlier, found, isFunction⟩)
    · intro other read isFunction
      exact none (index :: other) (List.cons_ne_nil _ _) (readUpTo_cons.mpr (.inr ⟨rfl, read⟩))
        (functionAt_cons.mpr ⟨inner, held, isFunction⟩)
  · rintro ⟨earlier, upTo⟩ other notNil read isFunction
    cases other with
    | nil => exact notNil rfl
    | cons before position =>
        obtain ⟨child, found, isFunction⟩ := functionAt_cons.mp isFunction
        rcases readUpTo_cons.mp read with less | ⟨rfl, readInner⟩
        · exact earlier child (mem_take_iff.mpr ⟨before, less, found⟩) position isFunction
        · cases held.symm.trans found
          exact upTo position readInner isFunction

theorem functionlessUpTo_cons {node inner : Record} {index : Nat} {rest : List Nat}
    (held : node.commands[index]? = some inner) :
    node.FunctionlessUpTo (index :: rest) ↔ ¬ node.IsFunction ∧
      (∀ earlier ∈ node.commands.take index, earlier.Functionless) ∧
        inner.FunctionlessUpTo rest := by
  rw [← functionlessUpTo_below held, ← functionAt_nil]
  constructor
  · exact fun none => ⟨none [] (.inl (List.nil_lt_cons _ _)), fun other _ => none other⟩
  · rintro ⟨notFunction, none⟩ other read
    cases other with
    | nil => exact notFunction
    | cons before position => exact none _ (List.cons_ne_nil _ _) read

/--
The command at a position stands in a function, and no function inside that one
is begun before the command has been read.
-/
def StillInFunction (node : Record) (position : List Nat) : Prop :=
  ∃ above, above <+: position ∧ above ≠ position ∧ node.FunctionAt above ∧
    ∀ other, above <+: other → above ≠ other → other < position ∨ position <+: other →
      ¬ node.FunctionAt other

theorem not_stillInFunction_nil {node : Record} : ¬ node.StillInFunction [] := by
  rintro ⟨above, begins, different, _⟩
  exact different (List.prefix_nil.mp begins)

theorem stillInFunction_cons {node inner : Record} {index : Nat} {rest : List Nat}
    (held : node.commands[index]? = some inner) :
    node.StillInFunction (index :: rest) ↔
      (node.IsFunction ∧ (∀ earlier ∈ node.commands.take index, earlier.Functionless) ∧
        inner.FunctionlessUpTo rest) ∨ inner.StillInFunction rest := by
  rw [← functionlessUpTo_below held, ← functionAt_nil]
  constructor
  · rintro ⟨above, begins, different, isFunction, none⟩
    cases above with
    | nil => exact .inl ⟨isFunction, fun other notNil => none other List.nil_prefix notNil.symm⟩
    | cons first above =>
        obtain ⟨rfl, beginsRest⟩ := List.cons_prefix_cons.mp begins
        obtain ⟨child, found, isFunction⟩ := functionAt_cons.mp isFunction
        cases held.symm.trans found
        refine .inr ⟨above, beginsRest, fun same => different (same ▸ rfl), isFunction, ?_⟩
        intro other inside notSame read isInner
        exact none (first :: other) (List.cons_prefix_cons.mpr ⟨rfl, inside⟩)
          (fun same => notSame (List.cons.inj same).2) (readUpTo_cons.mpr (.inr ⟨rfl, read⟩))
          (functionAt_cons.mpr ⟨inner, held, isInner⟩)
  · rintro (⟨isFunction, none⟩ | ⟨above, begins, different, isFunction, none⟩)
    · exact ⟨[], List.nil_prefix, (List.cons_ne_nil _ _).symm, isFunction,
        fun other _ notNil => none other notNil.symm⟩
    · refine ⟨index :: above, List.cons_prefix_cons.mpr ⟨rfl, begins⟩,
        fun same => different (List.cons.inj same).2,
        functionAt_cons.mpr ⟨inner, held, isFunction⟩, ?_⟩
      intro other inside notSame read isInner
      cases other with
      | nil => exact absurd inside (by simp)
      | cons first other =>
          obtain ⟨rfl, insideRest⟩ := List.cons_prefix_cons.mp inside
          obtain ⟨child, found, isInner⟩ := functionAt_cons.mp isInner
          cases held.symm.trans found
          have readInner : other < rest ∨ rest <+: other := by
            simpa using readUpTo_cons.mp read
          exact none other insideRest (fun same => notSame (same ▸ rfl)) readInner isInner

end Record

/-! ## Readings without a fault -/

theorem Session.faultless_of_follow {session after : Session} {steps : List Step}
    {trees : List Datum} (came : session.follow steps = (.ok trees, after)) :
    ∀ cause, .fault cause ∉ steps := by
  induction steps generalizing session trees with
  | nil => simp
  | cons step rest ih =>
      intro cause held
      cases step with
      | fault other => cases came
      | enter => exact ih came cause (by simpa using held)
      | leave => exact ih came cause (by simpa using held)
      | command inner =>
          obtain ⟨_, _, _, _, came, _⟩ := follow_command_eq_ok.mp came
          exact ih came cause (by simpa using held)

/-- A command that is read without a fault is put together from what its steps come to. -/
theorem Session.completed_of_read {session after : Session} {node : Record} {tree : Datum}
    (came : session.read node = (.ok tree, after)) :
    ∃ trees, session.follow node.steps = (.ok trees, after) ∧
      Completed node trees after tree := by
  rcases followed : session.follow node.steps with ⟨cause | trees, last⟩
  · have failed := (takes_readCommand node).fault followed
    cases came.symm.trans failed
  · obtain ⟨value, read, completed⟩ := (takes_readCommand node).value followed
    cases came.symm.trans read
    exact ⟨trees, rfl, completed⟩

theorem Session.made_of_read {session after : Session} {node : Record} {tree : Datum}
    (came : session.read node = (.ok tree, after)) :
    ∃ trees, session.follow node.steps = (.ok trees, after) ∧
      Made node.IsList trees after tree := by
  obtain ⟨trees, followed, completed⟩ := completed_of_read came
  exact ⟨trees, followed, completed.made⟩

/--
Without a fault, the commands inside are read one after the other: in a
function that then ends, or in the session as it is.
-/
theorem Session.read_cases {session after : Session} {node : Record} {tree : Datum}
    (came : session.read node = (.ok tree, after)) :
    ∃ trees begun ended, Completed node trees after tree ∧
      begun.follow (node.commands.map .command) = (.ok trees, ended) ∧
      ((node.IsFunction ∧ begun = ⟨true⟩ ∧ after = ⟨false⟩) ∨
        (¬ node.IsFunction ∧ begun = session ∧ after = ended)) := by
  obtain ⟨trees, followed, completed⟩ := completed_of_read came
  rcases node.steps_of_faultless (faultless_of_follow followed) with
    ⟨isFunction, body, commands, steps⟩ | ⟨notFunction, steps⟩
  · rw [steps] at followed
    obtain ⟨inner, others, ended, read, left, rfl⟩ := follow_command_eq_ok.mp followed
    cases left
    refine ⟨[inner], ⟨true⟩, ended, completed, ?_, .inl ⟨isFunction, rfl, rfl⟩⟩
    rw [commands]
    exact follow_command_eq_ok.mpr ⟨inner, [], ended, read, rfl, rfl⟩
  · exact ⟨trees, session, after, completed, steps ▸ followed, .inr ⟨notFunction, rfl, rfl⟩⟩

/-- Commands that keep a session in a function, or do not, do so one after the other. -/
theorem Session.inFunction_of_follow {session after : Session} {nodes : List Record}
    {trees : List Datum} (came : session.follow (nodes.map .command) = (.ok trees, after))
    (each : ∀ node ∈ nodes, ∀ {session after : Session} {tree : Datum},
      session.read node = (.ok tree, after) →
        (after.inFunction ↔ session.inFunction ∧ node.Functionless)) :
    after.inFunction ↔ session.inFunction ∧ ∀ node ∈ nodes, node.Functionless := by
  induction nodes generalizing session trees with
  | nil =>
      cases came
      simp
  | cons node rest ih =>
      obtain ⟨tree, others, between, read, came, _⟩ := follow_command_eq_ok.mp came
      obtain ⟨first, each⟩ := List.forall_mem_cons.mp each
      rw [ih came each, first read, List.forall_mem_cons, and_assoc]

/-- A session is still in a function if it was in one and no function has been read. -/
theorem Session.inFunction_of_read {session after : Session} {node : Record} {tree : Datum}
    (came : session.read node = (.ok tree, after)) :
    after.inFunction ↔ session.inFunction ∧ node.Functionless := by
  obtain ⟨trees, begun, ended, _, followed, ⟨isFunction, _, rfl⟩ | ⟨notFunction, rfl, rfl⟩⟩ :=
    read_cases came
  · rw [Record.functionless_iff]
    simp [isFunction]
  · have inside := inFunction_of_follow followed fun inner held _ _ _ came =>
      inFunction_of_read came
    rw [inside, Record.functionless_iff]
    simp [notFunction]
termination_by sizeOf node
decreasing_by exact Record.sizeOf_lt_of_mem_commands held

/-- Where a session stands when it comes to one of the commands that it reads. -/
theorem Session.read_of_follow {session after : Session} {nodes : List Record}
    {trees : List Datum} (came : session.follow (nodes.map .command) = (.ok trees, after))
    {index : Nat} {node : Record} (held : nodes[index]? = some node) :
    ∃ (tree : Datum) (between later : Session), trees[index]? = some tree ∧
      between.read node = (.ok tree, later) ∧
      (between.inFunction ↔
        session.inFunction ∧ ∀ earlier ∈ nodes.take index, earlier.Functionless) := by
  induction nodes generalizing session trees index with
  | nil => simp at held
  | cons first rest ih =>
      obtain ⟨tree, others, between, read, goesOn, rfl⟩ := follow_command_eq_ok.mp came
      cases index with
      | zero =>
          cases held
          exact ⟨tree, session, between, rfl, read, by simp⟩
      | succ index =>
          obtain ⟨inner, before, later, found, readInner, isIn⟩ := ih goesOn held
          refine ⟨inner, before, later, found, readInner, ?_⟩
          rw [isIn, inFunction_of_read read, List.take_succ_cons, List.forall_mem_cons, and_assoc]

/-! ## Commands without redirections and flags -/

/-- The record of a command without redirections and flags. -/
def commandRecord (kind : CommandType) (com : Record) : Record :=
  .object [("type", .int kind.number), ("flags", .list []), ("redirects", .list []),
    ("value", .object [(kind.key, com)])]

/-- The record of a word of one letter. -/
def letterRecord (letter : Char) : Record :=
  wordRecord (guarded [letter]) []

/-- The record of a command that is one letter. -/
def letterCommand (letter : Char) : Record :=
  simpleRecord 1 [letterRecord letter]

/-- The record of two commands with a semicolon between them. -/
def listRecord (first second : Record) : Record :=
  commandRecord .connection (.object [("connector", .int Connector.semicolon.number),
    ("first", first), ("second", second)])

/-- The record of a command in braces. -/
def groupRecord (inner : Record) : Record :=
  commandRecord .group (.object [("command", inner)])

/-- The record of the definition of a function. -/
def functionRecord (name : Char) (body : Record) : Record :=
  commandRecord .functionDef (.object [("line", .int 1), ("name", letterRecord name),
    ("command", body)])

theorem kind?_commandRecord (kind : CommandType) (com : Record) :
    (commandRecord kind com).kind? = some kind := by
  cases kind <;> rfl

theorem isFunction_functionRecord (name : Char) (body : Record) :
    (functionRecord name body).IsFunction :=
  kind?_commandRecord .functionDef _

theorem not_isFunction_commandRecord {kind : CommandType} (other : kind ≠ .functionDef)
    (com : Record) : ¬ (commandRecord kind com).IsFunction := by
  rwa [Record.IsFunction, kind?_commandRecord, Option.some.injEq]

theorem isList_listRecord (first second : Record) : (listRecord first second).IsList :=
  ⟨kind?_commandRecord .connection _, _, _, rfl, rfl, rfl⟩

theorem steps_commandRecord (kind : CommandType) (com : Record) :
    (commandRecord kind com).steps = kind.steps (commandRecord kind com) com := by
  cases kind <;> exact List.append_nil _

theorem readWord_letterRecord (letter : Char) :
    readWord (letterRecord letter) = .ok (wordOf true [letter]) := by
  have spells : Spells (letterRecord letter) (String.ofList [letter]) := by
    refine spells_wordRecord [] (by rw [String.toList_ofList]) fun broken => ?_
    have short := broken.length_le
    simp at short
  rw [spells.readWord_eq, String.toList_ofList]

theorem steps_letterCommand (letter : Char) : (letterCommand letter).steps = [] := by
  have words : readSimpleWords true [letterRecord letter] =
      .ok ([], [wordOf true [letter]]) := by
    change (readWord (letterRecord letter) >>= _) = _
    rw [readWord_letterRecord]
    rfl
  refine (steps_commandRecord .simple _).trans ?_
  change given (readSimpleWords true [letterRecord letter] >>= _) _ = _
  rw [words]
  rfl

theorem steps_listRecord (first second : Record) :
    (listRecord first second).steps = [.command first, .command second] :=
  (steps_commandRecord .connection _).trans rfl

theorem steps_groupRecord (inner : Record) : (groupRecord inner).steps = [.command inner] :=
  (steps_commandRecord .group _).trans rfl

theorem steps_functionRecord (name : Char) (body : Record) :
    (functionRecord name body).steps = [.enter, .command body, .leave] := by
  rw [functionRecord, steps_commandRecord]
  change Step.enter :: given (readWord (letterRecord name)) _ = _
  rw [readWord_letterRecord]
  rfl

@[simp]
theorem commands_letterCommand (letter : Char) : (letterCommand letter).commands = [] := by
  rw [Record.commands, steps_letterCommand]
  rfl

@[simp]
theorem commands_listRecord (first second : Record) :
    (listRecord first second).commands = [first, second] := by
  rw [Record.commands, steps_listRecord]
  rfl

@[simp]
theorem commands_groupRecord (inner : Record) : (groupRecord inner).commands = [inner] := by
  rw [Record.commands, steps_groupRecord]
  rfl

@[simp]
theorem commands_functionRecord (name : Char) (body : Record) :
    (functionRecord name body).commands = [body] := by
  rw [Record.commands, steps_functionRecord]
  rfl

/-- The session reads the command without a fault and is then another one. -/
def Session.Reads (session : Session) (node : Record) (after : Session) : Prop :=
  ∃ tree, session.read node = (.ok tree, after)

namespace Session.Reads

variable {session between after : Session}

theorem of_follow {node : Record} {trees : List Datum}
    (followed : session.follow node.steps = (.ok trees, after)) : session.Reads node after := by
  obtain ⟨tree, read, _⟩ := (takes_readCommand node).value followed
  exact ⟨tree, read⟩

theorem letter (letter : Char) : session.Reads (letterCommand letter) session := by
  apply of_follow
  rw [steps_letterCommand]
  rfl

theorem list {first second : Record} (left : session.Reads first between)
    (right : between.Reads second after) : session.Reads (listRecord first second) after := by
  obtain ⟨leftTree, left⟩ := left
  obtain ⟨rightTree, right⟩ := right
  apply of_follow
  rw [steps_listRecord]
  exact follow_command_eq_ok.mpr ⟨leftTree, [rightTree], between, left,
    follow_command_eq_ok.mpr ⟨rightTree, [], after, right, rfl, rfl⟩, rfl⟩

theorem group {inner : Record} (came : session.Reads inner after) :
    session.Reads (groupRecord inner) after := by
  obtain ⟨tree, came⟩ := came
  apply of_follow
  rw [steps_groupRecord]
  exact follow_command_eq_ok.mpr ⟨tree, [], after, came, rfl, rfl⟩

theorem function {name : Char} {body : Record} (came : Session.Reads ⟨true⟩ body between) :
    session.Reads (functionRecord name body) ⟨false⟩ := by
  obtain ⟨tree, came⟩ := came
  apply of_follow
  rw [steps_functionRecord, follow]
  exact follow_command_eq_ok.mpr ⟨tree, [], between, came, rfl, rfl⟩

end Session.Reads

/-! ## The mark of a list -/

theorem Session.present_of_follow {session after : Session} {nodes : List Record}
    {trees : List Datum} (came : session.follow (nodes.map .command) = (.ok trees, after)) :
    ∀ tree ∈ trees, tree ≠ .null := by
  induction nodes generalizing session trees with
  | nil =>
      cases came
      simp
  | cons node rest ih =>
      obtain ⟨tree, others, between, read, goesOn, rfl⟩ := follow_command_eq_ok.mp came
      obtain ⟨_, _, made⟩ := made_of_read read
      obtain ⟨value, rfl⟩ := made.isCommand
      exact List.forall_mem_cons.mpr ⟨Datum.noConfusion, ih goesOn⟩

/-- The commands inside a tree are what the commands inside have become. -/
theorem Made.commandAt?_cons {joined : Prop} {trees : List Datum} {session : Session}
    {tree inner : Datum} (made : Made joined trees session tree)
    (present : ∀ inner ∈ trees, inner ≠ .null) {index : Nat} (held : trees[index]? = some inner)
    (rest : List Nat) : tree.commandAt? (index :: rest) = inner.commandAt? rest := by
  have same := congrArg (fun items : List Datum => items[index]?) (made.inside present)
  simp only [List.getElem?_map, held, Option.map_some, Option.map_eq_some_iff] at same
  obtain ⟨other, found, same⟩ := same
  rw [Datum.commandAt?, found, Option.bind_some]
  exact Datum.commandAt?_congr same rest

/-- The mark of a list, in a session that may be in a function from the start. -/
theorem Session.mark_of_read {session after : Session} {node inner : Record} {tree : Datum}
    {position : List Nat} (came : session.read node = (.ok tree, after))
    (found : node.commandAt? position = some inner) (isList : inner.IsList) :
    ∃ left right last, tree.commandAt? position =
        some (.command (.semi left right (.bool (!last)))) ∧
      (last ↔ (session.inFunction ∧ node.FunctionlessUpTo position) ∨
        node.StillInFunction position) := by
  -- The position is followed from the outside in; what has been read before
  -- the next command on the way is known from the session in which it is read.
  induction position generalizing session after node tree with
  | nil =>
      cases found
      obtain ⟨trees, _, made⟩ := made_of_read came
      obtain ⟨left, right, isSemi⟩ := made.marked isList
      refine ⟨left, right, after.inFunction, congrArg some isSemi, ?_⟩
      rw [inFunction_of_read came, Record.functionlessUpTo_nil]
      simp [Record.not_stillInFunction_nil]
  | cons index rest ih =>
      obtain ⟨child, held, found⟩ := Option.bind_eq_some_iff.mp found
      obtain ⟨trees, begun, ended, completed, followed, which⟩ := read_cases came
      obtain ⟨childTree, between, later, heldTree, readChild, isIn⟩ := read_of_follow followed held
      obtain ⟨left, right, last, isSemi, marked⟩ := ih readChild found
      refine ⟨left, right, last, ?_, ?_⟩
      · rw [completed.made.commandAt?_cons (present_of_follow followed) heldTree rest, isSemi]
      · rw [marked, isIn, Record.functionlessUpTo_cons held, Record.stillInFunction_cons held]
        rcases which with ⟨isFunction, rfl, _⟩ | ⟨notFunction, rfl, _⟩
        · simp [isFunction]
        · simp [notFunction, and_assoc]

/--
A list that is read from the start is marked as standing in a function exactly
if it stands in the body of one, and no function inside that body is begun
before the list, around it or in it.
-/
theorem semi_mark_eq_false_iff {node inner : Record} {tree : Datum} {position : List Nat}
    (came : (Session.start.read node).1 = .ok tree)
    (found : node.commandAt? position = some inner) (isList : inner.IsList) :
    ∃ left right marked,
      tree.commandAt? position = some (.command (.semi left right (.bool marked))) ∧
      (marked = false ↔ ∃ above, above <+: position ∧ above ≠ position ∧ node.FunctionAt above ∧
        ∀ other, above <+: other → above ≠ other → other < position ∨ position <+: other →
          ¬ node.FunctionAt other) := by
  have came : Session.start.read node = (.ok tree, (Session.start.read node).2) := by rw [← came]
  obtain ⟨left, right, last, isSemi, marked⟩ := Session.mark_of_read came found isList
  refine ⟨left, right, !last, isSemi, ?_⟩
  rw [Bool.not_eq_false', marked]
  simp [Session.start, Record.StillInFunction]

/-- Two letters in braces, and after them a function, all in the body of a function. -/
def nestedFunctions : Record :=
  functionRecord 'f' (groupRecord (listRecord
    (groupRecord (listRecord (letterCommand 'a') (letterCommand 'b')))
    (functionRecord 'g' (groupRecord (letterCommand 'c')))))

theorem reads_nestedFunctions : Session.start.Reads nestedFunctions .start :=
  .function (.group (.list (.group (.list (.letter 'a') (.letter 'b')))
    (.function (.group (.letter 'c')))))

theorem functionless_letters :
    (listRecord (letterCommand 'a') (letterCommand 'b')).Functionless := by
  have letter (letter : Char) : (letterCommand letter).Functionless := by
    have isSimple : (letterCommand letter).kind? = some .simple := rfl
    rw [Record.functionless_iff, Record.IsFunction, isSimple, commands_letterCommand]
    exact ⟨by decide, by simp⟩
  rw [Record.functionless_iff, commands_listRecord]
  exact ⟨not_isFunction_commandRecord (by decide) _, by simp [letter]⟩

/-- The list of the two letters is read before the inner function begins. -/
theorem semi_mark_before_function : ∃ tree left right,
    (Session.start.read nestedFunctions).1 = .ok tree ∧
      tree.commandAt? [0, 0, 0, 0] = some (.command (.semi left right (.bool false))) := by
  obtain ⟨tree, came⟩ := reads_nestedFunctions
  have came : (Session.start.read nestedFunctions).1 = .ok tree := by rw [came]
  have found : nestedFunctions.commandAt? [0, 0, 0, 0] =
      some (listRecord (letterCommand 'a') (letterCommand 'b')) := by
    simp [nestedFunctions, Record.commandAt?]
  obtain ⟨left, right, marked, isSemi, iff⟩ :=
    semi_mark_eq_false_iff came found (isList_listRecord _ _)
  have inside : ∀ other, other ≠ [] → other < [0, 0, 0, 0] ∨ [0, 0, 0, 0] <+: other →
      ¬ nestedFunctions.FunctionAt other := by
    rw [nestedFunctions]
    refine (Record.functionlessUpTo_below (by rw [commands_functionRecord]; rfl)).mpr
      ⟨by simp, ?_⟩
    refine (Record.functionlessUpTo_cons (by rw [commands_groupRecord]; rfl)).mpr
      ⟨not_isFunction_commandRecord (by decide) _, by simp, ?_⟩
    refine (Record.functionlessUpTo_cons (by rw [commands_listRecord]; rfl)).mpr
      ⟨not_isFunction_commandRecord (by decide) _, by simp, ?_⟩
    refine (Record.functionlessUpTo_cons (by rw [commands_groupRecord]; rfl)).mpr
      ⟨not_isFunction_commandRecord (by decide) _, by simp, ?_⟩
    exact Record.functionlessUpTo_nil.mpr functionless_letters
  have inFunction : marked = false :=
    iff.mpr ⟨[], List.nil_prefix, (List.cons_ne_nil _ _).symm,
      Record.functionAt_nil.mpr (isFunction_functionRecord 'f' _),
      fun other _ notNil => inside other notNil.symm⟩
  exact ⟨tree, left, right, came, inFunction ▸ isSemi⟩

/--
The list that holds the inner function stands in the body of the outer one all
the same, but is not marked so.
-/
theorem semi_mark_around_function : ∃ tree left right,
    (Session.start.read nestedFunctions).1 = .ok tree ∧ nestedFunctions.FunctionAt [] ∧
      tree.commandAt? [0, 0] = some (.command (.semi left right (.bool true))) := by
  obtain ⟨tree, came⟩ := reads_nestedFunctions
  have found : nestedFunctions.commandAt? [0, 0] = some (listRecord
      (groupRecord (listRecord (letterCommand 'a') (letterCommand 'b')))
      (functionRecord 'g' (groupRecord (letterCommand 'c')))) := by
    simp [nestedFunctions, Record.commandAt?]
  have inner : nestedFunctions.commandAt? [0, 0, 1] =
      some (functionRecord 'g' (groupRecord (letterCommand 'c'))) := by
    simp [nestedFunctions, Record.commandAt?]
  obtain ⟨left, right, last, isSemi, iff⟩ :=
    Session.mark_of_read came found (isList_listRecord _ _)
  have outside : last = false := by
    rw [← Bool.not_eq_true, iff]
    rintro (⟨started, _⟩ | ⟨above, begins, different, _, none⟩)
    · cases started
    · have around : above <+: [0, 0, 1] := begins.trans ⟨[1], rfl⟩
      have shorter : above ≠ [0, 0, 1] := by
        rintro rfl
        simp at begins
      exact none [0, 0, 1] around shorter (.inr ⟨[1], rfl⟩)
        ⟨_, inner, isFunction_functionRecord 'g' _⟩
  refine ⟨tree, left, right, by rw [came], ?_, by rw [isSemi, outside]; rfl⟩
  exact Record.functionAt_nil.mpr (isFunction_functionRecord 'f' _)

end Bash

end ShellTree
