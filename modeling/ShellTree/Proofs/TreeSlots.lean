import ShellTree.Proofs.DatumInside
import ShellTree.Proofs.FunctionNesting
import ShellTree.Tree.Export

/-!
# What fills the slots of a tree

A tree that has been read holds in every slot what belongs there: words and
numbers as the record has them, flags that are always the same, and commands.
The mark of a list is told by the session in which the list has been read, so
the slots are filled one after the other, while the session changes.
-/

namespace ShellTree

namespace Bash

/-- The kinds of slots in the constructs that are read. -/
inductive Slot where
  /-- A datum as it stands in the record. -/
  | plain
  /-- A flag that is set. -/
  | fixed
  /-- A flag that may be set or not. -/
  | loose
  /-- The mark of a list. -/
  | mark
  | word
  /-- A word, or nothing. -/
  | name
  | descriptor
  | assign
  | redir
  | command
  /-- A command, or nothing. -/
  | optional
  /-- A command that a loop tests, where that of an `until` loop is inverted. -/
  | test
  | clause
  | each (slot : Slot)

/-- The slots of a construct. -/
def slotsOf : Tag → List Slot
  | .pipe => [.plain, .each .command]
  | .simple => [.plain, .each .assign, .each .word, .each .redir]
  | .subshell => [.plain, .command, .each .redir]
  | .and => [.command, .command, .fixed]
  | .or => [.command, .command, .fixed]
  | .semi => [.command, .command, .mark]
  | .not => [.command, .fixed]
  | .redirected => [.plain, .command, .each .redir]
  | .background => [.plain, .command, .each .redir, .optional, .fixed]
  | .defun => [.plain, .word, .command, .fixed]
  | .forLoop => [.plain, .each .word, .command, .word]
  | .whileLoop => [.test, .command]
  | .ifElse => [.command, .command, .optional]
  | .case => [.plain, .word, .each .clause]
  | .select => [.plain, .word, .command, .each .word]
  | .arith => [.plain, .each .word]
  | .cond => [.plain, .plain, .name, .optional, .optional, .plain]
  | .arithFor => [.plain, .each .word, .each .word, .each .word, .command]
  | .coproc => [.word, .command]
  | .time => [.plain, .command]
  | .group => [.command]
  | .file => [.plain, .descriptor, .name]
  | .dup => [.plain, .descriptor, .descriptor, .plain]
  | .heredoc => [.plain, .descriptor, .name, .plain, .plain]
  | .single => [.plain, .descriptor]
  | _ => []

namespace Slot

/-- The datum fills the slot by itself. -/
def Leaf (session : Session) : Slot → Datum → Prop
  | .plain, datum => datum.untyped = datum
  | .fixed, datum => datum = .bool true
  | .loose, _ => True
  | .mark, datum => datum = .bool (!session.inFunction)
  | .word, datum => IsWord datum
  | .name, datum => IsName datum
  | .descriptor, datum => IsDescriptor datum
  | .assign, datum => IsAssign datum
  | .optional, datum => datum = .null
  | _, _ => False

/-- The slots inside a datum that fills a slot. -/
def inner? : Slot → Datum → Option (List Slot)
  | .command, .command value => some (slotsOf value.tag)
  | .optional, .command value => some (slotsOf value.tag)
  | .test, .command (.not ..) => some [.command, .loose]
  | .test, .command value => some (slotsOf value.tag)
  | .redir, .redir value => some (slotsOf value.tag)
  | .clause, .dict [("cpattern", _), ("cbody", _), ("fallthrough", _)] =>
      some [.each .word, .optional, .plain]
  | .each slot, .seq .list items => some (List.replicate items.length slot)
  | _, _ => none

end Slot

/-- The session in which what is inside a datum is read. -/
def Session.within (session : Session) (datum : Datum) : Session :=
  if datum.isTag .defun then ⟨true⟩ else session

/-- The session after a datum, where the one after what is inside is given. -/
def Session.beyond (session : Session) (datum : Datum) : Session :=
  if datum.isTag .defun then ⟨false⟩ else session

/-- The data fill the slots, from one session to another. -/
inductive Fills : Session → List Slot → List Datum → Session → Prop where
  | nil {session : Session} : Fills session [] [] session
  | leaf {session after : Session} {slot : Slot} {slots : List Slot} {datum : Datum}
      {data : List Datum} (isLeaf : slot.Leaf session datum)
      (following : Fills session slots data after) :
      Fills session (slot :: slots) (datum :: data) after
  | node {session between after : Session} {slot : Slot} {slots inner : List Slot}
      {datum : Datum} {data : List Datum} (known : slot.inner? datum = some inner)
      (inside : Fills (session.within datum) inner datum.inside between)
      (following : Fills (between.beyond datum) slots data after) :
      Fills session (slot :: slots) (datum :: data) after

namespace Fills

variable {session between after : Session} {slot : Slot} {slots others : List Slot}
  {datum : Datum} {data more : List Datum}

theorem append (first : Fills session slots data between)
    (second : Fills between others more after) :
    Fills session (slots ++ others) (data ++ more) after := by
  induction first with
  | nil => exact second
  | leaf isLeaf _ ih => exact .leaf isLeaf (ih second)
  | node known inside _ _ ih => exact .node known inside (ih second)

theorem cons (first : Fills session [slot] [datum] between)
    (second : Fills between slots data after) :
    Fills session (slot :: slots) (datum :: data) after :=
  first.append second

theorem split (fills : Fills session (slot :: slots) (datum :: data) after) :
    ∃ between, Fills session [slot] [datum] between ∧ Fills between slots data after := by
  cases fills with
  | leaf isLeaf following => exact ⟨session, .leaf isLeaf .nil, following⟩
  | node known inside following => exact ⟨_, .node known inside .nil, following⟩

theorem each {items : List Datum}
    (inside : Fills session (List.replicate items.length slot) items after) :
    Fills session [.each slot] [.list items] after :=
  .node rfl inside .nil

/-- Data that leave the session as it is can be filled in one by one. -/
theorem each_of_forall {items : List Datum}
    (all : ∀ item ∈ items, Fills session [slot] [item] session) :
    Fills session [.each slot] [.list items] session := by
  refine .each ?_
  induction items with
  | nil => exact .nil
  | cons item rest ih =>
      obtain ⟨first, all⟩ := List.forall_mem_cons.mp all
      exact first.cons (ih all)

theorem optional (fills : Fills session [.command] [datum] after) :
    Fills session [.optional] [datum] after := by
  cases fills with
  | leaf isLeaf _ => exact isLeaf.elim
  | node known inside following =>
      cases datum with
      | command value => exact .node known inside following
      | _ => cases known

theorem test (fills : Fills session [.command] [datum] after) :
    Fills session [.test] [datum] after := by
  cases fills with
  | leaf isLeaf _ => exact isLeaf.elim
  | node known inside following =>
      cases datum with
      | command value =>
          cases known
          cases value with
          | not body flag =>
              obtain ⟨between, first, second⟩ := inside.split
              cases second with
              | leaf _ last =>
                  cases last
                  exact .node rfl (first.cons (.leaf trivial .nil)) following
              | node known => cases known
          | _ => exact .node rfl inside following
      | _ => cases known

end Fills

/-! ## What is read fills the slots -/

mutual

theorem untyped_datum : (record : Record) → record.datum.untyped = record.datum
  | .null => rfl
  | .bool _ => rfl
  | .int _ => rfl
  | .float _ => rfl
  | .text _ => rfl
  | .bytes _ => rfl
  | .list items => by rw [Record.datum, Datum.untyped, untypedItems_dataOfItems items]
  | .object fields => by rw [Record.datum, Datum.untyped, untypedFields_dataOfFields fields]

theorem untypedItems_dataOfItems : (items : List Record) →
    untypedItems (Record.dataOfItems items) = Record.dataOfItems items
  | [] => rfl
  | item :: rest => by
      rw [Record.dataOfItems, untypedItems, untyped_datum item, untypedItems_dataOfItems rest]

theorem untypedFields_dataOfFields : (fields : List (String × Record)) →
    untypedFields (Record.dataOfFields fields) = Record.dataOfFields fields
  | [] => rfl
  | (key, value) :: rest => by
      rw [Record.dataOfFields, untypedFields, untyped_datum value, untypedFields_dataOfFields rest]

end

theorem AreWords.fills {words : Datum} (areWords : AreWords words) (session : Session) :
    Fills session [.each .word] [words] session := by
  obtain ⟨items, rfl, each⟩ := areWords
  exact .each_of_forall fun item held => .leaf (each item held) .nil

theorem IsRedir.fills {redir : Datum} (isRedir : IsRedir redir) (session : Session) :
    Fills session [.redir] [redir] session := by
  cases isRedir with
  | file isFd isName => exact .node rfl (.leaf rfl <| .leaf isFd <| .leaf isName .nil) .nil
  | dup isFd isTarget =>
      exact .node rfl (.leaf rfl <| .leaf isFd <| .leaf isTarget <| .leaf rfl .nil) .nil
  | heredoc eof isFd isName =>
      exact .node rfl (.leaf rfl <| .leaf isFd <| .leaf isName <| .leaf rfl <|
        .leaf (untyped_datum eof) .nil) .nil
  | single isFd => exact .node rfl (.leaf rfl <| .leaf isFd .nil) .nil

theorem AreRedirs.fills {redirs : Datum} (areRedirs : AreRedirs redirs) (session : Session) :
    Fills session [.each .redir] [redirs] session := by
  obtain ⟨items, rfl, each⟩ := areRedirs
  exact .each_of_forall fun item held => (each item held).fills session

theorem Condition.fills {tree : Datum} (isTest : Condition tree) (session : Session) :
    Fills session [.optional] [tree] session := by
  induction isTest with
  | absent => exact .leaf rfl .nil
  | test isName _ _ first second =>
      exact .node rfl (.leaf (untyped_datum _) <| .leaf (untyped_datum _) <| .leaf isName <|
        .cons first <| .cons second <| .leaf rfl .nil) .nil

theorem Clauses.fills {trees clauses : List Datum} {session after : Session}
    (isClauses : Clauses trees clauses)
    (inside : Fills session (List.replicate trees.length .command) trees after) :
    Fills session (List.replicate clauses.length .clause) clauses after := by
  induction isClauses generalizing session with
  | nil => exact inside
  | absent areWords _ ih =>
      exact .node rfl (.cons (areWords.fills _) <| .leaf rfl <| .leaf rfl .nil) (ih inside)
  | present areWords _ ih =>
      obtain ⟨between, first, inside⟩ := inside.split
      exact .node rfl (.cons (areWords.fills _) <| .cons first.optional <| .leaf rfl .nil)
        (ih inside)

/-- The commands inside fill the slots in which they have been put. -/
theorem Assembled.fills {node com : Record} {kind : CommandType} {trees : List Datum}
    {session ended after : Session} {tree : Datum}
    (assembled : Assembled node com kind trees after tree)
    (same : kind ≠ .functionDef → ended = after)
    (inside : Fills session (List.replicate trees.length .command) trees ended) :
    ∃ value, tree = .command value ∧ Fills session (slotsOf value.tag) value.fields ended := by
  have line (record : Record) := untyped_datum record
  cases assembled with
  | forLoop areWords isWord =>
      exact ⟨_, rfl, .leaf (line _) <| .cons (areWords.fills _) <| .cons inside <|
        .leaf isWord .nil⟩
  | case isWord isClauses =>
      exact ⟨_, rfl, .leaf (line _) <| .leaf isWord <| .each (isClauses.fills inside)⟩
  | whileLoop =>
      obtain ⟨between, first, second⟩ := inside.split
      exact ⟨_, rfl, .cons first.test second⟩
  | untilLoop =>
      obtain ⟨between, first, second⟩ := inside.split
      exact ⟨_, rfl, .node rfl (first.cons (.leaf trivial .nil)) second⟩
  | ifThen => exact ⟨_, rfl, inside.append (.leaf rfl .nil)⟩
  | ifElse =>
      obtain ⟨between, first, inside⟩ := inside.split
      obtain ⟨last, second, third⟩ := inside.split
      exact ⟨_, rfl, .cons first <| .cons second third.optional⟩
  | simple areAssigns areWords redirected =>
      cases inside
      exact ⟨_, rfl, .leaf (line _) <|
        .cons (.each_of_forall fun item held => .leaf (areAssigns item held) .nil) <|
        .cons (.each_of_forall fun item held => .leaf (areWords item held) .nil) <|
        (always_readRedirs _ _ redirected).fills _⟩
  | select areWords isWord =>
      exact ⟨_, rfl, .leaf (line _) <| .leaf isWord <| .cons inside (areWords.fills _)⟩
  | lastJob joint redirected =>
      exact ⟨_, rfl, .leaf rfl <| .cons inside <|
        .cons ((always_readRedirs _ _ redirected).fills _) <| .leaf rfl <| .leaf rfl .nil⟩
  | job joint redirected =>
      obtain ⟨between, first, second⟩ := inside.split
      exact ⟨_, rfl, .leaf rfl <| .cons first <|
        .cons ((always_readRedirs _ _ redirected).fills _) <| .cons second.optional <|
        .leaf rfl .nil⟩
  | semi joint =>
      cases same (by decide)
      exact ⟨_, rfl, inside.append (.leaf rfl .nil)⟩
  | pipe joint => exact ⟨_, rfl, .leaf rfl (.each inside)⟩
  | and joint => exact ⟨_, rfl, inside.append (.leaf rfl .nil)⟩
  | or joint => exact ⟨_, rfl, inside.append (.leaf rfl .nil)⟩
  | functionDef isWord =>
      exact ⟨_, rfl, .leaf (line _) <| .leaf isWord <| inside.append (.leaf rfl .nil)⟩
  | group => exact ⟨_, rfl, inside⟩
  | arith areWords =>
      cases inside
      exact ⟨_, rfl, .leaf (line _) (areWords.fills _)⟩
  | cond isTest =>
      cases inside
      cases isTest with
      | test isName first second =>
          exact ⟨_, rfl, .leaf (line _) <| .leaf (line _) <| .leaf isName <|
            .cons (first.fills _) <| .cons (second.fills _) <| .leaf rfl .nil⟩
  | arithFor started tested stepped =>
      exact ⟨_, rfl, .leaf (line _) <| .cons (started.fills _) <| .cons (tested.fills _) <|
        .cons (stepped.fills _) inside⟩
  | subshell => exact ⟨_, rfl, .leaf (line _) <| .cons inside <| .each .nil⟩
  | coproc isWord => exact ⟨_, rfl, .leaf isWord inside⟩

theorem Assembled.isTag_defun {node com : Record} {kind : CommandType} {trees : List Datum}
    {session : Session} {tree : Datum} (assembled : Assembled node com kind trees session tree) :
    tree.isTag .defun = decide (kind = .functionDef) := by
  cases assembled with
  | cond isTest =>
      cases isTest
      rfl
  | _ => rfl

theorem Session.fills_of_follow {session after : Session} {nodes : List Record}
    {trees : List Datum} (came : session.follow (nodes.map .command) = (.ok trees, after))
    (each : ∀ node ∈ nodes, ∀ {session after : Session} {tree : Datum},
      session.read node = (.ok tree, after) → Fills session [.command] [tree] after) :
    Fills session (List.replicate trees.length .command) trees after := by
  induction nodes generalizing session trees with
  | nil =>
      cases came
      exact .nil
  | cons node rest ih =>
      obtain ⟨tree, others, between, read, goesOn, rfl⟩ := follow_command_eq_ok.mp came
      obtain ⟨first, each⟩ := List.forall_mem_cons.mp each
      exact (first read).cons (ih goesOn each)

/-- What is read from a command fills the slot of a command. -/
theorem Session.fills_of_read {session after : Session} {node : Record} {tree : Datum}
    (came : session.read node = (.ok tree, after)) : Fills session [.command] [tree] after := by
  obtain ⟨trees, begun, ended, completed, followed, which⟩ := read_cases came
  have inside := fills_of_follow followed fun inner held _ _ _ came => fills_of_read came
  obtain @⟨kind, com, inner, isKind, about, assembled, finished⟩ := completed
  have isFunction : node.IsFunction ↔ kind = .functionDef := by
    rw [Record.IsFunction, isKind, Option.some.injEq]
  have isDefun := assembled.isTag_defun
  have filled : Fills session [.command] [inner] after := by
    rcases which with ⟨function, rfl, rfl⟩ | ⟨notFunction, rfl, rfl⟩
    · have function := isFunction.mp function
      rw [decide_eq_true function] at isDefun
      obtain ⟨value, rfl, filled⟩ := assembled.fills (absurd function) inside
      have within : session.within (.command value) = ⟨true⟩ := if_pos isDefun
      have beyond : ended.beyond (.command value) = ⟨false⟩ := if_pos isDefun
      exact .node rfl (within ▸ filled) (beyond ▸ .nil)
    · rw [decide_eq_false (notFunction ∘ isFunction.mpr)] at isDefun
      obtain ⟨value, rfl, filled⟩ := assembled.fills (fun _ => rfl) inside
      have within : begun.within (.command value) = begun := by simp [within, isDefun]
      have beyond : after.beyond (.command value) = after := by simp [beyond, isDefun]
      exact .node rfl (within.symm ▸ filled) (beyond.symm ▸ .nil)
  refine kept_by_finish (fun tree => Fills session [.command] [tree] after) finished filled ?_ ?_ ?_
  · intro redirs read
    exact .node rfl (.leaf rfl <| .cons filled <| (always_readRedirs _ _ read).fills _) .nil
  · intro inner filled
    exact .node rfl (filled.cons <| .leaf rfl .nil) .nil
  · intro inner posix filled
    exact .node rfl (.leaf rfl filled) .nil
termination_by sizeOf node
decreasing_by exact Record.sizeOf_lt_of_mem_commands held

end Bash

end ShellTree
