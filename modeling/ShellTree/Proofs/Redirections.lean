import ShellTree.Proofs.FunctionNesting
import ShellTree.Proofs.WalkClearing
import ShellTree.Proofs.WordReadings

/-!
# Every redirection is read

The redirections of a command are those of the commands inside, those of its
words if it is a simple command, and those around it.  Reading loses none of
them.  Only a job takes the ones around it into itself, and they are put around
the job again; the tree holds them twice.
-/

namespace ShellTree

/-! ## The redirections in a tree -/

namespace Datum

theorem sizeOf_lt_of_mem_contents {inner datum : Datum} (held : inner ∈ datum.contents) :
    sizeOf inner < sizeOf datum := by
  by_cases isProcess : datum.tag? = some .process
  · cases datum with
    | part value =>
        cases value <;> simp [tag?, WordPart.tag] at isProcess
        simp only [contents, List.mem_cons, List.not_mem_nil, or_false] at held
        rcases held with rfl | rfl <;> simp <;> omega
    | command value => cases value <;> simp [tag?, Command.tag] at isProcess
    | redir value => cases value <;> simp [tag?, Redirection.tag] at isProcess
    | _ => simp [tag?] at isProcess
  · rw [contents_eq_inside isProcess] at held
    exact sizeOf_lt_of_mem_inside held

/-- The datum itself, if it is a redirection. -/
def asRedir : Datum → List Datum
  | .redir value => [.redir value]
  | _ => []

/-- The redirections anywhere in a datum, from the outside in. -/
def redirections (datum : Datum) : List Datum :=
  datum.asRedir ++ datum.contents.attach.flatMap fun inner => inner.1.redirections
termination_by sizeOf datum
decreasing_by exact sizeOf_lt_of_mem_contents inner.2

theorem redirections_eq (datum : Datum) :
    datum.redirections = datum.asRedir ++ datum.contents.flatMap redirections := by
  rw [redirections, List.flatMap_subtype, List.unattach_attach]
  simp

@[simp]
theorem redirections_command (value : Command) :
    (command value).redirections = value.fields.flatMap redirections := by
  rw [redirections_eq]
  rfl

@[simp]
theorem redirections_seq (kind : SeqKind) (items : List Datum) :
    (seq kind items).redirections = items.flatMap redirections := by
  rw [redirections_eq]
  rfl

@[simp]
theorem redirections_dict (fields : List (String × Datum)) :
    (dict fields).redirections = fields.flatMap fun field => field.2.redirections := by
  rw [redirections_eq, contents_eq_inside (by simp [tag?])]
  simp [asRedir, inside, List.flatMap_map]

@[simp]
theorem redirections_assign (var val : Datum) :
    (assign var val).redirections = var.redirections ++ val.redirections := by
  rw [redirections_eq, contents_eq_inside (by simp [tag?])]
  simp [asRedir, inside]

/-- A datum that holds nothing holds no redirections. -/
theorem redirections_leaf {datum : Datum} (self : datum.asRedir = [])
    (empty : datum.contents = []) : datum.redirections = [] := by
  rw [redirections_eq, self, empty]
  rfl

@[simp]
theorem redirections_null : null.redirections = [] :=
  redirections_leaf rfl rfl

@[simp]
theorem redirections_bool (value : Bool) : (bool value).redirections = [] :=
  redirections_leaf rfl rfl

@[simp]
theorem redirections_text (value : String) : (text value).redirections = [] :=
  redirections_leaf rfl rfl

end Datum

namespace Bash

mutual

@[simp]
theorem redirections_datum : (record : Record) → record.datum.redirections = []
  | .null => Datum.redirections_null
  | .bool value => Datum.redirections_bool value
  | .int _ => Datum.redirections_leaf rfl rfl
  | .float _ => Datum.redirections_leaf rfl rfl
  | .text value => Datum.redirections_text value
  | .bytes _ => Datum.redirections_text _
  | .list items => by
      rw [Record.datum, Datum.redirections_seq, redirections_dataOfItems items]
  | .object fields => by
      rw [Record.datum, Datum.redirections_dict, redirections_dataOfFields fields]

theorem redirections_dataOfItems :
    (items : List Record) → (Record.dataOfItems items).flatMap Datum.redirections = []
  | [] => rfl
  | item :: rest => by
      rw [Record.dataOfItems, List.flatMap_cons, redirections_datum item,
        redirections_dataOfItems rest]
      rfl

theorem redirections_dataOfFields : (fields : List (String × Record)) →
    ((Record.dataOfFields fields).flatMap fun field => field.2.redirections) = []
  | [] => rfl
  | (key, value) :: rest => by
      rw [Record.dataOfFields, List.flatMap_cons, redirections_datum value,
        redirections_dataOfFields rest]
      rfl

end

theorem redirections_cell (code : Int) : (cell code).redirections = [] := by
  have number : (Datum.int code).redirections = [] := Datum.redirections_leaf rfl rfl
  rw [cell, Datum.redirections_eq]
  simp [Datum.asRedir, Datum.contents, Datum.inside, WordPart.fields, number]

theorem IsWord.redirections_eq {word : Datum} (isWord : IsWord word) : word.redirections = [] := by
  obtain ⟨codes, rfl⟩ := isWord
  simp [redirections_cell]

theorem AreWords.redirections_eq {words : Datum} (areWords : AreWords words) :
    words.redirections = [] := by
  obtain ⟨items, rfl, each⟩ := areWords
  rw [Datum.redirections_seq, List.flatMap_eq_nil_iff]
  exact fun word held => (each word held).redirections_eq

theorem IsAssign.redirections_eq {assignment : Datum} (isAssign : IsAssign assignment) :
    assignment.redirections = [] := by
  obtain ⟨name, word, isWord, rfl⟩ := isAssign
  simp [isWord.redirections_eq]

theorem IsName.redirections_eq {name : Datum} (isName : IsName name) : name.redirections = [] := by
  rcases isName with rfl | isWord
  · exact Datum.redirections_null
  · exact isWord.redirections_eq

theorem IsDescriptor.redirections_eq {fd : Datum} (isFd : IsDescriptor fd) :
    fd.redirections = [] := by
  cases isFd with
  | named isName => simp [isName.redirections_eq]
  | fixed dest => simp

/-- A redirection that is read holds no other. -/
theorem IsRedir.redirections_eq {redir : Datum} (isRedir : IsRedir redir) :
    redir.redirections = [redir] := by
  rw [Datum.redirections_eq]
  cases isRedir with
  | file isFd isName =>
      simp [Datum.asRedir, Datum.contents, Datum.inside, Redirection.fields, isFd.redirections_eq,
        isName.redirections_eq]
  | dup isFd isTarget =>
      simp [Datum.asRedir, Datum.contents, Datum.inside, Redirection.fields, isFd.redirections_eq,
        isTarget.redirections_eq]
  | heredoc eof isFd isName =>
      simp [Datum.asRedir, Datum.contents, Datum.inside, Redirection.fields, isFd.redirections_eq,
        isName.redirections_eq]
  | single isFd =>
      simp [Datum.asRedir, Datum.contents, Datum.inside, Redirection.fields, isFd.redirections_eq]

theorem Condition.redirections_eq {tree : Datum} (isTest : Condition tree) :
    tree.redirections = [] := by
  induction isTest with
  | absent => exact Datum.redirections_null
  | test isName _ _ first second =>
      simp [Command.fields, isName.redirections_eq, first, second]

/-! ## The redirections in a record -/

namespace Record

/-- The items of a record that is a list. -/
def entries : Record → List Record
  | .list items => items
  | _ => []

/-- The redirections that stand among the words of a simple command. -/
def wordRedirects (node : Record) : List Record :=
  if node.kind? = some .simple then
    (node.about? .simple).elim [] fun com => com.redirects.entries
  else []

/-- The redirections of all commands in a command. -/
def allRedirects (node : Record) : List Record :=
  (node.commands.attach.flatMap fun inner => inner.1.allRedirects) ++ node.wordRedirects ++
    node.redirects.entries
termination_by sizeOf node
decreasing_by exact sizeOf_lt_of_mem_commands inner.2

/-- The command is a job: an ampersand stands behind the first of its commands. -/
def IsJob (node : Record) : Prop :=
  node.kind? = some .connection ∧ (node.about? .connection).bind joint? = some .ampersand

instance (node : Record) : Decidable node.IsJob :=
  inferInstanceAs (Decidable (_ ∧ _))

/-- The redirections around a job. -/
def ownJobRedirects (node : Record) : List Record :=
  if node.IsJob then node.redirects.entries else []

/-- The redirections around all jobs in a command. -/
def jobRedirects (node : Record) : List Record :=
  (node.commands.attach.flatMap fun inner => inner.1.jobRedirects) ++ node.ownJobRedirects
termination_by sizeOf node
decreasing_by exact sizeOf_lt_of_mem_commands inner.2

theorem allRedirects_eq (node : Record) : node.allRedirects =
    node.commands.flatMap allRedirects ++ node.wordRedirects ++ node.redirects.entries := by
  rw [allRedirects, List.flatMap_subtype, List.unattach_attach]
  simp

theorem jobRedirects_eq (node : Record) :
    node.jobRedirects = node.commands.flatMap jobRedirects ++ node.ownJobRedirects := by
  rw [jobRedirects, List.flatMap_subtype, List.unattach_attach]
  simp

/-- The redirections around jobs are among the redirections. -/
theorem jobRedirects_sublist (node : Record) : node.jobRedirects.Sublist node.allRedirects := by
  have inside (nodes : List Record)
      (each : ∀ inner ∈ nodes, inner.jobRedirects.Sublist inner.allRedirects) :
      (nodes.flatMap jobRedirects).Sublist (nodes.flatMap allRedirects) := by
    induction nodes with
    | nil => exact .slnil
    | cons inner rest ih =>
        obtain ⟨first, each⟩ := List.forall_mem_cons.mp each
        exact first.append (ih each)
  rw [jobRedirects_eq, allRedirects_eq, List.append_assoc]
  refine (inside _ fun inner held => jobRedirects_sublist inner).append ?_
  unfold ownJobRedirects
  split
  · exact List.sublist_append_right _ _
  · exact List.nil_sublist _
termination_by sizeOf node
decreasing_by exact sizeOf_lt_of_mem_commands held

end Record

/-! ## What becomes of the redirections -/

theorem Record.map_val_of_items {record : Record} {inside : List record.Inside}
    (came : record.items = .ok inside) : inside.map Subtype.val = record.entries := by
  cases record with
  | list items =>
      cases came
      simp [Record.entries, Function.comp_def]
  | text value =>
      simp only [Record.items] at came
      split at came <;> cases came
      rfl
  | bytes value =>
      simp only [Record.items] at came
      split at came <;> cases came
      rfl
  | _ => cases came

theorem Record.entries_of_length {record : Record} (empty : record.length = .ok 0) :
    record.entries = [] := by
  cases record with
  | list items => simpa [Record.length, Record.entries] using empty
  | _ => rfl

theorem mapM_append_ok {first second : List Record} {trees others : List Datum}
    (read : first.mapM readRedir = .ok trees) (readOthers : second.mapM readRedir = .ok others) :
    (first ++ second).mapM readRedir = .ok (trees ++ others) := by
  rw [List.mapM_append, read, readOthers]
  rfl

theorem length_of_mapM {records : List Record} {trees : List Datum}
    (read : records.mapM readRedir = .ok trees) : trees.length = records.length := by
  induction records generalizing trees with
  | nil =>
      cases read
      rfl
  | cons record rest ih =>
      rw [List.mapM_cons] at read
      obtain ⟨tree, _, read⟩ := bind_eq_ok_iff.mp read
      obtain ⟨others, readRest, read⟩ := bind_eq_ok_iff.mp read
      cases read
      rw [List.length_cons, List.length_cons, ih readRest]

/-- The redirections that are read hold no others. -/
theorem mapM_of_readRedirs {redirects : Record} {redirs : Datum}
    (came : readRedirs redirects = .ok redirs) :
    redirects.entries.mapM readRedir = .ok redirs.redirections := by
  obtain ⟨items, rfl, each⟩ := always_readRedirs redirects redirs came
  obtain ⟨inside, held, came⟩ := bind_eq_ok_iff.mp came
  obtain ⟨_, read, came⟩ := bind_eq_ok_iff.mp came
  cases came
  rw [← Record.map_val_of_items held, List.mapM_map]
  have single : items.map Datum.redirections = items.map fun item => [item] :=
    List.map_congr_left fun item held => (each item held).redirections_eq
  rw [Datum.redirections_seq, List.flatMap_def, single, ← List.flatMap_def,
    List.flatMap_singleton']
  exact read

theorem Clauses.redirections_eq {trees clauses : List Datum} (inside : Clauses trees clauses) :
    clauses.flatMap Datum.redirections = trees.flatMap Datum.redirections := by
  induction inside with
  | nil => rfl
  | absent areWords _ ih => simp [clause, areWords.redirections_eq, ih]
  | present areWords _ ih => simp [clause, areWords.redirections_eq, ih]

/-- Most commands hold no redirections besides those of the commands inside. -/
theorem Assembled.redirections_eq {node com : Record} {kind : CommandType} {trees : List Datum}
    {session : Session} {tree : Datum} (assembled : Assembled node com kind trees session tree)
    (notSimple : kind ≠ .simple) (notJob : kind = .connection → com.joint? ≠ some .ampersand) :
    tree.redirections = trees.flatMap Datum.redirections := by
  cases assembled with
  | forLoop areWords isWord =>
      simp [Command.fields, areWords.redirections_eq, isWord.redirections_eq]
  | case isWord inside =>
      simp [Command.fields, isWord.redirections_eq, inside.redirections_eq]
  | simple => exact absurd rfl notSimple
  | select areWords isWord =>
      simp [Command.fields, areWords.redirections_eq, isWord.redirections_eq]
  | lastJob joint => exact absurd joint (notJob rfl)
  | job joint => exact absurd joint (notJob rfl)
  | functionDef isWord => simp [Command.fields, isWord.redirections_eq]
  | arith areWords => simp [Command.fields, areWords.redirections_eq]
  | cond isTest => exact isTest.redirections_eq
  | arithFor started tested stepped =>
      simp [Command.fields, started.redirections_eq, tested.redirections_eq,
        stepped.redirections_eq]
  | coproc isWord => simp [Command.fields, isWord.redirections_eq]
  | _ => simp [Command.fields]

/-- A job takes in the redirections around it. -/
theorem Assembled.redirections_of_job {node com : Record} {trees : List Datum} {session : Session}
    {tree : Datum} (assembled : Assembled node com .connection trees session tree)
    (joint : com.joint? = some .ampersand) :
    ∃ redirs, readRedirs node.redirects = .ok redirs ∧
      tree.redirections.Perm (trees.flatMap Datum.redirections ++ redirs.redirections) := by
  have impossible {connector : Connector} (other : com.joint? = some connector)
      (different : connector ≠ .ampersand) {goal : Prop} : goal :=
    absurd (Option.some.inj (other.symm.trans joint)) different
  cases assembled with
  | @lastJob first redirs _ _ redirected =>
      exact ⟨redirs, redirected, by simp [Command.fields]⟩
  | @job first second redirs _ _ redirected =>
      have moved : (redirs.redirections ++ second.redirections).Perm
          (second.redirections ++ redirs.redirections) := List.perm_append_comm
      refine ⟨redirs, redirected, ?_⟩
      simpa [Command.fields] using moved.append_left first.redirections
  | semi other => exact impossible other (by decide)
  | pipe other => exact impossible other (by decide)
  | and other => exact impossible other (by decide)
  | or other => exact impossible other (by decide)

/--
The redirections in a tree are those in the trees of the commands inside, those
among its words, and, in a job, those around it.
-/
theorem Assembled.redirections_perm {node com : Record} {kind : CommandType} {trees : List Datum}
    {session : Session} {tree : Datum} (isKind : node.kind? = some kind)
    (about : node.about? kind = some com) (assembled : Assembled node com kind trees session tree) :
    ∃ worded own, node.wordRedirects.mapM readRedir = .ok worded ∧
      node.ownJobRedirects.mapM readRedir = .ok own ∧
      tree.redirections.Perm (trees.flatMap Datum.redirections ++ worded ++ own) := by
  have isJob : node.IsJob ↔ kind = .connection ∧ com.joint? = some .ampersand := by
    rw [Record.IsJob, isKind, Option.some.injEq]
    refine and_congr_right ?_
    rintro rfl
    rw [about, Option.bind_some]
  have noWords (notSimple : kind ≠ .simple) : node.wordRedirects.mapM readRedir = .ok [] := by
    rw [Record.wordRedirects, isKind, if_neg (by simpa using notSimple)]
    rfl
  have noJob (notJob : ¬ node.IsJob) : node.ownJobRedirects.mapM readRedir = .ok [] := by
    rw [Record.ownJobRedirects, if_neg notJob]
    rfl
  by_cases job : node.IsJob
  · obtain ⟨rfl, joint⟩ := isJob.mp job
    obtain ⟨redirs, redirected, same⟩ := assembled.redirections_of_job joint
    refine ⟨[], redirs.redirections, noWords (by decide), ?_, by simpa using same⟩
    rw [Record.ownJobRedirects, if_pos job]
    exact mapM_of_readRedirs redirected
  · by_cases simple : kind = .simple
    · subst simple
      cases assembled with
      | @simple line assignments arguments redirs _ areAssigns areWords redirected =>
          have noAssigns : assignments.flatMap Datum.redirections = [] :=
            List.flatMap_eq_nil_iff.mpr fun item held => (areAssigns item held).redirections_eq
          have noArguments : arguments.flatMap Datum.redirections = [] :=
            List.flatMap_eq_nil_iff.mpr fun item held => (areWords item held).redirections_eq
          refine ⟨redirs.redirections, [], ?_, noJob job, ?_⟩
          · rw [Record.wordRedirects, if_pos isKind, about]
            exact mapM_of_readRedirs redirected
          · simp [Command.fields, noAssigns, noArguments]
    · have same := assembled.redirections_eq simple fun isConnection joint =>
        job (isJob.mpr ⟨isConnection, joint⟩)
      exact ⟨[], [], noWords simple, noJob job, by simp [same]⟩

/-- What is put around a command are its own redirections. -/
theorem redirections_of_finish {node : Record} {inner tree : Datum}
    (finished : finish node inner = .ok tree) :
    ∃ around, node.redirects.entries.mapM readRedir = .ok around ∧
      tree.redirections = inner.redirections ++ around := by
  obtain ⟨redirected, flags, came, finished⟩ := finish_cases finished
  have same : tree.redirections = redirected.redirections :=
    kept_by_withFlags (fun datum => datum.redirections = redirected.redirections) finished rfl
      (fun same => by simpa [Command.fields] using same)
      (fun same => by simpa [Command.fields] using same)
  rw [same]
  rcases withRedirs_cases came with ⟨empty, rfl⟩ | ⟨redirs, read, rfl⟩
  · refine ⟨[], ?_, (List.append_nil _).symm⟩
    rw [Record.entries_of_length empty]
    rfl
  · exact ⟨redirs.redirections, mapM_of_readRedirs read, by simp [Command.fields]⟩

theorem perm_append_append (first second third fourth : List Datum) :
    ((first ++ second) ++ (third ++ fourth)).Perm ((first ++ third) ++ (second ++ fourth)) := by
  have swapped : (second ++ third).Perm (third ++ second) := List.perm_append_comm
  simpa only [List.append_assoc] using (swapped.append_right fourth).append_left first

/--
What becomes of the redirections of commands: each of them is there once, and
those around jobs are there once more.
-/
def ReadsRedirects (nodes : List Record) (trees : List Datum) : Prop :=
  ∃ once again, (nodes.flatMap Record.allRedirects).mapM readRedir = .ok once ∧
    (nodes.flatMap Record.jobRedirects).mapM readRedir = .ok again ∧
    (trees.flatMap Datum.redirections).Perm (once ++ again)

theorem ReadsRedirects.append {nodes others : List Record} {trees otherTrees : List Datum}
    (first : ReadsRedirects nodes trees) (second : ReadsRedirects others otherTrees) :
    ReadsRedirects (nodes ++ others) (trees ++ otherTrees) := by
  obtain ⟨once, again, read, readAgain, same⟩ := first
  obtain ⟨later, laterAgain, readLater, readLaterAgain, sameLater⟩ := second
  refine ⟨once ++ later, again ++ laterAgain, ?_, ?_, ?_⟩
  · rw [List.flatMap_append]
    exact mapM_append_ok read readLater
  · rw [List.flatMap_append]
    exact mapM_append_ok readAgain readLaterAgain
  · rw [List.flatMap_append]
    exact (same.append sameLater).trans (perm_append_append ..)

/-- From the commands inside to the command: its own redirections come in addition. -/
theorem Completed.readsRedirects {node : Record} {trees : List Datum} {session : Session}
    {tree : Datum} (completed : Completed node trees session tree)
    (inside : ReadsRedirects node.commands trees) : ReadsRedirects [node] [tree] := by
  obtain ⟨isKind, about, assembled, finished⟩ := completed
  obtain ⟨once, again, read, readAgain, same⟩ := inside
  obtain ⟨worded, own, readWorded, readOwn, gathered⟩ := assembled.redirections_perm isKind about
  obtain ⟨around, readAround, finished⟩ := redirections_of_finish finished
  simp only [ReadsRedirects, List.flatMap_singleton]
  refine ⟨once ++ worded ++ around, again ++ own, ?_, ?_, ?_⟩
  · rw [Record.allRedirects_eq]
    exact mapM_append_ok (mapM_append_ok read readWorded) readAround
  · rw [Record.jobRedirects_eq]
    exact mapM_append_ok readAgain readOwn
  · rw [List.append_assoc] at gathered
    have inner := gathered.trans ((same.append_right _).trans (perm_append_append ..))
    have last := perm_append_append (once ++ worded) (again ++ own) around []
    rw [List.append_nil, List.append_nil] at last
    rw [finished]
    exact (inner.append_right around).trans last

theorem Session.readsRedirects_of_follow {session after : Session} {nodes : List Record}
    {trees : List Datum} (came : session.follow (nodes.map .command) = (.ok trees, after))
    (each : ∀ node ∈ nodes, ∀ {session after : Session} {tree : Datum},
      session.read node = (.ok tree, after) → ReadsRedirects [node] [tree]) :
    ReadsRedirects nodes trees := by
  induction nodes generalizing session trees with
  | nil =>
      cases came
      exact ⟨[], [], rfl, rfl, .refl _⟩
  | cons node rest ih =>
      obtain ⟨tree, others, between, read, goesOn, rfl⟩ := follow_command_eq_ok.mp came
      obtain ⟨first, each⟩ := List.forall_mem_cons.mp each
      exact (first read).append (ih goesOn each)

theorem Session.readsRedirects_of_read {session after : Session} {node : Record} {tree : Datum}
    (came : session.read node = (.ok tree, after)) : ReadsRedirects [node] [tree] := by
  obtain ⟨trees, begun, ended, completed, followed, _⟩ := read_cases came
  exact completed.readsRedirects <| readsRedirects_of_follow followed fun inner held _ _ _ came =>
    readsRedirects_of_read came
termination_by sizeOf node
decreasing_by exact Record.sizeOf_lt_of_mem_commands held

/--
Every redirection in a command is read to one in the tree.  Those around jobs,
and only those, are there twice.
-/
theorem redirections_perm_of_read {session after : Session} {node : Record} {tree : Datum}
    (came : session.read node = (.ok tree, after)) :
    ∃ once again, node.allRedirects.mapM readRedir = .ok once ∧
      node.jobRedirects.mapM readRedir = .ok again ∧
      tree.redirections.Perm (once ++ again) ∧ node.jobRedirects.Sublist node.allRedirects ∧
      (tree.redirections.length = node.allRedirects.length ↔ node.jobRedirects = []) := by
  obtain ⟨once, again, read, readAgain, same⟩ := Session.readsRedirects_of_read came
  simp only [List.flatMap_singleton] at read readAgain same
  refine ⟨once, again, read, readAgain, same, node.jobRedirects_sublist, ?_⟩
  rw [same.length_eq, List.length_append, length_of_mapM read, length_of_mapM readAgain,
    Nat.add_eq_left, List.length_eq_zero_iff]

/-- The record of a redirection of the output to a file. -/
def outputRecord (name : Char) : Record :=
  .object [("redirector", .object [("dest", .int 1)]), ("rflags", .list []),
    ("instruction", .int Instruction.output.number),
    ("redirectee", .object [("filename", letterRecord name)]), ("here_doc_eof", .null)]

theorem readRedir_outputRecord (name : Char) : readRedir (outputRecord name) =
    .ok (fileRedir "To" (.tuple [.text "fixed", .int 1]) (wordOf true [name])) := by
  change (readWord (letterRecord name) >>= _) = _
  rw [readWord_letterRecord]
  rfl

/-- The record of a job with redirections around it. -/
def jobRecord (first : Record) (redirects : List Record) : Record :=
  .object [("type", .int CommandType.connection.number), ("flags", .list []),
    ("redirects", .list redirects), ("value", .object [("connection", .object
      [("connector", .int Connector.ampersand.number), ("first", first), ("second", .null)])])]

theorem steps_jobRecord (first : Record) (name : Char) :
    (jobRecord first [outputRecord name]).steps = [.command first] := by
  have read : readRedirs (.list [outputRecord name]) =
      .ok (.list [fileRedir "To" (.tuple [.text "fixed", .int 1]) (wordOf true [name])]) := by
    change ((readRedir (outputRecord name) >>= _) >>= _) = _
    rw [readRedir_outputRecord]
    rfl
  change (Step.command first :: given (readRedirs (.list [outputRecord name])) _) ++
    given ((readRedirs (.list [outputRecord name]) >>= _) >>= _) _ = _
  rw [read]
  rfl

/-- One letter as a job, with its output redirected around it. -/
def redirectedJob : Record :=
  jobRecord (letterCommand 'a') [outputRecord 'f']

theorem reads_redirectedJob : Session.start.Reads redirectedJob .start := by
  obtain ⟨tree, read⟩ : Session.start.Reads (letterCommand 'a') .start := .letter 'a'
  apply Session.Reads.of_follow
  rw [redirectedJob, steps_jobRecord]
  exact Session.follow_command_eq_ok.mpr ⟨tree, [], .start, read, rfl, rfl⟩

theorem commands_redirectedJob : redirectedJob.commands = [letterCommand 'a'] := by
  rw [Record.commands, redirectedJob, steps_jobRecord]
  rfl

theorem allRedirects_redirectedJob : redirectedJob.allRedirects = [outputRecord 'f'] := by
  have letter : (letterCommand 'a').allRedirects = [] := by
    rw [Record.allRedirects_eq, commands_letterCommand]
    rfl
  rw [Record.allRedirects_eq, commands_redirectedJob, List.flatMap_singleton, letter]
  rfl

theorem jobRedirects_redirectedJob : redirectedJob.jobRedirects = [outputRecord 'f'] := by
  have letter : (letterCommand 'a').jobRedirects = [] := by
    rw [Record.jobRedirects_eq, commands_letterCommand]
    rfl
  rw [Record.jobRedirects_eq, commands_redirectedJob, List.flatMap_singleton, letter]
  rfl

/-- The one redirection around a job is in the tree twice. -/
theorem redirections_perm_of_read_redirectedJob :
    ∃ tree, Session.start.read redirectedJob = (.ok tree, .start) ∧
      ∃ once again, redirectedJob.allRedirects.mapM readRedir = .ok once ∧
        redirectedJob.jobRedirects.mapM readRedir = .ok again ∧
        tree.redirections.Perm (once ++ again) ∧
        redirectedJob.jobRedirects.Sublist redirectedJob.allRedirects ∧
        (tree.redirections.length = redirectedJob.allRedirects.length ↔
          redirectedJob.jobRedirects = []) := by
  obtain ⟨tree, read⟩ := reads_redirectedJob
  exact ⟨tree, read, redirections_perm_of_read read⟩

theorem redirections_length_ne_of_job :
    ∃ tree, Session.start.read redirectedJob = (.ok tree, .start) ∧
      redirectedJob.allRedirects = [outputRecord 'f'] ∧ tree.redirections.length = 2 := by
  obtain ⟨tree, read⟩ := reads_redirectedJob
  obtain ⟨once, again, readOnce, readAgain, same⟩ := Session.readsRedirects_of_read read
  simp only [List.flatMap_singleton, allRedirects_redirectedJob,
    jobRedirects_redirectedJob] at readOnce readAgain same
  refine ⟨tree, read, allRedirects_redirectedJob, ?_⟩
  rw [same.length_eq, List.length_append, length_of_mapM readOnce, length_of_mapM readAgain]
  rfl

end Bash

end ShellTree
