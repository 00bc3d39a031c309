import ShellTree.Proofs.Spine

/-!
# Arranged trees

The reader of statements puts commands together in few ways.  It chains the
statements of a list, it joins pipelines to longer ones, it hangs redirections
around a command and never on it, and nothing follows the ampersand of a job.
A tree is arranged if all of it is put together in these ways.

An arranged tree is spined, and each command in it is tidy.
-/

namespace ShellTree

namespace Datum

/-- The datum is a command. -/
def IsCommand (datum : Datum) : Prop :=
  ∃ value, datum = .command value

/-- The datum is a command that is no pipeline. -/
def IsStage (datum : Datum) : Prop :=
  ∃ value, datum = .command value ∧ value.tag ≠ .pipe

end Datum

/-- What the reader fills the fields of a command with. -/
def Command.Tidy : Command → Prop
  | .pipe behind items => behind = .bool false ∧
      ∃ stages, items = .list stages ∧ 2 ≤ stages.length ∧ ∀ stage ∈ stages, stage.IsStage
  | .simple _ _ _ redirs => redirs = .list []
  | .background _ _ _ after _ => after = .null
  | .group body => body.IsCommand
  | _ => True

namespace Datum

/-- A command is tidy, and what is no command need not be. -/
def Tidy : Datum → Prop
  | .command value => value.Tidy
  | _ => True

/-- Every sequence stands on the spine of a list, and every command is tidy. -/
inductive Arranged (lists : List Datum → Prop) : Datum → Prop where
  | spine {first : Datum} {rest : List Datum} (listed : lists (first :: rest))
      (single : ∀ command ∈ first :: rest, command.isTag .semi = false)
      (inside : ∀ command ∈ first :: rest, Arranged lists command) :
      Arranged lists (chain first rest)
  | other {datum : Datum} (single : datum.isTag .semi = false) (tidy : datum.Tidy)
      (inside : ∀ inner ∈ datum.contents, Arranged lists inner) : Arranged lists datum

variable {lists : List Datum → Prop} {datum : Datum}

theorem Arranged.spined (arranged : Arranged lists datum) : Spined lists datum := by
  induction arranged with
  | spine listed single _ ih => exact .spine listed single ih
  | other single _ _ ih => exact .other single ih

/-- What is directly inside an arranged datum is arranged, unless it is a sequence. -/
theorem Arranged.inside (arranged : Arranged lists datum) (single : datum.isTag .semi = false) :
    ∀ inner ∈ datum.contents, Arranged lists inner := by
  induction arranged with
  | @spine first rest _ _ _ ih =>
      cases rest with
      | nil => exact ih first List.mem_cons_self single
      | cons => cases single
  | other _ _ inside => exact inside

/-- The commands in a chain are tidy if those in the chained commands are. -/
theorem tidy_of_reach?_chain {first : Datum} {rest : List Datum}
    (each : ∀ command ∈ first :: rest, ∀ position inner,
      command.reach? position = some inner → inner.Tidy)
    {position : List Nat} {inner : Datum}
    (found : (chain first rest).reach? position = some inner) : inner.Tidy := by
  induction rest generalizing first position with
  | nil => exact each first List.mem_cons_self position inner found
  | cons second rest ih =>
      match position with
      | [] =>
          cases found
          exact trivial
      | 0 :: below => exact each first List.mem_cons_self below inner found
      | 1 :: below =>
          exact ih (fun command member => each command (List.mem_cons_of_mem _ member)) found
      | 2 :: below =>
          -- what is marked there is no command
          cases below with
          | nil =>
              cases found
              exact trivial
          | cons index rest => simp [chain, reach?, contents, inside, Command.fields] at found
      | (index + 3) :: below => simp [chain, reach?, contents, inside, Command.fields] at found

/-- In an arranged tree, every command is tidy. -/
theorem Arranged.tidy_of_reach? (arranged : Arranged lists datum) {position : List Nat}
    {inner : Datum} (found : datum.reach? position = some inner) : inner.Tidy := by
  induction arranged generalizing position inner with
  | spine _ _ _ ih =>
      exact tidy_of_reach?_chain (fun command member _ _ => ih command member) found
  | @other datum _ tidy _ ih =>
      cases position with
      | nil =>
          cases found
          exact tidy
      | cons index rest =>
          obtain ⟨next, here, found⟩ := Option.bind_eq_some_iff.mp found
          exact ih next (List.mem_of_getElem? here) found

end Datum

/-! ## Arranged constructs -/

variable {lists : List Datum → Prop}

/-- Each of several data is arranged. -/
def EachArranged (lists : List Datum → Prop) (items : List Datum) : Prop :=
  ∀ item ∈ items, item.Arranged lists

@[simp] theorem eachArranged_nil : EachArranged lists [] := by
  simp [EachArranged]

@[simp] theorem eachArranged_cons {item : Datum} {rest : List Datum} :
    EachArranged lists (item :: rest) ↔ item.Arranged lists ∧ EachArranged lists rest :=
  List.forall_mem_cons

@[simp] theorem eachArranged_append {first second : List Datum} :
    EachArranged lists (first ++ second) ↔ EachArranged lists first ∧ EachArranged lists second :=
  List.forall_mem_append

theorem arranged_leaf {datum : Datum} (self : datum.tag? = none) (empty : datum.contents = []) :
    datum.Arranged lists := by
  refine .other (by simp [Datum.isTag, self]) ?_ (by simp [empty])
  cases datum with
  | command => cases self
  | _ => exact trivial

@[simp] theorem arranged_null : Datum.null.Arranged lists :=
  arranged_leaf rfl rfl

@[simp] theorem arranged_bool (value : Bool) : (Datum.bool value).Arranged lists :=
  arranged_leaf rfl rfl

@[simp] theorem arranged_int (value : Int) : (Datum.int value).Arranged lists :=
  arranged_leaf rfl rfl

@[simp] theorem arranged_text (value : String) : (Datum.text value).Arranged lists :=
  arranged_leaf rfl rfl

@[simp] theorem arranged_seq {kind : SeqKind} {items : List Datum}
    (each : EachArranged lists items) : (Datum.seq kind items).Arranged lists :=
  .other rfl trivial each

theorem eachArranged_lists {words : List (List Datum)}
    (each : ∀ word ∈ words, EachArranged lists word) : EachArranged lists (words.map Datum.list) :=
  List.forall_mem_map.mpr fun word member => arranged_seq (each word member)

theorem eachArranged_flatten {words : List (List Datum)}
    (each : ∀ word ∈ words, EachArranged lists word) : EachArranged lists words.flatten := by
  intro part member
  obtain ⟨word, inside, held⟩ := List.mem_flatten.mp member
  exact each word inside part held

mutual

theorem arranged_ofJson : ∀ json : Json, (Datum.ofJson json).Arranged lists
  | .null => arranged_leaf rfl rfl
  | .bool _ => arranged_leaf rfl rfl
  | .int _ => arranged_leaf rfl rfl
  | .float _ => arranged_leaf rfl rfl
  | .str _ => arranged_leaf rfl rfl
  | .arr values => arranged_seq (eachArranged_ofJsonItems values)
  | .obj fields => .other rfl trivial (arranged_ofJsonFields fields)

theorem eachArranged_ofJsonItems : ∀ values : List Json,
    EachArranged lists (Datum.ofJsonItems values)
  | [] => eachArranged_nil
  | value :: rest => eachArranged_cons.mpr ⟨arranged_ofJson value, eachArranged_ofJsonItems rest⟩

theorem arranged_ofJsonFields : ∀ fields : List (String × Json),
    EachArranged lists ((Datum.ofJsonFields fields).map Prod.snd)
  | [] => eachArranged_nil
  | (_, value) :: rest =>
      eachArranged_cons.mpr ⟨arranged_ofJson value, arranged_ofJsonFields rest⟩

end

/-- An arranged command. -/
structure ArrangedBody (lists : List Datum → Prop) (node : Datum) : Prop where
  command : node.IsCommand
  arranged : node.Arranged lists

/-- An arranged command that is no sequence. -/
structure ArrangedCommand (lists : List Datum → Prop) (node : Datum) : Prop
    extends ArrangedBody lists node where
  single : node.isTag .semi = false

theorem ArrangedCommand.spined {node : Datum} (arranged : ArrangedCommand lists node) :
    SpinedCommand lists node :=
  ⟨arranged.single, arranged.arranged.spined⟩

/-- A command is no sequence and is arranged, if it is tidy and its fields are arranged. -/
theorem ArrangedCommand.of_fields {value : Command} (apart : (value.tag == .semi) = false)
    (tidy : value.Tidy) (fields : EachArranged lists value.fields) :
    ArrangedCommand lists (.command value) := by
  have single : (Datum.command value).isTag .semi = false := by
    simpa [Datum.isTag, Datum.tag?] using apart
  exact ⟨⟨⟨value, rfl⟩, .other single tidy fields⟩, single⟩

theorem arrangedCommand_empty : ArrangedCommand lists (.command .empty) :=
  .of_fields rfl rfl (by simp [Command.empty, Command.fields])

/-- A chain of arranged commands that make up a list is arranged. -/
theorem arrangedBody_chain {first : Datum} {rest : List Datum} (listed : lists (first :: rest))
    (each : ∀ command ∈ first :: rest, ArrangedCommand lists command) :
    ArrangedBody lists (chain first rest) where
  command := by
    cases rest with
    | nil => exact (each first List.mem_cons_self).command
    | cons => exact ⟨_, rfl⟩
  arranged := .spine listed (fun command member => (each command member).single)
    fun command member => (each command member).arranged

theorem arranged_part {part : WordPart} (fields : EachArranged lists part.fields) :
    (Datum.part part).Arranged lists := by
  have single : (Datum.part part).isTag .semi = false := by
    cases part <;> rfl
  have same : (Datum.part part).contents = part.fields := by
    cases part <;> rfl
  exact .other single trivial (same ▸ fields)

theorem eachArranged_part {part : WordPart} (fields : EachArranged lists part.fields) :
    EachArranged lists [.part part] :=
  List.forall_mem_singleton.mpr (arranged_part fields)

theorem arranged_redir {redir : Redirection} (fields : EachArranged lists redir.fields) :
    (Datum.redir redir).Arranged lists := by
  have single : (Datum.redir redir).isTag .semi = false := by
    cases redir <;> rfl
  exact .other single trivial fields

end ShellTree
