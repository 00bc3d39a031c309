import ShellTree.Walk

/-!
# What is inside a datum

The data directly inside a construct are its fields, those inside a sequence
its items, and those inside a record its values.  The substitution of a process
counts as a leaf.  A position is a path from one datum to another inside it.

A replacement answers some data with others.  The tree with its outermost
answered data replaced has the answers at their positions, and keeps the
construct and the plain fields of everything that is neither answered nor inside
something answered.
-/

namespace ShellTree

/-- A command with other fields in place of its own. -/
def Command.withFields : Command → List Datum → Command
  | .pipe .., [behind, items] => .pipe behind items
  | .simple .., [line, assignments, arguments, redirs] =>
      .simple line assignments arguments redirs
  | .subshell .., [line, body, redirs] => .subshell line body redirs
  | .and .., [left, right, noBraces] => .and left right noBraces
  | .or .., [left, right, noBraces] => .or left right noBraces
  | .semi .., [left, right, semicolon] => .semi left right semicolon
  | .not .., [body, noBraces] => .not body noBraces
  | .redirected .., [line, node, redirs] => .redirected line node redirs
  | .background .., [line, node, redirs, after, noBraces] =>
      .background line node redirs after noBraces
  | .defun .., [line, name, body, bashMode] => .defun line name body bashMode
  | .forLoop .., [line, argument, body, name] => .forLoop line argument body name
  | .whileLoop .., [test, body] => .whileLoop test body
  | .ifElse .., [test, thenBranch, elseBranch] => .ifElse test thenBranch elseBranch
  | .case .., [line, argument, cases] => .case line argument cases
  | .select .., [line, name, body, choices] => .select line name body choices
  | .arith .., [line, body] => .arith line body
  | .cond .., [line, kind, op, left, right, inverted] => .cond line kind op left right inverted
  | .arithFor .., [line, start, test, step, action] => .arithFor line start test step action
  | .coproc .., [name, body] => .coproc name body
  | .time .., [posix, node] => .time posix node
  | .group .., [body] => .group body
  | command, _ => command

/-- A part of a word with other fields in place of its own. -/
def WordPart.withFields : WordPart → List Datum → WordPart
  | .char .., [code, bashMode] => .char code bashMode
  | .escaped .., [code] => .escaped code
  | .tilde .., [user] => .tilde user
  | .arith .., [arg] => .arith arg
  | .param .., [format, nullTest, var, arg] => .param format nullTest var arg
  | .quoted .., [arg] => .quoted arg
  | .command .., [node] => .command node
  | part, _ => part

/-- A redirection with other fields in place of its own. -/
def Redirection.withFields : Redirection → List Datum → Redirection
  | .file .., [kind, fd, arg] => .file kind fd arg
  | .dup .., [kind, fd, arg, move] => .dup kind fd arg move
  | .heredoc .., [kind, fd, arg, killLeading, eof] => .heredoc kind fd arg killLeading eof
  | .single .., [kind, fd] => .single kind fd
  | redirection, _ => redirection

namespace Datum

/-- The data directly inside a datum. -/
def inside : Datum → List Datum
  | .seq _ items => items
  | .dict fields => fields.map Prod.snd
  | .command value => value.fields
  | .part (.process ..) => []
  | .part value => value.fields
  | .redir value => value.fields
  | .assign var val => [var, val]
  | _ => []

/-- The data directly inside a datum, those in the substitution of a process included. -/
def contents : Datum → List Datum
  | .part (.process op node) => [op, node]
  | datum => datum.inside

/-- A datum with others in place of those directly inside it; all else is kept. -/
def withInside : Datum → List Datum → Datum
  | .seq kind _, values => .seq kind values
  | .dict fields, values => .dict ((fields.map Prod.fst).zip values)
  | .command value, values => .command (value.withFields values)
  | .part value, values => .part (value.withFields values)
  | .redir value, values => .redir (value.withFields values)
  | .assign .., [var, val] => .assign var val
  | datum, _ => datum

theorem withInside_inside (datum : Datum) : datum.withInside datum.inside = datum := by
  cases datum with
  | seq kind items => rfl
  | dict fields =>
      have zipped := List.zip_unzip fields
      rw [List.unzip_eq_map] at zipped
      exact congrArg dict zipped
  | command value => cases value <;> rfl
  | part value => cases value <;> rfl
  | redir value => cases value <;> rfl
  | assign var val => rfl
  | _ => rfl

theorem inside_withInside_map (datum : Datum) (f : Datum → Datum) :
    (datum.withInside (datum.inside.map f)).inside = datum.inside.map f := by
  cases datum with
  | seq kind items => rfl
  | dict fields => simp [inside, withInside, List.map_snd_zip]
  | command value => cases value <;> rfl
  | part value => cases value <;> rfl
  | redir value => cases value <;> rfl
  | assign var val => rfl
  | _ => rfl

theorem tag?_withInside_map (datum : Datum) (f : Datum → Datum) :
    (datum.withInside (datum.inside.map f)).tag? = datum.tag? := by
  cases datum with
  | command value => cases value <;> rfl
  | part value => cases value <;> rfl
  | redir value => cases value <;> rfl
  | _ => rfl

theorem sizeOf_lt_of_mem_inside {inner datum : Datum} (inside : inner ∈ datum.inside) :
    sizeOf inner < sizeOf datum := by
  cases datum with
  | seq kind items =>
      have smaller : sizeOf inner < sizeOf items := List.sizeOf_lt_of_mem inside
      simp only [seq.sizeOf_spec]
      omega
  | dict fields =>
      obtain ⟨field, held, rfl⟩ := List.mem_map.mp inside
      have smaller := List.sizeOf_lt_of_mem held
      obtain ⟨key, value⟩ := field
      simp only [dict.sizeOf_spec, Prod.mk.sizeOf_spec] at smaller ⊢
      omega
  | command value => cases value <;> simp [Datum.inside, Command.fields] at inside ⊢ <;> grind
  | part value => cases value <;> simp [Datum.inside, WordPart.fields] at inside ⊢ <;> grind
  | redir value => cases value <;> simp [Datum.inside, Redirection.fields] at inside ⊢ <;> grind
  | assign var val => simp [Datum.inside] at inside ⊢; grind
  | _ => cases inside

/-- The datum at a position. -/
def at? : Datum → List Nat → Option Datum
  | datum, [] => some datum
  | datum, index :: rest => datum.inside[index]?.bind fun inner => inner.at? rest

theorem at?_cons_of_getElem? {datum inner : Datum} {index : Nat}
    (found : datum.inside[index]? = some inner) (rest : List Nat) :
    datum.at? (index :: rest) = inner.at? rest := by
  rw [at?, found, Option.bind_some]

/-- A property holds of a datum and of everything inside it. -/
def Throughout (property : Datum → Prop) (datum : Datum) : Prop :=
  ∀ position node, datum.at? position = some node → property node

theorem throughout_iff {property : Datum → Prop} {datum : Datum} :
    datum.Throughout property ↔
      property datum ∧ ∀ inner ∈ datum.inside, inner.Throughout property := by
  constructor
  · intro throughout
    refine ⟨throughout [] datum rfl, fun inner held position node found => ?_⟩
    obtain ⟨index, here⟩ := List.getElem?_of_mem held
    exact throughout (index :: position) node (by rw [at?_cons_of_getElem? here, found])
  · rintro ⟨self, inside⟩ position node found
    cases position with
    | nil =>
        cases found
        exact self
    | cons index rest =>
        obtain ⟨inner, here, found⟩ := Option.bind_eq_some_iff.mp found
        exact inside inner (List.mem_of_getElem? here) rest node found

/-- Neither the datum nor anything inside it is a construct. -/
def Plain (datum : Datum) : Prop :=
  datum.Throughout fun node => node.tag? = none

theorem Plain.tag?_eq {datum : Datum} (plain : datum.Plain) : datum.tag? = none :=
  (throughout_iff.mp plain).1

/-- A datum with nothing inside is plain, unless it is a construct. -/
theorem plain_of_inside_nil {datum : Datum} (self : datum.tag? = none)
    (empty : datum.inside = []) : datum.Plain :=
  throughout_iff.mpr ⟨self, by simp [empty]⟩

/-! ## The outermost answers -/

/--
The tree in which each answered datum that is not inside an answered one is
replaced by the answer.
-/
def outermost (replace : Datum → Option Datum) (datum : Datum) : Datum :=
  match replace datum with
  | some other => other
  | none => datum.withInside (datum.inside.attach.map fun inner => inner.1.outermost replace)
termination_by sizeOf datum
decreasing_by exact sizeOf_lt_of_mem_inside inner.2

variable {replace : Datum → Option Datum} {datum : Datum}

theorem outermost_of_answered {other : Datum} (answered : replace datum = some other) :
    datum.outermost replace = other := by
  rw [outermost, answered]

theorem outermost_of_unanswered (unanswered : replace datum = none) :
    datum.outermost replace = datum.withInside (datum.inside.map (outermost replace)) := by
  rw [outermost, unanswered]
  exact congrArg datum.withInside (List.attach_map_val ..)

/-- Where nothing inside changes, nothing changes. -/
theorem outermost_eq_self (unanswered : replace datum = none)
    (kept : ∀ inner ∈ datum.inside, inner.outermost replace = inner) :
    datum.outermost replace = datum := by
  rw [outermost_of_unanswered unanswered, List.map_congr_left kept, List.map_id',
    withInside_inside]

theorem outermost_none (datum : Datum) : datum.outermost (fun _ => none) = datum :=
  outermost_eq_self rfl fun inner _ => outermost_none inner
termination_by sizeOf datum
decreasing_by exact sizeOf_lt_of_mem_inside ‹_›

theorem Plain.outermost_eq {datum : Datum} (plain : datum.Plain)
    (only : ∀ datum : Datum, datum.tag? = none → replace datum = none) :
    datum.outermost replace = datum :=
  outermost_eq_self (only datum plain.tag?_eq) fun _ held =>
    Plain.outermost_eq ((throughout_iff.mp plain).2 _ held) only
termination_by sizeOf datum
decreasing_by exact sizeOf_lt_of_mem_inside held

/-- No answered datum stands above the position. -/
def Uncovered (replace : Datum → Option Datum) (tree : Datum) (position : List Nat) : Prop :=
  ∀ above node, above <+: position → above ≠ position → tree.at? above = some node →
    replace node = none

theorem uncovered_nil : Uncovered replace datum [] :=
  fun _ _ isPrefix different _ => absurd (List.prefix_nil.mp isPrefix) different

theorem uncovered_cons {inner : Datum} {index : Nat} {rest : List Nat}
    (here : datum.inside[index]? = some inner) :
    Uncovered replace datum (index :: rest) ↔
      replace datum = none ∧ Uncovered replace inner rest := by
  constructor
  · intro uncovered
    refine ⟨uncovered [] datum List.nil_prefix (by simp) rfl,
      fun above node isPrefix different found => ?_⟩
    refine uncovered (index :: above) node (List.cons_prefix_cons.mpr ⟨rfl, isPrefix⟩)
      (by simpa using different) ?_
    rw [at?_cons_of_getElem? here, found]
  · rintro ⟨unanswered, uncovered⟩ above node isPrefix different found
    cases above with
    | nil =>
        cases found
        exact unanswered
    | cons first others =>
        obtain ⟨rfl, shorter⟩ := List.cons_prefix_cons.mp isPrefix
        rw [at?_cons_of_getElem? here] at found
        exact uncovered others node shorter (by simpa using different) found

/-- Below data that are not answered, the positions of a tree and of the replaced one agree. -/
theorem at?_outermost {node : Datum} {position : List Nat} (found : datum.at? position = some node)
    (uncovered : Uncovered replace datum position) :
    (datum.outermost replace).at? position = some (node.outermost replace) := by
  induction position generalizing datum with
  | nil =>
      cases found
      rfl
  | cons index rest ih =>
      obtain ⟨inner, here, found⟩ := Option.bind_eq_some_iff.mp found
      obtain ⟨unanswered, uncovered⟩ := (uncovered_cons here).mp uncovered
      rw [outermost_of_unanswered unanswered, ← ih found uncovered]
      refine at?_cons_of_getElem? ?_ rest
      rw [inside_withInside_map, List.getElem?_map, here, Option.map_some]

/-- A datum that is not answered keeps its construct and its plain fields. -/
theorem outermost_keeps (unanswered : replace datum = none)
    (only : ∀ datum : Datum, datum.tag? = none → replace datum = none) :
    (datum.outermost replace).tag? = datum.tag? ∧
      ∀ (index : Nat) (field : Datum), datum.inside[index]? = some field → field.Plain →
        (datum.outermost replace).inside[index]? = some field := by
  rw [outermost_of_unanswered unanswered]
  refine ⟨tag?_withInside_map datum _, fun index field here plain => ?_⟩
  rw [inside_withInside_map, List.getElem?_map, here, Option.map_some, plain.outermost_eq only]

end Datum

end ShellTree
