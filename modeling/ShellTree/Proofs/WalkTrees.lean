import ShellTree.Proofs.WalkRuns

/-!
# Walking whole trees

In a tree whose fields suit their roles, every walk with a replacement that does
not fail and answers nothing but constructs comes to an end.  The induction is
on the tree, and its cases are the ways in which a datum suits a role.  It
follows that a walk replaces exactly the outermost answered constructs, and that
it visits the exposed constructs in preorder.
-/

namespace ShellTree

/-- The data that suit a role. -/
inductive Role.Admits : Role → Datum → Prop where
  | scalar {datum : Datum} (plain : datum.Plain) : Admits .scalar datum
  | construct {datum : Datum} (construct : datum.tag?.isSome = true)
      (inside : ∀ part ∈ datum.parts, Admits part.1 part.2) : Admits .whole datum
  | leaf {datum : Datum} (plain : datum.Plain) (single : ∀ kind items, datum ≠ .seq kind items) :
      Admits .whole datum
  | sequence {kind : SeqKind} {items : List Datum} (inside : ∀ item ∈ items, Admits .whole item) :
      Admits .whole (.seq kind items)
  | each {items : List Datum} (inside : ∀ item ∈ items, Admits .whole item) :
      Admits .each (.list items)
  | absent : Admits .optional .null
  | present {datum : Datum} (construct : datum.tag?.isSome = true) (inside : Admits .whole datum) :
      Admits .optional datum
  | noWord : Admits .optionalWord .null
  | word {items : List Datum} (inside : Admits .whole (.list items)) :
      Admits .optionalWord (.list items)
  | named {word : Datum} (inside : Admits .whole word) :
      Admits .descriptor (.tuple [.text "var", word])
  | fixed {datum : Datum} (plain : datum.Plain)
      (apart : ∀ kind word, datum ≠ .seq kind [.text "var", word]) : Admits .descriptor datum
  | clauses {items : List Datum} (inside : ∀ item ∈ items, Admits .clause item) :
      Admits .clauses (.list items)
  | clause {fields : List (String × Datum)} (distinct : (fields.map Prod.fst).Nodup)
      (inside : ∀ field ∈ fields, Admits (clauseRole field.1) field.2) :
      Admits .clause (.dict fields)

variable {replace : Datum → Option Datum}

theorem Datum.truthy_of_construct {datum : Datum} (construct : datum.tag?.isSome = true) :
    datum.truthy = true := by
  cases datum <;> first | rfl | cases construct

/-- What may be left out and counts as nothing is left out. -/
theorem Role.Admits.eq_null_of_falsy {datum : Datum} (admits : Role.optional.Admits datum)
    (falsy : datum.truthy = false) : datum = .null := by
  cases admits with
  | absent => rfl
  | present construct _ => simp [Datum.truthy_of_construct construct] at falsy

theorem walk_leaf {datum : Datum} (plain : datum.tag? = none)
    (single : ∀ kind items, datum ≠ .seq kind items) :
    datum.walk (answering replace) = enterLeaf (answering replace) datum := by
  cases datum with
  | seq kind items => exact absurd rfl (single kind items)
  | command | part | redir | assign => cases plain
  | _ => rfl

theorem walkFd_of_ne {datum : Datum} (apart : ∀ kind word, datum ≠ .seq kind [.text "var", word]) :
    datum.walkFd (answering replace) = pure datum := by
  unfold Datum.walkFd
  split
  · next kind form target =>
      split
      · next isVar =>
          cases form with
          | text value => exact absurd (by rw [eq_of_beq isVar]) (apart kind target)
          | _ => cases isVar
      · rfl
  · rfl

theorem walk_seq (replace : Replacement) (kind : SeqKind) (items : List Datum) :
    (Datum.seq kind items).walk replace =
      enter replace (.seq kind items)
        (walkInside replace (.seq kind items) (items.map (Prod.mk .whole))) := by
  rw [Datum.walk, walkItems_eq]
  rfl

theorem Role.walk_each (replace : Replacement) (kind : SeqKind) (items : List Datum) :
    Role.each.walk replace (.seq kind items) =
      walkInside replace (.list items) (items.map (Prod.mk .whole)) := by
  rw [Role.walk, Datum.walkEach, walkItems_eq]
  rfl

theorem Role.walk_clauses (replace : Replacement) (kind : SeqKind) (items : List Datum) :
    Role.clauses.walk replace (.seq kind items) =
      walkInside replace (.list items) (items.map (Prod.mk .clause)) := by
  rw [Role.walk, Datum.walkClauses, walkClauseItems_eq]
  rfl

theorem walkFd_named (replace : Replacement) (word : Datum) :
    (Datum.tuple [.text "var", word]).walkFd replace =
      walkInside replace (.tuple [.text "var", word])
        [(.scalar, .text "var"), (.whole, word)] := by
  rw [Datum.walkFd, if_pos (by simp [Datum.isText])]
  simp only [walkInside, Datum.inWalkOrder, Datum.isTag, Datum.tag?, beq_iff_eq, reduceCtorEq,
    reduceIte, walkParts, Role.walk, bind_assoc, pure_bind]
  rfl

theorem Role.Keeps.whole {role : Role} {datum : Datum} (keeps : role.Keeps datum) :
    Role.whole.Keeps datum :=
  ⟨by simp, keeps.inside⟩

theorem map_snd_items (role : Role) (items : List Datum) :
    (items.map (Prod.mk role)).map Prod.snd = items := by
  rw [List.map_map]
  exact List.map_id items

theorem Role.Keeps.items {role other : Role} {kind : SeqKind} {items : List Datum}
    (keeps : role.Keeps (.seq kind items)) (different : other ≠ .optionalWord) :
    ∀ part ∈ items.map (Prod.mk other), part.1.Keeps part.2 :=
  List.forall_mem_map.mpr fun _ held => keeps.inner held fun same => absurd same different

namespace Runs

variable {role : Role} {datum : Datum} {parts : List (Role × Datum)}

theorem of_enter
    (walked : role.walk (answering replace) datum =
      enter (answering replace) datum (walkInside (answering replace) datum parts))
    (unanswered : replace datum = none) (same : parts.map Prod.snd = datum.inside)
    (runs : ∀ part ∈ parts, Runs replace part.1 part.2)
    (kept : role.Keeps datum → ∀ part ∈ parts, part.1.Keeps part.2) :
    Runs replace role datum := by
  obtain ⟨outcome, visits⟩ := walkInside_of_runs unanswered same runs kept
  rw [enter_of_unanswered unanswered] at walked
  exact ⟨walked ▸ outcome, walked ▸ visits⟩

theorem of_walkInside
    (walked : role.walk (answering replace) datum = walkInside (answering replace) datum parts)
    (plain : datum.tag? = none) (unanswered : replace datum = none)
    (same : parts.map Prod.snd = datum.inside)
    (runs : ∀ part ∈ parts, Runs replace part.1 part.2)
    (kept : role.Keeps datum → ∀ part ∈ parts, part.1.Keeps part.2) :
    Runs replace role datum := by
  obtain ⟨outcome, visits⟩ := walkInside_of_runs unanswered same runs kept
  exact ⟨walked ▸ outcome, walked ▸ visits.of_cons plain⟩

theorem of_plain (plain : datum.Plain)
    (only : ∀ datum : Datum, datum.tag? = none → replace datum = none)
    (outcome : (role.walk (answering replace) datum).outcome = .ok datum)
    (visits : constructs (role.walk (answering replace) datum).visits = []) :
    Runs replace role datum :=
  ⟨⟨datum, outcome, fun _ => (plain.outermost_eq only).symm⟩, .of_plain plain visits⟩

theorem of_answered {other : Datum} (construct : datum.tag?.isSome = true)
    (answer : replace datum = some other) : Runs replace .whole datum := by
  have walked : Role.whole.walk (answering replace) datum = ⟨[datum], .ok other⟩ := by
    rw [Role.walk, walk_construct _ construct, enter_of_answered answer]
  constructor
  · rw [walked]
    exact ⟨other, rfl, fun _ => (Datum.outermost_of_answered answer).symm⟩
  · rw [walked]
    exact .answered construct answer

/-- In some roles a datum is walked as a whole. -/
theorem of_whole (walked : role.walk (answering replace) datum = datum.walk (answering replace))
    (runs : Runs replace .whole datum) : Runs replace role datum := by
  obtain ⟨value, came, same⟩ := runs.outcome
  exact ⟨⟨value, walked ▸ came, fun keeps => same keeps.whole⟩, walked ▸ runs.visits⟩

/-- What suits a role is walked to the end; the cases are the ways to suit one. -/
theorem of_admits (only : ∀ datum : Datum, datum.tag? = none → replace datum = none)
    (admits : role.Admits datum) : Runs replace role datum := by
  induction admits with
  | scalar plain => exact .of_plain plain only rfl rfl
  | @construct datum construct inside ih =>
      cases answer : replace datum with
      | some other => exact .of_answered construct answer
      | none =>
          exact .of_enter (walk_construct _ construct) answer (Datum.map_snd_parts construct) ih
            fun keeps part held => keeps.part construct held
  | @leaf datum plain single =>
      have walked : Role.whole.walk (answering replace) datum = ⟨[datum], .ok datum⟩ := by
        rw [Role.walk, walk_leaf plain.tag?_eq single, enterLeaf,
          enter_of_unanswered (only datum plain.tag?_eq)]
        rfl
      exact .of_plain plain only (by rw [walked]) (by simp [walked, constructs, plain.tag?_eq])
  | @sequence kind items inside ih =>
      exact .of_enter (walk_seq _ kind items) (only _ rfl) (map_snd_items _ items)
        (List.forall_mem_map.mpr ih) fun keeps => keeps.items (by simp)
  | @each items inside ih =>
      exact .of_walkInside (Role.walk_each ..) rfl (only _ rfl) (map_snd_items _ items)
        (List.forall_mem_map.mpr ih) fun keeps => keeps.items (by simp)
  | absent => exact .of_plain (Datum.plain_of_inside_nil rfl rfl) only rfl rfl
  | @present datum construct inside ih =>
      exact .of_whole (if_pos (Datum.truthy_of_construct construct)) ih
  | noWord => exact .of_plain (Datum.plain_of_inside_nil rfl rfl) only rfl rfl
  | @word items inside ih =>
      cases items with
      | nil =>
          -- an empty word is taken for one that is left out
          exact ⟨⟨.null, rfl, fun keeps => absurd rfl (keeps.self rfl)⟩,
            .of_plain (Datum.plain_of_inside_nil rfl rfl) rfl⟩
      | cons item rest => exact .of_whole rfl ih
  | @named word inside ih =>
      have name : Runs replace .scalar (.text "var") :=
        .of_plain (Datum.plain_of_inside_nil rfl rfl) only rfl rfl
      refine .of_walkInside (walkFd_named _ word) rfl (only _ rfl) rfl ?_ fun keeps => ?_
      · simpa using ⟨name, ih⟩
      · simp only [List.mem_cons, List.not_mem_nil, or_false, forall_eq_or_imp, forall_eq]
        exact ⟨keeps.inner (by simp [Datum.inside]) (by simp),
          keeps.inner (by simp [Datum.inside]) (by simp)⟩
  | @fixed datum plain apart =>
      have walked : Role.descriptor.walk (answering replace) datum = pure datum :=
        walkFd_of_ne apart
      exact .of_plain plain only (by rw [walked]; rfl) (by rw [walked]; rfl)
  | @clauses items inside ih =>
      exact .of_walkInside (Role.walk_clauses ..) rfl (only _ rfl) (map_snd_items _ items)
        (List.forall_mem_map.mpr ih) fun keeps => keeps.items (by simp)
  | @clause fields distinct inside ih =>
      exact runs_clause only distinct ih fun value held => (inside _ held).eq_null_of_falsy

end Runs

/-! ## The results -/

open Datum (Uncovered)

/-- A case with one clause, with the given body. -/
def caseOf (body : Datum) : Datum :=
  .command (.case (.int 1) (.list [])
    (.list [.dict [("cpattern", .list [.list []]), ("cbody", body)]]))

/-- Two groups around the command that does nothing. -/
def groups : Datum :=
  .command (.group (.command (.group (.command .empty))))

/-- The replacement that puts the command that does nothing in place of every group. -/
def emptyGroup (datum : Datum) : Option Datum :=
  if datum.isTag .group then some (.command .empty) else none

theorem emptyGroup_eq_none (datum : Datum) (plain : datum.tag? = none) :
    emptyGroup datum = none := by
  simp [emptyGroup, Datum.isTag, plain]

theorem admits_int (number : Int) : Role.scalar.Admits (.int number) :=
  .scalar (Datum.plain_of_inside_nil rfl rfl)

theorem admits_nothing : Role.each.Admits (.list []) :=
  .each (by simp)

theorem admits_groups : Role.whole.Admits groups := by
  have empty : Role.whole.Admits (.command .empty) := by
    refine .construct rfl ?_
    change ∀ part ∈ [(Role.scalar, Datum.int (-1)), (.each, .list []), (.each, .list []),
      (.each, .list [])], part.1.Admits part.2
    simpa using ⟨admits_int (-1), admits_nothing⟩
  have group {body : Datum} (inside : Role.whole.Admits body) :
      Role.whole.Admits (.command (.group body)) :=
    .construct rfl (List.forall_mem_cons.mpr ⟨inside, by simp⟩)
  exact group (group empty)

theorem admits_caseOf_groups : Role.whole.Admits (caseOf groups) := by
  have clause : Role.clause.Admits
      (.dict [("cpattern", .list [.list []]), ("cbody", groups)]) := by
    refine .clause (by decide) ?_
    simpa using ⟨.each (by simpa using .sequence (by simp)), .present rfl admits_groups⟩
  refine .construct rfl ?_
  change ∀ part ∈ [(Role.scalar, Datum.int 1), (.whole, .list []), (.clauses, _)],
    part.1.Admits part.2
  simpa using ⟨admits_int 1, .sequence (by simp), .clauses (by simpa using clause)⟩

theorem worded_caseOf_groups : (caseOf groups).Worded := by
  have above {datum : Datum} (self : datum.hasEmptyWord = false)
      (inside : ∀ inner ∈ datum.inside, inner.Worded) : datum.Worded :=
    Datum.throughout_iff.mpr ⟨self, inside⟩
  have line (number : Int) : (Datum.int number).Worded := above rfl (by simp [Datum.inside])
  have nothing : (Datum.list []).Worded := above rfl (by simp [Datum.inside])
  have empty : (Datum.command .empty).Worded :=
    above rfl (by simpa [Datum.inside, Command.empty, Command.fields] using ⟨line (-1), nothing⟩)
  have body : groups.Worded :=
    above rfl (List.forall_mem_singleton.mpr (above rfl (List.forall_mem_singleton.mpr empty)))
  have patterns : (Datum.list [.list []]).Worded :=
    above rfl (List.forall_mem_singleton.mpr nothing)
  have clause : (Datum.dict [("cpattern", .list [.list []]), ("cbody", groups)]).Worded :=
    above rfl (by simpa [Datum.inside] using ⟨patterns, body⟩)
  refine above rfl ?_
  change ∀ inner ∈ [Datum.int 1, .list [], .list [_]], inner.Worded
  simpa using ⟨line 1, nothing, above rfl (List.forall_mem_singleton.mpr clause)⟩

/--
A walk with a replacement that answers nothing but constructs gives the tree
with its outermost answered constructs replaced: at a position with nothing
answered above it stands the answer, or else a construct of the same kind with
the same plain fields.  Without a replacement the tree stays as it is.  No empty
word may stand where a word may be left out.
-/
theorem walk_eq_outermost (replace : Datum → Option Datum) (tree : Datum)
    (only : ∀ datum : Datum, datum.tag? = none → replace datum = none)
    (admits : Role.whole.Admits tree)
    (worded : tree.Worded) :
    (tree.walk (answering replace)).outcome = .ok (tree.outermost replace) ∧
    (∀ position node, tree.at? position = some node → Uncovered replace tree position →
      (∀ other, replace node = some other →
        (tree.outermost replace).at? position = some other) ∧
      (replace node = none → ∃ kept, (tree.outermost replace).at? position = some kept ∧
        kept.tag? = node.tag? ∧ ∀ (index : Nat) (field : Datum),
          node.inside[index]? = some field → field.Plain → kept.inside[index]? = some field)) ∧
    (tree.walk noReplacement).outcome = .ok tree := by
  have keeps : Role.whole.Keeps tree := ⟨by simp, worded⟩
  refine ⟨?_, fun position node found uncovered => ?_, ?_⟩
  · obtain ⟨value, came, same⟩ := (Runs.of_admits only admits).outcome
    exact same keeps ▸ came
  · have agree := Datum.at?_outermost found uncovered
    refine ⟨fun other answered => ?_, fun unanswered => ?_⟩
    · rw [agree, Datum.outermost_of_answered answered]
    · exact ⟨_, agree, Datum.outermost_keeps unanswered only⟩
  · have runs : Runs (fun _ => none) .whole tree := .of_admits (fun _ _ => rfl) admits
    obtain ⟨value, came, same⟩ := runs.outcome
    exact (same keeps).trans (Datum.outermost_none tree) ▸ came

/-- Of two groups in a clause the outer one is replaced, and all around it is kept. -/
theorem walk_eq_outermost_groups :
    (caseOf groups).outermost emptyGroup = caseOf (.command .empty) ∧
    ((caseOf groups).walk noReplacement).outcome = .ok (caseOf groups) := by
  obtain ⟨replaced, _, unchanged⟩ := walk_eq_outermost emptyGroup (caseOf groups)
    emptyGroup_eq_none admits_caseOf_groups worded_caseOf_groups
  have walked : ((caseOf groups).walk (answering emptyGroup)).outcome =
      .ok (caseOf (.command .empty)) := rfl
  exact ⟨Except.ok.inj (replaced.symm.trans walked), unchanged⟩

/--
A walk with a replacement that answers nothing but constructs comes to an end,
and visits the exposed constructs of the tree in preorder and no others.
-/
theorem visits_walk_preordered (replace : Datum → Option Datum) (tree : Datum)
    (only : ∀ datum : Datum, datum.tag? = none → replace datum = none)
    (admits : Role.whole.Admits tree) :
    (∃ result, (tree.walk (answering replace)).outcome = .ok result) ∧
    ∃ positions, Preordered replace tree positions ∧
      (constructs (tree.walk (answering replace)).visits).map some = positions.map tree.at? := by
  obtain ⟨⟨value, came, _⟩, visits⟩ := Runs.of_admits only admits
  exact ⟨⟨value, came⟩, visits⟩

/-- Of two groups in a clause only the outer one is visited. -/
theorem visits_walk_preordered_groups :
    ∃ positions, Preordered emptyGroup (caseOf groups) positions ∧
      positions.map (caseOf groups).at? = [some (caseOf groups), some groups] := by
  obtain ⟨_, positions, preordered, listed⟩ := visits_walk_preordered emptyGroup (caseOf groups)
    emptyGroup_eq_none admits_caseOf_groups
  exact ⟨positions, preordered, listed.symm⟩

end ShellTree
