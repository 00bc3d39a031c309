import ShellTree.Proofs.TaggedNormalForm

/-!
# Reading a tree again

A tree that was written out is read again, but the reader does not know the
normal form: it takes a descriptor that says it is a number for the number
itself, and it does not take a word that says it is one, nor a name that is
spelled out.  What it makes of the written tree therefore hangs on the places
where the normal form differs from what was read at first, and on these alone.
-/

namespace ShellTree

/-- A place of a tagged value whose normal form says more than the value. -/
inductive Place where
  | descriptor
  | target
  | name (text : String)
deriving DecidableEq

mutual

/-- The places of a value of a shape whose normal forms say more. -/
def places : Shape → Json → List Place
  | .descriptor, _ => [.descriptor]
  | .target, _ => [.target]
  | .name, .str text => [.name text]
  | .many item, .arr values => placesAll item values
  | .one .word, .arr parts => placesAll .part parts
  | .one .assignment, .arr [_, value] => places (.one .word) value
  | .one .clause, .obj fields =>
      placesUnder "cpattern" (.many .word) fields ++ placesUnder "cbody" (.one .command) fields
  | .one item, .arr [.str label, value] =>
      match (Tag.ofLabel? label).bind item.layout with
      | some (.alone shape) => places shape value
      | some (.fields shapes _) =>
          match value with
          | .arr values => placesEach shapes values
          | _ => []
      | none => []
  | _, _ => []

/-- The places of the items of a list. -/
def placesAll (item : Item) : List Json → List Place
  | [] => []
  | value :: rest => places (.one item) value ++ placesAll item rest

/-- The places of the fields of a construct. -/
def placesEach : List Shape → List Json → List Place
  | shape :: shapes, value :: rest => places shape value ++ placesEach shapes rest
  | _, _ => []

/-- The places of what stands under a key. -/
def placesUnder (key : String) (shape : Shape) : List (String × Json) → List Place
  | [] => []
  | (other, value) :: rest =>
      if other = key then places shape value else placesUnder key shape rest

end

theorem placesAll_eq_flatMap (item : Item) (values : List Json) :
    placesAll item values = values.flatMap (places (.one item)) := by
  induction values with
  | nil => rfl
  | cons value rest ih => rw [placesAll, ih, List.flatMap_cons]

theorem placesEach_eq_flatMap (shapes : List Shape) (values : List Json) :
    placesEach shapes values =
      (shapes.zip values).flatMap fun field => places field.1 field.2 := by
  induction shapes generalizing values with
  | nil => simp [placesEach]
  | cons shape rest ih =>
      cases values with
      | nil => simp [placesEach]
      | cons value others => rw [placesEach, ih, List.zip_cons_cons, List.flatMap_cons]

theorem places_any (value : Json) : places .any value = [] := by
  cases value <;> rfl

/-- The places of what stands beside a tag. -/
def Layout.places : Layout → Json → List Place
  | .alone shape, value => ShellTree.places shape value
  | .fields shapes _, .arr values => placesEach shapes values
  | .fields _ _, _ => []

theorem places_tagged {item : Item} {tag : Tag} {layout : Layout}
    (found : item.layout tag = some layout) (value : Json) :
    places (.one item) (.arr [.str tag.label, value]) = layout.places value := by
  obtain ⟨notWord, notAssignment⟩ := ne_of_layout found
  rw [places, layout_of_label found]
  · cases layout with
    | alone shape => rfl
    | fields shapes added => cases value <;> rfl
  · exact notWord
  · exact notAssignment

theorem placesUnder_of_lookup {key : String} {shape : Shape} {fields : List (String × Json)}
    {value : Json} (found : fields.lookup key = some value) :
    placesUnder key shape fields = places shape value :=
  eq_of_lookup (fun _ _ _ => placesUnder.eq_2 ..) found

/-! ## Second readings -/

/--
What a second reading gives, compared with the first: it succeeds just where no
place was a target or a name of at least one letter, and it gives the same just
where there was no descriptor either.
-/
structure Rereads (again first : Except Fault Datum) (changed : List Place) : Prop where
  first_ok : ∃ tree, first = .ok tree
  again_ok_iff : (∃ tree, again = .ok tree) ↔
    ∀ place ∈ changed, place = .descriptor ∨ place = .name ""
  again_eq_iff : again = first ↔ ∀ place ∈ changed, place = .name ""

namespace Rereads

/-- Two readings that agree, where nothing says more. -/
theorem unchanged (tree : Datum) : Rereads (.ok tree) (.ok tree) [] :=
  ⟨⟨tree, rfl⟩, by simp, by simp⟩

/-- What is built from a value changes just as the value does. -/
theorem map {again first : Except Fault Datum} {changed : List Place}
    (rereads : Rereads again first changed) {build : Datum → Datum}
    (injective : ∀ left right, build left = build right → left = right) :
    Rereads (again.map build) (first.map build) changed := by
  obtain ⟨⟨tree, rfl⟩, succeeds, same⟩ := rereads
  refine ⟨⟨build tree, rfl⟩, ?_, ?_⟩
  · rw [← succeeds]
    cases again <;> simp [Except.map]
  · rw [← same]
    cases again with
    | error fault => simp [Except.map]
    | ok other =>
        simp only [Except.map, Except.ok.injEq]
        exact ⟨injective other tree, congrArg build⟩

/-- What is built from several values changes where one of them does. -/
theorem of_each {α : Type} {items : List α} {again first : α → Except Fault Datum}
    {changed : α → List Place} {build : List Datum → Datum}
    (injective : ∀ left right : List Datum, left.length = items.length →
      right.length = items.length → build left = build right → left = right)
    (each : ∀ item ∈ items, Rereads (again item) (first item) (changed item)) :
    Rereads ((gather (items.map again)).map build) ((gather (items.map first)).map build)
      (items.flatMap changed) := by
  have firstOk : ∀ result ∈ items.map first, ∃ tree, result = .ok tree := by
    intro result inside
    obtain ⟨item, member, rfl⟩ := List.mem_map.mp inside
    exact (each item member).first_ok
  obtain ⟨trees, gathered⟩ := exists_gather_iff.mpr firstOk
  refine ⟨⟨build trees, by rw [gathered]; rfl⟩, ?_, ?_⟩
  · have mapped : (∃ tree, (gather (items.map again)).map build = .ok tree) ↔
        ∃ trees, gather (items.map again) = .ok trees := by
      cases gather (items.map again) <;> simp [Except.map]
    rw [mapped, exists_gather_iff, List.forall_mem_map, List.forall_mem_flatMap]
    exact forall₂_congr fun item member => (each item member).again_ok_iff
  · have mapped : (gather (items.map again)).map build = (gather (items.map first)).map build ↔
        items.map again = items.map first := by
      rw [gathered, gather_eq_ok_iff.mp gathered, ← gather_eq_ok_iff]
      cases second : gather (items.map again) with
      | error fault => simp [Except.map]
      | ok others =>
          simp only [Except.map, Except.ok.injEq]
          exact ⟨injective others trees (length_of_gather second) (length_of_gather gathered),
            congrArg build⟩
    rw [mapped, List.map_inj_left, List.forall_mem_flatMap]
    exact forall₂_congr fun item member => (each item member).again_eq_iff

end Rereads

/-! ## Second readings of tagged values -/

/-- The fields of a construct can be told from it. -/
theorem build_injective {item : Item} {tag : Tag} {shapes : List Shape} {added : List Json}
    (layout : item.layout tag = some (.fields shapes added)) {left right : List Datum}
    (leftLength : left.length = shapes.length) (rightLength : right.length = shapes.length)
    (same : tag.build left = tag.build right) : left = right := by
  unfold Item.layout at layout
  split at layout
  all_goals cases layout
  all_goals rcases left with _ | ⟨_, _ | ⟨_, _ | ⟨_, _ | ⟨_, _ | ⟨_, _⟩⟩⟩⟩⟩
  all_goals cases leftLength
  all_goals rcases right with _ | ⟨_, _ | ⟨_, _ | ⟨_, _ | ⟨_, _ | ⟨_, _⟩⟩⟩⟩⟩
  all_goals cases rightLength
  all_goals cases same
  all_goals rfl

/-- The only field of a construct can be told from it. -/
theorem build_alone_injective {item : Item} {tag : Tag} {shape : Shape}
    (layout : item.layout tag = some (.alone shape)) (left right : Datum)
    (same : tag.build [left] = tag.build [right]) : left = right := by
  unfold Item.layout at layout
  split at layout
  all_goals cases layout
  all_goals cases same
  all_goals rfl

theorem buildClause_injective {left right : List Datum} (leftLength : left.length = 2)
    (rightLength : right.length = 2) (same : buildClause left = buildClause right) :
    left = right := by
  rcases left with _ | ⟨_, _ | ⟨_, _ | ⟨_, _⟩⟩⟩
  all_goals cases leftLength
  rcases right with _ | ⟨_, _ | ⟨_, _ | ⟨_, _⟩⟩⟩
  all_goals cases rightLength
  cases same
  rfl

/-- A number cannot be mistaken for a descriptor that says it is one. -/
theorem fixedFd_ne (number : Json) :
    Tagged.fixedFd (.arr [.str "fixed", number]) ≠ Tagged.fixedFd number := by
  intro same
  have inner : Datum.list [.text "fixed", .ofJson number] = .ofJson number := by
    simpa [Tagged.fixedFd, Datum.ofJson, Datum.ofJsonItems] using same
  have size := congrArg sizeOf inner
  simp at size
  omega

theorem nameWord_spelled {text : String} (nonempty : text ≠ "") :
    Tagged.nameWord (.arr (text.toList.map charCell)) = .error .wrongKind := by
  cases chars : text.toList with
  | nil => exact absurd (String.toList_eq_nil_iff.mp chars) nonempty
  | cons c rest => rfl

/-- What a second reading of a value gives hangs on its places. -/
def RereadsAs (shape : Shape) (json : Json) : Prop :=
  Rereads (shape.read (normal shape json)) (shape.read json) (places shape json)

theorem rereads_many {item : Item} {values : List Json}
    (each : ∀ value ∈ values, RereadsAs (.one item) value) :
    Rereads (item.readMany (.arr (normalAll item values))) (item.readMany (.arr values))
      (placesAll item values) := by
  rw [item.readMany_arr, item.readMany_arr, normalAll_eq_map, List.map_map, placesAll_eq_flatMap]
  refine .of_each ?_ each
  intro left right _ _ same
  cases same
  rfl

/-- Several fields are read a second time by their shapes. -/
theorem zip_normalEach (shapes : List Shape) (values : List Json) :
    (shapes.zip (normalEach shapes values)).map (fun field => field.1.read field.2) =
      (shapes.zip values).map fun field => field.1.read (normal field.1 field.2) := by
  induction shapes generalizing values with
  | nil => rfl
  | cons shape rest ih =>
      cases values with
      | nil => rfl
      | cons value others =>
          rw [normalEach, List.zip_cons_cons, List.zip_cons_cons, List.map_cons, List.map_cons, ih]

/-- What the second reading of a tagged value gives hangs on its places. -/
theorem Fits.rereads {shape : Shape} {json : Json} (fits : Fits shape json) :
    RereadsAs shape json := by
  induction fits with
  | any value =>
      rw [RereadsAs, normal_any, places_any]
      exact .unchanged _
  | descriptor number =>
      refine ⟨⟨_, rfl⟩, ?_, ?_⟩
      · rw [normal, places]
        simp [Shape.read]
      · rw [normal, places]
        simp [Shape.read, fixedFd_ne]
  | @target parts inside ih =>
      obtain ⟨tree, read, _⟩ := (Fits.target inside).exports
      -- the reader looks for parts and finds the word that says what the target is
      have failed : Shape.target.read (normal .target (.arr parts)) = .error .wrongLength := rfl
      refine ⟨⟨tree, read⟩, ?_, ?_⟩
      · rw [failed]
        simp [places]
      · rw [failed, read]
        simp [places]
  | name text =>
      by_cases empty : text = ""
      · subst empty
        exact ⟨⟨_, rfl⟩, iff_of_true ⟨_, rfl⟩ (by simp [places]),
          iff_of_true rfl (by simp [places])⟩
      · have failed : Shape.name.read (normal .name (.str text)) = .error .wrongKind :=
          nameWord_spelled empty
        have read : Shape.name.read (.str text) = .ok (wordOf false text.toList) := rfl
        refine ⟨⟨_, read⟩, ?_, ?_⟩
        · rw [failed]
          simp [places, empty]
        · rw [failed, read]
          simp [places, empty]
  | many inside ih => exact rereads_many ih
  | word inside ih => exact rereads_many ih
  | assignment name inside ih =>
      have injective : ∀ left right : Datum,
          Datum.assign (.ofJson name) left = .assign (.ofJson name) right → left = right :=
        fun left right same => (Datum.assign.inj same).2
      exact ih.map injective
  | @clause fields patterns body patternsFound bodyFound _ _ ihPatterns ihBody =>
      have written : normal (.one .clause) (.obj fields) =
          .obj [("cpattern", normal (.many .word) patterns),
            ("cbody", normal (.one .command) body)] := by
        rw [normal, normalUnder_of_lookup patternsFound, normalUnder_of_lookup bodyFound]
      have changed : places (.one .clause) (.obj fields) =
          (clauseShapes.zip [patterns, body]).flatMap fun field => places field.1 field.2 := by
        rw [places, placesUnder_of_lookup patternsFound, placesUnder_of_lookup bodyFound]
        simp [clauseShapes]
      rw [RereadsAs, written, changed]
      change Rereads (Tagged.readClause _) (Tagged.readClause _) _
      rw [readClause_of_lookup patternsFound bodyFound, readClause_of_lookup rfl rfl]
      have each : ∀ field ∈ clauseShapes.zip [patterns, body], RereadsAs field.1 field.2 :=
        List.forall_mem_cons.mpr ⟨ihPatterns, List.forall_mem_singleton.mpr ihBody⟩
      exact .of_each (fun _ _ => buildClause_injective) each
  | @alone item tag shape value layout inside ih =>
      rw [RereadsAs, normal_tagged layout, places_tagged layout]
      change Rereads (item.read _) (item.read _) _
      rw [Item.read_alone layout, Item.read_alone layout]
      exact ih.map (build_alone_injective layout)
  | @fields item tag shapes added values layout length inside ih =>
      have zipped : (shapes.zip values).length = shapes.length := by
        rw [List.length_zip, ← length, Nat.min_self]
      have writtenLength : shapes.length = (normalEach shapes values).length := by
        rw [normalEach_eq_map, List.length_map, zipped]
      have first := Item.read_fields layout length []
      have second := Item.read_fields layout writtenLength added
      rw [List.append_nil] at first
      rw [zip_normalEach] at second
      rw [RereadsAs, normal_tagged layout, places_tagged layout, Layout.places,
        placesEach_eq_flatMap]
      change Rereads (item.read _) (item.read _) _
      rw [Layout.normal, first, second]
      refine .of_each ?_ ih
      intro left right leftLength rightLength
      exact build_injective layout (leftLength.trans zipped) (rightLength.trans zipped)

/--
A tagged command is read and written out.  What was written is read again just
where no descriptor is duplicated and no name has a letter, and the same tree
comes of it just where there are no redirections either.
-/
theorem readCommand_untyped_iff {json : Json} (command : IsCommand json) :
    ∃ tree exported, Tagged.readCommand json = .ok tree ∧ tree.untyped = .ofJson exported ∧
      ((∃ again, Tagged.readCommand exported = .ok again) ↔
        ∀ place ∈ places (.one .command) json, place = .descriptor ∨ place = .name "") ∧
      (Tagged.readCommand exported = .ok tree ↔
        ∀ place ∈ places (.one .command) json, place = .name "") := by
  obtain ⟨tree, read, same⟩ := command.exports
  have rereads := command.rereads
  have first : Tagged.readCommand json = .ok tree := read
  refine ⟨tree, normal (.one .command) json, first, same, rereads.again_ok_iff, ?_⟩
  rw [← first]
  exact rereads.again_eq_iff

/-- A command that writes to a file is read again, but not as the same tree. -/
theorem readCommand_untyped_iff_file :
    let command (fd : Json) : Json := .arr [.str "Command", .arr [.int 1, .arr [],
      .arr [.arr [.arr [.str "C", .int 97]]],
      .arr [.arr [.str "File", .arr [.str "To", fd, .arr [.arr [.str "C", .int 102]]]]]]]
    IsCommand (command (.int 1)) ∧ ∃ tree exported again,
      Tagged.readCommand (command (.int 1)) = .ok tree ∧ tree.untyped = .ofJson exported ∧
      Tagged.readCommand exported = .ok again ∧ again ≠ tree := by
  intro command
  have fits : IsCommand (command (.int 1)) := by decide
  have changed : places (.one .command) (command (.int 1)) = [.descriptor] := by decide
  obtain ⟨tree, exported, read, same, succeeds, stays⟩ := readCommand_untyped_iff fits
  rw [changed] at succeeds stays
  obtain ⟨again, second⟩ := succeeds.mpr (by decide)
  refine ⟨fits, tree, exported, again, read, same, second, ?_⟩
  rintro rfl
  exact absurd (stays.mp second) (by decide)

/-- A function is written out so that it cannot be read again. -/
theorem readCommand_untyped_function :
    let body : Json := .arr [.str "Command", .arr [.int 1, .arr [],
      .arr [.arr [.arr [.str "C", .int 97]]], .arr []]]
    let function (name : Json) : Json := .arr [.str "Defun", .arr [.int 1, name, body]]
    let exported := function (.arr [.arr [.str "C", .int 102]])
    IsCommand (function (.str "f")) ∧ (∃ tree, Tagged.readCommand (function (.str "f")) = .ok tree ∧
      tree.untyped = .ofJson exported) ∧ Tagged.readCommand exported = .error .wrongKind :=
  ⟨by decide, ⟨_, rfl, rfl⟩, rfl⟩

end ShellTree
