import ShellTree.Proofs.TaggedLayout
import ShellTree.Tree.Export

/-!
# The normal form of the tagged form

A tree that was read from its tagged form is written out again as the normal
form of what was read.  Descriptors say that they are numbers, the word that a
descriptor is duplicated to says that it is a word, names are spelled out, and
a clause keeps its patterns and its body only.  Nothing else changes.
-/

namespace ShellTree

/-- A plain character of a word, in its tagged form. -/
def charCell (c : Char) : Json :=
  .arr [.str Tag.char.label, .int c.toNat]

mutual

/-- The normal form of a value of a shape. -/
def normal : Shape → Json → Json
  | .descriptor, number => .arr [.str "fixed", number]
  | .target, .arr parts => .arr [.str "var", .arr (normalAll .part parts)]
  | .name, .str text => .arr (text.toList.map charCell)
  | .many item, .arr values => .arr (normalAll item values)
  | .one .word, .arr parts => .arr (normalAll .part parts)
  | .one .assignment, .arr [name, value] => .arr [name, normal (.one .word) value]
  | .one .clause, .obj fields =>
      .obj [("cpattern", normalUnder "cpattern" (.many .word) fields),
        ("cbody", normalUnder "cbody" (.one .command) fields)]
  | .one item, .arr [.str label, value] =>
      match (Tag.ofLabel? label).bind item.layout with
      | some (.alone shape) => .arr [.str label, normal shape value]
      | some (.fields shapes added) =>
          match value with
          | .arr values => .arr [.str label, .arr (normalEach shapes values ++ added)]
          | other => .arr [.str label, other]
      | none => .arr [.str label, value]
  | _, other => other

/-- The normal forms of the items of a list. -/
def normalAll (item : Item) : List Json → List Json
  | [] => []
  | value :: rest => normal (.one item) value :: normalAll item rest

/-- The normal forms of the fields of a construct. -/
def normalEach : List Shape → List Json → List Json
  | shape :: shapes, value :: rest => normal shape value :: normalEach shapes rest
  | _, _ => []

/-- The normal form of what stands under a key. -/
def normalUnder (key : String) (shape : Shape) : List (String × Json) → Json
  | [] => .null
  | (other, value) :: rest =>
      if other = key then normal shape value else normalUnder key shape rest

end

theorem normalAll_eq_map (item : Item) (values : List Json) :
    normalAll item values = values.map (normal (.one item)) := by
  induction values with
  | nil => rfl
  | cons value rest ih => rw [normalAll, ih, List.map_cons]

theorem normalEach_eq_map (shapes : List Shape) (values : List Json) :
    normalEach shapes values = (shapes.zip values).map fun field => normal field.1 field.2 := by
  induction shapes generalizing values with
  | nil => simp [normalEach]
  | cons shape rest ih =>
      cases values with
      | nil => simp [normalEach]
      | cons value others => rw [normalEach, ih, List.zip_cons_cons, List.map_cons]

theorem normal_any (value : Json) : normal .any value = value := by
  cases value <;> rfl

/-- The normal form of what stands beside a tag. -/
def Layout.normal : Layout → Json → Json
  | .alone shape, value => ShellTree.normal shape value
  | .fields shapes added, .arr values => .arr (normalEach shapes values ++ added)
  | .fields _ _, other => other

theorem normal_tagged {item : Item} {tag : Tag} {layout : Layout}
    (found : item.layout tag = some layout) (value : Json) :
    normal (.one item) (.arr [.str tag.label, value]) =
      .arr [.str tag.label, layout.normal value] := by
  obtain ⟨notWord, notAssignment⟩ := ne_of_layout found
  rw [normal, layout_of_label found]
  · cases layout with
    | alone shape => rfl
    | fields shapes added => cases value <;> rfl
  · exact notWord
  · exact notAssignment

theorem normalUnder_of_lookup {key : String} {shape : Shape} {fields : List (String × Json)}
    {value : Json} (found : fields.lookup key = some value) :
    normalUnder key shape fields = normal shape value :=
  eq_of_lookup (fun _ _ _ => normalUnder.eq_2 ..) found

/-! ## Data that hold no construct -/

theorem untypedItems_eq_map (items : List Datum) :
    untypedItems items = items.map Datum.untyped := by
  induction items with
  | nil => rfl
  | cons item rest ih => rw [untypedItems, ih, List.map_cons]

theorem ofJsonItems_eq_map (values : List Json) :
    Datum.ofJsonItems values = values.map Datum.ofJson := by
  induction values with
  | nil => rfl
  | cons value rest ih => rw [Datum.ofJsonItems, ih, List.map_cons]

mutual

/-- What is no construct is written out as it stands. -/
theorem untyped_ofJson : ∀ json : Json, (Datum.ofJson json).untyped = Datum.ofJson json
  | .null => rfl
  | .bool _ => rfl
  | .int _ => rfl
  | .float _ => rfl
  | .str _ => rfl
  | .arr values => by rw [Datum.ofJson, Datum.untyped, untypedItems_ofJsonItems values]
  | .obj fields => by rw [Datum.ofJson, Datum.untyped, untypedFields_ofJsonFields fields]

theorem untypedItems_ofJsonItems :
    ∀ values : List Json, untypedItems (Datum.ofJsonItems values) = Datum.ofJsonItems values
  | [] => rfl
  | value :: rest => by
      rw [Datum.ofJsonItems, untypedItems, untyped_ofJson value, untypedItems_ofJsonItems rest]

theorem untypedFields_ofJsonFields : ∀ fields : List (String × Json),
    untypedFields (Datum.ofJsonFields fields) = Datum.ofJsonFields fields
  | [] => rfl
  | (key, value) :: rest => by
      rw [Datum.ofJsonFields, untypedFields, untyped_ofJson value,
        untypedFields_ofJsonFields rest]

end

/-! ## Trees that were read -/

/-- A construct with one field is written out as its tag and that field. -/
theorem untyped_alone {item : Item} {tag : Tag} {shape : Shape}
    (layout : item.layout tag = some (.alone shape)) (field : Datum) :
    (tag.build [field]).untyped = .list [.text tag.label, field.untyped] := by
  unfold Item.layout at layout
  split at layout
  all_goals cases layout
  all_goals rfl

/-- A construct with several fields is written out as its tag, these fields and the added ones. -/
theorem untyped_fields {item : Item} {tag : Tag} {shapes : List Shape} {added : List Json}
    (layout : item.layout tag = some (.fields shapes added)) {fields : List Datum}
    (length : shapes.length = fields.length) :
    (tag.build fields).untyped =
      .list [.text tag.label, .list (untypedItems fields ++ Datum.ofJsonItems added)] := by
  unfold Item.layout at layout
  split at layout
  all_goals cases layout
  all_goals rcases fields with _ | ⟨first, _ | ⟨second, _ | ⟨third, _ | ⟨fourth, _ | ⟨_, _⟩⟩⟩⟩⟩
  all_goals cases length
  all_goals rfl

/-- The value is read, and the tree is written out as its normal form. -/
def Exports (shape : Shape) (json : Json) : Prop :=
  ∃ tree, shape.read json = .ok tree ∧ tree.untyped = .ofJson (normal shape json)

/-- Trees that are gathered are written out one after the other. -/
theorem exists_gather {α : Type} {places : List α} {read : α → Except Fault Datum}
    {written : α → Json}
    (each : ∀ place ∈ places,
      ∃ tree, read place = .ok tree ∧ tree.untyped = .ofJson (written place)) :
    ∃ trees, gather (places.map read) = .ok trees ∧ trees.length = places.length ∧
      untypedItems trees = Datum.ofJsonItems (places.map written) := by
  induction places with
  | nil => exact ⟨[], rfl, rfl, rfl⟩
  | cons place rest ih =>
      obtain ⟨tree, read, same⟩ := each place List.mem_cons_self
      obtain ⟨trees, readRest, length, sameRest⟩ :=
        ih fun other inside => each other (List.mem_cons_of_mem place inside)
      refine ⟨tree :: trees, ?_, ?_, ?_⟩
      · rw [List.map_cons, gather, read, readRest]
        rfl
      · rw [List.length_cons, List.length_cons, length]
      · rw [List.map_cons, Datum.ofJsonItems, untypedItems, same, sameRest]

theorem exports_many {item : Item} {values : List Json}
    (each : ∀ value ∈ values, Exports (.one item) value) :
    ∃ trees, item.readMany (.arr values) = .ok (.list trees) ∧
      (Datum.list trees).untyped = .ofJson (.arr (normalAll item values)) := by
  obtain ⟨trees, read, _, same⟩ := exists_gather each
  refine ⟨trees, ?_, ?_⟩
  · have gathered : gather (values.map item.read) = .ok trees := read
    rw [item.readMany_arr, gathered]
    rfl
  · rw [normalAll_eq_map, Datum.ofJson, ← same, Datum.untyped]

/-- Every tagged value is read, and written out as its normal form. -/
theorem Fits.exports {shape : Shape} {json : Json} (fits : Fits shape json) :
    Exports shape json := by
  induction fits with
  | any value =>
      refine ⟨_, rfl, ?_⟩
      rw [normal_any, untyped_ofJson]
  | descriptor number =>
      refine ⟨_, rfl, ?_⟩
      rw [normal, Tagged.fixedFd, Datum.untyped, untypedItems, untypedItems, untyped_ofJson]
      rfl
  | target inside ih =>
      obtain ⟨trees, read, same⟩ := exports_many ih
      refine ⟨.tuple [.text "var", .list trees], ?_, ?_⟩
      · have word : Tagged.readWord _ = .ok (.list trees) := read
        rw [Shape.read, word]
        rfl
      · rw [Datum.untyped, untypedItems, untypedItems, same]
        rfl
  | name text =>
      refine ⟨_, rfl, ?_⟩
      rw [normal, wordOf, Datum.untyped, untypedItems_eq_map, Datum.ofJson, ofJsonItems_eq_map,
        List.map_map, List.map_map]
      rfl
  | many inside ih =>
      obtain ⟨trees, read, same⟩ := exports_many ih
      exact ⟨.list trees, read, same⟩
  | word inside ih =>
      obtain ⟨trees, read, same⟩ := exports_many ih
      exact ⟨.list trees, read, same⟩
  | assignment name inside ih =>
      obtain ⟨tree, read, same⟩ := ih
      refine ⟨.assign (.ofJson name) tree, ?_, ?_⟩
      · have word : Tagged.readWord _ = .ok tree := read
        rw [Shape.read, Item.read, Tagged.readAssign, word]
        rfl
      · rw [Datum.untyped, same]
        rfl
  | clause patternsFound bodyFound patternsInside bodyInside ihPatterns ihBody =>
      obtain ⟨words, readPatterns, samePatterns⟩ := ihPatterns
      obtain ⟨command, readBody, sameBody⟩ := ihBody
      refine ⟨.dict [("cpattern", words), ("cbody", command)], ?_, ?_⟩
      · rw [Shape.read, Item.read, readClause_of_lookup patternsFound bodyFound]
        simp only [clauseShapes, List.zip_cons_cons, List.map_cons, readPatterns, readBody]
        rfl
      · rw [normal, normalUnder_of_lookup patternsFound, normalUnder_of_lookup bodyFound,
          Datum.untyped, untypedFields, untypedFields, samePatterns, sameBody]
        rfl
  | @alone item tag shape value layout inside ih =>
      obtain ⟨tree, read, same⟩ := ih
      refine ⟨tag.build [tree], ?_, ?_⟩
      · rw [Shape.read, Item.read_alone layout, read]
        rfl
      · rw [untyped_alone layout, same, normal_tagged layout]
        rfl
  | @fields item tag shapes added values layout length inside ih =>
      obtain ⟨trees, read, sameLength, same⟩ := exists_gather ih
      refine ⟨tag.build trees, ?_, ?_⟩
      · have whole := Item.read_fields layout length []
        rw [List.append_nil, read] at whole
        exact whole
      · have fieldLength : shapes.length = trees.length := by
          rw [sameLength, List.length_zip, ← length, Nat.min_self]
        rw [untyped_fields layout fieldLength, same, normal_tagged layout, Layout.normal,
          normalEach_eq_map]
        simp only [Datum.ofJson, Datum.ofJsonItems, ofJsonItems_eq_map, List.map_append]

/--
A tagged command is read, and the tree is written out as the normal form of
what was read.
-/
theorem untyped_readCommand {json : Json} (command : IsCommand json) :
    ∃ tree, Tagged.readCommand json = .ok tree ∧
      tree.untyped = .ofJson (normal (.one .command) json) :=
  command.exports

/--
A function whose body is a case with redirections: the name is spelled out, the
descriptors say what they are, and the clause loses a field.
-/
theorem untyped_readCommand_function :
    let call (code : Int) : Json := .arr [.str "Command", .arr [.int 3, .arr [],
      .arr [.arr [.arr [.str "C", .int code]]], .arr []]]
    let function (name : Json) (clause : List (String × Json)) (redirs : List Json) : Json :=
      .arr [.str "Defun", .arr [.int 1, name, .arr [.str "Redir", .arr [.int 2,
        .arr [.str "Case", .arr [.int 2, .arr [.arr [.str "Q", .arr []]], .arr [.obj clause]]],
        .arr redirs]]]]
    let json := function (.str "f")
      [("cbody", call 98), ("line", .int 4), ("cpattern", .arr [.arr [.arr [.str "C", .int 97]]])]
      [.arr [.str "Dup", .arr [.str "ToFD", .int 2, .arr [.arr [.str "C", .int 49]]]],
        .arr [.str "Heredoc", .arr [.str "Here", .int 0, .arr []]]]
    IsCommand json ∧ ∃ tree, Tagged.readCommand json = .ok tree ∧
      tree.untyped = .ofJson (function (.arr [.arr [.str "C", .int 102]])
        [("cpattern", .arr [.arr [.arr [.str "C", .int 97]]]), ("cbody", call 98)]
        [.arr [.str "Dup", .arr [.str "ToFD", .arr [.str "fixed", .int 2],
            .arr [.str "var", .arr [.arr [.str "C", .int 49]]], .bool false]],
          .arr [.str "Heredoc", .arr [.str "Here", .arr [.str "fixed", .int 0], .arr [],
            .null]]]) := by
  intro call function json
  have command : IsCommand json := by decide
  exact ⟨command, untyped_readCommand command⟩

end ShellTree
