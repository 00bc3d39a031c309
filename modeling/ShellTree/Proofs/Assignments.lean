import ShellTree.Proofs.NodeFields
import ShellTree.Proofs.TwoPassOrder
import ShellTree.Proofs.VerbatimCommands

/-!
# Assignments before a command

A command can hold an assignment of a word to a name.  All other assignments
are written out and become words, which stand behind the assignments that the
command holds.  Both print as the same text would, so a command prints all its
assignments, but those that became words after the others.
-/

namespace ShellTree

namespace Shfmt

/-- A field of an object, which is null if it is not there. -/
abbrev field (node : Json) (key : String) : Json :=
  (node.get? key).getD .null

/-- Is an assignment one that a command cannot hold? -/
def isMoved (node : Json) : Bool :=
  (field node "Append").truthy || (field node "Array").truthy || (field node "Index").truthy ||
    (field node "Naked").truthy

/-- An assignment with a name, with the texts of its index and of what is assigned. -/
structure Assignment (source : Source) where
  node : Json
  name : String
  place : String
  value : String
  named : ∃ literal, node.get? "Name" = some literal ∧ literal.get? "Value" = some (.str name)
  filled : name ≠ ""
  placed :
    if (field node "Index").truthy then
      ∃ inner, arithmText source (field node "Index") = .ok inner ∧ place = "[" ++ inner ++ "]"
    else place = ""
  valued :
    if (field node "Array").truthy then arrayText source (field node "Array") = .ok value
    else if (field node "Value").truthy then
      ∃ parts, readWord source (field node "Value") = .ok parts ∧ textOf parts = .ok value
    else value = ""

variable {source : Source}

namespace Assignment

/-- Does an assignment become a word? -/
def moved (assignment : Assignment source) : Bool :=
  isMoved assignment.node

/-- How an assignment is written; a name may also stand alone. -/
def text (assignment : Assignment source) : String :=
  if (field assignment.node "Naked").truthy then assignment.name
  else assignment.name ++ assignment.place ++
    (if (field assignment.node "Append").truthy then "+=" else "=") ++ assignment.value

theorem text_ne_empty (assignment : Assignment source) : assignment.text ≠ "" := by
  have filled := assignment.filled
  rw [text]
  split
  · exact filled
  · simp [filled]

section

-- a choice in a sequence of steps goes on with the later steps in each of its branches
variable {α : Type} (assignment : Assignment source) (next : String → Except Fault α)

/-- Go on with the text of the index. -/
def withPlace : Except Fault α :=
  if (field assignment.node "Index").truthy then do
    let inner ← arithmText source (field assignment.node "Index")
    next ("[" ++ inner ++ "]")
  else next ""

/-- Go on with the text of what is assigned. -/
def withValue : Except Fault α :=
  if (field assignment.node "Array").truthy then
    arrayText source (field assignment.node "Array") >>= next
  else if (field assignment.node "Value").truthy then do
    let parts ← readWord source (field assignment.node "Value")
    textOf parts >>= next
  else next ""

theorem withPlace_eq : assignment.withPlace next = next assignment.place := by
  have placed := assignment.placed
  rw [withPlace]
  split at placed
  next index =>
      obtain ⟨inner, spelled, same⟩ := placed
      rw [if_pos index, spelled, ok_bind, same]
  next absent => rw [if_neg absent, placed]

theorem withValue_eq : assignment.withValue next = next assignment.value := by
  have valued := assignment.valued
  rw [withValue]
  split at valued
  next array => rw [if_pos array, valued, ok_bind]
  next absent =>
      rw [if_neg absent]
      split at valued
      next word =>
          obtain ⟨parts, read, printed⟩ := valued
          rw [if_pos word, read, ok_bind, printed, ok_bind]
      next none => rw [if_neg none, valued]

end

theorem assignText_eq (assignment : Assignment source) :
    assignText source assignment.node = .ok (.str assignment.text) := by
  obtain ⟨literal, found, called⟩ := assignment.named
  have object := Json.isObject_of_get? found
  obtain ⟨_, fetchedName⟩ := Json.fetch_of_get? found
  obtain ⟨_, fetchedValue⟩ := Json.fetch_eq object "Value"
  obtain ⟨_, fetchedArray⟩ := Json.fetch_eq object "Array"
  obtain ⟨_, fetchedIndex⟩ := Json.fetch_eq object "Index"
  obtain ⟨_, fetchedAppend⟩ := Json.fetch_eq object "Append"
  obtain ⟨_, fetchedNaked⟩ := Json.fetch_eq object "Naked"
  have named : (Json.str assignment.name).truthy = true := by
    simp [Json.truthy, assignment.filled]
  have shownName : shown (.str assignment.name) = .ok assignment.name := rfl
  rw [assignText]
  simp only [fetchedName, fetchedValue, fetchedArray, fetchedIndex, fetchedAppend, fetchedNaked,
    ok_bind, Json.isObject_of_get? called, called, if_true, Option.getD_some, named]
  rw [text]
  split
  · rfl
  · simp only [pure_bind, shownName, ok_bind]
    refine (assignment.withPlace_eq fun place => assignment.withValue fun value =>
      .ok (Json.str (assignment.name ++ place ++
        (if (field assignment.node "Append").truthy then "+=" else "=") ++ value))).trans ?_
    exact assignment.withValue_eq _

/-- What an assignment is read as: the characters of its text, or its name and its value. -/
theorem readAssign_eq (assignment : Assignment source) :
    readAssign source assignment.node =
      if assignment.moved then .ok (.argument (cells assignment.text))
      else if (field assignment.node "Value").truthy then do
        let value ← readWord source (field assignment.node "Value")
        .ok (.assignment (.assign (.text assignment.name) (.list value)))
      else .ok (.assignment (.assign (.text assignment.name) (.list []))) := by
  obtain ⟨literal, found, called⟩ := assignment.named
  have object := Json.isObject_of_get? found
  obtain ⟨_, fetchedName⟩ := Json.fetch_of_get? found
  obtain ⟨_, fetchedValue⟩ := Json.fetch_eq object "Value"
  obtain ⟨_, fetchedArray⟩ := Json.fetch_eq object "Array"
  obtain ⟨_, fetchedIndex⟩ := Json.fetch_eq object "Index"
  obtain ⟨_, fetchedAppend⟩ := Json.fetch_eq object "Append"
  obtain ⟨_, fetchedNaked⟩ := Json.fetch_eq object "Naked"
  rw [readAssign]
  simp only [fetchedName, fetchedValue, fetchedArray, fetchedIndex, fetchedAppend, fetchedNaked,
    ok_bind, assignText_eq, Json.isObject_of_get? called, called, if_true, Option.getD_some]
  rfl

/-- An assignment that a command holds prints as it would be written out. -/
theorem readAssign_of_kept {assignment : Assignment source} (kept : assignment.moved = false) :
    ∃ datum, readAssign source assignment.node = .ok (.assignment datum) ∧
      datum.render .plain = .ok (some assignment.text) := by
  have placed := assignment.placed
  have valued := assignment.valued
  have unmarked := kept
  simp only [moved, isMoved, Bool.or_eq_false_iff] at unmarked
  obtain ⟨⟨⟨append, array⟩, index⟩, naked⟩ := unmarked
  rw [index, if_neg Bool.false_ne_true] at placed
  rw [array, if_neg Bool.false_ne_true] at valued
  have written : assignment.text = assignment.name ++ "=" ++ assignment.value := by
    rw [text, naked, append, placed, String.append_empty]
    rfl
  have printed {parts : List Datum} (word : textOf parts = .ok assignment.value) :
      (Datum.assign (.text assignment.name) (.list parts)).render .plain =
        .ok (some assignment.text) := by
    rw [Datum.render, written]
    change (Datum.renderWord .unquoted (.list parts) >>= fun value =>
      Except.ok (some (assignment.name ++ "=" ++ value))) = _
    rw [show Datum.renderWord .unquoted (.list parts) = _ from word]
    rfl
  rw [readAssign_eq, kept, if_neg Bool.false_ne_true]
  split at valued
  next word =>
      obtain ⟨parts, read, spelled⟩ := valued
      rw [if_pos word, read]
      exact ⟨_, rfl, printed spelled⟩
  next none =>
      rw [if_neg none]
      refine ⟨_, rfl, printed ?_⟩
      rw [valued]
      rfl

end Assignment

/-! ## The assignments of a command -/

/-- What the assignments of a command are read as, each part in their order. -/
theorem readAssigns (assigns : List (Assignment source)) :
    ∃ results, (assigns.map Assignment.node).mapM (readAssign source) = .ok results ∧
      renderItems (Assigned.assignments results) =
        .ok (((assigns.filter fun assign => !assign.moved).map Assignment.text).map some) ∧
      Assigned.arguments results =
        ((assigns.filter Assignment.moved).map Assignment.text).map fun text =>
          .list (cells text) := by
  induction assigns with
  | nil => exact ⟨[], rfl, rfl, rfl⟩
  | cons assign rest ih =>
      obtain ⟨results, read, kept, words⟩ := ih
      cases mark : assign.moved with
      | true =>
          have first : readAssign source assign.node = .ok (.argument (cells assign.text)) := by
            rw [assign.readAssign_eq, mark, if_pos rfl]
          -- a word without characters would be left out, but there is a name
          have filled : (cells assign.text).isEmpty = false := by
            simp [cells, assign.text_ne_empty]
          refine ⟨.argument (cells assign.text) :: results, ?_, ?_, ?_⟩
          · rw [List.map_cons, List.mapM_cons, first, read]
            rfl
          · rw [List.filter_cons_of_neg (by simp [mark])]
            exact kept
          · rw [List.filter_cons_of_pos mark, List.map_cons, List.map_cons, ← words]
            apply List.filterMap_cons_some
            change (if (cells assign.text).isEmpty then none else some _) = _
            rw [filled]
            rfl
      | false =>
          obtain ⟨datum, first, printed⟩ := Assignment.readAssign_of_kept mark
          refine ⟨.assignment datum :: results, ?_, ?_, ?_⟩
          · rw [List.map_cons, List.mapM_cons, first, read]
            rfl
          · rw [List.filter_cons_of_pos (by simp [mark]), List.map_cons, List.map_cons]
            change renderItems (datum :: Assigned.assignments results) = _
            rw [renderItems, printed, kept]
            rfl
          · rw [List.filter_cons_of_neg (by simp [mark])]
            exact words

/-- An argument of a command and its text. -/
structure Argument (source : Source) where
  node : Json
  text : String
  printed : ∃ parts, readWord source node = .ok parts ∧ textOf parts = .ok text

theorem readArguments (arguments : List (Argument source)) :
    ∃ words, (arguments.map Argument.node).mapM (readWord source) = .ok words ∧
      renderWordItems (words.map Datum.list) = .ok (arguments.map Argument.text) := by
  induction arguments with
  | nil => exact ⟨[], rfl, rfl⟩
  | cons argument rest ih =>
      obtain ⟨words, read, shown⟩ := ih
      obtain ⟨parts, first, printed⟩ := argument.printed
      have word : (Datum.list parts).renderWord .unquoted = .ok argument.text := printed
      refine ⟨parts :: words, ?_, ?_⟩
      · rw [List.map_cons, List.mapM_cons, first, read]
        rfl
      · rw [List.map_cons, renderWordItems, word, shown]
        rfl

theorem renderWordItems_cells (texts : List String) {others : List Datum} {shown : List String}
    (following : renderWordItems others = .ok shown) :
    renderWordItems ((texts.map fun text => .list (cells text)) ++ others) =
      .ok (texts ++ shown) := by
  induction texts with
  | nil => exact following
  | cons text rest ih =>
      have word : (Datum.list (cells text)).renderWord .unquoted = .ok text :=
        (Shows.cells text).renderParts_eq
      rw [List.map_cons, List.cons_append, renderWordItems, word, ih]
      rfl

/-- A simple command, its assignments and its arguments. -/
structure IsCall (source : Source) (node : Json) (assigns : List (Assignment source))
    (arguments : List (Argument source)) : Prop where
  kind : node.get? "Type" = some (.str Kind.call.label)
  placed : ∃ line, lineOf (field node "Pos") = .ok line
  assigned : node.items? "Assigns" = some (assigns.map Assignment.node)
  listed : node.items? "Args" = some (arguments.map Argument.node)

variable {node : Json} {assigns : List (Assignment source)} {arguments : List (Argument source)}

theorem IsCall.readCommand_eq (call : IsCall source node assigns arguments)
    {results : List Assigned} {words : List (List Datum)}
    (assigned : (assigns.map Assignment.node).mapM (readAssign source) = .ok results)
    (argued : (arguments.map Argument.node).mapM (readWord source) = .ok words) :
    ∃ line, readCommand source node =
      .ok (.command (.simple line (.list (Assigned.assignments results))
        (.list (Assigned.arguments results ++ words.map Datum.list)) (.list []))) := by
  obtain ⟨line, lined⟩ := call.placed
  obtain ⟨_, fetchedKind⟩ := Json.fetch_of_get? call.kind
  obtain ⟨_, fetchedPos⟩ := Json.fetch_eq (Json.isObject_of_get? call.kind) "Pos"
  obtain ⟨inside, children, items⟩ := Json.children_of_items? call.assigned
  obtain ⟨others, listed, same⟩ := Json.children_of_items? call.listed
  have readInside := Json.mapM_inside items (readAssign source)
  have readOthers := Json.mapM_inside same (readWord source)
  refine ⟨.int (line.getD (-1)), ?_⟩
  rw [readCommand]
  simp only [fetchedKind, kindOf?_label, ok_bind]
  rw [readCall]
  simp only [fetchedPos, ok_bind, lineOrNone, lined, children, listed]
  change (inside.mapM (fun item => readAssign source item.1) >>= fun results =>
    others.mapM (fun item => readWord source item.1) >>= fun words => _) = _
  rw [readInside, assigned, ok_bind, readOthers, argued]
  rfl

theorem IsCall.shellText_eq (call : IsCall source node assigns arguments) :
    ∃ tree, readCommand source node = .ok tree ∧
      tree.shellText = .ok (some (String.intercalate " "
        ((inTwoPasses Assignment.moved assigns).map Assignment.text ++
          arguments.map Argument.text))) := by
  obtain ⟨results, assigned, kept, moved⟩ := readAssigns assigns
  obtain ⟨words, argued, shown⟩ := readArguments arguments
  obtain ⟨line, read⟩ := call.readCommand_eq assigned argued
  refine ⟨_, read, ?_⟩
  have behind : (Datum.list (Assigned.arguments results ++ words.map Datum.list)).renderWords =
      .ok ((assigns.filter Assignment.moved).map Assignment.text ++
        arguments.map Argument.text) := by
    rw [moved]
    exact renderWordItems_cells _ shown
  have asked : Style.plain.heredocsOmitted = .ok false := rfl
  have nothing : (Datum.list []).renderRedirs false = .ok "" := rfl
  have printed := render_simple line kept behind asked nothing
  rw [Bash.intercalate_words, String.append_empty] at printed
  rw [inTwoPasses, List.map_append, List.append_assoc]
  exact printed

/--
A simple command prints its assignments and then its arguments, but among the
assignments those that it cannot hold come last.  It prints them as they stand
in the script just where none that it can hold stands behind one of those.
-/
theorem shellText_call (call : IsCall source node assigns arguments) :
    (∃ tree, readCommand source node = .ok tree ∧
      tree.shellText = .ok (some (String.intercalate " "
        ((inTwoPasses Assignment.moved assigns).map Assignment.text ++
          arguments.map Argument.text)))) ∧
      (inTwoPasses Assignment.moved assigns = assigns ↔
        assigns.Pairwise fun first second => first.moved = true → second.moved = true) := by
  constructor
  · exact call.shellText_eq
  · exact inTwoPasses_eq_self_iff Assignment.moved assigns

/-! ## Assignments of words -/

/-- The node of an expansion of a parameter. -/
def paramNode (name : String) : Json :=
  .obj [("Type", .str Kind.param.label), ("Short", .bool true),
    ("Param", .obj [("Value", .str name)])]

/-- The node of a command with assignments and arguments. -/
def callNode (assigns arguments : List Json) : Json :=
  .obj [("Type", .str Kind.call.label), ("Assigns", .arr assigns), ("Args", .arr arguments)]

theorem valueNode_shows (text : String) :
    PartShows none .unquoted (valueNode .literal text) text :=
  (isLiteral_valueNode none text).shows

theorem paramNode_shows (name : String) :
    PartShows none .unquoted (paramNode name) ("$" ++ name) := by
  refine ⟨cells ("$" ++ name), ?_, .cells _⟩
  have object : (paramNode name).isObject = true := rfl
  obtain ⟨_, fetchedKind⟩ := Json.fetch_eq object "Type"
  obtain ⟨_, fetchedParam⟩ := Json.fetch_eq object "Param"
  obtain ⟨_, fetchedNested⟩ := Json.fetch_eq object "NestedParam"
  obtain ⟨_, fetchedShort⟩ := Json.fetch_eq object "Short"
  obtain ⟨_, fetchedIndex⟩ := Json.fetch_eq object "Index"
  have named : paramName none (paramNode name) = .ok (.str name) := by
    rw [paramName, fetchedParam, ok_bind, fetchedNested, ok_bind]
    rfl
  have spelled : paramText none (paramNode name) = .ok ("$" ++ name) := by
    rw [paramText, named, ok_bind, fetchedShort, ok_bind, fetchedIndex, ok_bind]
    rfl
  rw [readPart]
  change ((paramNode name).fetch "Type" >>= fun kind => _) = _
  rw [fetchedKind, ok_bind]
  change (paramText none (paramNode name) >>= fun text => _) = _
  rw [spelled]
  rfl

/-- An assignment of a word to a name, or to the end of what the name holds. -/
def assignmentOf (name : String) (filled : name ≠ "") (append : Bool) {part : Json}
    {value : String} (shows : PartShows none .unquoted part value) : Assignment none where
  node := .obj [("Append", .bool append), ("Name", .obj [("Value", .str name)]),
    ("Value", wordNode part)]
  name := name
  place := ""
  value := value
  named := ⟨_, rfl, rfl⟩
  filled := filled
  placed := rfl
  valued := wordNode_shows shows

theorem isCall_callNode (assigns : List (Assignment none)) (arguments : List (Argument none)) :
    IsCall none (callNode (assigns.map Assignment.node) (arguments.map Argument.node)) assigns
      arguments :=
  ⟨rfl, ⟨none, rfl⟩, rfl, rfl⟩

/-- What a command cannot hold may stand last. -/
theorem shellText_call_ordered :
    let assigns := [assignmentOf "a" (by decide) false (valueNode_shows "1"),
      assignmentOf "x" (by decide) true (paramNode_shows "a")]
    let arguments : List (Argument none) :=
      [⟨wordNode (valueNode .literal "b"), "b", wordNode_shows (valueNode_shows "b")⟩]
    let node := callNode (assigns.map Assignment.node) (arguments.map Argument.node)
    IsCall none node assigns arguments ∧
      assigns.Pairwise (fun first second => first.moved = true → second.moved = true) ∧
      ∃ tree, readCommand none node = .ok tree ∧ tree.shellText = .ok (some "a=1 x+=$a b") := by
  intro assigns arguments node
  have call : IsCall none node assigns arguments := isCall_callNode assigns arguments
  have ordered : assigns.Pairwise fun first second => first.moved = true → second.moved = true :=
    .cons (List.forall_mem_singleton.mpr fun _ => rfl) (List.pairwise_singleton _ _)
  obtain ⟨⟨tree, read, printed⟩, same⟩ := shellText_call call
  rw [same.mpr ordered] at printed
  exact ⟨call, ordered, tree, read, printed⟩

/-- A name that is appended to and then used is printed with its use before. -/
theorem shellText_call_swapped :
    let assigns := [assignmentOf "x" (by decide) true (valueNode_shows "1"),
      assignmentOf "y" (by decide) false (paramNode_shows "x")]
    let node := callNode (assigns.map Assignment.node) []
    assigns.map Assignment.text = ["x+=1", "y=$x"] ∧
      ∃ tree, readCommand none node = .ok tree ∧ tree.shellText = .ok (some "y=$x x+=1") := by
  intro assigns node
  refine ⟨rfl, ?_⟩
  exact (isCall_callNode assigns []).shellText_eq

end Shfmt

end ShellTree
