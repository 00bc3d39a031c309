import ShellTree.Json.Inside
import ShellTree.Tagged

/-!
# The layout of the tagged form

Beside each tag stand the fields of its construct, and each field has a shape:
it is a construct again, a list of constructs, a name, a descriptor, or
something that is kept as it stands.  The layouts say this for every tag, and
the reader follows them: it reads the fields one after the other, each by its
shape, and puts the construct together from what it has read.
-/

namespace ShellTree

/-- What comes by itself or in lists. -/
inductive Item where
  | command
  | part
  | word
  | redirection
  | assignment
  | clause

inductive Shape where
  /-- Something that is kept as it stands. -/
  | any
  | descriptor
  /-- The word that a descriptor is duplicated to. -/
  | target
  /-- The name of a function or a variable. -/
  | name
  | one (item : Item)
  | many (item : Item)

/-- How the fields of a construct stand beside its tag. -/
inductive Layout where
  /-- There is one field, and it stands there itself. -/
  | alone (shape : Shape)
  /-- The fields are in an array, and in a tree that is written out there are added ones behind. -/
  | fields (shapes : List Shape) (added : List Json)

/-- The layout of a tag, if it is one of the given kind of construct. -/
def Item.layout : Item → Tag → Option Layout
  | .command, .pipe => some (.fields [.any, .many .command] [])
  | .command, .simple =>
      some (.fields [.any, .many .assignment, .many .word, .many .redirection] [])
  | .command, .subshell => some (.fields [.any, .one .command, .many .redirection] [])
  | .command, .and => some (.fields [.one .command, .one .command] [])
  | .command, .or => some (.fields [.one .command, .one .command] [])
  | .command, .semi => some (.fields [.one .command, .one .command] [])
  | .command, .not => some (.alone (.one .command))
  | .command, .redirected => some (.fields [.any, .one .command, .many .redirection] [])
  | .command, .background => some (.fields [.any, .one .command, .many .redirection] [])
  | .command, .defun => some (.fields [.any, .name, .one .command] [])
  | .command, .forLoop => some (.fields [.any, .many .word, .one .command, .name] [])
  | .command, .whileLoop => some (.fields [.one .command, .one .command] [])
  | .command, .ifElse => some (.fields [.one .command, .one .command, .one .command] [])
  | .command, .case => some (.fields [.any, .one .word, .many .clause] [])
  | .part, .char => some (.alone .any)
  | .part, .escaped => some (.alone .any)
  | .part, .tilde => some (.alone .any)
  | .part, .arithPart => some (.alone (.one .word))
  | .part, .param => some (.fields [.any, .any, .any, .one .word] [])
  | .part, .quoted => some (.alone (.one .word))
  | .part, .commandPart => some (.alone (.one .command))
  | .part, .process => some (.fields [.any, .one .command] [])
  | .redirection, .file => some (.fields [.any, .descriptor, .one .word] [])
  | .redirection, .dup => some (.fields [.any, .descriptor, .target] [.bool false])
  | .redirection, .heredoc => some (.fields [.any, .descriptor, .one .word] [.null])
  | _, _ => none

/-- The layout of a tag is found by its label. -/
theorem layout_of_label {item : Item} {tag : Tag} {layout : Layout}
    (found : item.layout tag = some layout) :
    (Tag.ofLabel? tag.label).bind item.layout = some layout := by
  rw [Tag.ofLabel?_label, Option.bind_some, found]

/-- Words and assignments have no tags. -/
theorem ne_of_layout {item : Item} {tag : Tag} {layout : Layout}
    (found : item.layout tag = some layout) : item ≠ .word ∧ item ≠ .assignment := by
  constructor
  · rintro rfl
    cases found
  · rintro rfl
    cases found

/-- The tagged values of a shape, with all their fields. -/
inductive Fits : Shape → Json → Prop where
  | any (value : Json) : Fits .any value
  | descriptor (number : Json) : Fits .descriptor number
  | target {parts : List Json} (inside : ∀ part ∈ parts, Fits (.one .part) part) :
      Fits .target (.arr parts)
  | name (text : String) : Fits .name (.str text)
  | many {item : Item} {values : List Json} (inside : ∀ value ∈ values, Fits (.one item) value) :
      Fits (.many item) (.arr values)
  | word {parts : List Json} (inside : ∀ part ∈ parts, Fits (.one .part) part) :
      Fits (.one .word) (.arr parts)
  | assignment (name : Json) {value : Json} (inside : Fits (.one .word) value) :
      Fits (.one .assignment) (.arr [name, value])
  | clause {fields : List (String × Json)} {patterns body : Json}
      (patternsFound : fields.lookup "cpattern" = some patterns)
      (bodyFound : fields.lookup "cbody" = some body)
      (patternsInside : Fits (.many .word) patterns) (bodyInside : Fits (.one .command) body) :
      Fits (.one .clause) (.obj fields)
  | alone {item : Item} {tag : Tag} {shape : Shape} {value : Json}
      (layout : item.layout tag = some (.alone shape)) (inside : Fits shape value) :
      Fits (.one item) (.arr [.str tag.label, value])
  | fields {item : Item} {tag : Tag} {shapes : List Shape} {added values : List Json}
      (layout : item.layout tag = some (.fields shapes added))
      (length : shapes.length = values.length)
      (inside : ∀ field ∈ shapes.zip values, Fits field.1 field.2) :
      Fits (.one item) (.arr [.str tag.label, .arr values])

/-- A tagged command with all its fields. -/
abbrev IsCommand (json : Json) : Prop :=
  Fits (.one .command) json

/--
The construct with a tag and the given fields.  What the tagged form does not
hold has its usual value.
-/
def Tag.build : Tag → List Datum → Datum
  | .pipe, [behind, items] => .command (.pipe behind items)
  | .simple, [line, assignments, arguments, redirs] =>
      .command (.simple line assignments arguments redirs)
  | .subshell, [line, body, redirs] => .command (.subshell line body redirs)
  | .and, [left, right] => .command (.and left right (.bool false))
  | .or, [left, right] => .command (.or left right (.bool false))
  | .semi, [left, right] => .command (.semi left right (.bool false))
  | .not, [body] => .command (.not body (.bool false))
  | .redirected, [line, node, redirs] => .command (.redirected line node redirs)
  | .background, [line, node, redirs] =>
      .command (.background line node redirs .null (.bool false))
  | .defun, [line, name, body] => .command (.defun line name body (.bool false))
  | .forLoop, [line, argument, body, name] => .command (.forLoop line argument body name)
  | .whileLoop, [test, body] => .command (.whileLoop test body)
  | .ifElse, [test, thenBranch, elseBranch] => .command (.ifElse test thenBranch elseBranch)
  | .case, [line, argument, cases] => .command (.case line argument cases)
  | .char, [code] => .part (.char code (.bool false))
  | .escaped, [code] => .part (.escaped code)
  | .tilde, [user] => .part (.tilde user)
  | .arithPart, [arg] => .part (.arith arg)
  | .param, [format, nullTest, var, arg] => .part (.param format nullTest var arg)
  | .quoted, [arg] => .part (.quoted arg)
  | .commandPart, [node] => .part (.command node)
  | .process, [op, node] => .part (.process op node)
  | .file, [kind, fd, arg] => .redir (.file kind fd arg)
  | .dup, [kind, fd, arg] => .redir (.dup kind fd arg (.bool false))
  | .heredoc, [kind, fd, arg] => .redir (.heredoc kind fd arg (.bool false) .null)
  | _, _ => .null

def clauseShapes : List Shape :=
  [.many .word, .one .command]

def buildClause : List Datum → Datum
  | [patterns, body] => .dict [("cpattern", patterns), ("cbody", body)]
  | _ => .null

/-! ## Reading by shape -/

/-- The results of several readings, if none of them fails; otherwise the first failure. -/
def gather : List (Except Fault Datum) → Except Fault (List Datum)
  | [] => .ok []
  | first :: rest => do
      let value ← first
      let others ← gather rest
      return value :: others

theorem gather_eq_ok_iff {results : List (Except Fault Datum)} {values : List Datum} :
    gather results = .ok values ↔ results = values.map .ok := by
  induction results generalizing values with
  | nil => cases values <;> simp [gather]
  | cons first rest ih =>
      cases first with
      | error fault => cases values <;> simp [gather, bind, Except.bind]
      | ok value =>
          cases values with
          | nil => cases h : gather rest <;> simp [gather, bind, Except.bind, pure, Except.pure, h]
          | cons head tail =>
              rw [List.map_cons, List.cons.injEq, Except.ok.injEq, ← ih]
              cases h : gather rest <;> simp [gather, bind, Except.bind, pure, Except.pure, h]

theorem length_of_gather {α : Type} {items : List α} {read : α → Except Fault Datum}
    {values : List Datum} (gathered : gather (items.map read) = .ok values) :
    values.length = items.length := by
  simpa using (congrArg List.length (gather_eq_ok_iff.mp gathered)).symm

theorem exists_gather_iff {results : List (Except Fault Datum)} :
    (∃ values, gather results = .ok values) ↔ ∀ result ∈ results, ∃ value, result = .ok value := by
  simp only [gather_eq_ok_iff]
  constructor
  · rintro ⟨values, rfl⟩ result inside
    obtain ⟨value, _, rfl⟩ := List.mem_map.mp inside
    exact ⟨value, rfl⟩
  · intro each
    induction results with
    | nil => exact ⟨[], rfl⟩
    | cons first rest ih =>
        obtain ⟨value, rfl⟩ := each first List.mem_cons_self
        obtain ⟨values, rfl⟩ := ih fun result inside => each result (List.mem_cons_of_mem _ inside)
        exact ⟨value :: values, rfl⟩

theorem map_gather_cons (build : List Datum → Datum) (first : Except Fault Datum)
    (rest : List (Except Fault Datum)) :
    (gather (first :: rest)).map build =
      first >>= fun value => (gather rest).map fun others => build (value :: others) := by
  cases first with
  | error fault => rfl
  | ok value =>
      cases h : gather rest <;>
        simp [gather, bind, Except.bind, pure, Except.pure, Except.map, h]

open Tagged

def Item.read : Item → Json → Except Fault Datum
  | .command => readCommand
  | .part => readPart
  | .word => readWord
  | .redirection => readRedir
  | .assignment => readAssign
  | .clause => readClause

def Item.readMany : Item → Json → Except Fault Datum
  | .command => readCommands
  | .part => readWord
  | .word => readWords
  | .redirection => readRedirs
  | .assignment => readAssigns
  | .clause => readClauses

def Shape.read : Shape → Json → Except Fault Datum
  | .any, value => .ok (Datum.ofJson value)
  | .descriptor, number => .ok (fixedFd number)
  | .target, word => do return .tuple [.text "var", ← readWord word]
  | .name, value => nameWord value
  | .one item, value => item.read value
  | .many item, value => item.readMany value

/-- A function that goes through a list and reads each item gathers the results. -/
theorem eq_gather_map {read : Json → Except Fault Datum}
    (readItems : List Json → Except Fault (List Datum)) (nil : readItems [] = .ok [])
    (cons : ∀ value rest, readItems (value :: rest) = do
      let first ← read value
      let others ← readItems rest
      return first :: others) (values : List Json) :
    readItems values = gather (values.map read) := by
  induction values with
  | nil => exact nil
  | cons value rest ih => rw [cons, ih, List.map_cons, gather]

/-- A list is read item by item. -/
theorem Item.readMany_arr (item : Item) (values : List Json) :
    item.readMany (.arr values) = (gather (values.map item.read)).map .list := by
  cases item with
  | command => rw [readMany, readCommands, eq_gather_map readCommandItems rfl fun _ _ => rfl]; rfl
  | part => rw [readMany, readWord, eq_gather_map readPartItems rfl fun _ _ => rfl]; rfl
  | word => rw [readMany, readWords, eq_gather_map readWordItems rfl fun _ _ => rfl]; rfl
  | redirection => rw [readMany, readRedirs, eq_gather_map readRedirItems rfl fun _ _ => rfl]; rfl
  | assignment => rw [readMany, readAssigns, eq_gather_map readAssignItems rfl fun _ _ => rfl]; rfl
  | clause => rw [readMany, readClauses, eq_gather_map readClauseItems rfl fun _ _ => rfl]; rfl

/-- A field beside its tag is read by its shape. -/
theorem Item.read_alone {item : Item} {tag : Tag} {shape : Shape}
    (layout : item.layout tag = some (.alone shape)) (value : Json) :
    item.read (.arr [.str tag.label, value]) =
      (shape.read value).map fun field => tag.build [field] := by
  unfold Item.layout at layout
  split at layout
  all_goals cases layout
  all_goals rfl

/-- Fields in an array are read by their shapes, one after the other, and others behind are not. -/
theorem Item.read_fields {item : Item} {tag : Tag} {shapes : List Shape} {added values : List Json}
    (layout : item.layout tag = some (.fields shapes added))
    (length : shapes.length = values.length) (more : List Json) :
    item.read (.arr [.str tag.label, .arr (values ++ more)]) =
      (gather ((shapes.zip values).map fun field => field.1.read field.2)).map tag.build := by
  unfold Item.layout at layout
  split at layout
  all_goals cases layout
  -- no construct has more than four fields
  all_goals rcases values with _ | ⟨first, _ | ⟨second, _ | ⟨third, _ | ⟨fourth, _ | ⟨_, _⟩⟩⟩⟩⟩
  all_goals cases length
  all_goals simp only [List.zip_cons_cons, List.map_cons, map_gather_cons, Shape.read, bind_assoc,
    pure_bind]
  all_goals rfl

/-- What looks for a key among the fields of an object, and takes what it finds there. -/
theorem eq_of_lookup {α : Type} {find : List (String × Json) → α} {take : Json → α} {key : String}
    (cons : ∀ other value rest,
      find ((other, value) :: rest) = if other = key then take value else find rest)
    {fields : List (String × Json)} {value : Json} (found : fields.lookup key = some value) :
    find fields = take value := by
  induction fields with
  | nil => cases found
  | cons field rest ih =>
      obtain ⟨other, first⟩ := field
      rw [cons]
      by_cases same : other = key
      · rw [same, List.lookup_cons, beq_self_eq_true] at found
        rw [if_pos same, Option.some.inj found]
      · have different : (key == other) = false := beq_eq_false_iff_ne.mpr (Ne.symm same)
        rw [List.lookup_cons, different] at found
        rw [if_neg same, ih found]

/-- A clause is read by its patterns and its body, wherever they stand. -/
theorem readClause_of_lookup {fields : List (String × Json)} {patterns body : Json}
    (patternsFound : fields.lookup "cpattern" = some patterns)
    (bodyFound : fields.lookup "cbody" = some body) :
    readClause (.obj fields) =
      (gather ((clauseShapes.zip [patterns, body]).map fun field => field.1.read field.2)).map
        buildClause := by
  rw [readClause, eq_of_lookup (fun _ _ _ => readPatterns.eq_2 ..) patternsFound,
    eq_of_lookup (fun _ _ _ => readBody.eq_2 ..) bodyFound]
  simp only [clauseShapes, List.zip_cons_cons, List.map_cons, map_gather_cons]
  rfl

/-! ## Checking a shape -/

mutual

/-- Does a tagged value have a shape, with all its fields? -/
def accepts : Shape → Json → Bool
  | .any, _ => true
  | .descriptor, _ => true
  | .target, .arr parts => acceptsAll .part parts
  | .name, .str _ => true
  | .many item, .arr values => acceptsAll item values
  | .one .word, .arr parts => acceptsAll .part parts
  | .one .assignment, .arr [_, value] => accepts (.one .word) value
  | .one .clause, .obj fields =>
      acceptsUnder "cpattern" (.many .word) fields && acceptsUnder "cbody" (.one .command) fields
  | .one item, .arr [.str label, value] =>
      match (Tag.ofLabel? label).bind item.layout with
      | some (.alone shape) => accepts shape value
      | some (.fields shapes _) =>
          match value with
          | .arr values => acceptsEach shapes values
          | _ => false
      | none => false
  | _, _ => false

/-- Does each item of a list have the shape? -/
def acceptsAll (item : Item) : List Json → Bool
  | [] => true
  | value :: rest => accepts (.one item) value && acceptsAll item rest

/-- Are there as many fields as shapes, and does each have its shape? -/
def acceptsEach : List Shape → List Json → Bool
  | [], [] => true
  | shape :: shapes, value :: rest => accepts shape value && acceptsEach shapes rest
  | _, _ => false

/-- Does the object have a value of a shape under a key? -/
def acceptsUnder (key : String) (shape : Shape) : List (String × Json) → Bool
  | [] => false
  | (other, value) :: rest =>
      if other = key then accepts shape value else acceptsUnder key shape rest

end

theorem acceptsAll_iff {item : Item} {values : List Json} :
    acceptsAll item values = true ↔ ∀ value ∈ values, accepts (.one item) value = true := by
  induction values with
  | nil => simp [acceptsAll]
  | cons value rest ih => rw [acceptsAll, Bool.and_eq_true, ih, List.forall_mem_cons]

theorem acceptsEach_iff {shapes : List Shape} {values : List Json} :
    acceptsEach shapes values = true ↔
      shapes.length = values.length ∧
        ∀ field ∈ shapes.zip values, accepts field.1 field.2 = true := by
  induction shapes generalizing values with
  | nil => cases values <;> simp [acceptsEach]
  | cons shape rest ih =>
      cases values with
      | nil => simp [acceptsEach]
      | cons value others =>
          rw [acceptsEach, Bool.and_eq_true, ih, List.zip_cons_cons, List.forall_mem_cons,
            List.length_cons, List.length_cons, Nat.add_right_cancel_iff]
          exact and_left_comm

theorem acceptsUnder_iff {key : String} {shape : Shape} {fields : List (String × Json)} :
    acceptsUnder key shape fields = true ↔
      ∃ value, fields.lookup key = some value ∧ accepts shape value = true := by
  cases found : fields.lookup key with
  | some value =>
      rw [eq_of_lookup (fun _ _ _ => acceptsUnder.eq_2 ..) found]
      simp
  | none =>
      induction fields with
      | nil => simp [acceptsUnder]
      | cons field rest ih =>
          obtain ⟨other, value⟩ := field
          rw [List.lookup_cons] at found
          by_cases same : other = key
          · simp [same] at found
          · have different : (key == other) = false := beq_eq_false_iff_ne.mpr (Ne.symm same)
            rw [different] at found
            rw [acceptsUnder, if_neg same, ih found]

/-- The check of what stands beside a tag. -/
def Layout.accepts : Layout → Json → Bool
  | .alone shape, value => ShellTree.accepts shape value
  | .fields shapes _, .arr values => acceptsEach shapes values
  | .fields _ _, _ => false

theorem accepts_tagged {item : Item} {tag : Tag} {layout : Layout}
    (found : item.layout tag = some layout) (value : Json) :
    accepts (.one item) (.arr [.str tag.label, value]) = layout.accepts value := by
  obtain ⟨notWord, notAssignment⟩ := ne_of_layout found
  rw [accepts, layout_of_label found]
  · cases layout with
    | alone shape => rfl
    | fields shapes added => cases value <;> rfl
  · exact notWord
  · exact notAssignment

theorem Fits.accepts {shape : Shape} {json : Json} (fits : Fits shape json) :
    accepts shape json = true := by
  induction fits with
  | any value => rw [ShellTree.accepts]
  | descriptor number => rw [ShellTree.accepts]
  | target inside ih => exact acceptsAll_iff.mpr ih
  | name text => rfl
  | many inside ih => exact acceptsAll_iff.mpr ih
  | word inside ih => exact acceptsAll_iff.mpr ih
  | assignment name inside ih => exact ih
  | clause patternsFound bodyFound patternsInside bodyInside ihPatterns ihBody =>
      exact Bool.and_eq_true_iff.mpr ⟨acceptsUnder_iff.mpr ⟨_, patternsFound, ihPatterns⟩,
        acceptsUnder_iff.mpr ⟨_, bodyFound, ihBody⟩⟩
  | alone layout inside ih =>
      rw [accepts_tagged layout]
      exact ih
  | fields layout length inside ih =>
      rw [accepts_tagged layout]
      exact acceptsEach_iff.mpr ⟨length, ih⟩

theorem Json.sizeOf_lt_arr {value : Json} {values : List Json} (inside : value ∈ values) :
    sizeOf value < sizeOf (Json.arr values) := by
  have smaller := List.sizeOf_lt_of_mem inside
  simp
  omega

theorem Json.sizeOf_lt_obj {key : String} {value : Json} {fields : List (String × Json)}
    (found : fields.lookup key = some value) : sizeOf value < sizeOf (Json.obj fields) := by
  have smaller := Json.sizeOf_of_lookup found
  simp
  omega

/-- What is accepted has the shape, if this holds of everything inside it. -/
theorem Fits.of_accepts_inside {shape : Shape} {json : Json}
    (ih : ∀ shape inner, sizeOf inner < sizeOf json → ShellTree.accepts shape inner = true →
      Fits shape inner)
    (accepted : ShellTree.accepts shape json = true) : Fits shape json := by
  have all : ∀ {item : Item} {values : List Json}, json = .arr values →
      acceptsAll item values = true → ∀ value ∈ values, Fits (.one item) value := by
    rintro item values rfl each value inside
    exact ih _ value (Json.sizeOf_lt_arr inside) (acceptsAll_iff.mp each value inside)
  unfold ShellTree.accepts at accepted
  split at accepted
  next => exact .any _
  next => exact .descriptor _
  next => exact .target (all rfl accepted)
  next => exact .name _
  next => exact .many (all rfl accepted)
  next => exact .word (all rfl accepted)
  next => exact .assignment _ (ih _ _ (Json.sizeOf_lt_arr (by simp)) accepted)
  next =>
      -- a clause is looked up by its keys, so what is found is smaller than the whole object
      obtain ⟨patternsAccepted, bodyAccepted⟩ := Bool.and_eq_true_iff.mp accepted
      obtain ⟨patterns, patternsFound, patternsInside⟩ := acceptsUnder_iff.mp patternsAccepted
      obtain ⟨body, bodyFound, bodyInside⟩ := acceptsUnder_iff.mp bodyAccepted
      exact .clause patternsFound bodyFound
        (ih _ patterns (Json.sizeOf_lt_obj patternsFound) patternsInside)
        (ih _ body (Json.sizeOf_lt_obj bodyFound) bodyInside)
  next item label value _ _ =>
      split at accepted
      next shape known =>
          obtain ⟨tag, read, layout⟩ := Option.bind_eq_some_iff.mp known
          rw [← Tag.label_of_ofLabel? read]
          exact .alone layout (ih shape value (Json.sizeOf_lt_arr (by simp)) accepted)
      next shapes added known =>
          obtain ⟨tag, read, layout⟩ := Option.bind_eq_some_iff.mp known
          rw [← Tag.label_of_ofLabel? read]
          split at accepted
          next values =>
              obtain ⟨length, each⟩ := acceptsEach_iff.mp accepted
              refine .fields layout length fun field inside => ?_
              have smaller : sizeOf field.2 < sizeOf (Json.arr [.str label, .arr values]) :=
                Nat.lt_trans (Json.sizeOf_lt_arr (List.of_mem_zip inside).2)
                  (Json.sizeOf_lt_arr (by simp))
              exact ih field.1 field.2 smaller (each field inside)
          next => cases accepted
      next => cases accepted
  next => cases accepted

theorem Fits.of_accepts (shape : Shape) (json : Json)
    (accepted : ShellTree.accepts shape json = true) : Fits shape json :=
  .of_accepts_inside (fun shape inner _ inside => .of_accepts shape inner inside) accepted
termination_by sizeOf json

instance (shape : Shape) (json : Json) : Decidable (Fits shape json) :=
  decidable_of_iff (accepts shape json = true) ⟨Fits.of_accepts shape json, Fits.accepts⟩

end ShellTree
