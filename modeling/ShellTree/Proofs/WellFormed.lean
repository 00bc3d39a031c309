import ShellTree.Proofs.PrintableTrees

/-!
# Well-formed tagged commands

A tagged command is well formed if its fields have their shapes and hold
something that can be printed: pipelines and clauses are not empty, codes are
those of characters, and kinds, formats and flags are known ones.  Every well
formed command is read, and its tree prints.
-/

namespace ShellTree

/-! ## Well-formed commands -/

/-- A JSON string. -/
def IsText : Json → Prop
  | .str _ => True
  | _ => False

/-- One of the given words. -/
def IsOneOf (words : List String) : Json → Prop
  | .str text => text ∈ words
  | _ => False

/-- The code of a character. -/
def IsCode : Json → Prop
  | .int code => 0 ≤ code ∧ code ≤ 0x10FFFF
  | _ => False

/-- A truth value, or a word for one in letters of any case. -/
def IsFlag : Json → Prop
  | .bool _ => True
  | .str text => text.toLower = "true" ∨ text.toLower = "false"
  | _ => False

/-- The user behind a tilde: nobody in particular, or somebody with a name. -/
def IsUser : Json → Prop
  | .str text => text = "None"
  | .arr [.str form, .str _] => form = "Some"
  | _ => False

/-- The kinds of redirections to files. -/
def fileKinds : List String :=
  ["To", "Clobber", "From", "FromTo", "Append", "ReadingString"]

/-- The kinds of duplicated descriptors. -/
def dupKinds : List String :=
  ["ToFD", "FromFD"]

/-- The shapes of the fields beside a tag. -/
def Layout.shapes : Layout → List Shape
  | .alone shape => [shape]
  | .fields shapes _ => shapes

/-- Do the fields that are kept as they stand hold something that can be printed? -/
def Tag.Admits : Tag → List Json → Prop
  | .pipe, [_, items] => items ≠ .arr []
  | .char, [code] => IsCode code
  | .escaped, [code] => IsCode code
  | .tilde, [user] => IsUser user
  | .param, [format, nullTest, name, _] =>
      IsOneOf (expansionOperators.map Prod.fst) format ∧ IsFlag nullTest ∧ IsText name
  | .process, [op, _] => IsText op
  | .file, [kind, _, _] => IsOneOf fileKinds kind
  | .dup, [kind, _, _] => IsOneOf dupKinds kind
  | _, _ => True

/-- The well-formed tagged values of a shape. -/
inductive WellFormed : Shape → Json → Prop where
  | any (value : Json) : WellFormed .any value
  | descriptor (number : Json) : WellFormed .descriptor number
  | target {parts : List Json} (inside : ∀ part ∈ parts, WellFormed (.one .part) part) :
      WellFormed .target (.arr parts)
  | name (text : String) : WellFormed .name (.str text)
  | many {item : Item} {values : List Json}
      (inside : ∀ value ∈ values, WellFormed (.one item) value) :
      WellFormed (.many item) (.arr values)
  | word {parts : List Json} (inside : ∀ part ∈ parts, WellFormed (.one .part) part) :
      WellFormed (.one .word) (.arr parts)
  | assignment (name : Json) {value : Json} (inside : WellFormed (.one .word) value) :
      WellFormed (.one .assignment) (.arr [name, value])
  | clause {fields : List (String × Json)} {patterns body : Json}
      (patternsFound : fields.lookup "cpattern" = some patterns)
      (bodyFound : fields.lookup "cbody" = some body) (nonempty : patterns ≠ .arr [])
      (patternsInside : WellFormed (.many .word) patterns)
      (bodyInside : WellFormed (.one .command) body) :
      WellFormed (.one .clause) (.obj fields)
  | alone {item : Item} {tag : Tag} {shape : Shape} {value : Json}
      (layout : item.layout tag = some (.alone shape)) (inside : WellFormed shape value)
      (admitted : tag.Admits [value]) :
      WellFormed (.one item) (.arr [.str tag.label, value])
  | fields {item : Item} {tag : Tag} {shapes : List Shape} {added values : List Json}
      (layout : item.layout tag = some (.fields shapes added))
      (length : shapes.length = values.length)
      (inside : ∀ field ∈ shapes.zip values, WellFormed field.1 field.2)
      (admitted : tag.Admits values) :
      WellFormed (.one item) (.arr [.str tag.label, .arr values])

/-- What is read of each shape prints wherever it stands. -/
def Shape.Prints : Shape → Json → Datum → Prop
  | .any, value, datum => datum = .ofJson value
  | .descriptor, number, datum => datum = Tagged.fixedFd number
  | .target, _, datum => ∃ word, datum = .tuple [.text "var", word] ∧ word.WordPrints
  | .name, _, datum => datum.WordPrints
  | .one item, _, datum => item.Prints datum
  | .many item, value, datum => ∃ values items, value = .arr values ∧ datum = .list items ∧
      items.length = values.length ∧ ∀ inner ∈ items, item.Prints inner

/-- The fields of a construct that are read print, each by its shape. -/
inductive PrintsEach : List Shape → List Json → List Datum → Prop where
  | nil : PrintsEach [] [] []
  | cons {shape : Shape} {value : Json} {field : Datum} {shapes : List Shape}
      {values : List Json} {fields : List Datum} (first : shape.Prints value field)
      (rest : PrintsEach shapes values fields) :
      PrintsEach (shape :: shapes) (value :: values) (field :: fields)

/-! ## Data -/

mutual

theorem describe_ofJson (nested : Bool) : ∀ json : Json,
    Succeeds ((Datum.ofJson json).describe nested)
  | .null => ⟨_, rfl⟩
  | .bool _ => ⟨_, rfl⟩
  | .int _ => ⟨_, rfl⟩
  | .float _ => ⟨_, rfl⟩
  | .str _ => ⟨_, rfl⟩
  | .arr values => by
      rw [Datum.ofJson, Datum.describe]
      exact (describeItems_ofJsonItems values).bind fun _ => ⟨_, rfl⟩
  | .obj fields => by
      rw [Datum.ofJson, Datum.describe]
      exact (describeFields_ofJsonFields fields).bind fun _ => ⟨_, rfl⟩

theorem describeItems_ofJsonItems : ∀ values : List Json,
    Succeeds (describeItems (Datum.ofJsonItems values))
  | [] => ⟨_, rfl⟩
  | value :: rest => by
      rw [Datum.ofJsonItems, describeItems]
      exact (describe_ofJson true value).bind fun _ =>
        (describeItems_ofJsonItems rest).bind fun _ => ⟨_, rfl⟩

theorem describeFields_ofJsonFields : ∀ fields : List (String × Json),
    Succeeds (describeFields (Datum.ofJsonFields fields))
  | [] => ⟨_, rfl⟩
  | (_, value) :: rest => by
      rw [Datum.ofJsonFields, describeFields]
      exact (describe_ofJson true value).bind fun _ =>
        (describeFields_ofJsonFields rest).bind fun _ => ⟨_, rfl⟩

end

/-- A number beside a redirection can be shown, or left out where it is the usual one. -/
theorem renderFd_fixedFd (number : Json) (expected : Datum) :
    Succeeds ((Tagged.fixedFd number).renderFd expected) := by
  have shown : Succeeds (Datum.ofJson number).display := describe_ofJson false number
  have other : (Datum.text "fixed").isText "var" = false := rfl
  rw [Tagged.fixedFd, Datum.renderFd, other, if_neg Bool.false_ne_true]
  split
  · rw [shownUnless]
    split
    · exact ⟨_, rfl⟩
    · exact shown
  · exact shown

theorem char_ofJson {code : Json} (valid : IsCode code) : Succeeds (Datum.ofJson code).char := by
  unfold IsCode at valid
  split at valid
  next code =>
      obtain ⟨number, rfl⟩ := Int.eq_ofNat_of_zero_le valid.1
      exact ⟨_, charOfCode_of_lt (by omega)⟩
  next => exact valid.elim

/-! ## Parts of words -/

theorem toLower_eq {text lower : String} (same : text.toList.map Char.toLower = lower.toList) :
    text.toLower = lower := by
  apply String.toList_injective
  change (text.map Char.toLower).toList = lower.toList
  rw [String.toList_map, same]

/-- A flag shows as a word for a truth value. -/
theorem display_flag {flag : Json} (valid : IsFlag flag) :
    ∃ text, (Datum.ofJson flag).display = .ok text ∧
      (text.toLower = "true" ∨ text.toLower = "false") := by
  unfold IsFlag at valid
  split at valid
  next value =>
      refine ⟨truthText value, rfl, ?_⟩
      cases value with
      | false => exact .inr (toLower_eq (by decide))
      | true => exact .inl (toLower_eq (by decide))
  next text => exact ⟨text, rfl, valid⟩
  next => exact valid.elim

theorem expansionOperator_ofJson {format : Json}
    (known : IsOneOf (expansionOperators.map Prod.fst) format) :
    Succeeds (expansionOperator (Datum.ofJson format)) := by
  unfold IsOneOf at known
  split at known
  next name =>
      rw [Datum.ofJson, expansionOperator]
      cases found : expansionOperators.lookup name with
      | some operator => exact ⟨operator, rfl⟩
      | none =>
          obtain ⟨entry, inside, rfl⟩ := List.mem_map.mp known
          exact absurd (List.lookup_eq_none_iff.mp found entry inside) (by simp)
  next => exact known.elim

/-- A parameter expansion prints if its format and its flag are known ones. -/
theorem render_param {format nullTest name : Json} {word : Datum}
    (known : IsOneOf (expansionOperators.map Prod.fst) format) (flag : IsFlag nullTest)
    (named : IsText name) (prints : word.WordPrints) (mode : QuoteMode) :
    Succeeds ((WordPart.param (.ofJson format) (.ofJson nullTest) (.ofJson name) word).render
      mode) := by
  obtain ⟨text, shown, spelled⟩ := display_flag flag
  unfold IsText at named
  split at named
  next name =>
      rw [Datum.ofJson, WordPart.render]
      split
      · exact ⟨_, rfl⟩
      · refine bind_of_ok shown ?_
        have following (colon : String) : Succeeds (do
            let operator ← expansionOperator (.ofJson format)
            let inner ← word.renderWord mode
            return "$\x7b" ++ name ++ colon ++ operator ++ inner ++ "\x7d") :=
          (expansionOperator_ofJson known).bind fun _ =>
            (prints.renderWord mode).bind fun _ => ⟨_, rfl⟩
        rcases spelled with yes | no
        · rw [if_pos yes]
          exact following ":"
        · have other : ¬ text.toLower = "true" := by
            rw [no]
            decide
          rw [if_neg other, if_pos no]
          exact following ""
  next => exact named.elim

theorem render_tilde {user : Json} (known : IsUser user) (mode : QuoteMode) :
    Succeeds ((WordPart.tilde (.ofJson user)).render mode) := by
  unfold IsUser at known
  split at known
  next text =>
      subst known
      exact ⟨"~", rfl⟩
  next form name =>
      subst known
      exact ⟨"~" ++ name, rfl⟩
  next => exact known.elim

/-- The parts of a word print in every mode. -/
theorem prints_part {tag : Tag} {layout : Layout} {values : List Json} {fields : List Datum}
    (found : Item.part.layout tag = some layout) (admitted : tag.Admits values)
    (printed : PrintsEach layout.shapes values fields) : Item.part.Prints (tag.build fields) := by
  cases tag with
  | char =>
      cases found
      obtain _ | ⟨rfl, ⟨⟩⟩ := printed
      refine ⟨_, rfl, fun mode => ?_⟩
      rw [WordPart.render]
      refine (char_ofJson admitted).bind fun _ => ?_
      split
      · exact ⟨_, rfl⟩
      · exact ⟨_, rfl⟩
  | escaped =>
      cases found
      obtain _ | ⟨rfl, ⟨⟩⟩ := printed
      refine ⟨_, rfl, fun mode => ?_⟩
      rw [WordPart.render, Escape.text]
      refine (char_ofJson admitted).bind fun _ => ?_
      split
      · exact ⟨_, rfl⟩
      · split
        · exact ⟨_, rfl⟩
        · rw [Escape.codeText]
          exact (char_ofJson admitted).bind fun _ =>
            (describe_ofJson false _).bind fun _ => ⟨_, rfl⟩
  | tilde =>
      cases found
      obtain _ | ⟨rfl, ⟨⟩⟩ := printed
      exact ⟨_, rfl, render_tilde admitted⟩
  | arithPart =>
      cases found
      obtain _ | ⟨word, ⟨⟩⟩ := printed
      refine ⟨_, rfl, fun mode => ?_⟩
      rw [WordPart.render]
      exact (word.renderWord mode).bind fun _ => ⟨_, rfl⟩
  | param =>
      cases found
      obtain _ | ⟨rfl, _ | ⟨rfl, _ | ⟨rfl, _ | ⟨word, ⟨⟩⟩⟩⟩⟩ := printed
      obtain ⟨known, flag, named⟩ := admitted
      exact ⟨_, rfl, render_param known flag named word⟩
  | quoted =>
      cases found
      obtain _ | ⟨word, ⟨⟩⟩ := printed
      refine ⟨_, rfl, fun mode => ?_⟩
      rw [WordPart.render]
      exact (word.renderWord .quoted).bind fun _ => ⟨_, rfl⟩
  | commandPart =>
      cases found
      obtain _ | ⟨⟨command, rfl, prints⟩, ⟨⟩⟩ := printed
      refine ⟨_, rfl, fun mode => ?_⟩
      rw [WordPart.render, Datum.render]
      exact prints.plain.required.bind fun _ => ⟨_, rfl⟩
  | process =>
      cases found
      obtain _ | ⟨rfl, _ | ⟨⟨command, rfl, prints⟩, ⟨⟩⟩⟩ := printed
      refine ⟨_, rfl, fun mode => ?_⟩
      rw [WordPart.render, Datum.render]
      exact prints.plain.required.bind fun _ =>
        (describe_ofJson false _).bind fun _ => ⟨_, rfl⟩
  | _ => cases found

/-! ## Redirections and commands -/

theorem render_file {kind number : Json} {word : Datum} (known : IsOneOf fileKinds kind)
    (prints : word.WordPrints) :
    Prints ((Redirection.file (.ofJson kind) (Tagged.fixedFd number) word).render) := by
  unfold IsOneOf at known
  split at known
  next kind =>
      rw [Datum.ofJson, Redirection.render]
      refine (renderFd_fixedFd number _).bind fun _ => ?_
      refine (renderFd_fixedFd number _).bind fun _ => ?_
      simp only [fileKinds, List.mem_cons, List.not_mem_nil, or_false] at known
      rcases known with rfl | rfl | rfl | rfl | rfl | rfl
      all_goals exact (prints.renderWord .unquoted).bind fun _ => ⟨_, rfl⟩
  next => exact known.elim

theorem render_dup {kind number : Json} {word : Datum} (known : IsOneOf dupKinds kind)
    (prints : word.WordPrints) :
    Prints ((Redirection.dup (.ofJson kind) (Tagged.fixedFd number) (.tuple [.text "var", word])
      (.bool false)).render) := by
  have counted : Succeeds word.length := by
    obtain ⟨items, rfl, _⟩ := prints
    exact ⟨_, rfl⟩
  unfold IsOneOf at known
  split at known
  next kind =>
      rw [Datum.ofJson, Redirection.render]
      simp only [dupKinds, List.mem_cons, List.not_mem_nil, or_false] at known
      rcases known with rfl | rfl
      all_goals
        exact counted.bind fun _ => (renderFd_fixedFd number _).bind fun _ =>
          (prints.renderWord .unquoted).bind fun _ => ⟨_, rfl⟩
  next => exact known.elim

/-- A heredoc without a marker of its own prints in one piece and in two. -/
theorem prints_heredoc (kind number : Json) {word : Datum} (prints : word.WordPrints) :
    Redirection.Prints
      (.heredoc (.ofJson kind) (Tagged.fixedFd number) word (.bool false) .null) where
  plain := by
    rw [Redirection.render]
    exact (prints.renderWord .heredoc).bind fun _ =>
      (renderFd_fixedFd number _).bind fun _ => ⟨_, rfl⟩
  header _ := by
    rw [Redirection.header]
    refine (prints.renderWord .heredoc).bind fun _ => ?_
    refine (renderFd_fixedFd number _).bind fun _ => ?_
    change Succeeds (ite _ _ _)
    split
    · exact ⟨_, rfl⟩
    · exact ⟨_, rfl⟩
  body _ := by
    rw [Redirection.body]
    exact (prints.renderWord .heredoc).bind fun _ => ⟨_, rfl⟩

theorem prints_redirection {tag : Tag} {layout : Layout} {values : List Json}
    {fields : List Datum} (found : Item.redirection.layout tag = some layout)
    (admitted : tag.Admits values) (printed : PrintsEach layout.shapes values fields) :
    Item.redirection.Prints (tag.build fields) := by
  cases tag with
  | file =>
      cases found
      obtain _ | ⟨rfl, _ | ⟨rfl, _ | ⟨word, ⟨⟩⟩⟩⟩ := printed
      exact ⟨_, rfl, .of_plain (render_file admitted word) (by simp [Redirection.tag])⟩
  | dup =>
      cases found
      obtain _ | ⟨rfl, _ | ⟨rfl, _ | ⟨⟨word, rfl, prints⟩, ⟨⟩⟩⟩⟩ := printed
      exact ⟨_, rfl, .of_plain (render_dup admitted prints) (by simp [Redirection.tag])⟩
  | heredoc =>
      cases found
      obtain _ | ⟨rfl, _ | ⟨rfl, _ | ⟨word, ⟨⟩⟩⟩⟩ := printed
      exact ⟨_, rfl, prints_heredoc _ _ word⟩
  | _ => cases found

/-- Every command prints in the styles that it is asked for, if what is inside it does. -/
theorem prints_command {tag : Tag} {layout : Layout} {values : List Json} {fields : List Datum}
    (found : Item.command.layout tag = some layout) (admitted : tag.Admits values)
    (printed : PrintsEach layout.shapes values fields) :
    Item.command.Prints (tag.build fields) := by
  cases tag with
  | pipe =>
      cases found
      obtain _ | ⟨rfl, _ | ⟨⟨values, items, rfl, rfl, length, each⟩, ⟨⟩⟩⟩ := printed
      obtain _ | ⟨first, rest⟩ := items
      · cases values with
        | nil => exact (admitted rfl).elim
        | cons => cases length
      · exact ⟨_, rfl, prints_pipe _ first rest each⟩
  | simple =>
      cases found
      obtain _ | ⟨rfl, _ | ⟨⟨_, assignments, rfl, rfl, _, assigned⟩,
        _ | ⟨⟨_, arguments, rfl, rfl, _, words⟩,
        _ | ⟨⟨_, redirs, rfl, rfl, _, each⟩, ⟨⟩⟩⟩⟩⟩ := printed
      exact ⟨_, rfl, prints_simple _ assigned words each⟩
  | subshell =>
      cases found
      obtain _ | ⟨rfl, _ | ⟨body, _ | ⟨⟨_, redirs, rfl, rfl, _, each⟩, ⟨⟩⟩⟩⟩ := printed
      exact ⟨_, rfl, (prints_redirected _ body each).1⟩
  | and =>
      cases found
      obtain _ | ⟨left, _ | ⟨right, ⟨⟩⟩⟩ := printed
      exact ⟨_, rfl, (prints_connected left right).1⟩
  | or =>
      cases found
      obtain _ | ⟨left, _ | ⟨right, ⟨⟩⟩⟩ := printed
      exact ⟨_, rfl, (prints_connected left right).2.1⟩
  | semi =>
      cases found
      obtain _ | ⟨left, _ | ⟨right, ⟨⟩⟩⟩ := printed
      exact ⟨_, rfl, (prints_connected left right).2.2⟩
  | not =>
      cases found
      obtain _ | ⟨body, ⟨⟩⟩ := printed
      exact ⟨_, rfl, prints_not body⟩
  | redirected =>
      cases found
      obtain _ | ⟨rfl, _ | ⟨body, _ | ⟨⟨_, redirs, rfl, rfl, _, each⟩, ⟨⟩⟩⟩⟩ := printed
      exact ⟨_, rfl, (prints_redirected _ body each).2.1⟩
  | background =>
      cases found
      obtain _ | ⟨rfl, _ | ⟨body, _ | ⟨⟨_, redirs, rfl, rfl, _, each⟩, ⟨⟩⟩⟩⟩ := printed
      exact ⟨_, rfl, (prints_redirected _ body each).2.2⟩
  | defun =>
      cases found
      obtain _ | ⟨rfl, _ | ⟨name, _ | ⟨body, ⟨⟩⟩⟩⟩ := printed
      exact ⟨_, rfl, prints_defun _ name body⟩
  | forLoop =>
      cases found
      obtain _ | ⟨rfl, _ | ⟨⟨_, words, rfl, rfl, _, each⟩, _ | ⟨body, _ | ⟨name, ⟨⟩⟩⟩⟩⟩ := printed
      exact ⟨_, rfl, prints_forLoop _ name body each⟩
  | whileLoop =>
      cases found
      obtain _ | ⟨test, _ | ⟨body, ⟨⟩⟩⟩ := printed
      exact ⟨_, rfl, prints_whileLoop test body⟩
  | ifElse =>
      cases found
      obtain _ | ⟨test, _ | ⟨thenBranch, _ | ⟨elseBranch, ⟨⟩⟩⟩⟩ := printed
      exact ⟨_, rfl, prints_ifElse test thenBranch elseBranch⟩
  | case =>
      cases found
      obtain _ | ⟨rfl, _ | ⟨word, _ | ⟨⟨_, clauses, rfl, rfl, _, each⟩, ⟨⟩⟩⟩⟩ := printed
      exact ⟨_, rfl, prints_case _ word each⟩
  | _ => cases found

/-! ## Commands that are read -/

/-- The value is read, and what is read prints. -/
def ReadsPrintable (shape : Shape) (json : Json) : Prop :=
  ∃ tree, shape.read json = .ok tree ∧ shape.Prints json tree

theorem readMany_printable {item : Item} {values : List Json}
    (each : ∀ value ∈ values, ReadsPrintable (.one item) value) :
    ∃ trees, item.readMany (.arr values) = .ok (.list trees) ∧ trees.length = values.length ∧
      ∀ inner ∈ trees, item.Prints inner := by
  have gathered : ∃ trees, gather (values.map item.read) = .ok trees ∧
      trees.length = values.length ∧ ∀ inner ∈ trees, item.Prints inner := by
    induction values with
    | nil => exact ⟨[], rfl, rfl, fun _ inside => by cases inside⟩
    | cons value rest ih =>
        obtain ⟨tree, read, prints⟩ := each value List.mem_cons_self
        obtain ⟨trees, readRest, length, others⟩ :=
          ih fun other inside => each other (List.mem_cons_of_mem _ inside)
        refine ⟨tree :: trees, ?_, congrArg Nat.succ length,
          List.forall_mem_cons.mpr ⟨prints, others⟩⟩
        have first : item.read value = .ok tree := read
        rw [List.map_cons, gather, first, readRest]
        rfl
  obtain ⟨trees, read, length, prints⟩ := gathered
  refine ⟨trees, ?_, length, prints⟩
  rw [item.readMany_arr, read]
  rfl

theorem gather_printable {shapes : List Shape} {values : List Json}
    (length : shapes.length = values.length)
    (each : ∀ field ∈ shapes.zip values, ReadsPrintable field.1 field.2) :
    ∃ fields, gather ((shapes.zip values).map fun field => field.1.read field.2) = .ok fields ∧
      PrintsEach shapes values fields := by
  induction shapes generalizing values with
  | nil =>
      cases values with
      | nil => exact ⟨[], rfl, .nil⟩
      | cons => cases length
  | cons shape shapes ih =>
      cases values with
      | nil => cases length
      | cons value values =>
          obtain ⟨tree, read, prints⟩ := each (shape, value) List.mem_cons_self
          obtain ⟨fields, readRest, others⟩ := ih (Nat.succ.inj length) fun field inside =>
            each field (List.mem_cons_of_mem _ inside)
          refine ⟨tree :: fields, ?_, .cons prints others⟩
          rw [List.zip_cons_cons, List.map_cons, gather, read, readRest]
          rfl

/-- A construct prints if its fields are read and print. -/
theorem prints_construct {item : Item} {tag : Tag} {layout : Layout} {values : List Json}
    {fields : List Datum} (found : item.layout tag = some layout) (admitted : tag.Admits values)
    (printed : PrintsEach layout.shapes values fields) : item.Prints (tag.build fields) := by
  cases item with
  | command => exact prints_command found admitted printed
  | part => exact prints_part found admitted printed
  | redirection => exact prints_redirection found admitted printed
  | word => cases found
  | assignment => cases found
  | clause => cases found

/-- Whatever is well formed is read and prints. -/
theorem WellFormed.readsPrintable {shape : Shape} {json : Json} (formed : WellFormed shape json) :
    ReadsPrintable shape json := by
  induction formed with
  | any value => exact ⟨_, rfl, rfl⟩
  | descriptor number => exact ⟨_, rfl, rfl⟩
  | target inside ih =>
      obtain ⟨trees, read, _, prints⟩ := readMany_printable ih
      refine ⟨.tuple [.text "var", .list trees], ?_, _, rfl, wordPrints_of_parts prints⟩
      have word : Tagged.readWord _ = .ok (.list trees) := read
      rw [Shape.read, word]
      rfl
  | name text => exact ⟨_, rfl, wordPrints_wordOf false text.toList⟩
  | many inside ih =>
      obtain ⟨trees, read, length, prints⟩ := readMany_printable ih
      exact ⟨_, read, _, trees, rfl, rfl, length, prints⟩
  | word inside ih =>
      obtain ⟨trees, read, _, prints⟩ := readMany_printable ih
      exact ⟨_, read, wordPrints_of_parts prints⟩
  | assignment name inside ih =>
      obtain ⟨word, read, prints⟩ := ih
      have value : Tagged.readWord _ = .ok word := read
      refine ⟨.assign (.ofJson name) word, ?_, ?_⟩
      · rw [Shape.read, Item.read, Tagged.readAssign, value]
        rfl
      · have printable : word.WordPrints := prints
        change Prints ((Datum.assign (.ofJson name) word).render .plain)
        rw [Datum.render]
        exact bind_of_ok rfl <| (describe_ofJson false name).bind fun _ =>
          (printable.renderWord .unquoted).bind fun _ => ⟨_, rfl⟩
  | clause patternsFound bodyFound nonempty patternsInside bodyInside ihPatterns ihBody =>
      obtain ⟨_, readPatterns, values, patterns, rfl, rfl, length, words⟩ := ihPatterns
      obtain ⟨body, readBody, prints⟩ := ihBody
      refine ⟨buildClause [.list patterns, body], ?_, ?_⟩
      · rw [Shape.read, Item.read, readClause_of_lookup patternsFound bodyFound]
        simp only [clauseShapes, List.zip_cons_cons, List.map_cons, readPatterns, readBody]
        rfl
      · obtain _ | ⟨first, rest⟩ := patterns
        · cases values with
          | nil => exact (nonempty rfl).elim
          | cons => cases length
        · exact prints_clause words prints
  | alone layout inside admitted ih =>
      obtain ⟨tree, read, prints⟩ := ih
      refine ⟨_, ?_, prints_construct layout admitted (.cons prints .nil)⟩
      rw [Shape.read, Item.read_alone layout, read]
      rfl
  | fields layout length inside admitted ih =>
      obtain ⟨fields, read, prints⟩ := gather_printable length ih
      refine ⟨_, ?_, prints_construct layout admitted prints⟩
      have whole := Item.read_fields layout length []
      rw [List.append_nil, read] at whole
      exact whole

/--
Every well-formed command is read, and its tree has a shell text.  A dollar sign
by itself is never the text of anything but a plain character.
-/
theorem shellText_of_wellFormed {json : Json} (formed : WellFormed (.one .command) json) :
    (∃ tree text, Tagged.readCommand json = .ok tree ∧ tree.shellText = .ok (some text)) ∧
      ∀ (part : WordPart) (mode : QuoteMode), part.render mode = .ok "$" → part.tag = .char := by
  obtain ⟨tree, read, prints⟩ := formed.readsPrintable
  obtain ⟨text, shown⟩ := Item.Prints.plain prints
  exact ⟨⟨tree, text, read, shown⟩, fun _ _ => tag_of_render_dollar⟩

/--
A pipeline that starts with a heredoc: its body holds an expansion whose flag is
in capitals, and a negated command follows.
-/
theorem shellText_of_wellFormed_pipe :
    let expansion : Json := .arr [.str "V", .arr [.str "Minus", .str "TRUE", .str "x", .arr []]]
    let heredoc : Json := .arr [.str "Heredoc", .arr [.str "XHere", .int 0, .arr [expansion]]]
    let home : Json := .arr [.str "T", .arr [.str "Some", .str "u"]]
    let call (words redirs : List Json) : Json :=
      .arr [.str "Command", .arr [.int 1, .arr [], .arr words, .arr redirs]]
    let json : Json := .arr [.str "Pipe", .arr [.bool false,
      .arr [call [] [heredoc], .arr [.str "Not", call [.arr [home]] []]]]]
    WellFormed (.one .command) json ∧
      (∃ tree text, Tagged.readCommand json = .ok tree ∧ tree.shellText = .ok (some text)) ∧
      ∀ (part : WordPart) (mode : QuoteMode), part.render mode = .ok "$" → part.tag = .char := by
  intro expansion heredoc home call json
  have expansionFormed : WellFormed (.one .part) expansion :=
    .fields (show Item.part.layout .param = some _ from rfl) rfl
      (by simpa using ⟨.any _, .any _, .any _, .word (by simp)⟩)
      ⟨show "Minus" ∈ expansionOperators.map Prod.fst by decide, .inl (toLower_eq (by decide)), trivial⟩
  have heredocFormed : WellFormed (.one .redirection) heredoc :=
    .fields (show Item.redirection.layout .heredoc = some _ from rfl) rfl
      (by simpa using ⟨.any _, .descriptor _, .word (by simpa using expansionFormed)⟩) trivial
  have homeFormed : WellFormed (.one .part) home :=
    .alone (show Item.part.layout .tilde = some _ from rfl) (.any _) rfl
  have callFormed (words redirs : List Json)
      (wordsFormed : ∀ word ∈ words, WellFormed (.one .word) word)
      (redirsFormed : ∀ redir ∈ redirs, WellFormed (.one .redirection) redir) :
      WellFormed (.one .command) (call words redirs) :=
    .fields (show Item.command.layout .simple = some _ from rfl) rfl
      (by simpa using ⟨.any _, .many (by simp), .many wordsFormed, .many redirsFormed⟩) trivial
  have negationFormed : WellFormed (.one .command) (.arr [.str "Not", call [.arr [home]] []]) :=
    .alone (show Item.command.layout .not = some _ from rfl)
      (callFormed _ _ (by simpa using .word (by simpa using homeFormed)) (by simp)) trivial
  have formed : WellFormed (.one .command) json :=
    .fields (show Item.command.layout .pipe = some _ from rfl) rfl
      (by simpa using ⟨.any _, .many (by
        simpa using ⟨callFormed _ _ (by simp) (by simpa using heredocFormed), negationFormed⟩)⟩)
      (by simp [Tag.Admits])
  exact ⟨formed, shellText_of_wellFormed formed⟩

end ShellTree
