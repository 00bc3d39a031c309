import ShellTree.Proofs.DatumInside
import ShellTree.Tree.Export

/-!
# The two ways to the tagged form

A construct is shown as a pair of a key and a value.  The one way writes the pair
as a list and goes through it like through any other list; the other keeps the
key as it stands and goes on with the value.  So they come to the same wherever
the keys are texts, and nothing but a kind of condition stops the first.
-/

namespace ShellTree

/-! ## What a construct shows of itself -/

/-- What a command shows of itself beside its tag. -/
def Command.shown : Command → Datum
  | .and left right _ => .list [left, right]
  | .or left right _ => .list [left, right]
  | .semi left right _ => .list [left, right]
  | .not body _ => body
  | .background line node redirs _ _ => .list [line, node, redirs]
  | .defun line name body _ => .list [line, name, body]
  | .group body => body
  | command => .list command.fields

/-- What a part of a word shows of itself beside its tag. -/
def WordPart.shown : WordPart → Datum
  | .char code _ => code
  | .escaped code => code
  | .tilde user => user
  | .arith arg => arg
  | .quoted arg => arg
  | .command node => node
  | part => .list part.fields

/-- What a redirection shows of itself beside its tag. -/
def Redirection.shown : Redirection → Datum
  | .heredoc kind fd arg _ eof => .list [kind, fd, arg, eof]
  | redirection => .list redirection.fields

/-- What is shown of some fields: one of them alone, or a list of some of them. -/
def ShownOf (fields : List Datum) (shown : Datum) : Prop :=
  shown ∈ fields ∨ ∃ items, shown = .list items ∧ items ⊆ fields

theorem Command.shownOf_fields (value : Command) : ShownOf value.fields value.shown := by
  cases value <;> simp [ShownOf, Command.fields, Command.shown]

theorem WordPart.shownOf_fields (value : WordPart) : ShownOf value.fields value.shown := by
  cases value <;> simp [ShownOf, WordPart.fields, WordPart.shown]

theorem Redirection.shownOf_fields (value : Redirection) :
    ShownOf value.fields value.shown := by
  cases value <;> simp [ShownOf, Redirection.fields, Redirection.shown]

/-- The key and the value that a construct is shown as. -/
def Datum.pair? : Datum → Option (Datum × Datum)
  | .command value => some (.text value.tag.exported, value.shown)
  | .part value => some (.text value.tag.exported, value.shown)
  | .redir value => some (.text value.tag.exported, value.shown)
  | .assign var val => some (var, val)
  | _ => none

theorem itemsToJson_nil : itemsToJson [] = pure [] :=
  rfl

theorem itemsToJson_cons (item : Datum) (rest : List Datum) :
    itemsToJson (item :: rest) =
      item.toJson >>= fun first => itemsToJson rest >>= fun others => pure (first :: others) :=
  rfl

theorem toJson_list (items : List Datum) :
    (Datum.list items).toJson = itemsToJson items >>= fun values => pure (.arr values) :=
  rfl

theorem Command.toJson_eq (value : Command) : value.toJson = value.shown.toJson := by
  cases value <;> simp only [Command.toJson, Command.shown, Command.fields, toJson_list,
    itemsToJson_cons, itemsToJson_nil, bind_assoc, pure_bind]

theorem WordPart.toJson_eq (value : WordPart) : value.toJson = value.shown.toJson := by
  cases value <;> simp only [WordPart.toJson, WordPart.shown, WordPart.fields, toJson_list,
    itemsToJson_cons, itemsToJson_nil, bind_assoc, pure_bind]

theorem Redirection.toJson_eq (value : Redirection) : value.toJson = value.shown.toJson := by
  cases value <;> simp only [Redirection.toJson, Redirection.shown, Redirection.fields, toJson_list,
    itemsToJson_cons, itemsToJson_nil, bind_assoc, pure_bind]

theorem Command.untyped_eq (value : Command) : value.untyped = value.shown.untyped := by
  cases value <;> rfl

theorem WordPart.untyped_eq (value : WordPart) : value.untyped = value.shown.untyped := by
  cases value <;> rfl

theorem Redirection.untyped_eq (value : Redirection) : value.untyped = value.shown.untyped := by
  cases value <;> rfl

theorem toJson_tagged (tag : Tag) (value : Datum) :
    (Datum.list [.text tag.exported, value]).toJson =
      value.toJson >>= fun inner => pure (taggedJson tag inner) := by
  have key : (Datum.text tag.exported).toJson = pure (.str tag.exported) := rfl
  simp only [toJson_list, itemsToJson_cons, itemsToJson_nil, key, bind_assoc, pure_bind, taggedJson]

/-- The one way writes the pair like any other list. -/
theorem toJson_of_pair {datum key value : Datum} (pair : datum.pair? = some (key, value)) :
    datum.toJson = (Datum.list [key, value]).toJson := by
  cases datum with
  | command construct =>
      cases pair
      rw [toJson_tagged, ← construct.toJson_eq, Datum.toJson]
  | part construct =>
      cases pair
      rw [toJson_tagged, ← construct.toJson_eq, Datum.toJson]
  | redir construct =>
      cases pair
      rw [toJson_tagged, ← construct.toJson_eq, Datum.toJson]
  | assign var val =>
      cases pair
      simp only [Datum.toJson, itemsToJson_cons, itemsToJson_nil, bind_assoc, pure_bind]
  | _ => cases pair

/-- The other way keeps the key and goes on with the value. -/
theorem untyped_of_pair {datum key value : Datum} (pair : datum.pair? = some (key, value)) :
    datum.untyped = .list [key, value.untyped] := by
  cases datum with
  | command construct =>
      cases pair
      rw [Datum.untyped, construct.untyped_eq]
  | part construct =>
      cases pair
      rw [Datum.untyped, construct.untyped_eq]
  | redir construct =>
      cases pair
      rw [Datum.untyped, construct.untyped_eq]
  | assign var val =>
      cases pair
      rfl
  | _ => cases pair

/-! ## Agreement -/

/-- The two ways agree on a datum: the first comes to a value, which says what the second says. -/
def Datum.Agrees (datum : Datum) : Prop :=
  ∃ json, datum.toJson = .ok json ∧ Datum.ofJson json = datum.untyped

theorem agree_items {items : List Datum} (each : ∀ item ∈ items, item.Agrees) :
    ∃ values, itemsToJson items = .ok values ∧ Datum.ofJsonItems values = untypedItems items := by
  induction items with
  | nil => exact ⟨[], rfl, rfl⟩
  | cons item rest ih =>
      obtain ⟨here, others⟩ := List.forall_mem_cons.mp each
      obtain ⟨json, written, same⟩ := here
      obtain ⟨values, following, equal⟩ := ih others
      refine ⟨json :: values, ?_, ?_⟩
      · rw [itemsToJson_cons, written, following]
        rfl
      · rw [Datum.ofJsonItems, same, equal, untypedItems]

theorem agree_fields {fields : List (String × Datum)}
    (each : ∀ value ∈ fields.map Prod.snd, value.Agrees) :
    ∃ values, fieldsToJson fields = .ok values ∧
      Datum.ofJsonFields values = untypedFields fields := by
  induction fields with
  | nil => exact ⟨[], rfl, rfl⟩
  | cons field rest ih =>
      obtain ⟨key, value⟩ := field
      obtain ⟨here, others⟩ := List.forall_mem_cons.mp each
      obtain ⟨json, written, same⟩ := here
      obtain ⟨values, following, equal⟩ := ih others
      refine ⟨(key, json) :: values, ?_, ?_⟩
      · rw [fieldsToJson, written, following]
        rfl
      · rw [Datum.ofJsonFields, same, equal, untypedFields]

theorem agrees_seq {kind : SeqKind} {items : List Datum} (each : ∀ item ∈ items, item.Agrees) :
    (Datum.seq kind items).Agrees := by
  obtain ⟨values, written, same⟩ := agree_items each
  refine ⟨.arr values, ?_, ?_⟩
  · rw [Datum.toJson, written]
    rfl
  · rw [Datum.ofJson, same, Datum.untyped]

theorem agrees_dict {fields : List (String × Datum)}
    (each : ∀ value ∈ fields.map Prod.snd, value.Agrees) : (Datum.dict fields).Agrees := by
  obtain ⟨values, written, same⟩ := agree_fields each
  refine ⟨.obj values, ?_, ?_⟩
  · rw [Datum.toJson, written]
    rfl
  · rw [Datum.ofJson, same, Datum.untyped]

/-- A construct whose key is a text is agreed on if its value is. -/
theorem agrees_of_pair {datum value : Datum} {key : String}
    (pair : datum.pair? = some (.text key, value)) (agrees : value.Agrees) : datum.Agrees := by
  obtain ⟨json, written, same⟩ := agrees
  refine ⟨.arr [.str key, json], ?_, ?_⟩
  · rw [toJson_of_pair pair, toJson_list, itemsToJson_cons, itemsToJson_cons, written]
    rfl
  · rw [untyped_of_pair pair, ← same]
    rfl

theorem agrees_of_shownOf {fields : List Datum} {shown : Datum} (held : ShownOf fields shown)
    (each : ∀ field ∈ fields, field.Agrees) : shown.Agrees := by
  rcases held with alone | ⟨items, rfl, some⟩
  · exact each shown alone
  · exact agrees_seq fun item inside => each item (some inside)

/-! ## Data that can be exported -/

theorem Datum.contents_part (value : WordPart) : (Datum.part value).contents = value.fields := by
  cases value <;> rfl

/-- Is a datum neither a kind of condition nor an assignment to anything but a text? -/
def Datum.exportable : Datum → Bool
  | .condKind _ => false
  | .assign (.text _) _ => true
  | .assign _ _ => false
  | _ => true

theorem Datum.exists_text_of_exportable {var val : Datum}
    (exportable : (Datum.assign var val).exportable = true) : ∃ name, var = .text name := by
  cases var with
  | text name => exact ⟨name, rfl⟩
  | _ => cases exportable

/-- A datum is portable if it is exportable, and so is everything inside it. -/
inductive Datum.Portable : Datum → Prop
  | intro {datum : Datum} (self : datum.exportable = true)
      (inside : ∀ inner ∈ datum.contents, Portable inner) : Portable datum

/--
The two ways to the tagged form agree.  Whatever is made of constructs, sequences,
records and plain data in any depth, if it holds no kind of condition and every name
that is assigned to is a text, comes to a JSON value, and to the same on both ways.
-/
theorem Datum.toJson_eq_untyped {datum : Datum} (portable : datum.Portable) :
    ∃ json, datum.toJson = .ok json ∧ Datum.ofJson json = datum.untyped := by
  change datum.Agrees
  induction portable with
  | @intro datum self _ each =>
      cases datum with
      | null => exact ⟨.null, rfl, rfl⟩
      | bool value => exact ⟨.bool value, rfl, rfl⟩
      | int value => exact ⟨.int value, rfl, rfl⟩
      | float value => exact ⟨.float value, rfl, rfl⟩
      | text value => exact ⟨.str value, rfl, rfl⟩
      | seq kind items => exact agrees_seq each
      | dict fields => exact agrees_dict each
      | condKind kind => cases self
      | command value => exact agrees_of_pair rfl (agrees_of_shownOf value.shownOf_fields each)
      | part value =>
          rw [contents_part] at each
          exact agrees_of_pair rfl (agrees_of_shownOf value.shownOf_fields each)
      | redir value => exact agrees_of_pair rfl (agrees_of_shownOf value.shownOf_fields each)
      | assign var val =>
          -- the name is the one key that need not be a text, and only the first way goes into it
          obtain ⟨name, rfl⟩ := exists_text_of_exportable self
          exact agrees_of_pair rfl (each val (by simp [contents, inside]))

/-- A record beside a command that assigns, substitutes a process and closes a descriptor. -/
def mixedTree : Datum :=
  .list [.dict [("cpattern", .tuple [])],
    .command (.simple (.int 1) (.list [.assign (.text "x") (.list [])])
      (.list [.list [.part (.process (.text "<(") (.command (.group (.command .empty))))]])
      (.list [.redir (.single (.text "CloseThis") (.tuple [.text "fixed", .int 1]))]))]

theorem Datum.toJson_eq_untyped_mixed :
    mixedTree.Portable ∧
      ∃ json, mixedTree.toJson = .ok json ∧ Datum.ofJson json = mixedTree.untyped := by
  have portable : mixedTree.Portable := by
    repeat' first
      | exact List.forall_mem_nil _
      | refine List.forall_mem_cons.mpr ⟨?_, ?_⟩
      | refine .intro rfl ?_
  exact ⟨portable, toJson_eq_untyped portable⟩

end ShellTree
