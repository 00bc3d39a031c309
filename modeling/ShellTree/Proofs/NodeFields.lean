import Mathlib.Data.List.Forall2
import ShellTree.Proofs.Outcome
import ShellTree.Proofs.Script
import ShellTree.Shfmt.Reader

/-!
# Nodes with known fields

What the reader finds in a node whose fields are known.  A word is read part by
part, and characters that it is read as print as the text they came from, with a
backslash before a double quote where they stand between double quotes.
-/

namespace ShellTree

theorem ok_bind {α β : Type} (value : α) (next : α → Except Fault β) :
    Except.ok value >>= next = next value :=
  rfl

namespace Json

variable {node : Json} {key : String}

theorem isObject_of_get? {inner : Json} (found : node.get? key = some inner) :
    node.isObject = true := by
  cases node with
  | obj fields => rfl
  | _ => cases found

/-- A field that is not there is null. -/
theorem truthy_of_get? {inner : Json} (found : node.get? key = some inner) :
    node.truthy = true := by
  cases node with
  | obj fields =>
      cases fields with
      | nil => cases found
      | cons => rfl
  | _ => cases found

theorem fetch_eq (object : node.isObject = true) (key : String) :
    ∃ smaller, node.fetch key = .ok ⟨(node.get? key).getD .null, smaller⟩ := by
  cases node with
  | obj fields =>
      simp only [fetch, get?]
      split
      next inner found =>
          refine ⟨?_, ?_⟩
          · have smaller := sizeOf_of_lookup found
            simp [found]
            omega
          · simp [found]
      next absent =>
          refine ⟨?_, ?_⟩
          · simpa [absent] using one_lt_sizeOf_obj fields
          · simp [absent]
  | _ => cases object

theorem fetch_of_get? {inner : Json} (found : node.get? key = some inner) :
    ∃ smaller, node.fetch key = .ok ⟨inner, smaller⟩ := by
  have fetched := fetch_eq (isObject_of_get? found) key
  rwa [found] at fetched

theorem require_of_get? {inner : Json} (found : node.get? key = some inner) :
    ∃ smaller, node.require key = .ok ⟨inner, smaller⟩ := by
  cases node with
  | obj fields =>
      have smaller := sizeOf_of_lookup found
      refine ⟨by simp; omega, ?_⟩
      simp only [require]
      split
      next other same =>
          cases same.symm.trans found
          rfl
      next absent => cases absent.symm.trans found
  | _ => cases found

theorem val_of_fetch {inner : node.Inside} (fetched : node.fetch key = .ok inner) :
    inner.1 = (node.get? key).getD .null := by
  cases node with
  | obj fields =>
      have object : (obj fields).isObject = true := rfl
      obtain ⟨smaller, same⟩ := fetch_eq object key
      rw [same] at fetched
      cases fetched
      rfl
  | _ => cases fetched

theorem get?_of_require {inner : node.Inside} (required : node.require key = .ok inner) :
    node.get? key = some inner.1 := by
  cases node with
  | obj fields =>
      simp only [require] at required
      split at required
      next found =>
          cases required
          exact found
      next => cases required
  | _ => cases required

theorem textField_of_get? {inner : Json} (found : node.get? key = some inner) :
    node.textField key = .ok inner := by
  cases node with
  | obj fields =>
      have looked : fields.lookup key = some inner := found
      rw [textField, looked]
      rfl
  | _ => cases found

/-- The items of a field: those of an array, or none if the field is not there. -/
def items? (node : Json) (key : String) : Option (List Json) :=
  match node.get? key with
  | none => if node.isObject then some [] else none
  | some (.arr items) => some items
  | some _ => none

theorem children_of_items? {items : List Json} (listed : node.items? key = some items) :
    ∃ inside, node.children key = .ok inside ∧ inside.map Subtype.val = items := by
  cases node with
  | obj fields =>
      simp only [items?, get?] at listed
      simp only [children]
      split
      next inner found =>
          rw [found] at listed
          cases inner with
          | arr values =>
              cases listed
              exact ⟨_, rfl, by simp [Function.comp_def]⟩
          | _ => cases listed
      next absent =>
          rw [absent] at listed
          cases listed
          exact ⟨[], rfl, rfl⟩
  | _ => cases listed

/-- What is inside a value is read as it is by itself. -/
theorem mapM_inside {α : Type} {items : List Json} {inside : List node.Inside}
    (same : inside.map Subtype.val = items) (read : Json → Except Fault α) :
    inside.mapM (fun item => read item.1) = items.mapM read := by
  rw [← same, List.mapM_map]
  rfl

end Json

/-! ## Words in print -/

/-- Parts of a word print as a text, whatever follows them. -/
def Shows (mode : QuoteMode) (parts : List Datum) (text : String) : Prop :=
  ∀ rest, renderParts mode (parts ++ rest) =
    (renderParts mode rest).map fun others => text ++ others

/-- A text as it is written between double quotes, or elsewhere. -/
def inMode (mode : QuoteMode) (text : String) : String :=
  if mode = .quoted then
    String.ofList (text.toList.flatMap fun c => if c = '"' then ['\\', '"'] else [c])
  else text

theorem inMode_empty (mode : QuoteMode) : inMode mode (String.ofList []) = "" := by
  cases mode <;> rfl

theorem inMode_cons (mode : QuoteMode) (c : Char) (rest : List Char) :
    inMode mode (String.ofList (c :: rest)) =
      inMode mode (String.singleton c) ++ inMode mode (String.ofList rest) := by
  apply String.toList_injective
  rw [inMode, inMode, inMode]
  split <;> simp

/-- A character that was read prints as itself, but for a double quote between double quotes. -/
theorem render_cell (mode : QuoteMode) (c : Char) :
    (WordPart.char (.int c.toNat) (.bool true)).render mode =
      .ok (inMode mode (String.singleton c)) := by
  rw [WordPart.render, Datum.char, charOfCode_toNat]
  by_cases escapes : mode = .quoted ∧ c = '"'
  · obtain ⟨rfl, rfl⟩ := escapes
    rfl
  · have plain : (mode == .quoted && c == '"') = false := by simpa using escapes
    have same : inMode mode (String.singleton c) = String.singleton c := by
      rw [inMode]
      split
      next quotes => simp [show c ≠ '"' from fun mark => escapes ⟨quotes, mark⟩]
      next => rfl
    change (if (mode == .quoted && c == '"') = true then _ else _) = _
    rw [plain, same]
    rfl

namespace Shows

variable {mode : QuoteMode} {parts others : List Datum} {text next : String}

theorem renderParts_eq (shows : Shows mode parts text) : renderParts mode parts = .ok text := by
  have whole := shows []
  rw [List.append_nil] at whole
  rw [whole, renderParts, Except.map, String.append_empty]

theorem nil : Shows mode [] "" := by
  intro rest
  rw [List.nil_append]
  cases renderParts mode rest <;> simp [Except.map]

theorem append (first : Shows mode parts text) (second : Shows mode others next) :
    Shows mode (parts ++ others) (text ++ next) := by
  intro rest
  rw [List.append_assoc, first, second]
  cases renderParts mode rest <;> simp [Except.map, String.append_assoc]

/-- Only the plain characters of another reader change with what follows them. -/
theorem part {value : WordPart} (rendered : value.render mode = .ok text)
    (safe : ∀ code mark, value = .char code mark → mark.truthy = true) :
    Shows mode [.part value] text := by
  intro rest
  have shown : (Datum.part value).render (.quoting mode) >>= required = .ok text := by
    simp only [Datum.render, Style.quoteMode, rendered, bind, Except.bind, pure, Except.pure,
      required]
  rw [List.singleton_append, renderParts, shown]
  change (renderParts mode rest >>= fun others => _) = _
  cases renderParts mode rest with
  | error fault => rfl
  | ok others =>
      cases value with
      | char code mark =>
          have marked := safe code mark rfl
          simp [bind, Except.bind, pure, Except.pure, Except.map, marked]
      | _ => rfl

theorem cells (text : String) : Shows mode (Shfmt.cells text) (inMode mode text) := by
  have chars : ∀ chars : List Char, Shows mode
      (chars.map fun c => .part (.char (.int c.toNat) (.bool true)))
      (inMode mode (String.ofList chars)) := by
    intro chars
    induction chars with
    | nil =>
        rw [inMode_empty]
        exact nil
    | cons c rest ih =>
        rw [inMode_cons]
        refine append (part (render_cell mode c) ?_) ih
        intro code mark same
        cases same
        rfl
  have whole := chars text.toList
  rwa [String.ofList_toList] at whole

theorem quoted (inside : Shows .quoted parts text) :
    Shows mode [.part (.quoted (.list parts))] ("\"" ++ text ++ "\"") := by
  refine part ?_ ?_
  · rw [WordPart.render, Datum.renderWord, inside.renderParts_eq]
    rfl
  · intro code mark same
    cases same

end Shows

/-! ## Words of a node -/

namespace Shfmt

variable {source : Source} {mode : QuoteMode} {word part : Json}

theorem kindOf?_label (kind : Kind) : kindOf? (.str kind.label) = some kind :=
  Kind.ofLabel?_label kind

/-- A part of a word is read, and prints as a text. -/
def PartShows (source : Source) (mode : QuoteMode) (part : Json) (text : String) : Prop :=
  ∃ read, readPart source part = .ok read ∧ Shows mode read text

theorem parts_show {parts : List Json} {texts : List String}
    (each : List.Forall₂ (PartShows source mode) parts texts) :
    ∃ read, parts.mapM (readPart source) = .ok read ∧
      Shows mode read.flatten (String.join texts) := by
  induction each with
  | nil => exact ⟨[], rfl, .nil⟩
  | cons first _ ih =>
      obtain ⟨read, same, shows⟩ := first
      obtain ⟨others, following, rest⟩ := ih
      refine ⟨read :: others, ?_, ?_⟩
      · rw [List.mapM_cons, same, following]
        rfl
      · rw [List.flatten_cons, String.join_cons]
        exact shows.append rest

/-- A word prints as its parts do, one after the other. -/
theorem word_shows {parts : List Json} {texts : List String}
    (listed : word.items? "Parts" = some parts)
    (each : List.Forall₂ (PartShows source mode) parts texts) :
    ∃ read, readWord source word = .ok read ∧ Shows mode read (String.join texts) := by
  obtain ⟨read, same, shows⟩ := parts_show each
  refine ⟨read.flatten, ?_, shows⟩
  cases word with
  | obj fields =>
      obtain ⟨inside, fetched, items⟩ := Json.children_of_items? listed
      have whole := Json.mapM_inside items (readPart source)
      rw [readWord, fetched]
      · change (inside.mapM (fun item => readPart source item.1) >>= _) = _
        rw [whole, same]
        rfl
      · intro null
        cases null
  | _ => cases listed

/-- A word of one part prints as the part does. -/
theorem word_shows_part {text : String} (listed : word.items? "Parts" = some [part])
    (shows : PartShows source mode part text) :
    ∃ read, readWord source word = .ok read ∧ renderParts mode read = .ok text := by
  obtain ⟨read, same, whole⟩ := word_shows listed (.cons shows .nil)
  have printed := whole.renderParts_eq
  rw [String.join_cons, String.join_nil, String.append_empty] at printed
  exact ⟨read, same, printed⟩

/-- A literal and its text, which is what it points to in the script, or else its own value. -/
structure IsLiteral (source : Source) (part : Json) (text : String) : Prop where
  kind : part.get? "Type" = some (.str Kind.literal.label)
  reads : literal? source part = .ok (some text) ∨
    literal? source part = .ok none ∧ part.get? "Value" = some (.str text)

theorem IsLiteral.shows {text : String} (literal : IsLiteral source part text) :
    PartShows source mode part (inMode mode text) := by
  refine ⟨cells text, ?_, .cells text⟩
  rcases literal.reads with pointed | ⟨absent, value⟩
  · rw [readPart, pointed]
    rfl
  · obtain ⟨smaller, kind⟩ := Json.fetch_of_get? literal.kind
    rw [readPart]
    simp only [absent, kind, kindOf?_label, Json.textField_of_get? value, bind, Except.bind]
    rfl

/-! ## Nodes of words -/

/-- The node of a literal, or of a text between single quotes. -/
def valueNode (kind : Kind) (text : String) : Json :=
  .obj [("Type", .str kind.label), ("Value", .str text)]

/-- The node of a word of one part. -/
def wordNode (part : Json) : Json :=
  .obj [("Parts", .arr [part])]

theorem isLiteral_valueNode (source : Source) (text : String) :
    IsLiteral source (valueNode .literal text) text := by
  refine ⟨rfl, .inr ⟨?_, rfl⟩⟩
  cases source <;> rfl

theorem wordNode_shows {text : String} (shows : PartShows source mode part text) :
    ∃ read, readWord source (wordNode part) = .ok read ∧ renderParts mode read = .ok text :=
  word_shows_part rfl shows

end Shfmt

end ShellTree
