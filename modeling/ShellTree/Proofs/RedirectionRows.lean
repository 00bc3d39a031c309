import ShellTree.Proofs.BlankSeparatedText
import ShellTree.Proofs.RedirectedScripts

/-!
# Rows of redirections

Redirections to files and of descriptors are printed in a row.  The descriptor
that is redirected stands before the operator, and is left out where output is
expected to go to it.  A file stands behind a blank, and a descriptor that is
copied or moved stands right behind the operator.

The first token of a redirection tells its descriptor, its operator and whether
a second token belongs to it.  So the row is cut into redirections in one way,
and two rows with the same text show the same.
-/

namespace ShellTree

namespace Row

open Grammar (Arrow)

/-! ## What a row shows -/

/-- The direction in which a descriptor is copied. -/
inductive Direction where
  | output
  | input
deriving DecidableEq

namespace Direction

/-- How a copy is called in a tree. -/
def kind : Direction → String
  | .output => "ToFD"
  | .input => "FromFD"

/-- How a copy is spelled. -/
def spelling : Direction → String
  | .output => ">&"
  | .input => "<&"

/-- The descriptor that a copy is about where none is written. -/
def descriptor : Direction → Nat
  | .output => 1
  | .input => 0

end Direction

/-- What the text of a redirection shows: its construct, its kind, its descriptor and its target. -/
inductive Shown where
  | file (arrow : Arrow) (descriptor : Nat) (target : String)
  | dup (direction : Direction) (descriptor : Nat) (target : String)
deriving DecidableEq

/-- A descriptor in print, which is left out where output is expected to go to it. -/
def number (usual descriptor : Nat) : String :=
  if usual = 1 ∧ descriptor = 1 then "" else toString descriptor

/-- The tokens of a redirection. -/
def Shown.tokens : Shown → List String
  | .file arrow descriptor target =>
      [number arrow.descriptor descriptor ++ arrow.spelling, target]
  | .dup direction descriptor target =>
      [number direction.descriptor descriptor ++ (direction.spelling ++ target)]

theorem isDigit_of_mem_toString {c : Char} {value : Nat} (inside : c ∈ (toString value).toList) :
    c.isDigit = true := by
  rw [Nat.toString_eq_repr, Nat.toList_repr] at inside
  exact Nat.isDigit_of_mem_toDigits (by decide) (by decide) inside

theorem isDigit_of_mem_number {c : Char} {usual descriptor : Nat}
    (inside : c ∈ (number usual descriptor).toList) : c.isDigit = true := by
  rw [number] at inside
  split at inside
  · cases inside
  · exact isDigit_of_mem_toString inside

theorem toString_inj {first second : Nat} (same : toString first = toString second) :
    first = second := by
  have digits : Nat.toDigits 10 first = Nat.toDigits 10 second := by
    have chars := congrArg String.toList same
    rwa [Nat.toString_eq_repr, Nat.toString_eq_repr, Nat.toList_repr, Nat.toList_repr] at chars
  rw [← Nat.ofDigitChars_ten_toDigits (n := first), digits, Nat.ofDigitChars_ten_toDigits]

theorem toString_ne_empty (value : Nat) : toString value ≠ "" := by
  intro same
  have chars := congrArg String.toList same
  rw [Nat.toString_eq_repr, Nat.toList_repr] at chars
  exact Nat.toDigits_ne_nil chars

theorem number_inj {usual first second : Nat} (same : number usual first = number usual second) :
    first = second := by
  rw [number, number] at same
  split at same
  · next left =>
      split at same
      · next right => rw [left.2, right.2]
      · exact absurd same.symm (toString_ne_empty second)
  · split at same
    · exact absurd same (toString_ne_empty first)
    · exact toString_inj same

/-- A number is told from the operator behind it. -/
theorem number_append_inj {usual other first second : Nat} {operator next : String}
    (stops : Stops Char.isDigit operator.toList) (ends : Stops Char.isDigit next.toList)
    (same : number usual first ++ operator = number other second ++ next) :
    number usual first = number other second ∧ operator = next := by
  have chars := congrArg String.toList same
  rw [String.toList_append, String.toList_append] at chars
  obtain ⟨digits, rest⟩ := append_inj_of_stops (fun _ => isDigit_of_mem_number)
    (fun _ => isDigit_of_mem_number) stops ends chars
  exact ⟨String.toList_injective digits, String.toList_injective rest⟩

theorem stops_arrow (arrow : Arrow) : Stops Char.isDigit arrow.spelling.toList := by
  cases arrow <;> rintro c ⟨⟩ <;> rfl

theorem stops_direction (direction : Direction) (target : String) :
    Stops Char.isDigit (direction.spelling ++ target).toList := by
  rw [String.toList_append]
  cases direction <;> rintro c ⟨⟩ <;> rfl

theorem arrow_spelling_inj {first second : Arrow} (same : first.spelling = second.spelling) :
    first = second := by
  have known : ∀ arrow : Arrow,
      Grammar.operators.lookup arrow.spelling.toList = some (.arrow arrow) := by
    intro arrow
    cases arrow <;> rfl
  have found := known first
  rw [same, known second] at found
  cases found
  rfl

/-- No arrow is spelled as a copy starts. -/
theorem arrow_spelling_ne (arrow : Arrow) (direction : Direction) (target : String) :
    arrow.spelling ≠ direction.spelling ++ target := by
  intro same
  have chars := congrArg String.toList same
  rw [String.toList_append] at chars
  cases arrow <;> cases direction <;> simp [Arrow.spelling, Direction.spelling] at chars

theorem direction_spelling_inj {first second : Direction} {target other : String}
    (same : first.spelling ++ target = second.spelling ++ other) :
    first = second ∧ target = other := by
  have chars := congrArg String.toList same
  rw [String.toList_append, String.toList_append] at chars
  have heads := congrArg List.head? chars
  obtain rfl : first = second := by
    cases first <;> cases second <;> simp_all [Direction.spelling]
  exact ⟨rfl, String.toList_injective (List.append_cancel_left chars)⟩

/-- The tokens of redirections tell what they show. -/
theorem tokens_inj {first second : List Shown}
    (same : first.flatMap Shown.tokens = second.flatMap Shown.tokens) : first = second := by
  -- the first token of the first redirection is compared on both sides
  induction first generalizing second with
  | nil =>
      cases second with
      | nil => rfl
      | cons shown rest => cases shown <;> cases same
  | cons shown rest ih =>
      cases second with
      | nil => cases shown <;> cases same
      | cons other more =>
          cases shown with
          | file arrow descriptor target =>
              cases other with
              | file next source name =>
                  obtain ⟨token, others⟩ := List.cons.inj same
                  obtain ⟨words, following⟩ := List.cons.inj others
                  obtain ⟨digits, spelled⟩ :=
                    number_append_inj (stops_arrow arrow) (stops_arrow next) token
                  obtain rfl := arrow_spelling_inj spelled
                  rw [number_inj digits, words, ih following]
              | dup direction source name =>
                  obtain ⟨token, -⟩ := List.cons.inj same
                  obtain ⟨-, spelled⟩ :=
                    number_append_inj (stops_arrow arrow) (stops_direction direction name) token
                  exact absurd spelled (arrow_spelling_ne arrow direction name)
          | dup direction descriptor target =>
              cases other with
              | file arrow source name =>
                  obtain ⟨token, -⟩ := List.cons.inj same
                  obtain ⟨-, spelled⟩ :=
                    number_append_inj (stops_direction direction target) (stops_arrow arrow) token
                  exact absurd spelled.symm (arrow_spelling_ne arrow direction target)
              | dup next source name =>
                  obtain ⟨token, following⟩ := List.cons.inj same
                  obtain ⟨digits, spelled⟩ := number_append_inj
                    (stops_direction direction target) (stops_direction next name) token
                  obtain ⟨rfl, words⟩ := direction_spelling_inj spelled
                  rw [number_inj digits, words, ih following]

/-! ## Redirections in print -/

/-- What a descriptor is copied from: one that a word names, or a fixed one. -/
inductive Target where
  | named (word : SolidWord)
  | fixed (descriptor : Int)

namespace Target

/-- The target in a tree. -/
def datum : Target → Datum
  | .named word => .tuple [.text "var", word.datum]
  | .fixed descriptor => .tuple [.text "fixed", .int descriptor]

/-- The text of a target. -/
def text : Target → String
  | .named word => word.text
  | .fixed descriptor => toString descriptor

end Target

/-- A redirection to a file, or a copy of a descriptor that may close its target. -/
inductive Entry where
  | file (arrow : Arrow) (descriptor : Nat) (target : SolidWord)
  | dup (direction : Direction) (descriptor : Nat) (target : Target) (move : Bool)

namespace Entry

/-- The redirection that an entry is. -/
def value : Entry → Redirection
  | .file arrow descriptor target =>
      .file (.text arrow.kind) (.tuple [.text "fixed", .int descriptor]) target.datum
  | .dup direction descriptor target move =>
      .dup (.text direction.kind) (.tuple [.text "fixed", .int descriptor]) target.datum (.bool move)

/-- The tree of an entry. -/
def tree (entry : Entry) : Datum :=
  .redir entry.value

/-- What the text of an entry shows. -/
def shown : Entry → Shown
  | .file arrow descriptor target => .file arrow descriptor target.text
  | .dup direction descriptor target move =>
      .dup direction descriptor (target.text ++ if move then "-" else "")

end Entry

/-- What prints as a word has a number of parts. -/
theorem length_of_renderWord {word : Datum} {mode : QuoteMode} {text : String}
    (printed : word.renderWord mode = .ok text) : ∃ count, word.length = .ok count := by
  cases word with
  | seq kind items => exact ⟨_, rfl⟩
  | text value => exact ⟨_, rfl⟩
  | dict fields => exact ⟨_, rfl⟩
  | _ => simp [Datum.renderWord] at printed

theorem renderFd_direction (direction : Direction) (descriptor : Nat) :
    Datum.renderFd (.tuple [.text "fixed", .int descriptor]) (.int direction.descriptor) =
      .ok (number direction.descriptor descriptor) := by
  cases direction with
  | output =>
      simp only [number, Direction.descriptor, true_and]
      exact FileRedirect.renderFd_output descriptor
  | input => exact FileRedirect.renderFd_input descriptor

/-- A copy in print, given its descriptor and its target in print. -/
theorem copied_eq {fd target : Except Fault String} {number text : String}
    (described : fd = .ok number) (printed : target = .ok text) (operator : String) (move : Bool) :
    (do
      let out ← fd
      let word ← target
      let copied ← pure (some (out ++ operator ++ word))
      if (Datum.bool move).truthy then do
        let moved ← required copied
        return some (moved ++ "-")
      else return copied : Except Fault (Option String)) =
      .ok (some (number ++ (operator ++ (text ++ if move then "-" else "")))) := by
  rw [described, printed]
  cases move with
  | false => simp [bind, Except.bind, pure, Except.pure, Datum.truthy, String.append_assoc]
  | true => simp [bind, Except.bind, pure, Except.pure, Datum.truthy, required, String.append_assoc]

theorem render_dup (direction : Direction) (descriptor : Nat) (target : Target) (move : Bool) :
    (Entry.dup direction descriptor target move).value.render =
      .ok (some (number direction.descriptor descriptor ++
        (direction.spelling ++ (target.text ++ if move then "-" else "")))) := by
  have described := renderFd_direction direction descriptor
  cases target with
  | named word =>
      obtain ⟨count, counted⟩ := length_of_renderWord word.printed
      rw [Entry.value, Target.datum, Redirection.render, counted]
      cases direction with
      | output => exact copied_eq described word.printed ">&" move
      | input => exact copied_eq described word.printed "<&" move
  | fixed target =>
      have printed : (Datum.int target).display = .ok (toString target) := rfl
      rw [Entry.value, Target.datum, Redirection.render]
      cases direction with
      | output => exact copied_eq described printed ">&" move
      | input => exact copied_eq described printed "<&" move

namespace Entry

theorem tag_value (entry : Entry) : (entry.value.tag == .heredoc) = false := by
  cases entry <;> rfl

theorem render_value (entry : Entry) :
    ∃ text, entry.value.render = .ok (some text) ∧ " " ++ text = spaced entry.shown.tokens := by
  cases entry with
  | file arrow descriptor target =>
      refine ⟨_, FileRedirect.render_file target.printed arrow descriptor, ?_⟩
      simp only [shown, Shown.tokens, spaced, number, String.append_assoc, String.append_empty]
  | dup direction descriptor target move =>
      refine ⟨_, render_dup direction descriptor target move, ?_⟩
      simp only [shown, Shown.tokens, spaced, String.append_empty]

/-- The tokens of a row. -/
def tokens (entries : List Entry) : List String :=
  (entries.map shown).flatMap Shown.tokens

theorem spaced_tokens_cons (entry : Entry) (rest : List Entry) :
    spaced (tokens (entry :: rest)) = spaced entry.shown.tokens ++ spaced (tokens rest) :=
  spaced_append _ _

theorem redirectionLine_tree (omitted : Bool) (entries : List Entry) :
    redirectionLine omitted (entries.map tree) = .ok (spaced (tokens entries)) := by
  induction entries with
  | nil => rfl
  | cons entry rest ih =>
      obtain ⟨text, rendered, spelled⟩ := entry.render_value
      rw [spaced_tokens_cons, ← spelled]
      exact redirectionLine_cons entry.tag_value rendered ih

theorem bodyItems_tree (entries : List Entry) : bodyItems (entries.map tree) = .ok [] := by
  induction entries with
  | nil => rfl
  | cons entry rest ih => exact (bodyItems_cons entry.tag_value).trans ih

theorem renderRedirs_tree (omitted : Bool) (kind : SeqKind) (entries : List Entry) :
    (Datum.seq kind (entries.map tree)).renderRedirs omitted = .ok (spaced (tokens entries)) := by
  simp only [Datum.renderRedirs, redirectionLine_tree, bodyItems_tree]
  cases omitted <;> rfl

theorem renderRedirsInPlace_tree (kind : SeqKind) (entries : List Entry) :
    (Datum.seq kind (entries.map tree)).renderRedirsInPlace = .ok (spaced (tokens entries)) := by
  rw [Datum.renderRedirsInPlace]
  induction entries with
  | nil => rfl
  | cons entry rest ih =>
      obtain ⟨text, rendered, spelled⟩ := entry.render_value
      have first : entry.tree.render .plain = .ok (some text) := by
        rw [tree, Datum.render, rendered]
        rfl
      rw [spaced_tokens_cons, ← spelled, List.map_cons, renderItemsInPlace, first, ih]
      rfl

end Entry

theorem blank_not_mem_toString (value : Nat) : ' ' ∉ (toString value).toList := by
  intro inside
  cases isDigit_of_mem_toString inside

theorem blank_not_mem_number (usual descriptor : Nat) :
    ' ' ∉ (number usual descriptor).toList := by
  intro inside
  cases isDigit_of_mem_number inside

theorem Target.unbroken (target : Target) : ' ' ∉ target.text.toList := by
  cases target with
  | named word => exact word.unbroken
  | fixed descriptor =>
      cases descriptor with
      | ofNat value => exact blank_not_mem_toString value
      | negSucc value =>
          have signed : toString (Int.negSucc value) = "-" ++ toString (value + 1) := rfl
          rw [Target.text, signed, String.toList_append]
          exact List.not_mem_append (by decide) (blank_not_mem_toString _)

namespace Entry

theorem unbroken_shown (entry : Entry) : ∀ token ∈ entry.shown.tokens, ' ' ∉ token.toList := by
  cases entry with
  | file arrow descriptor target =>
      have operator : ' ' ∉ arrow.spelling.toList := by cases arrow <;> decide
      simp [shown, Shown.tokens, blank_not_mem_number, operator, target.unbroken]
  | dup direction descriptor target move =>
      have operator : ' ' ∉ direction.spelling.toList := by cases direction <;> decide
      have mark : ' ' ∉ (if move then "-" else "").toList := by cases move <;> decide
      simp [shown, Shown.tokens, blank_not_mem_number, operator, target.unbroken, mark]

theorem unbroken_tokens (entries : List Entry) :
    ∀ token ∈ tokens entries, ' ' ∉ token.toList := by
  intro token inside
  obtain ⟨shown, listed, within⟩ := List.mem_flatMap.mp inside
  obtain ⟨entry, _, rfl⟩ := List.mem_map.mp listed
  exact entry.unbroken_shown token within

/--
A row of redirections prints in one way, whether its heredocs, of which it has
none, are left out, put below the line or written in their place.  Two rows have
the same text just where they show the same at each place.
-/
theorem renderRedirs_eq_iff (kind other : SeqKind) (first second : List Entry) :
    ∃ text next,
      (∀ omitted, (Datum.seq kind (first.map tree)).renderRedirs omitted = .ok text) ∧
      (Datum.seq kind (first.map tree)).renderRedirsInPlace = .ok text ∧
      (∀ omitted, (Datum.seq other (second.map tree)).renderRedirs omitted = .ok next) ∧
      (Datum.seq other (second.map tree)).renderRedirsInPlace = .ok next ∧
      (text = next ↔ first.map shown = second.map shown) := by
  refine ⟨spaced (tokens first), spaced (tokens second), ?_, ?_, ?_, ?_, ?_, ?_⟩
  · exact fun omitted => renderRedirs_tree omitted kind first
  · exact renderRedirsInPlace_tree kind first
  · exact fun omitted => renderRedirs_tree omitted other second
  · exact renderRedirsInPlace_tree other second
  · intro same
    exact tokens_inj (spaced_inj (unbroken_tokens first) (unbroken_tokens second) same)
  · intro same
    rw [tokens, tokens, same]

end Entry

end Row

end ShellTree
