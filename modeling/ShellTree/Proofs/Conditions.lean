import ShellTree.Proofs.BlankSeparatedText
import ShellTree.Proofs.VerbatimCommands

/-!
# Conditions in print

A condition between double brackets is a disjunction of conjunctions of terms.
A term is one word, an operator and a word, a word, an operator and a word, or a
disjunction in parentheses, and each of them may be inverted.  The text puts all
of this in one row of tokens: only the number of words, the connectors and the
parentheses tell what is meant.

The row is read from the left.  Each level knows where it ends: a term before a
mark, a conjunction before a mark other than its connector, and a disjunction
before a closing parenthesis or at the end.  So what follows may be anything
that does not go on with the level, and two conditions with the same text are
the same but for their line numbers.
-/

namespace ShellTree

mutual

/-- A condition without its line numbers, and with its words replaced. -/
def Datum.unnumbered (word : Datum → Datum) : Datum → Datum
  | .command value => .command (value.unnumbered word)
  | other => other

/-- The same for the command that a condition is. -/
def Command.unnumbered (word : Datum → Datum) : Command → Command
  | .cond _ kind operator left right inverted =>
      .cond .null kind (word operator) (left.unnumbered word) (right.unnumbered word) inverted
  | other => other

end

namespace Condition

/-! ## Conditions -/

/-- The marks that put the parts of a condition together. -/
def marks : List String :=
  ["(", ")", "!", "&&", "||"]

/-- A word of a condition, whose text holds no blank and is no mark. -/
structure Word extends SolidWord where
  unmarked : text ∉ marks

/-- A word that an operator is applied to. -/
structure Operand where
  line : Datum
  word : Word

/-- A word by itself, or an operator with its operands. -/
inductive Simple where
  | alone (word : Word)
  | unary (operator : Word) (operand : Operand)
  | binary (left : Operand) (operator : Word) (right : Operand)

mutual

/-- Conjunctions of which one has to hold. -/
inductive Disjunction where
  | single (part : Conjunction)
  | or (line : Datum) (left : Conjunction) (right : Disjunction)

/-- Terms that all have to hold. -/
inductive Conjunction where
  | single (part : Term)
  | and (line : Datum) (left : Term) (right : Conjunction)

/-- A test, or a disjunction in parentheses; either may be inverted. -/
inductive Term where
  | simple (line : Datum) (inverted : Bool) (test : Simple)
  | group (line : Datum) (inverted : Bool) (inner : Disjunction)

end

/-- The node of a kind of condition. -/
def node (line : Datum) (kind : CondKind) (operator left right : Datum) (inverted : Bool) :
    Command :=
  .cond line (.int kind.number) operator left right (.bool inverted)

/-- The tree of an operand. -/
def Operand.tree (operand : Operand) : Command :=
  node operand.line .term operand.word.datum .null .null false

/-- The tree of a test. -/
def Simple.tree (line : Datum) (inverted : Bool) : Simple → Command
  | .alone word => node line .term word.datum .null .null inverted
  | .unary operator operand =>
      node line .unary operator.datum (.command operand.tree) .null inverted
  | .binary left operator right =>
      node line .binary operator.datum (.command left.tree) (.command right.tree) inverted

mutual

/-- The tree of a disjunction. -/
def Disjunction.tree : Disjunction → Command
  | .single part => part.tree
  | .or line left right => node line .or .null (.command left.tree) (.command right.tree) false

/-- The tree of a conjunction. -/
def Conjunction.tree : Conjunction → Command
  | .single part => part.tree
  | .and line left right => node line .and .null (.command left.tree) (.command right.tree) false

/-- The tree of a term. -/
def Term.tree : Term → Command
  | .simple line inverted test => test.tree line inverted
  | .group line inverted inner => node line .expr .null (.command inner.tree) .null inverted

end

/-! ## The tokens of a condition -/

/-- The words of a test. -/
def Simple.words : Simple → List Word
  | .alone word => [word]
  | .unary operator operand => [operator, operand.word]
  | .binary left operator right => [left.word, operator, right.word]

/-- The texts of these words. -/
def Simple.texts (test : Simple) : List String :=
  test.words.map fun word => word.text

/-- The mark of what is inverted. -/
def negation (inverted : Bool) : List String :=
  if inverted then ["!"] else []

mutual

/-- The tokens of a disjunction. -/
def Disjunction.tokens : Disjunction → List String
  | .single part => part.tokens
  | .or _ left right => left.tokens ++ "||" :: right.tokens

/-- The tokens of a conjunction. -/
def Conjunction.tokens : Conjunction → List String
  | .single part => part.tokens
  | .and _ left right => left.tokens ++ "&&" :: right.tokens

/-- The tokens of a term. -/
def Term.tokens : Term → List String
  | .simple _ inverted test => negation inverted ++ test.texts
  | .group _ inverted inner => negation inverted ++ "(" :: (inner.tokens ++ [")"])

end

/-- What stands between the brackets of a node, of whatever kind it is. -/
def bodyText (operator left right : Datum) : CondKind → Except Fault String
  | .expr => do
      let first ← left.render (.brackets false) >>= required
      pure ("( " ++ first ++ " )")
  | .and => do
      let first ← left.render (.brackets false) >>= required
      let second ← right.render (.brackets false) >>= required
      pure (first ++ " && " ++ second)
  | .or => do
      let first ← left.render (.brackets false) >>= required
      let second ← right.render (.brackets false) >>= required
      pure (first ++ " || " ++ second)
  | .unary => do
      let operation ← operator.renderWord .unquoted
      let first ← left.render (.brackets false) >>= required
      pure (operation ++ " " ++ first)
  | .binary => do
      let first ← left.render (.brackets false) >>= required
      let operation ← operator.renderWord .unquoted
      let second ← right.render (.brackets false) >>= required
      pure (first ++ " " ++ operation ++ " " ++ second)
  | .term => operator.renderWord .unquoted

theorem render_node {style : Style} {shown : Bool} (asked : style.bracketsShown = .ok shown)
    (line : Datum) (kind : CondKind) (operator left right : Datum) (inverted : Bool) :
    (node line kind operator left right inverted).render style = (do
      let inner ← bodyText operator left right kind
      return some ((if shown then "[[ " else "") ++ (if inverted then "! " else "") ++ inner ++
        (if shown then " ]]" else ""))) := by
  rw [node, Command.render, asked]
  cases kind <;> simp only [bodyText, bind_assoc, pure_bind] <;> rfl

/-- The command prints as tokens with blanks between them, with brackets around these or without. -/
def Printed (command : Command) (tokens : List String) : Prop :=
  ∃ text, command.render (.brackets false) = .ok (some text) ∧
    command.render .plain = .ok (some ("[[ " ++ text ++ " ]]")) ∧ " " ++ text = spaced tokens

theorem printed_node {kind : CondKind} {operator left right : Datum} {inner : String}
    {tokens : List String} (body : bodyText operator left right kind = .ok inner)
    (shown : " " ++ inner = spaced tokens) (line : Datum) (inverted : Bool) :
    Printed (node line kind operator left right inverted) (negation inverted ++ tokens) := by
  refine ⟨(if inverted then "! " else "") ++ inner, ?_, ?_, ?_⟩
  · rw [render_node rfl, body]
    simp [bind, Except.bind, pure, Except.pure]
  · rw [render_node rfl, body]
    simp [bind, Except.bind, pure, Except.pure, String.append_assoc]
  · cases inverted with
    | false => simpa [negation] using shown
    | true =>
        rw [spaced_append, ← shown]
        simp only [negation, spaced, if_true, ← String.append_assoc]
        rfl

/-- Two texts with a token between them. -/
theorem spaced_between {first second : String} {tokens others : List String}
    (before : " " ++ first = spaced tokens) (after : " " ++ second = spaced others)
    (mark : String) :
    " " ++ (first ++ (" " ++ mark ++ " ") ++ second) = spaced (tokens ++ mark :: others) := by
  simp only [spaced_append, spaced, ← before, ← after, String.append_assoc]

/-- A word by itself. -/
theorem Word.printed_node (word : Word) (line : Datum) (inverted : Bool) :
    Printed (node line .term word.datum .null .null inverted)
      (negation inverted ++ [word.text]) := by
  have body : bodyText word.datum .null .null .term = .ok word.text := word.printed
  refine Condition.printed_node body ?_ line inverted
  rw [spaced, spaced, String.append_empty]

theorem Operand.printed (operand : Operand) : Printed operand.tree [operand.word.text] :=
  operand.word.printed_node operand.line false

theorem Simple.printed (test : Simple) (line : Datum) (inverted : Bool) :
    Printed (test.tree line inverted) (negation inverted ++ test.texts) := by
  cases test with
  | alone word => exact word.printed_node line inverted
  | unary operator operand =>
      obtain ⟨text, rendered, _, shown⟩ := operand.printed
      have body : bodyText operator.datum (.command operand.tree) .null .unary =
          .ok (operator.text ++ " " ++ text) := by
        simp only [bodyText, Datum.render, operator.printed, rendered]
        rfl
      refine printed_node body ?_ line inverted
      change " " ++ (operator.text ++ " " ++ text) =
        spaced (operator.text :: [operand.word.text])
      rw [spaced, ← shown]
      simp only [String.append_assoc]
  | binary left operator right =>
      obtain ⟨text, rendered, _, shown⟩ := left.printed
      obtain ⟨next, following, _, spelled⟩ := right.printed
      refine printed_node ?_ (spaced_between shown spelled operator.text) line inverted
      simp only [bodyText, Datum.render, operator.printed, rendered, following]
      simp [bind, Except.bind, pure, Except.pure, required, String.append_assoc]

section Levels

variable {left right : Command} {tokens others : List String}

/-- Two conditions with a connector between them. -/
theorem Printed.joined {kind : CondKind} {mark : String}
    (known : (kind, mark) ∈ [(CondKind.or, "||"), (.and, "&&")]) (first : Printed left tokens)
    (second : Printed right others) (line : Datum) :
    Printed (node line kind .null (.command left) (.command right) false)
      (tokens ++ mark :: others) := by
  obtain ⟨text, rendered, _, shown⟩ := first
  obtain ⟨next, following, _, spelled⟩ := second
  have body : bodyText .null (.command left) (.command right) kind =
      .ok (text ++ (" " ++ mark ++ " ") ++ next) := by
    simp only [List.mem_cons, Prod.mk.injEq, List.not_mem_nil, or_false] at known
    rcases known with ⟨rfl, rfl⟩ | ⟨rfl, rfl⟩ <;>
      · simp only [bodyText, Datum.render, rendered, following]
        rfl
  exact printed_node body (spaced_between shown spelled mark) line false

theorem Printed.group (inside : Printed left tokens) (line : Datum) (inverted : Bool) :
    Printed (node line .expr .null (.command left) .null inverted)
      (negation inverted ++ "(" :: (tokens ++ [")"])) := by
  obtain ⟨text, rendered, _, shown⟩ := inside
  have body : bodyText .null (.command left) .null .expr = .ok ("( " ++ text ++ " )") := by
    simp only [bodyText, Datum.render, rendered]
    rfl
  have opening : ("( " : String) = "(" ++ " " := rfl
  refine printed_node body ?_ line inverted
  simp only [spaced, spaced_append, ← shown, opening, String.append_assoc]
  rfl

end Levels

mutual

/-- A disjunction prints as its tokens. -/
theorem Disjunction.printed : (test : Disjunction) → Printed test.tree test.tokens
  | .single part => by
      rw [Disjunction.tree, Disjunction.tokens]
      exact part.printed
  | .or line left right => by
      rw [Disjunction.tree, Disjunction.tokens]
      exact .joined (by simp) left.printed right.printed line

theorem Conjunction.printed : (test : Conjunction) → Printed test.tree test.tokens
  | .single part => by
      rw [Conjunction.tree, Conjunction.tokens]
      exact part.printed
  | .and line left right => by
      rw [Conjunction.tree, Conjunction.tokens]
      exact .joined (by simp) left.printed right.printed line

theorem Term.printed : (test : Term) → Printed test.tree test.tokens
  | .simple line inverted test => by
      rw [Term.tree, Term.tokens]
      exact test.printed line inverted
  | .group line inverted inner => by
      rw [Term.tree, Term.tokens]
      exact inner.printed.group line inverted

end

/-! ## Reading the tokens back -/

/-- Does a token go on with a row of words and of certain connectors? -/
def goesOn (connectors : List String) (token : String) : Bool :=
  !marks.contains token || connectors.contains token

theorem Word.goesOn_text (word : Word) (connectors : List String) :
    goesOn connectors word.text = true := by
  have plain : marks.contains word.text = false := by simpa using word.unmarked
  rw [goesOn, plain]
  rfl

theorem stops_cons {connectors : List String} {token : String}
    (ends : goesOn connectors token = false) (rest : List String) :
    Stops (goesOn connectors) (token :: rest) := by
  rintro item ⟨⟩
  exact ends

/-- What does not go on with some connectors does not go on without one of them. -/
theorem stops_of_cons {connectors after : List String} {connector : String}
    (stops : Stops (goesOn (connector :: connectors)) after) :
    Stops (goesOn connectors) after := by
  intro item head
  have ends := stops item head
  simp only [goesOn, List.contains_cons, Bool.or_eq_false_iff] at ends ⊢
  exact ⟨ends.1, ends.2.2⟩

/-- What follows a part cannot be a connector that the part goes on with. -/
theorem not_stops_cons {connectors rest : List String} {token : String}
    (more : goesOn connectors token = true) : ¬ Stops (goesOn connectors) (token :: rest) := by
  intro stops
  cases more.symm.trans (stops token rfl)

theorem negation_inj {first second : Bool} {tokens others : List String}
    (plain : tokens.head? ≠ some "!") (bare : others.head? ≠ some "!")
    (same : negation first ++ tokens = negation second ++ others) :
    first = second ∧ tokens = others := by
  cases first with
  | false =>
      cases second with
      | false => exact ⟨rfl, same⟩
      | true =>
          rw [show tokens = "!" :: others from same] at plain
          exact absurd rfl plain
  | true =>
      cases second with
      | false =>
          rw [← show "!" :: tokens = others from same] at bare
          exact absurd rfl bare
      | true => exact ⟨rfl, (List.cons.inj same).2⟩

/-- A word as its text shows it. -/
def shownWord (datum : Datum) : Datum :=
  match datum.renderWord .unquoted with
  | .ok text => .text text
  | .error _ => datum

theorem Word.shownWord_datum (word : Word) : shownWord word.datum = .text word.text := by
  rw [shownWord, word.printed]

theorem Operand.unnumbered_eq {first second : Operand}
    (same : first.word.text = second.word.text) :
    first.tree.unnumbered shownWord = second.tree.unnumbered shownWord := by
  simp only [Operand.tree, node, Command.unnumbered, Datum.unnumbered, Word.shownWord_datum, same]

/-- A test is told by its words, because their number tells its kind. -/
theorem Simple.unnumbered_eq {first second : Simple}
    (same : first.texts = second.texts) (line number : Datum)
    (inverted : Bool) :
    (first.tree line inverted).unnumbered shownWord =
      (second.tree number inverted).unnumbered shownWord := by
  cases first with
  | alone word =>
      cases second with
      | alone other =>
          obtain ⟨text, -⟩ := List.cons.inj same
          simp only [Simple.tree, node, Command.unnumbered, Datum.unnumbered,
            Word.shownWord_datum, text]
      | unary => cases congrArg List.length same
      | binary => cases congrArg List.length same
  | unary operator operand =>
      cases second with
      | alone => cases congrArg List.length same
      | unary other argument =>
          obtain ⟨text, rest⟩ := List.cons.inj same
          have inner := Operand.unnumbered_eq (List.cons.inj rest).1
          simp only [Simple.tree, node, Command.unnumbered, Datum.unnumbered,
            Word.shownWord_datum, text, inner]
      | binary => cases congrArg List.length same
  | binary left operator right =>
      cases second with
      | alone => cases congrArg List.length same
      | unary => cases congrArg List.length same
      | binary start other stop =>
          obtain ⟨first, rest⟩ := List.cons.inj same
          obtain ⟨text, last⟩ := List.cons.inj rest
          have before := Operand.unnumbered_eq first
          have behind := Operand.unnumbered_eq (List.cons.inj last).1
          simp only [Simple.tree, node, Command.unnumbered, Datum.unnumbered,
            Word.shownWord_datum, text, before, behind]

/-- The words of a test start with a word, which is no mark. -/
theorem Simple.head_words (test : Simple) (after : List String) {mark : String}
    (marked : mark ∈ marks) : (test.texts ++ after).head? ≠ some mark := by
  have starts : ∃ word rest, test.words = word :: rest := by
    cases test <;> exact ⟨_, _, rfl⟩
  obtain ⟨word, rest, words⟩ := starts
  rw [Simple.texts, words]
  intro same
  have text : word.text = mark := Option.some.inj same
  exact word.unmarked (text ▸ marked)

theorem Simple.words_inj {first second : Simple} {after others : List String}
    (stops : Stops (goesOn []) after) (ends : Stops (goesOn []) others)
    (same : first.texts ++ after = second.texts ++ others) :
    first.texts = second.texts ∧ after = others := by
  have all : ∀ test : Simple, ∀ token ∈ test.texts, goesOn [] token = true := by
    intro test token inside
    obtain ⟨word, _, rfl⟩ := List.mem_map.mp inside
    exact word.goesOn_text []
  exact append_inj_of_stops (all first) (all second) stops ends same

/--
The tokens of two conditions are told from what follows them, and are the same
only for conditions that are the same.
-/
def Told (connectors : List String) (first second : Command) (tokens others : List String) : Prop :=
  ∀ after rest : List String, Stops (goesOn connectors) after → Stops (goesOn connectors) rest →
    tokens ++ after = others ++ rest →
    first.unnumbered shownWord = second.unnumbered shownWord ∧ after = rest

namespace Told

variable {connectors : List String} {connector : String} {first second left right : Command}
  {tokens others before behind : List String}

theorem symm (told : Told connectors first second tokens others) :
    Told connectors second first others tokens := by
  intro after rest stops ends same
  obtain ⟨one, remaining⟩ := told rest after ends stops same.symm
  exact ⟨one.symm, remaining.symm⟩

theorem weaken (told : Told connectors first second tokens others) :
    Told (connector :: connectors) first second tokens others := by
  intro after rest stops ends same
  exact told after rest (stops_of_cons stops) (stops_of_cons ends) same

/-- A part by itself is told from one that a connector follows. -/
theorem joined_right (told : Told connectors first left tokens others)
    (apart : goesOn connectors connector = false) :
    Told (connector :: connectors) first second tokens (others ++ connector :: behind) := by
  intro after rest stops ends same
  rw [List.append_assoc] at same
  obtain ⟨-, rfl⟩ := told _ _ (stops_of_cons stops) (stops_cons apart _) same
  refine absurd stops (not_stops_cons ?_)
  simp [goesOn]

theorem joined_left (told : Told connectors left second tokens others)
    (apart : goesOn connectors connector = false) :
    Told (connector :: connectors) first second (tokens ++ connector :: behind) others :=
  (told.symm.joined_right apart).symm

theorem joined (start : Told connectors first second tokens others)
    (following : Told (connector :: connectors) left right before behind)
    (apart : goesOn connectors connector = false) (kind : CondKind) (line number : Datum) :
    Told (connector :: connectors)
      (node line kind .null (.command first) (.command left) false)
      (node number kind .null (.command second) (.command right) false)
      (tokens ++ connector :: before) (others ++ connector :: behind) := by
  intro after rest stops ends same
  rw [List.append_assoc, List.append_assoc] at same
  obtain ⟨one, remaining⟩ := start _ _ (stops_cons apart _) (stops_cons apart _) same
  obtain ⟨two, last⟩ := following after rest stops ends (List.cons.inj remaining).2
  refine ⟨?_, last⟩
  simp only [node, Command.unnumbered, Datum.unnumbered, one, two]

/-- What stands between parentheses is told up to the closing one. -/
theorem group (inside : Told ["||", "&&"] first second tokens others) (line number : Datum)
    (inverted turned : Bool) :
    Told [] (node line .expr .null (.command first) .null inverted)
      (node number .expr .null (.command second) .null turned)
      (negation inverted ++ "(" :: (tokens ++ [")"]))
      (negation turned ++ "(" :: (others ++ [")"])) := by
  intro after rest stops ends same
  rw [List.append_assoc, List.append_assoc] at same
  obtain ⟨rfl, body⟩ := negation_inj (by simp) (by simp) same
  have within : tokens ++ ")" :: after = others ++ ")" :: rest := by simpa using body
  obtain ⟨one, remaining⟩ := inside _ _ (stops_cons rfl _) (stops_cons rfl _) within
  refine ⟨?_, (List.cons.inj remaining).2⟩
  simp only [node, Command.unnumbered, Datum.unnumbered, one]

theorem simple (test other : Simple) (line number : Datum) (inverted turned : Bool) :
    Told [] (test.tree line inverted) (other.tree number turned)
      (negation inverted ++ test.texts)
      (negation turned ++ other.texts) := by
  intro after rest stops ends same
  rw [List.append_assoc, List.append_assoc] at same
  obtain ⟨rfl, body⟩ := negation_inj (test.head_words after (by decide))
    (other.head_words rest (by decide)) same
  obtain ⟨words, remaining⟩ := Simple.words_inj stops ends body
  exact ⟨Simple.unnumbered_eq words line number inverted, remaining⟩

/-- A test is told from a group, because it starts with a word. -/
theorem simple_group (test : Simple) (inverted turned : Bool) :
    Told [] first second (negation inverted ++ test.texts)
      (negation turned ++ "(" :: others) := by
  intro after rest stops ends same
  rw [List.append_assoc, List.append_assoc] at same
  obtain ⟨-, body⟩ := negation_inj (test.head_words after (by decide)) (by simp) same
  have opening := test.head_words after (show "(" ∈ marks by decide)
  rw [body] at opening
  exact absurd rfl opening

end Told

mutual

/-- The tokens of disjunctions tell them apart. -/
theorem Disjunction.told : (first second : Disjunction) →
    Told ["||", "&&"] first.tree second.tree first.tokens second.tokens
  | .single part, .single other => (part.told other).weaken
  | .single part, .or _ left _ => (part.told left).joined_right rfl
  | .or _ left _, .single other => (left.told other).joined_left rfl
  | .or line left right, .or number start rest =>
      (left.told start).joined (right.told rest) rfl .or line number

theorem Conjunction.told : (first second : Conjunction) →
    Told ["&&"] first.tree second.tree first.tokens second.tokens
  | .single part, .single other => (part.told other).weaken
  | .single part, .and _ left _ => (part.told left).joined_right rfl
  | .and _ left _, .single other => (left.told other).joined_left rfl
  | .and line left right, .and number start rest =>
      (left.told start).joined (right.told rest) rfl .and line number

theorem Term.told : (first second : Term) →
    Told [] first.tree second.tree first.tokens second.tokens
  | .simple line inverted test, .simple number turned other =>
      .simple test other line number inverted turned
  | .simple _ inverted test, .group _ turned _ => .simple_group test inverted turned
  | .group _ inverted _, .simple _ turned other => (Told.simple_group other turned inverted).symm
  | .group line inverted inner, .group number turned other =>
      (inner.told other).group line number inverted turned

end

/-! ## Conditions with the same text -/

mutual

/-- The words of a disjunction. -/
def Disjunction.words : Disjunction → List Word
  | .single part => part.words
  | .or _ left right => left.words ++ right.words

/-- The words of a conjunction. -/
def Conjunction.words : Conjunction → List Word
  | .single part => part.words
  | .and _ left right => left.words ++ right.words

/-- The words of a term. -/
def Term.words : Term → List Word
  | .simple _ _ test => test.words
  | .group _ _ inner => inner.words

end

/-- The tokens hold no blanks. -/
def Unbroken (tokens : List String) : Prop :=
  ∀ token ∈ tokens, ' ' ∉ token.toList

theorem Unbroken.append {tokens others : List String} (first : Unbroken tokens)
    (second : Unbroken others) : Unbroken (tokens ++ others) :=
  List.forall_mem_append.mpr ⟨first, second⟩

theorem Unbroken.cons {tokens : List String} {token : String} (whole : ' ' ∉ token.toList)
    (rest : Unbroken tokens) : Unbroken (token :: tokens) :=
  List.forall_mem_cons.mpr ⟨whole, rest⟩

theorem unbroken_negation (inverted : Bool) : Unbroken (negation inverted) := by
  cases inverted <;> simp [Unbroken, negation]

theorem Simple.unbroken (test : Simple) : Unbroken test.texts := by
  intro token inside
  obtain ⟨word, _, rfl⟩ := List.mem_map.mp inside
  exact word.unbroken

mutual

theorem Disjunction.unbroken : (test : Disjunction) → Unbroken test.tokens
  | .single part => part.unbroken
  | .or _ left right => left.unbroken.append (.cons (by decide) right.unbroken)

theorem Conjunction.unbroken : (test : Conjunction) → Unbroken test.tokens
  | .single part => part.unbroken
  | .and _ left right => left.unbroken.append (.cons (by decide) right.unbroken)

theorem Term.unbroken : (test : Term) → Unbroken test.tokens
  | .simple _ inverted test => (unbroken_negation inverted).append test.unbroken
  | .group _ inverted inner =>
      (unbroken_negation inverted).append
        (.cons (by decide) (inner.unbroken.append (.cons (by decide) (List.forall_mem_nil _))))

end

/-- The word is read by bash: a row of characters as they stand. -/
def Word.FromBash (word : Word) : Prop :=
  ∃ chars, word.datum = wordOf true chars

/-- The word of bash that a text shows. -/
def readWord : Datum → Datum
  | .text text => wordOf true text.toList
  | other => other

theorem Word.FromBash.readWord_shownWord {word : Word} (plain : word.FromBash) :
    readWord (shownWord word.datum) = word.datum := by
  obtain ⟨chars, same⟩ := plain
  have printed := word.printed
  rw [same, Bash.renderWord_wordOf] at printed
  rw [word.shownWord_datum, readWord, same, ← Except.ok.inj printed, String.toList_ofList]

theorem Operand.unnumbered_readWord {operand : Operand} (plain : operand.word.FromBash) :
    (operand.tree.unnumbered shownWord).unnumbered readWord = operand.tree.unnumbered id := by
  simp only [Operand.tree, node, Command.unnumbered, Datum.unnumbered, plain.readWord_shownWord, id]

theorem Simple.unnumbered_readWord {test : Simple} (plain : ∀ word ∈ test.words, word.FromBash)
    (line : Datum) (inverted : Bool) :
    ((test.tree line inverted).unnumbered shownWord).unnumbered readWord =
      (test.tree line inverted).unnumbered id := by
  cases test with
  | alone word =>
      have first := plain word List.mem_cons_self
      simp only [Simple.tree, node, Command.unnumbered, Datum.unnumbered,
        first.readWord_shownWord, id]
  | unary operator operand =>
      obtain ⟨first, rest⟩ := List.forall_mem_cons.mp plain
      have inner := Operand.unnumbered_readWord (List.forall_mem_cons.mp rest).1
      simp only [Simple.tree, node, Command.unnumbered, Datum.unnumbered,
        first.readWord_shownWord, inner, id]
  | binary left operator right =>
      obtain ⟨first, rest⟩ := List.forall_mem_cons.mp plain
      obtain ⟨second, last⟩ := List.forall_mem_cons.mp rest
      have before := Operand.unnumbered_readWord first
      have behind := Operand.unnumbered_readWord (List.forall_mem_cons.mp last).1
      simp only [Simple.tree, node, Command.unnumbered, Datum.unnumbered,
        second.readWord_shownWord, before, behind, id]

mutual

/-- Words of bash are found again from their texts. -/
theorem Disjunction.unnumbered_readWord : (test : Disjunction) →
    (∀ word ∈ test.words, word.FromBash) →
    (test.tree.unnumbered shownWord).unnumbered readWord = test.tree.unnumbered id
  | .single part, plain => part.unnumbered_readWord plain
  | .or line left right, plain => by
      obtain ⟨first, second⟩ := List.forall_mem_append.mp plain
      have before := left.unnumbered_readWord first
      have behind := right.unnumbered_readWord second
      simp only [Disjunction.tree, node, Command.unnumbered, Datum.unnumbered, before, behind]
      rfl

theorem Conjunction.unnumbered_readWord : (test : Conjunction) →
    (∀ word ∈ test.words, word.FromBash) →
    (test.tree.unnumbered shownWord).unnumbered readWord = test.tree.unnumbered id
  | .single part, plain => part.unnumbered_readWord plain
  | .and line left right, plain => by
      obtain ⟨first, second⟩ := List.forall_mem_append.mp plain
      have before := left.unnumbered_readWord first
      have behind := right.unnumbered_readWord second
      simp only [Conjunction.tree, node, Command.unnumbered, Datum.unnumbered, before, behind]
      rfl

theorem Term.unnumbered_readWord : (test : Term) → (∀ word ∈ test.words, word.FromBash) →
    (test.tree.unnumbered shownWord).unnumbered readWord = test.tree.unnumbered id
  | .simple line inverted test, plain => Simple.unnumbered_readWord plain line inverted
  | .group line inverted inner, plain => by
      have within := inner.unnumbered_readWord plain
      simp only [Term.tree, node, Command.unnumbered, Datum.unnumbered, within]
      rfl

end

/--
Two conditions with the same text differ only in their line numbers, and in
words that print alike.  Words that bash has read do not print alike.
-/
theorem Disjunction.unnumbered_eq_of_shellText_eq (first second : Disjunction)
    (same : (Datum.command first.tree).shellText = (Datum.command second.tree).shellText) :
    (∃ text, (Datum.command first.tree).shellText = .ok (some text)) ∧
      first.tree.unnumbered shownWord = second.tree.unnumbered shownWord ∧
      ((∀ word ∈ first.words ++ second.words, word.FromBash) →
        first.tree.unnumbered id = second.tree.unnumbered id) := by
  obtain ⟨text, -, printed, shown⟩ := first.printed
  obtain ⟨other, -, rendered, spelled⟩ := second.printed
  have whole : "[[ " ++ text ++ " ]]" = "[[ " ++ other ++ " ]]" := by
    rw [Datum.shellText, Datum.shellText, Datum.render, Datum.render, printed, rendered] at same
    exact Option.some.inj (Except.ok.inj same)
  have inner : text = other := by
    apply String.toList_injective
    simpa using congrArg String.toList whole
  have tokens : first.tokens = second.tokens := by
    refine spaced_inj first.unbroken second.unbroken ?_
    rw [← shown, ← spelled, inner]
  have nothing : Stops (goesOn ["||", "&&"]) [] := by
    rintro item ⟨⟩
  obtain ⟨alike, -⟩ := first.told second [] [] nothing nothing (by rw [tokens])
  refine ⟨⟨_, printed⟩, alike, fun plain => ?_⟩
  obtain ⟨here, there⟩ := List.forall_mem_append.mp plain
  rw [← first.unnumbered_readWord here, ← second.unnumbered_readWord there, alike]

/-- The word of bash with a text. -/
def Word.ofText (text : String) (unbroken : ' ' ∉ text.toList) (unmarked : text ∉ marks) : Word where
  datum := wordOf true text.toList
  text := text
  printed := by rw [Bash.renderWord_wordOf, String.ofList_toList]
  unbroken := unbroken
  unmarked := unmarked

/-- A condition with a group, a negation and tests of each kind. -/
def sample (line : Datum) : Disjunction :=
  let word (text : String) (plain : ' ' ∉ text.toList ∧ text ∉ marks) : Word :=
    .ofText text plain.1 plain.2
  .or line
    (.single (.group line true (.single (.and line
      (.simple line false (.unary (word "-f" (by decide)) ⟨line, word "a" (by decide)⟩))
      (.single (.simple line false (.binary ⟨line, word "b" (by decide)⟩ (word "==" (by decide))
        ⟨line, word "c" (by decide)⟩)))))))
    (.single (.single (.simple line false (.alone (word "d" (by decide))))))

theorem fromBash_of_mem_sample (line : Datum) : ∀ word ∈ (sample line).words, word.FromBash := by
  intro word inside
  simp only [sample, Disjunction.words, Conjunction.words, Term.words, Simple.words, List.cons_append,
    List.nil_append, List.mem_cons, List.not_mem_nil, or_false] at inside
  rcases inside with rfl | rfl | rfl | rfl | rfl | rfl <;> exact ⟨_, rfl⟩

/-- The same condition on two lines. -/
theorem unnumbered_eq_of_shellText_eq_sample :
    (Datum.command (sample (.int 1)).tree).shellText =
        .ok (some "[[ ! ( -f a && b == c ) || d ]]") ∧
      (Datum.command (sample (.int 2)).tree).shellText =
        .ok (some "[[ ! ( -f a && b == c ) || d ]]") ∧
      (sample (.int 1)).tree.unnumbered id = (sample (.int 2)).tree.unnumbered id := by
  have first : (Datum.command (sample (.int 1)).tree).shellText =
      .ok (some "[[ ! ( -f a && b == c ) || d ]]") := by rfl
  have second : (Datum.command (sample (.int 2)).tree).shellText =
      .ok (some "[[ ! ( -f a && b == c ) || d ]]") := by rfl
  refine ⟨first, second, ?_⟩
  have told := (sample (.int 1)).unnumbered_eq_of_shellText_eq (sample (.int 2))
    (first.trans second.symm)
  refine told.2.2 (List.forall_mem_append.mpr ⟨?_, ?_⟩)
  · exact fromBash_of_mem_sample (.int 1)
  · exact fromBash_of_mem_sample (.int 2)

end Condition

end ShellTree
