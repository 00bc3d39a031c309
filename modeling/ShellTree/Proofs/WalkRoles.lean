import ShellTree.Proofs.DatumInside

/-!
# One step of a walk

Every field of a construct has a role, and the role says how the field is
walked.  One step of a walk visits a construct and walks what is inside it, each
field by its role; that is said here once, for all constructs.
-/

namespace ShellTree

/-- What a field is for. -/
inductive Role where
  /-- Something that holds no construct. -/
  | scalar
  /-- Something that is visited and walked. -/
  | whole
  /-- A list whose items are walked. -/
  | each
  /-- A construct that may be left out. -/
  | optional
  /-- A word that may be left out. -/
  | optionalWord
  | descriptor
  | clauses
  | clause

/-- The roles of the fields of a construct. -/
def Tag.roles : Tag → List Role
  | .pipe => [.scalar, .each]
  | .simple => [.scalar, .each, .each, .each]
  | .subshell => [.scalar, .whole, .each]
  | .and => [.whole, .whole, .scalar]
  | .or => [.whole, .whole, .scalar]
  | .semi => [.whole, .whole, .scalar]
  | .not => [.whole, .scalar]
  | .redirected => [.scalar, .whole, .each]
  | .background => [.scalar, .whole, .each, .optional, .scalar]
  | .defun => [.scalar, .whole, .whole, .scalar]
  | .forLoop => [.scalar, .each, .whole, .whole]
  | .whileLoop => [.whole, .whole]
  | .ifElse => [.whole, .whole, .optional]
  | .case => [.scalar, .whole, .clauses]
  | .select => [.scalar, .whole, .whole, .each]
  | .arith => [.scalar, .each]
  | .cond => [.scalar, .scalar, .optionalWord, .optional, .optional, .scalar]
  | .arithFor => [.scalar, .whole, .whole, .whole, .whole]
  | .coproc => [.whole, .whole]
  | .time => [.scalar, .whole]
  | .group => [.whole]
  | .char => [.scalar, .scalar]
  | .escaped => [.scalar]
  | .tilde => [.scalar]
  | .arithPart => [.whole]
  | .param => [.scalar, .scalar, .scalar, .whole]
  | .quoted => [.whole]
  | .commandPart => [.whole]
  | .process => []
  | .assign => [.scalar, .whole]
  | .file => [.scalar, .descriptor, .optionalWord]
  | .dup => [.scalar, .descriptor, .descriptor, .scalar]
  | .heredoc => [.scalar, .descriptor, .whole, .scalar, .scalar]
  | .single => [.scalar, .descriptor]

/-- The role of what a clause holds under a key. -/
def clauseRole (key : String) : Role :=
  if key = "cpattern" then .each else if key = "cbody" then .optional else .scalar

namespace Datum

/-- The data inside a construct with their roles. -/
def parts (datum : Datum) : List (Role × Datum) :=
  match datum.tag? with
  | some tag => tag.roles.zip datum.inside
  | none => []

/-- The three fields of a case with the clauses before the argument. -/
def clausesFirst {α : Type} : List α → List α
  | [line, argument, cases] => [line, cases, argument]
  | others => others

/--
What belongs to the data inside a datum, in the order in which these are walked.
The clauses of a case are walked before its argument.
-/
def inWalkOrder {α : Type} (datum : Datum) (values : List α) : List α :=
  if datum.isTag .case then clausesFirst values else values

theorem inWalkOrder_perm {α : Type} (datum : Datum) (values : List α) :
    (datum.inWalkOrder values).Perm values := by
  unfold inWalkOrder clausesFirst
  split
  · split
    · exact .cons _ (.swap ..)
    · exact .refl _
  · exact .refl _

theorem clausesFirst_map {α β : Type} (f : α → β) (values : List α) :
    clausesFirst (values.map f) = (clausesFirst values).map f := by
  rcases values with _ | ⟨_, _ | ⟨_, _ | ⟨_, _ | ⟨_, _⟩⟩⟩⟩ <;> rfl

theorem inWalkOrder_map {α β : Type} (datum : Datum) (f : α → β) (values : List α) :
    datum.inWalkOrder (values.map f) = (datum.inWalkOrder values).map f := by
  unfold inWalkOrder
  split
  · exact clausesFirst_map f values
  · rfl

theorem inWalkOrder_inWalkOrder {α : Type} (datum : Datum) (values : List α) :
    datum.inWalkOrder (datum.inWalkOrder values) = values := by
  unfold inWalkOrder
  split
  · rcases values with _ | ⟨_, _ | ⟨_, _ | ⟨_, _ | ⟨_, _⟩⟩⟩⟩ <;> rfl
  · rfl

theorem map_snd_parts {datum : Datum} (construct : datum.tag?.isSome = true) :
    datum.parts.map Prod.snd = datum.inside := by
  cases datum with
  | command value => cases value <;> rfl
  | part value => cases value <;> rfl
  | redir value => cases value <;> rfl
  | assign var val => rfl
  | _ => cases construct

end Datum

/-! ## One step -/

namespace Walked

theorem next_assoc {α β γ : Type} (walked : Walked α) (first : α → Walked β)
    (second : β → Walked γ) :
    (walked.next first).next second = walked.next fun value => (first value).next second := by
  obtain ⟨visits, outcome⟩ := walked
  cases outcome with
  | error fault => rfl
  | ok value =>
      simp only [next]
      cases (first value).outcome <;> simp

instance : LawfulMonad Walked :=
  LawfulMonad.mk' Walked
    (fun walked => by
      obtain ⟨visits, outcome⟩ := walked
      cases outcome <;> simp [Functor.map, next])
    (fun _ _ => rfl)
    next_assoc

theorem bind_of_ok {α β : Type} {walked : Walked α} {value : α}
    (came : walked.outcome = .ok value) (rest : α → Walked β) :
    walked >>= rest = ⟨walked.visits ++ (rest value).visits, (rest value).outcome⟩ := by
  change walked.next rest = _
  rw [next, came]

theorem ite_bind {α β : Type} (condition : Bool) (first second : Walked α) (rest : α → Walked β) :
    (if condition then first else second) >>= rest =
      if condition then first >>= rest else second >>= rest := by
  split <;> rfl

end Walked

/-- Walk a datum in its role. -/
def Role.walk (replace : Replacement) : Role → Datum → Walked Datum
  | .scalar, datum => pure datum
  | .whole, datum => datum.walk replace
  | .each, datum => datum.walkEach replace
  | .optional, datum => if datum.truthy then datum.walk replace else pure .null
  | .optionalWord, datum => if datum.truthy then datum.walk replace else pure .null
  | .descriptor, datum => datum.walkFd replace
  | .clauses, datum => datum.walkClauses replace
  | .clause, datum => datum.walkClause replace

/-- Walk several data, each in its role. -/
def walkParts (replace : Replacement) : List (Role × Datum) → Walked (List Datum)
  | [] => pure []
  | part :: rest => do
      let first ← part.1.walk replace part.2
      let others ← walkParts replace rest
      return first :: others

/-- Walk what is inside a datum, given the roles. -/
def walkInside (replace : Replacement) (datum : Datum) (parts : List (Role × Datum)) :
    Walked Datum := do
  let values ← walkParts replace (datum.inWalkOrder parts)
  return datum.withInside (datum.inWalkOrder values)

/-- The order in which the fields of a construct are walked, spelled out. -/
theorem walkInside_construct (replace : Replacement) {datum : Datum} {tag : Tag}
    (tagged : datum.tag? = some tag) :
    walkInside replace datum datum.parts =
      if tag = .case then do
        let values ← walkParts replace (Datum.clausesFirst (tag.roles.zip datum.inside))
        return datum.withInside (Datum.clausesFirst values)
      else do
        let values ← walkParts replace (tag.roles.zip datum.inside)
        return datum.withInside values := by
  unfold walkInside Datum.inWalkOrder Datum.parts Datum.isTag
  by_cases isCase : tag = .case <;> simp [tagged, isCase]

theorem Command.walk_eq (replace : Replacement) (value : Command) :
    (do return .command (← value.walk replace)) =
      walkInside replace (.command value) (Datum.command value).parts := by
  rw [walkInside_construct replace rfl]
  cases value <;>
    simp only [Command.walk, Command.tag, Tag.roles, Datum.inside, Command.fields, reduceCtorEq,
      reduceIte, Datum.clausesFirst, List.zip_cons_cons, List.zip_nil_left, walkParts, Role.walk,
      bind_assoc, pure_bind, Walked.ite_bind] <;>
    rfl

theorem WordPart.walk_eq (replace : Replacement) (value : WordPart) :
    (do return .part (← value.walk replace)) =
      walkInside replace (.part value) (Datum.part value).parts := by
  rw [walkInside_construct replace rfl]
  cases value <;>
    simp only [WordPart.walk, WordPart.tag, Tag.roles, Datum.inside, WordPart.fields, reduceCtorEq,
      reduceIte, List.zip_cons_cons, List.zip_nil_left, walkParts, Role.walk, bind_assoc,
      pure_bind] <;>
    rfl

theorem Redirection.walk_eq (replace : Replacement) (value : Redirection) :
    (do return .redir (← value.walk replace)) =
      walkInside replace (.redir value) (Datum.redir value).parts := by
  rw [walkInside_construct replace rfl]
  cases value <;>
    simp only [Redirection.walk, Redirection.tag, Tag.roles, Datum.inside, Redirection.fields,
      reduceCtorEq, reduceIte, List.zip_cons_cons, List.zip_nil_left, walkParts, Role.walk,
      bind_assoc, pure_bind, Walked.ite_bind] <;>
    rfl

/-- A construct is visited, and if it is not replaced, its fields are walked in their roles. -/
theorem walk_construct (replace : Replacement) {datum : Datum}
    (construct : datum.tag?.isSome = true) :
    datum.walk replace = enter replace datum (walkInside replace datum datum.parts) := by
  cases datum with
  | command value => rw [Datum.walk, Command.walk_eq]
  | part value => rw [Datum.walk, WordPart.walk_eq]
  | redir value => rw [Datum.walk, Redirection.walk_eq]
  | assign var val =>
      rw [Datum.walk, walkInside_construct replace rfl, if_neg (by decide)]
      simp only [Tag.roles, Datum.inside, List.zip_cons_cons, List.zip_nil_left, walkParts,
        Role.walk, bind_assoc, pure_bind]
      rfl
  | _ => cases construct

theorem walkItems_eq (replace : Replacement) (items : List Datum) :
    walkItems replace items = walkParts replace (items.map (Prod.mk .whole)) := by
  induction items with
  | nil => rfl
  | cons item rest ih => rw [walkItems, ih, List.map_cons, walkParts]; rfl

theorem walkClauseItems_eq (replace : Replacement) (items : List Datum) :
    walkClauseItems replace items = walkParts replace (items.map (Prod.mk .clause)) := by
  induction items with
  | nil => rfl
  | cons item rest ih => rw [walkClauseItems, ih, List.map_cons, walkParts]; rfl

end ShellTree
