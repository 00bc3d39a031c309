import Mathlib.Data.List.Forall2
import ShellTree.Proofs.Script
import ShellTree.Proofs.TreeSlots

/-!
# Commands that print alike

A command shows more than its text to the command around it: what construct it
is, whether its heredocs have to wait, and whether something follows a job.
Commands that show the same print alike wherever they stand.  If what fills the
slots of two commands prints alike, so do the commands.
-/

namespace ShellTree

/-- What stands behind the ampersand of a job. -/
def Datum.behind : Datum → Datum
  | .command (.background _ _ _ after _) => after
  | _ => .null

/-- Two trees print alike, wherever they stand. -/
structure Alike (tree other : Datum) : Prop where
  text (style : Style) : tree.render style = other.render style
  tag : tree.tag? = other.tag?
  truthy : tree.truthy = other.truthy
  goesOn : tree.behind.truthy = other.behind.truthy
  defers : tree.defersHeredocs = other.defersHeredocs
  headers : tree.deferredHeaders = other.deferredHeaders
  bodies : tree.deferredBodies = other.deferredBodies
  empty : tree.isEmptyCommand = other.isEmptyCommand

/-- No heredocs of a compound command have to wait, and it is not empty. -/
theorem Command.shown_of_compound {value : Command} (compound : value.tag ≠ .simple) :
    (Datum.command value).defersHeredocs = .ok false ∧
      (Datum.command value).deferredHeaders = .ok [] ∧
      (Datum.command value).deferredBodies = .ok [] ∧
      (Datum.command value).isEmptyCommand = .ok false := by
  cases value with
  | simple => exact absurd rfl compound
  | _ => exact ⟨rfl, by simp [Datum.deferredHeaders], by simp [Datum.deferredBodies], rfl⟩

namespace Alike

theorem refl (tree : Datum) : Alike tree tree :=
  ⟨fun _ => rfl, rfl, rfl, rfl, rfl, rfl, rfl, rfl⟩

theorem of_text {value other : Command} (tag : value.tag = other.tag)
    (compound : value.tag ≠ .simple)
    (goesOn : (Datum.command value).behind.truthy = (Datum.command other).behind.truthy)
    (text : ∀ style, value.render style = other.render style) :
    Alike (.command value) (.command other) := by
  obtain ⟨defers, headers, bodies, empty⟩ := Command.shown_of_compound compound
  obtain ⟨otherDefers, otherHeaders, otherBodies, otherEmpty⟩ :=
    Command.shown_of_compound (tag ▸ compound)
  refine ⟨fun style => ?_, congrArg some tag, rfl, goesOn, defers.trans otherDefers.symm,
    headers.trans otherHeaders.symm, bodies.trans otherBodies.symm, empty.trans otherEmpty.symm⟩
  rw [Datum.render, Datum.render, text]

variable {tree other : Datum}

theorem isTag (alike : Alike tree other) (tag : Tag) : tree.isTag tag = other.isTag tag := by
  rw [Datum.isTag, Datum.isTag, alike.tag]

theorem tag_eq (alike : Alike tree other) : tree.tag = other.tag := by
  rw [Datum.tag, Datum.tag, alike.tag]

theorem bareStyle (alike : Alike tree other) : tree.bareStyle = other.bareStyle := by
  rw [Datum.bareStyle, Datum.bareStyle, alike.isTag]

/-- Of two trees that print alike, both are jobs or none is. -/
theorem job_cases (alike : Alike tree other) :
    (∃ line node redirs after noBraces line' node' redirs' after' noBraces',
      tree = .command (.background line node redirs after noBraces) ∧
      other = .command (.background line' node' redirs' after' noBraces') ∧
      after.truthy = after'.truthy) ∨
    ((∀ line node redirs after noBraces,
        tree ≠ .command (.background line node redirs after noBraces)) ∧
      ∀ line node redirs after noBraces,
        other ≠ .command (.background line node redirs after noBraces)) := by
  have form {tree : Datum} (isJob : tree.tag? = some .background) :
      ∃ line node redirs after noBraces,
        tree = .command (.background line node redirs after noBraces) := by
    cases tree with
    | command value => cases value <;> cases isJob; exact ⟨_, _, _, _, _, rfl⟩
    | part value => cases value <;> cases isJob
    | redir value => cases value <;> cases isJob
    | _ => cases isJob
  by_cases isJob : tree.tag? = some .background
  · obtain ⟨line, node, redirs, after, noBraces, rfl⟩ := form isJob
    obtain ⟨line', node', redirs', after', noBraces', rfl⟩ := form (alike.tag.symm.trans isJob)
    exact .inl ⟨_, _, _, _, _, _, _, _, _, _, rfl, rfl, alike.goesOn⟩
  · refine .inr ⟨?_, ?_⟩
    · rintro line node redirs after noBraces rfl
      exact isJob rfl
    · rintro line node redirs after noBraces rfl
      exact isJob alike.tag

theorem renderItems {items others : List Datum} (alike : List.Forall₂ Alike items others) :
    renderItems items = renderItems others := by
  induction alike with
  | nil => rfl
  | cons first _ ih => rw [ShellTree.renderItems, ShellTree.renderItems, first.text, ih]

end Alike

/-! ## Slots -/

namespace Bash

namespace Slot

/-- Two data print alike in a slot. -/
def Same : Slot → Datum → Datum → Prop
  | .loose => fun _ _ => True
  | .command => Alike
  | .optional => Alike
  | .test => fun tree other => (tree.tag? ≠ some .not ∧ Alike tree other) ∨
      ∃ test tested flag set, tree = .command (.not test flag) ∧
        other = .command (.not tested set) ∧ Alike test tested
  | .clause => fun tree other => ∃ words body action falls,
      tree = .dict [("cpattern", words), ("cbody", body), ("fallthrough", falls)] ∧
      other = .dict [("cpattern", words), ("cbody", action), ("fallthrough", falls)] ∧
      Alike body action
  | .each slot => fun tree other => ∃ items others,
      tree = .list items ∧ other = .list others ∧ List.Forall₂ slot.Same items others
  | _ => Eq

theorem eq_of_each {slot : Slot} {tree other : Datum} (only : slot.Same = Eq)
    (same : (each slot).Same tree other) : tree = other := by
  obtain ⟨items, others, rfl, rfl, each⟩ := same
  rw [only, List.forall₂_eq_eq_eq] at each
  rw [each]

/-- The data are related, slot by slot. -/
def All (related : Slot → Datum → Datum → Prop) : List Slot → List Datum → List Datum → Prop
  | [], [], [] => True
  | slot :: slots, tree :: trees, other :: others =>
      related slot tree other ∧ All related slots trees others
  | _, _, _ => False

end Slot

theorem renderClause_congr {words body action falls : Datum} (alike : Alike body action) :
    (Datum.dict [("cpattern", words), ("cbody", body), ("fallthrough", falls)]).renderClause =
      (Datum.dict [("cpattern", words), ("cbody", action),
        ("fallthrough", falls)]).renderClause := by
  have bodies : clauseBody [("cpattern", words), ("cbody", body), ("fallthrough", falls)] =
      clauseBody [("cpattern", words), ("cbody", action), ("fallthrough", falls)] := by
    simp only [clauseBody, alike.text, alike.isTag, alike.truthy]
  have patterns (rest others : List (String × Datum)) :
      clausePatterns (("cpattern", words) :: rest) =
        clausePatterns (("cpattern", words) :: others) := by
    unfold clausePatterns
    rw [if_pos rfl, if_pos rfl]
  rw [Datum.renderClause, Datum.renderClause, bodies,
    patterns _ [("cbody", action), ("fallthrough", falls)]]
  rfl

theorem renderClauseItems_congr {items others : List Datum}
    (same : List.Forall₂ Slot.clause.Same items others) :
    renderClauseItems items = renderClauseItems others := by
  induction same with
  | nil => rfl
  | cons first _ ih =>
      obtain ⟨words, body, action, falls, rfl, rfl, alike⟩ := first
      rw [renderClauseItems, renderClauseItems, renderClause_congr alike, ih]

/-- Commands whose slots are filled alike have the same text. -/
theorem render_congr {value other : Command} (tag : value.tag = other.tag)
    (same : Slot.All Slot.Same (slotsOf value.tag) value.fields other.fields) (style : Style) :
    value.render style = other.render style := by
  cases value <;> cases other <;> cases tag
  case pipe.pipe.refl =>
    obtain ⟨rfl, ⟨items, others, rfl, rfl, each⟩, _⟩ := same
    cases each with
    | nil => rfl
    | cons first rest =>
        simp only [Command.render, first.text, first.defers, first.headers, first.bodies,
          Alike.renderItems rest]
  case simple.simple.refl =>
    obtain ⟨rfl, assignments, arguments, redirs, _⟩ := same
    rw [Slot.eq_of_each rfl assignments, Slot.eq_of_each rfl arguments,
      Slot.eq_of_each rfl redirs]
  case subshell.subshell.refl =>
    obtain ⟨rfl, body, redirs, _⟩ := same
    simp only [Command.render, body.text, body.tag_eq, Slot.eq_of_each rfl redirs]
  case and.and.refl =>
    obtain ⟨left, right, rfl, _⟩ := same
    simp only [Command.render, left.text, left.defers, left.headers, left.bodies, right.text]
  case or.or.refl =>
    obtain ⟨left, right, rfl, _⟩ := same
    simp only [Command.render, left.text, right.text]
  case semi.semi.refl =>
    obtain ⟨left, right, rfl, _⟩ := same
    simp only [Command.render, left.text, left.bareStyle, right.text, right.bareStyle]
  case not.not.refl =>
    obtain ⟨body, rfl, _⟩ := same
    simp only [Command.render, body.text]
  case redirected.redirected.refl =>
    obtain ⟨rfl, node, redirs, _⟩ := same
    simp only [Command.render, node.text, Slot.eq_of_each rfl redirs]
  case background.background.refl =>
    obtain ⟨rfl, node, redirs, after, rfl, _⟩ := same
    -- A job that follows a job is printed by whether something follows in turn.
    rcases after.job_cases with ⟨_, _, _, _, _, _, _, _, _, _, rfl, rfl, goesOn⟩ | ⟨noJob, noOther⟩
    · simp only [Command.render, node.text, Slot.eq_of_each rfl redirs, after.tag_eq, after.text,
        after.truthy, goesOn]
    · simp only [Command.render, node.text, Slot.eq_of_each rfl redirs, after.tag_eq, after.text,
        after.truthy]
  case defun.defun.refl =>
    obtain ⟨rfl, rfl, body, rfl, _⟩ := same
    simp only [Command.render, body.text, body.tag_eq]
  case forLoop.forLoop.refl =>
    obtain ⟨rfl, words, body, rfl, _⟩ := same
    simp only [Command.render, body.text, body.bareStyle, Slot.eq_of_each rfl words]
  case whileLoop.whileLoop.refl test _ tested _ =>
    obtain ⟨⟨notInverted, alike⟩ | ⟨_, _, _, _, rfl, rfl, alike⟩, body, _⟩ := same
    · have notFirst : ∀ inner flag, test ≠ .command (.not inner flag) := by
        rintro inner flag rfl
        exact notInverted rfl
      have notSecond : ∀ inner flag, tested ≠ .command (.not inner flag) := by
        rintro inner flag rfl
        exact notInverted alike.tag
      rw [Command.render, Command.render]
      · simp only [alike.text, alike.bareStyle, body.text, body.bareStyle]
      · exact notSecond
      · exact notFirst
    · simp only [Command.render, alike.text, alike.bareStyle, body.text, body.bareStyle]
  case ifElse.ifElse.refl =>
    obtain ⟨test, first, second, _⟩ := same
    simp only [Command.render, test.text, test.bareStyle, first.text, first.bareStyle,
      second.text, second.bareStyle, second.truthy, second.empty, second.isTag]
  case case.case.refl =>
    obtain ⟨rfl, rfl, ⟨items, others, rfl, rfl, each⟩, _⟩ := same
    simp only [Command.render, Datum.renderClauses, renderClauseItems_congr each]
  case select.select.refl =>
    obtain ⟨rfl, rfl, body, words, _⟩ := same
    simp only [Command.render, body.text, Slot.eq_of_each rfl words]
  case arith.arith.refl =>
    obtain ⟨rfl, words, _⟩ := same
    rw [Slot.eq_of_each rfl words]
  case cond.cond.refl =>
    obtain ⟨rfl, rfl, rfl, left, right, rfl, _⟩ := same
    simp only [Command.render, left.text, right.text]
  case arithFor.arithFor.refl =>
    obtain ⟨rfl, start, test, step, action, _⟩ := same
    simp only [Command.render, action.text, action.bareStyle, Slot.eq_of_each rfl start,
      Slot.eq_of_each rfl test, Slot.eq_of_each rfl step]
  case coproc.coproc.refl =>
    obtain ⟨rfl, body, _⟩ := same
    simp only [Command.render, body.text, body.tag_eq]
  case time.time.refl =>
    obtain ⟨rfl, node, _⟩ := same
    simp only [Command.render, node.text]
  case group.group.refl =>
    obtain ⟨body, _⟩ := same
    rcases body.job_cases with ⟨_, _, _, _, _, _, _, _, _, _, rfl, rfl, goesOn⟩ | ⟨noJob, noOther⟩
    · simp only [Command.render, body.text, body.tag_eq, body.defers, body.bareStyle, goesOn]
    · simp only [Command.render, body.text, body.tag_eq, body.defers, body.bareStyle]

/-- Commands whose slots are filled alike print alike. -/
theorem alike_of_slots {value other : Command} (tag : value.tag = other.tag)
    (same : Slot.All Slot.Same (slotsOf value.tag) value.fields other.fields) :
    Alike (.command value) (.command other) := by
  by_cases simple : value.tag = .simple
  · cases value <;> cases simple
    cases other <;> cases tag
    obtain ⟨rfl, assignments, arguments, redirs, _⟩ := same
    rw [Slot.eq_of_each rfl assignments, Slot.eq_of_each rfl arguments,
      Slot.eq_of_each rfl redirs]
    exact .refl _
  · refine .of_text tag simple ?_ (render_congr tag same)
    cases value <;> cases other <;> cases tag
    case background.background.refl =>
      obtain ⟨_, _, _, after, _⟩ := same
      exact after.truthy
    all_goals rfl

end Bash

end ShellTree
