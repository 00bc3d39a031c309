import ShellTree.Proofs.ArrangedTrees
import ShellTree.Proofs.ParallelComputations
import ShellTree.Proofs.TextPieces

/-!
# Texts that vary at one place

Two commands vary if their texts are the same but for one place, in whatever
style they are asked for, and if what is around them cannot tell them apart in
any other way.  A command around two commands that vary, varies with them.
-/

namespace ShellTree

/-- Two texts are the same but for one place, where one spelling stands for another. -/
def Swapped (old new text other : String) : Prop :=
  ∃ before after, text = before ++ old ++ after ∧ other = before ++ new ++ after

/-- Two texts are there, and are the same but for one place. -/
def SwappedText (old new : String) (shown other : Option String) : Prop :=
  ∃ text following, shown = some text ∧ other = some following ∧ Swapped old new text following

namespace Swapped

variable {old new text other : String}

theorem self (old new : String) : Swapped old new old new :=
  ⟨"", "", by simp, by simp⟩

theorem prepend (swapped : Swapped old new text other) (before : String) :
    Swapped old new (before ++ text) (before ++ other) := by
  obtain ⟨start, after, rfl, rfl⟩ := swapped
  exact ⟨before ++ start, after, by simp [String.append_assoc], by simp [String.append_assoc]⟩

theorem append (swapped : Swapped old new text other) (after : String) :
    Swapped old new (text ++ after) (other ++ after) := by
  obtain ⟨before, rest, rfl, rfl⟩ := swapped
  exact ⟨before, rest ++ after, by simp [String.append_assoc], by simp [String.append_assoc]⟩

theorem intercalate (swapped : Swapped old new text other) (mark : String)
    (before behind : List String) :
    Swapped old new (String.intercalate mark (before ++ text :: behind))
      (String.intercalate mark (before ++ other :: behind)) := by
  induction before with
  | nil =>
      cases behind with
      | nil => simpa using swapped
      | cons next rest =>
          rw [List.nil_append, List.nil_append, String.intercalate_cons_cons,
            String.intercalate_cons_cons]
          exact (swapped.append _).append _
  | cons first before ih =>
      rw [List.cons_append, List.cons_append, String.intercalate_cons_of_ne_nil (by simp),
        String.intercalate_cons_of_ne_nil (by simp)]
      exact ih.prepend _

/-- The texts are the same just if the spellings are. -/
theorem eq_iff (swapped : Swapped old new text other) : other = text ↔ new = old := by
  obtain ⟨before, after, rfl, rfl⟩ := swapped
  constructor
  · intro same
    apply String.toList_injective
    simpa using congrArg String.toList same
  · rintro rfl
    rfl

theorem shown (swapped : Swapped old new text other) :
    Parallel (SwappedText old new) (pure (some text)) (pure (some other)) :=
  .pure ⟨text, other, rfl, rfl, swapped⟩

end Swapped

/-! ## Commands that vary -/

/-- Two commands are the same to what is around them, but for one place in their texts. -/
structure Command.Varies (old new : String) (value other : Command) : Prop where
  tags (tag : Tag) (apart : tag ∉ [Tag.and, .or, .pipe]) : (other.tag == tag) = (value.tag == tag)
  present : (Datum.command value).isEmptyCommand = .ok false ∧
    (Datum.command other).isEmptyCommand = .ok false
  ready : (Datum.command value).defersHeredocs = .ok false ∧
    (Datum.command other).defersHeredocs = .ok false
  last : (Datum.command value).behind = .null ∧ (Datum.command other).behind = .null
  prints (style : Style) :
    Parallel (SwappedText old new) (value.render style) (other.render style)
  negated {body noBraces : Datum} (negation : value = .not body noBraces) :
    ∃ inner flag, other = .not inner flag ∧ inner.bareStyle = body.bareStyle ∧
      Parallel (SwappedText old new) (body.render body.bareStyle) (inner.render body.bareStyle)

/-- Two data are commands that vary. -/
def Datum.Varies (old new : String) (tree other : Datum) : Prop :=
  ∃ value changed, tree = .command value ∧ other = .command changed ∧
    value.Varies old new changed

variable {old new : String}

/-- Commands that are neither simple, nor jobs, nor negations show their construct and text only. -/
theorem Command.Varies.of_prints {value other : Command}
    (tags : ∀ tag ∉ [Tag.and, .or, .pipe], (other.tag == tag) = (value.tag == tag))
    (compound : value.tag ∉ [Tag.simple, .background, .not])
    (otherCompound : other.tag ∉ [Tag.simple, .background, .not])
    (prints : ∀ style, Parallel (SwappedText old new) (value.render style) (other.render style)) :
    value.Varies old new other := by
  have shows {command : Command} (compound : command.tag ∉ [Tag.simple, .background, .not]) :
      (Datum.command command).isEmptyCommand = .ok false ∧
        (Datum.command command).defersHeredocs = .ok false ∧
        (Datum.command command).behind = .null := by
    cases command with
    | simple | background => exact absurd (by simp [Command.tag]) compound
    | _ => exact ⟨rfl, rfl, rfl⟩
  obtain ⟨present, ready, last⟩ := shows compound
  obtain ⟨otherPresent, otherReady, otherLast⟩ := shows otherCompound
  refine ⟨tags, ⟨present, otherPresent⟩, ⟨ready, otherReady⟩, ⟨last, otherLast⟩, prints, ?_⟩
  rintro body noBraces rfl
  exact absurd (by simp [Command.tag]) compound

namespace Datum.Varies

variable {tree other : Datum}

theorem tag (varies : tree.Varies old new other) :
    Parallel (fun tag changed => ∀ kind ∉ [Tag.and, .or, .pipe], (changed == kind) = (tag == kind))
      tree.tag other.tag := by
  obtain ⟨value, changed, rfl, rfl, varies⟩ := varies
  exact .pure varies.tags

theorem isTag (varies : tree.Varies old new other) (tag : Tag)
    (apart : tag ∉ [Tag.and, .or, .pipe]) : other.isTag tag = tree.isTag tag := by
  obtain ⟨value, changed, rfl, rfl, varies⟩ := varies
  simpa [Datum.isTag, Datum.tag?] using varies.tags tag apart

theorem bareStyle (varies : tree.Varies old new other) : other.bareStyle = tree.bareStyle := by
  rw [Datum.bareStyle, Datum.bareStyle, varies.isTag .semi (by decide)]

theorem ready (varies : tree.Varies old new other) :
    tree.defersHeredocs = .ok false ∧ other.defersHeredocs = .ok false := by
  obtain ⟨value, changed, rfl, rfl, varies⟩ := varies
  exact varies.ready

theorem last (varies : tree.Varies old new other) :
    tree.behind = .null ∧ other.behind = .null := by
  obtain ⟨value, changed, rfl, rfl, varies⟩ := varies
  exact varies.last

theorem prints (varies : tree.Varies old new other) (style : Style) :
    Parallel (SwappedText old new) (tree.render style) (other.render style) := by
  obtain ⟨value, changed, rfl, rfl, varies⟩ := varies
  rw [Datum.render, Datum.render]
  exact varies.prints style

theorem prints_bare (varies : tree.Varies old new other) :
    Parallel (SwappedText old new) (tree.render tree.bareStyle)
      (other.render other.bareStyle) := by
  rw [varies.bareStyle]
  exact varies.prints _

theorem required (varies : tree.Varies old new other) (style : Style) :
    Parallel (Swapped old new) (tree.render style >>= ShellTree.required)
      (other.render style >>= ShellTree.required) := by
  refine (varies.prints style).bind ?_
  rintro _ _ ⟨text, following, rfl, rfl, swapped⟩
  exact .pure swapped

/-- Both commands are negations, of what varies, or none is. -/
theorem negated (varies : tree.Varies old new other) :
    (∃ body flag inner mark, tree = .command (.not body flag) ∧ other = .command (.not inner mark) ∧
      Parallel (SwappedText old new) (body.render body.bareStyle) (inner.render inner.bareStyle)) ∨
    ((∀ body flag, tree ≠ .command (.not body flag)) ∧
      ∀ body flag, other ≠ .command (.not body flag)) := by
  have same := varies.isTag .not (by decide)
  obtain ⟨value, changed, rfl, rfl, varies⟩ := varies
  by_cases isNegation : ∃ body flag, value = .not body flag
  · obtain ⟨body, flag, rfl⟩ := isNegation
    obtain ⟨inner, mark, rfl, style, inside⟩ := varies.negated rfl
    exact .inl ⟨body, flag, inner, mark, rfl, rfl, style ▸ inside⟩
  · refine .inr ⟨?_, ?_⟩
    · rintro body flag ⟨⟩
      exact isNegation ⟨body, flag, rfl⟩
    · rintro body flag ⟨⟩
      have tagged : value.tag = .not := by
        simpa [Datum.isTag, Datum.tag?, Command.tag] using same.symm
      cases value <;> cases tagged
      exact isNegation ⟨_, _, rfl⟩

end Datum.Varies

/-- What is shown of two data is taken up in the same way. -/
theorem Parallel.shown {γ : Type} {closer : γ → γ → Prop}
    {result other : Except Fault (Option String)}
    {next going : Option String → Except Fault γ}
    (parallel : Parallel (SwappedText old new) result other)
    (after : ∀ text following, Swapped old new text following →
      Parallel closer (next (some text)) (going (some following))) :
    Parallel closer (result >>= next) (other >>= going) := by
  refine parallel.bind ?_
  rintro _ _ ⟨text, following, rfl, rfl, swapped⟩
  exact after text following swapped

/-! ## Constructs around commands that vary -/

/-- Two commands have the same construct around two data, and are otherwise the same. -/
inductive Around (inside : Datum → Datum → Prop) : Command → Command → Prop where
  | negation {body other : Datum} (within : inside body other) :
      Around inside (.not body (.bool true)) (.not other (.bool true))
  | job {node other : Datum} (redirs : Datum) (within : inside node other) :
      Around inside (.background .null node redirs .null (.bool true))
        (.background .null other redirs .null (.bool true))
  | redirected {node other : Datum} (redirs : Datum) (within : inside node other) :
      Around inside (.redirected .null node redirs) (.redirected .null other redirs)
  | subshell {body other : Datum} (line redirs : Datum) (within : inside body other) :
      Around inside (.subshell line body redirs) (.subshell line other redirs)
  | group {body other : Datum} (within : inside body other) :
      Around inside (.group body) (.group other)
  | defun {body other : Datum} (line name bashMode : Datum) (within : inside body other) :
      Around inside (.defun line name body bashMode) (.defun line name other bashMode)
  | time {node other : Datum} (posix : Datum) (within : inside node other) :
      Around inside (.time posix node) (.time posix other)
  | coproc {body other : Datum} (name : Datum) (within : inside body other) :
      Around inside (.coproc name body) (.coproc name other)
  | start {left other : Datum} (right : Datum) (within : inside left other) :
      Around inside (.semi left right (.bool false)) (.semi other right (.bool false))
  | rest {right other : Datum} (left : Datum) (within : inside right other) :
      Around inside (.semi left right (.bool false)) (.semi left other (.bool false))
  | condition {test other : Datum} (thenBranch elseBranch : Datum) (within : inside test other) :
      Around inside (.ifElse test thenBranch elseBranch) (.ifElse other thenBranch elseBranch)
  | thenBranch {branch other : Datum} (test elseBranch : Datum) (within : inside branch other) :
      Around inside (.ifElse test branch elseBranch) (.ifElse test other elseBranch)
  | elseBranch {branch other : Datum} (test thenBranch : Datum) (within : inside branch other) :
      Around inside (.ifElse test thenBranch branch) (.ifElse test thenBranch other)
  | loopTest {test other : Datum} (body : Datum) (within : inside test other) :
      Around inside (.whileLoop test body) (.whileLoop other body)
  | loopBody {body other : Datum} (test : Datum) (within : inside body other) :
      Around inside (.whileLoop test body) (.whileLoop test other)
  | forLoop {body other : Datum} (line argument name : Datum) (within : inside body other) :
      Around inside (.forLoop line argument body name) (.forLoop line argument other name)
  | select {body other : Datum} (line name choices : Datum) (within : inside body other) :
      Around inside (.select line name body choices) (.select line name other choices)
  | arithFor {action other : Datum} (line start test step : Datum)
      (within : inside action other) :
      Around inside (.arithFor line start test step action)
        (.arithFor line start test step other)

/-- What follows the first branch of a choice. -/
def closing (start : String) (elseBranch : Datum) : Except Fault (Option String) := do
  if !elseBranch.truthy then return some (start ++ "; fi")
  else if (← elseBranch.isEmptyCommand) then return some (start ++ "; fi")
  else if elseBranch.isTag .ifElse then do
    let second ← elseBranch.render .plain >>= required
    return some (start ++ "; el" ++ second)
  else do
    let second ← elseBranch.render elseBranch.bareStyle
    return some (start ++ "; else " ++ inserted second ++ "; fi")

theorem Swapped.closing {start other : String} (swapped : Swapped old new start other)
    (elseBranch : Datum) :
    Parallel (SwappedText old new) (ShellTree.closing start elseBranch)
      (ShellTree.closing other elseBranch) := by
  unfold ShellTree.closing
  refine .ite (fun _ => (swapped.append _).shown) fun _ => .step fun empty _ => ?_
  refine .ite (fun _ => (swapped.append _).shown) fun _ => .ite (fun _ => ?_) fun _ => ?_
  · exact .step fun second _ => ((swapped.append _).append _).shown
  · exact .step fun second _ => (((swapped.append _).append _).append _).shown

/-- A branch that varies is there, and is no empty command. -/
theorem Datum.Varies.closing {branch other : Datum} (varies : branch.Varies old new other)
    (start : String) :
    Parallel (SwappedText old new) (ShellTree.closing start branch)
      (ShellTree.closing start other) := by
  have further := varies.isTag .ifElse (by decide)
  have plain := varies.required .plain
  have bare := varies.prints_bare
  obtain ⟨value, changed, rfl, rfl, varies⟩ := varies
  unfold ShellTree.closing
  rw [varies.present.1, varies.present.2, further]
  refine .ite (fun absent => by cases absent) fun _ => .step fun empty isPresent => ?_
  cases isPresent
  refine .ite (fun absent => by cases absent) fun _ => .ite (fun _ => ?_) fun _ => ?_
  · exact plain.bind fun text following swapped => (swapped.prepend _).shown
  · exact bare.shown fun text following swapped => ((swapped.prepend _).append _).shown

theorem Datum.Varies.prints_group {body other : Datum} (within : body.Varies old new other)
    (style : Style) : Parallel (SwappedText old new) ((Command.group body).render style)
      ((Command.group other).render style) := by
  rw [Command.render, Command.render]
  refine .step fun omitted _ => within.tag.bind fun tag changed same => ?_
  rw [within.ready.1, within.ready.2]
  refine .step fun _ isReady => ?_
  cases isReady
  refine .ite (fun _ => within.prints_bare) fun _ => ?_
  rw [within.bareStyle]
  refine (within.required _).bind fun text following swapped => ?_
  have whole (closed : String) : Parallel (SwappedText old new)
      (pure (some ("\x7b " ++ text ++ closed)))
      (pure (some ("\x7b " ++ following ++ closed))) :=
    ((swapped.prepend _).append _).shown
  -- both bodies are jobs, behind which nothing comes, or none is
  by_cases isJob : body.isTag .background = true
  · obtain ⟨_, _, _, after, _, rfl⟩ := exists_job_of_isTag isJob
    obtain ⟨_, _, _, next, _, rfl⟩ :=
      exists_job_of_isTag ((within.isTag .background (by decide)).trans isJob)
    obtain ⟨rfl, rfl⟩ : after = .null ∧ next = .null := within.last
    exact whole _
  · have noJob : ¬ other.isTag .background = true := by
      rwa [within.isTag .background (by decide)]
    split
    next => exact absurd rfl isJob
    next =>
        split
        next => exact absurd rfl noJob
        next =>
            rw [Bool.and_false, Bool.and_false]
            exact whole _

theorem Datum.Varies.prints_whileLoop_test {test other : Datum}
    (within : test.Varies old new other) (body : Datum) (style : Style) :
    Parallel (SwappedText old new) ((Command.whileLoop test body).render style)
      ((Command.whileLoop other body).render style) := by
  rcases within.negated with ⟨_, _, _, _, rfl, rfl, inside⟩ | ⟨positive, stillPositive⟩
  · rw [Command.render, Command.render]
    refine .step fun _ _ => inside.shown fun text following swapped => ?_
    exact .step fun inner _ => ((((swapped.prepend _).append _).append _).append _).shown
  · rw [Command.render, Command.render]
    · refine .step fun _ _ => within.prints_bare.shown fun text following swapped => ?_
      exact .step fun inner _ => ((((swapped.prepend _).append _).append _).append _).shown
    · exact stillPositive
    · exact positive

theorem Datum.Varies.prints_whileLoop_body {body other : Datum}
    (within : body.Varies old new other) (test : Datum) (style : Style) :
    Parallel (SwappedText old new) ((Command.whileLoop test body).render style)
      ((Command.whileLoop test other).render style) := by
  by_cases inverted : ∃ inner flag, test = .command (.not inner flag)
  · obtain ⟨_, _, rfl⟩ := inverted
    rw [Command.render, Command.render]
    refine .step fun _ _ => .step fun tested _ => ?_
    exact within.prints_bare.shown fun text following swapped =>
      ((swapped.prepend _).append _).shown
  · have positive : ∀ inner flag, test ≠ .command (.not inner flag) :=
      fun inner flag same => inverted ⟨inner, flag, same⟩
    rw [Command.render, Command.render]
    · refine .step fun _ _ => .step fun tested _ => ?_
      exact within.prints_bare.shown fun text following swapped =>
        ((swapped.prepend _).append _).shown
    · exact positive
    · exact positive

/-- What is around two commands that vary prints their texts between the same texts. -/
theorem Around.prints {value other : Command}
    (around : Around (Datum.Varies old new) value other) (style : Style) :
    Parallel (SwappedText old new) (value.render style) (other.render style) := by
  cases around with
  | negation within =>
      rw [Command.render, Command.render]
      refine .step fun _ _ => (within.prints .plain).shown fun text following swapped => ?_
      exact (swapped.prepend _).shown
  | job redirs within =>
      rw [Command.render, Command.render]
      refine .step fun _ _ => (within.prints .plain).shown fun text following swapped => ?_
      exact .step fun behind _ => ((swapped.append behind).append _).shown
  | redirected redirs within =>
      rw [Command.render, Command.render]
      refine .step fun _ _ => (within.prints .plain).shown fun text following swapped => ?_
      exact .step fun behind _ => (swapped.append behind).shown
  | subshell line redirs within =>
      rw [Command.render, Command.render]
      refine .step fun _ _ => within.tag.bind fun tag changed same => ?_
      rw [same .semi (by decide)]
      refine .ite (fun _ => ?_) fun _ => ?_
      · refine (within.prints _).shown fun text following swapped => .step fun behind _ => ?_
        exact (((swapped.prepend _).append _).append behind).shown
      · refine (within.prints _).shown fun text following swapped => .step fun behind _ => ?_
        exact (((swapped.append behind).prepend _).append _).shown
  | group within => exact within.prints_group style
  | defun line name bashMode within =>
      rw [Command.render, Command.render]
      refine .step fun _ _ => within.tag.bind fun tag changed same => .step fun called _ => ?_
      rw [same .group (by decide)]
      refine (within.required _).bind fun text following swapped => ?_
      exact ((swapped.prepend _).append _).shown
  | time posix within =>
      rw [Command.render, Command.render]
      refine .step fun _ _ => (within.prints .plain).shown fun text following swapped => ?_
      exact (swapped.prepend _).shown
  | coproc name within =>
      rw [Command.render, Command.render]
      refine .step fun _ _ => within.tag.bind fun tag changed same => ?_
      rw [same .simple (by decide)]
      refine .ite (fun _ => ?_) fun _ => .step fun called _ => ?_
      · exact (within.prints _).shown fun text following swapped => (swapped.prepend _).shown
      · exact (within.prints _).shown fun text following swapped => (swapped.prepend _).shown
  | start right within =>
      rw [Command.render, Command.render]
      refine .step fun omitted _ => .ite (fun _ => ?_) fun _ => .ite (fun _ => ?_) fun _ => ?_
      · exact (within.prints _).shown fun text following swapped =>
          .step fun second _ => ((swapped.append _).append _).shown
      · exact within.prints_bare.shown fun text following swapped =>
          .step fun second _ => ((swapped.append _).append _).shown
      · exact (within.required _).bind fun text following swapped =>
          .step fun second _ => ((((swapped.prepend _).append _).append _).append _).shown
  | rest left within =>
      rw [Command.render, Command.render]
      refine .step fun omitted _ => .ite (fun _ => ?_) fun _ => .ite (fun _ => ?_) fun _ => ?_
      · exact .step fun first _ => (within.prints _).shown fun text following swapped =>
          (swapped.prepend _).shown
      · exact .step fun first _ => within.prints_bare.shown fun text following swapped =>
          (swapped.prepend _).shown
      · exact .step fun first _ => (within.required _).bind fun text following swapped =>
          (((swapped.prepend _).append _).prepend _).shown
  | condition thenBranch elseBranch within =>
      rw [Command.render, Command.render]
      refine .step fun _ _ => within.prints_bare.shown fun text following swapped => ?_
      exact .step fun first _ => Swapped.closing (((swapped.prepend _).append _).append _) _
  | thenBranch test elseBranch within =>
      rw [Command.render, Command.render]
      refine .step fun _ _ => .step fun tested _ => ?_
      exact within.prints_bare.shown fun text following swapped =>
        Swapped.closing (swapped.prepend _) _
  | elseBranch test thenBranch within =>
      rw [Command.render, Command.render]
      exact .step fun _ _ => .step fun tested _ => .step fun first _ => within.closing _
  | loopTest body within => exact within.prints_whileLoop_test body style
  | loopBody test within => exact within.prints_whileLoop_body test style
  | forLoop line argument name within =>
      rw [Command.render, Command.render]
      refine .step fun _ _ => .step fun called _ => .step fun words _ => ?_
      exact within.prints_bare.shown fun text following swapped =>
        ((swapped.prepend _).append _).shown
  | select line name choices within =>
      rw [Command.render, Command.render]
      refine .step fun _ _ => .step fun called _ => .step fun words _ => ?_
      exact (within.prints .plain).shown fun text following swapped =>
        ((swapped.prepend _).append _).shown
  | arithFor line start test step within =>
      rw [Command.render, Command.render]
      refine .step fun _ _ => .step fun first _ => .step fun second _ => .step fun third _ => ?_
      exact within.prints_bare.shown fun text following swapped =>
        ((swapped.prepend _).append _).shown

/-- A command around two commands that vary, varies with them. -/
theorem Around.varies {value other : Command}
    (around : Around (Datum.Varies old new) value other) :
    (Datum.command value).Varies old new (.command other) := by
  refine ⟨value, other, rfl, rfl, ?_⟩
  have prints := around.prints
  cases around with
  | negation within =>
      refine ⟨fun _ _ => rfl, ⟨rfl, rfl⟩, ⟨rfl, rfl⟩, ⟨rfl, rfl⟩, prints, ?_⟩
      rintro body noBraces ⟨⟩
      exact ⟨_, _, rfl, within.bareStyle, within.prints _⟩
  | job redirs within =>
      refine ⟨fun _ _ => rfl, ⟨rfl, rfl⟩, ⟨rfl, rfl⟩, ⟨rfl, rfl⟩, prints, ?_⟩
      rintro body noBraces ⟨⟩
  | _ => exact .of_prints (fun _ _ => rfl) (by simp [Command.tag]) (by simp [Command.tag]) prints

/-! ## Lists with one command that varies -/

/-- The commands of a list in a row, which do nothing if there are none. -/
def inSequence : List Datum → Datum
  | [] => .command .empty
  | first :: rest => chain first rest

theorem inSequence_cons {first : Datum} {rest : List Datum} (more : rest ≠ []) :
    inSequence (first :: rest) = .command (.semi first (inSequence rest) (.bool false)) := by
  cases rest with
  | nil => exact absurd rfl more
  | cons => rfl

/-- If one command of a list varies, so does the whole list. -/
theorem Datum.Varies.inSequence {command other : Datum} (varies : command.Varies old new other)
    (before behind : List Datum) :
    (ShellTree.inSequence (before ++ command :: behind)).Varies old new
      (ShellTree.inSequence (before ++ other :: behind)) := by
  induction before with
  | nil =>
      cases behind with
      | nil => exact varies
      | cons next rest => exact (Around.start _ varies).varies
  | cons first before ih =>
      rw [List.cons_append, List.cons_append, inSequence_cons (by simp), inSequence_cons (by simp)]
      exact (Around.rest first ih).varies

/-! ## Clauses -/

/-- A clause of a case. -/
def clauseOf (patterns : List Datum) (body : Datum) (falls : Bool) : Datum :=
  .dict [("cpattern", .list patterns), ("cbody", body), ("fallthrough", .bool falls)]

theorem renderClause_clauseOf (patterns : List Datum) (body : Datum) (falls : Bool) :
    (clauseOf patterns body falls).renderClause = (do
      let shown ← clauseBody [("cbody", body)]
      let words ← clausePatterns [("cpattern", .list patterns)]
      return (if words.head? == some "esac" then "(" else "") ++ String.intercalate "|" words ++
        ") " ++ inserted shown ++ (if falls then ";&" else ";;")) := by
  have bodies : clauseBody [("cpattern", .list patterns), ("cbody", body),
      ("fallthrough", .bool falls)] = clauseBody [("cbody", body)] := by
    rw [clauseBody, if_neg (by decide), clauseBody, clauseBody]
    rfl
  have words : clausePatterns [("cpattern", .list patterns), ("cbody", body),
      ("fallthrough", .bool falls)] = clausePatterns [("cpattern", .list patterns)] := by
    unfold clausePatterns
    rw [if_pos rfl, if_pos rfl]
  rw [clauseOf, Datum.renderClause, bodies, words]
  rfl

/-- The body of a clause varies. -/
theorem Datum.Varies.renderClause {body other : Datum} (varies : body.Varies old new other)
    (patterns : List Datum) (falls : Bool) :
    Parallel (Swapped old new) (clauseOf patterns body falls).renderClause
      (clauseOf patterns other falls).renderClause := by
  have bodies : Parallel (SwappedText old new) (clauseBody [("cbody", body)])
      (clauseBody [("cbody", other)]) := by
    have same := varies.isTag .semi (by decide)
    have bare := varies.prints (.braces true)
    have plain := varies.prints .plain
    have present (value : Command) : clauseBody [("cbody", .command value)] = (do
        let text ← (Datum.command value).render .plain
        if (text.getD "").isEmpty || !(Datum.command value).isTag .semi then return text
        else (Datum.command value).render (.braces true)) := by
      rw [clauseBody, if_pos rfl]
      exact if_pos rfl
    obtain ⟨value, changed, rfl, rfl, varies⟩ := varies
    rw [present, present, same]
    by_cases sequence : (Datum.command value).isTag .semi = true
    · -- a sequence is never empty, so that it is printed again without braces
      refine plain.known.bind ?_
      rintro _ _ ⟨first, second, _⟩
      rw [semi_not_empty sequence first, semi_not_empty (same.trans sequence) second, sequence]
      exact bare
    · refine plain.shown fun text following swapped => ?_
      rw [Bool.not_eq_true _ |>.mp sequence, Bool.not_false, Bool.or_true, Bool.or_true]
      exact swapped.shown
  rw [renderClause_clauseOf, renderClause_clauseOf]
  refine bodies.shown fun text following swapped => .step fun words _ => .pure ?_
  exact (swapped.prepend _).append _

/-- Clauses that go on in different ways differ in the mark behind them. -/
theorem parallel_falls (patterns : List Datum) (body : Datum) (falls goes : Bool) :
    Parallel (Swapped (if falls then ";&" else ";;") (if goes then ";&" else ";;"))
      (clauseOf patterns body falls).renderClause (clauseOf patterns body goes).renderClause := by
  rw [renderClause_clauseOf, renderClause_clauseOf]
  exact .step fun shown _ => .step fun words _ => .pure ((Swapped.self _ _).prepend _)

theorem renderClauseItems_eq_mapM (clauses : List Datum) :
    renderClauseItems clauses = clauses.mapM Datum.renderClause := by
  induction clauses with
  | nil => rfl
  | cons clause rest ih => rw [renderClauseItems, List.mapM_cons, ih]

/-- If one clause of a case varies, so does the case. -/
theorem varies_case {clause other : Datum}
    (parallel : Parallel (Swapped old new) clause.renderClause other.renderClause)
    (line argument : Datum) (before behind : List Datum) :
    (Datum.command (.case line argument (.list (before ++ clause :: behind)))).Varies old new
      (.command (.case line argument (.list (before ++ other :: behind)))) := by
  refine ⟨_, _, rfl, rfl, .of_prints (fun _ _ => rfl) (by simp [Command.tag])
    (by simp [Command.tag]) fun style => ?_⟩
  rw [Command.render, Command.render, Datum.renderClauses, Datum.renderClauses,
    renderClauseItems_eq_mapM, renderClauseItems_eq_mapM]
  refine .step fun _ _ => .step fun word _ => (Parallel.mapM parallel).bind ?_
  rintro _ _ ⟨earlier, later, text, following, swapped, rfl, rfl⟩
  exact (((swapped.intercalate _ _ _).prepend _).append _).shown

/-! ## Words -/

/-- A command of one word prints the word as it is. -/
theorem render_wordsCommand (line : Int) (text : String) (style : Style) :
    (Shfmt.wordsCommand line [Shfmt.cells text]).render style = (do
      let _ ← style.heredocsOmitted
      return some text) := by
  cases asked : style.heredocsOmitted with
  | error =>
      rw [Shfmt.wordsCommand, Datum.render, Command.render, asked]
      rfl
  | ok omitted =>
      have words : (Datum.list ([Shfmt.cells text].map Datum.list)).renderWords = .ok [text] := by
        change (renderParts .unquoted (Shfmt.cells text) >>= fun first => Except.ok [first]) = _
        rw [(Shows.cells text).renderParts_eq]
        rfl
      have nothing : (Datum.list []).renderRedirs omitted = .ok "" := by
        cases omitted <;> rfl
      have unassigned : renderItems [] = .ok (List.map some []) := rfl
      have printed := render_simple (.int line) unassigned words asked nothing
      simpa [Shfmt.wordsCommand, pure, Except.pure, bind, Except.bind] using printed

/-- Commands of one word vary with the word. -/
theorem varies_wordsCommand {text other : String} (swapped : Swapped old new text other)
    (line : Int) :
    (Shfmt.wordsCommand line [Shfmt.cells text]).Varies old new
      (Shfmt.wordsCommand line [Shfmt.cells other]) := by
  have present (text : String) :
      (Shfmt.wordsCommand line [Shfmt.cells text]).isEmptyCommand = .ok false := by
    change (if (Datum.int line).isInt (-1) then Except.ok false else Except.ok false) = _
    exact ite_self _
  refine ⟨_, _, rfl, rfl, fun _ _ => rfl, ⟨present _, present _⟩, ⟨rfl, rfl⟩, ⟨rfl, rfl⟩, ?_, ?_⟩
  · intro style
    have printed : Parallel (SwappedText old new)
        ((Shfmt.wordsCommand line [Shfmt.cells text]).render style)
        ((Shfmt.wordsCommand line [Shfmt.cells other]).render style) := by
      rw [render_wordsCommand, render_wordsCommand]
      exact .step fun _ _ => swapped.shown
    rwa [Shfmt.wordsCommand, Shfmt.wordsCommand, Datum.render, Datum.render] at printed
  · rintro body noBraces ⟨⟩

end ShellTree
