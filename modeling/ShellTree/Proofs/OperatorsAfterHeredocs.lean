import ShellTree.Proofs.HeredocCommands

/-!
# Operators after heredocs

A construct that goes on behind a command with heredocs goes on below their
bodies, unless it looks for them and puts its operator on the line of the
command.  A conjunction looks at its left side and a pipeline at its first
item, and both look for a simple command only.  Everywhere else an operator is
the first that is seen below the last marker.
-/

namespace ShellTree

open Grammar (isPlain)

/-- A plain character is seen, and is no operator. -/
theorem PlainWord.opens_text (word : PlainWord) : Opens false word.text := by
  cases chars : word.text.toList with
  | nil => exact absurd (String.toList_eq_nil_iff.mp chars) word.nonempty
  | cons c rest =>
      have plain := word.isPlain_of_mem c (chars ▸ List.mem_cons_self)
      have blanks : c ≠ ' ' ∧ c ≠ '\t' ∧ c ≠ '\n' := by
        refine ⟨?_, ?_, ?_⟩ <;> exact Grammar.ne_of_isPlain plain rfl
      have marks : c ≠ ';' ∧ c ≠ '&' ∧ c ≠ '|' := by
        refine ⟨?_, ?_, ?_⟩ <;> exact Grammar.ne_of_isPlain plain rfl
      simp [Opens, chars, Marker.isVisible, Marker.isOperator, blanks, marks]

theorem PlainWord.hangs_text (word : PlainWord) : Hangs word.text := by
  apply Marker.hangs_of_clean
  intro newline
  exact absurd (word.isPlain_of_mem '\n' newline) (by decide)

namespace Script

/-- The text of an operand, in braces or without. -/
def operand (noBraces : Bool) (script : Script) : String :=
  if noBraces then script.text false else inBraces (script.text false)

/-- How a loop with a test starts. -/
def loopHead : Script → String
  | .not test => "until " ++ test.text true
  | test => "while " ++ test.text true

theorem tree_ne_not {script : Script} (positive : ∀ body, script ≠ .not body)
    (inner flag : Datum) : script.tree ≠ .command (.not inner flag) := by
  cases script with
  | not body => exact absurd rfl (positive body)
  | _ => simp [tree]

/-- A loop starts with its test. -/
theorem render_loop (test : Script) {body : Datum} {inner : String}
    (rendered : body.render body.bareStyle = .ok (some inner)) :
    (Datum.command (.whileLoop test.tree body)).shellText =
      .ok (some (test.loopHead ++ "; do             " ++ inner ++ "; done ")) := by
  have bared : ∀ script : Script,
      script.tree.render script.tree.bareStyle = .ok (some (script.text true)) :=
    fun script => script.render_tree true
  fun_cases loopHead test with
  | case1 test =>
      simp only [tree, Datum.shellText, Datum.render, Command.render, rendered, bared]
      rfl
  | case2 _ positive =>
      rw [Datum.shellText, Datum.render, Command.render, rendered, bared]
      · rfl
      · exact tree_ne_not positive

/-- The lines of a script hang. -/
theorem hangs_text (bare : Bool) (script : Script) : Hangs (script.text bare) := by
  fun_induction text bare script with
  | case1 bare line name arguments =>
      refine .intercalate (by decide) fun word inside => ?_
      obtain ⟨plain, _, rfl⟩ := List.mem_map.mp inside
      exact plain.hangs_text
  | case2 bare left right ihl ihr => exact (ihl.inBraces.append (by decide)).append ihr.inBraces
  | case3 bare left right ihl ihr => exact (ihl.inBraces.append (by decide)).append ihr.inBraces
  | case4 left right ihl ihr => exact (ihl.append (by decide)).append ihr
  | case5 bare left right plain ihl ihr =>
      rw [String.append_assoc]
      exact ihl.inBraces.append ihr.newline_inBraces
  | case6 bare body ih => exact .append (by decide) ih.inBraces
  | case7 bare line body ih => exact (Hangs.append (by decide) ih).append (by decide)
  | case8 bare test body absent iht ihb =>
      exact (((Hangs.append (by decide) iht).append (by decide)).append ihb).append (by decide)
  | case9 bare test body other conditional iht ihb iho =>
      exact ((((Hangs.append (by decide) iht).append (by decide)).append ihb).append
        (by decide)).append iho
  | case10 bare test body other simple iht ihb iho =>
      exact (((((Hangs.append (by decide) iht).append (by decide)).append ihb).append
        (by decide)).append iho).append (by decide)
  | case11 bare test body iht ihb =>
      exact (((Hangs.append (by decide) iht).append (by decide)).append ihb).append (by decide)
  | case12 bare test body positive iht ihb =>
      exact (((Hangs.append (by decide) iht).append (by decide)).append ihb).append (by decide)

theorem hangs_operand (noBraces : Bool) (script : Script) : Hangs (script.operand noBraces) := by
  cases noBraces with
  | false => exact (script.hangs_text false).inBraces
  | true => exact script.hangs_text false

/-- A script starts with no operator. -/
theorem opens_text (script : Script) : Opens false (script.text false) := by
  have braced : ∀ body : String, Opens false (inBraces body) := fun body =>
    (Opens.append (show Opens false "\x7b " by decide)).append
  fun_cases text false script with
  | case1 line name arguments =>
      rw [List.map_cons]
      cases arguments with
      | nil =>
          rw [List.map_nil, String.intercalate_singleton]
          exact name.opens_text
      | cons next rest =>
          rw [List.map_cons, String.intercalate_cons_cons]
          exact name.opens_text.append.append
  | case2 left right => exact (braced _).append.append
  | case3 left right => exact (braced _).append.append
  | case4 left right bare => cases bare
  | case5 left right => exact (braced _).append.append
  | case6 body => exact .append (by decide)
  | case7 line body => exact (Opens.append (show Opens false "( " by decide)).append
  | case8 test body absent =>
      exact (Opens.append (show Opens false "if " by decide)).append.append.append
  | case9 test body other =>
      exact (Opens.append (show Opens false "if " by decide)).append.append.append.append
  | case10 test body other =>
      exact (Opens.append (show Opens false "if " by decide)).append.append.append.append.append
  | case11 test body =>
      exact (Opens.append (show Opens false "until " by decide)).append.append.append
  | case12 test body =>
      exact (Opens.append (show Opens false "while " by decide)).append.append.append

theorem opens_operand (noBraces : Bool) (script : Script) :
    Opens false (script.operand noBraces) := by
  cases noBraces with
  | false => exact (Opens.append (show Opens false "\x7b " by decide)).append
  | true => exact script.opens_text

end Script

/-- A place for a command, where something follows it or closes around it. -/
inductive Position where
  | andLeft (right : Script) (noBraces : Bool)
  | orLeft (right : Script) (noBraces : Bool)
  | piped (behind : Bool) (before : List Script) (next : Script) (rest : List Script)
  | semiLeft (right : Script) (semicolon : Bool)
  | job (line : Datum) (noBraces : Bool)
  | ifThen (body : Script) (absent : Bool)
  | ifElse (body other : Script)
  | loopTest (body : Script)
  | loopBody (test : Script)

namespace Position

/-- The tree with a command in a place. -/
def put : Position → Datum → Datum
  | .andLeft right noBraces, datum => .command (.and datum right.tree (.bool noBraces))
  | .orLeft right noBraces, datum => .command (.or datum right.tree (.bool noBraces))
  | .piped behind before next rest, datum =>
      .command (.pipe (.bool behind)
        (.list (before.map Script.tree ++ datum :: (next :: rest).map Script.tree)))
  | .semiLeft right semicolon, datum => .command (.semi datum right.tree (.bool semicolon))
  | .job line noBraces, datum =>
      .command (.background line datum (.list []) .null (.bool noBraces))
  | .ifThen body absent, datum =>
      .command (.ifElse datum body.tree (if absent then .null else .command .empty))
  | .ifElse body other, datum => .command (.ifElse datum body.tree other.tree)
  | .loopTest body, datum => .command (.whileLoop datum body.tree)
  | .loopBody test, datum => .command (.whileLoop test.tree datum)

/-- Is this one of the places where heredocs can wait for the end of the line? -/
def canDefer : Position → Bool
  | .andLeft .. => true
  | .piped _ before _ _ => before.isEmpty
  | _ => false

/-- What stands before the command. -/
def leading : Position → String
  | .andLeft _ noBraces | .orLeft _ noBraces | .job _ noBraces =>
      if noBraces then "" else "\x7b "
  | .piped behind before _ _ =>
      (if behind then "\x7b " else "") ++
        String.join (before.map fun script => script.text false ++ " | ")
  | .semiLeft _ semicolon => if semicolon then "" else "\x7b "
  | .ifThen .. | .ifElse .. => "if "
  | .loopTest _ => "while "
  | .loopBody test => test.loopHead ++ "; do             "

/-- The mark that stands behind the command. -/
def mark : Position → String
  | .andLeft _ noBraces => if noBraces then " && " else " ; \x7d && "
  | .orLeft _ noBraces => if noBraces then " || " else " ; \x7d || "
  | .piped .. => " | "
  | .semiLeft _ semicolon => if semicolon then " ; " else " ; \x7d"
  | .job _ noBraces => if noBraces then " &" else " & \x7d"
  | .ifThen .. | .ifElse .. => "        ; then "
  | .loopTest _ => "; do             "
  | .loopBody _ => "; done "

/-- What stands behind the mark. -/
def trailing : Position → String
  | .andLeft right noBraces | .orLeft right noBraces => right.operand noBraces
  | .piped behind _ next rest =>
      String.intercalate " | " ((next :: rest).map (Script.text false)) ++
        if behind then " & \x7d" else ""
  | .semiLeft right semicolon =>
      if semicolon then right.text false else "\n" ++ inBraces (right.text false)
  | .job .. | .loopBody _ => ""
  | .ifThen body _ => body.text true ++ "; fi"
  | .ifElse body other =>
      body.text true ++
        if other.isConditional then "; el" ++ other.text false
        else "; else " ++ other.text true ++ "; fi"
  | .loopTest body => body.text true ++ "; done "

/-- What stands below the bodies of heredocs that have waited. -/
def below : Position → String
  | .andLeft right noBraces => "                 " ++ right.operand noBraces
  | _ => ""

theorem below_andLeft (right : Script) (noBraces : Bool) :
    (andLeft right noBraces).below = "                 " ++ right.operand noBraces :=
  rfl

/-- Items in a row print in a row. -/
theorem renderItems_append {first second : List Datum} {texts others : List (Option String)}
    (hfirst : renderItems first = .ok texts) (hsecond : renderItems second = .ok others) :
    renderItems (first ++ second) = .ok (texts ++ others) := by
  induction first generalizing texts with
  | nil =>
      cases hfirst
      exact hsecond
  | cons item rest ih =>
      rw [renderItems] at hfirst
      obtain ⟨text, shown, hfirst⟩ := bind_eq_ok_iff.mp hfirst
      obtain ⟨following, printed, hfirst⟩ := bind_eq_ok_iff.mp hfirst
      cases hfirst
      rw [List.cons_append, renderItems, shown, ih printed]
      rfl

/-- Every item before the last has a bar behind it. -/
theorem intercalate_bars (before : List String) (text next : String) (rest : List String) :
    String.intercalate " | " (before ++ text :: next :: rest) =
      String.join (before.map fun item => item ++ " | ") ++ text ++ " | " ++
        String.intercalate " | " (next :: rest) := by
  induction before with
  | nil => simp
  | cons first others ih =>
      rw [List.cons_append, String.intercalate_cons_of_ne_nil (by simp), ih]
      simp [String.join_cons, String.append_assoc]

/-- Where nothing waits, a command prints between what stands before it and its mark. -/
theorem render_put {datum : Datum} {text : String} (position : Position)
    (rendered : datum.render .plain = .ok (some text)) (bare : datum.bareStyle = .plain)
    (positive : ∀ inner flag, datum ≠ .command (.not inner flag))
    (prompt : position.canDefer = true → datum.defersHeredocs = .ok false) :
    (position.put datum).shellText =
      .ok (some (position.leading ++ text ++ (position.mark ++ position.trailing))) := by
  have plain : ∀ script : Script, script.tree.render .plain = .ok (some (script.text false)) :=
    fun script => script.render_tree false
  have bared : ∀ script : Script,
      script.tree.render script.tree.bareStyle = .ok (some (script.text true)) :=
    fun script => script.render_tree true
  cases position with
  | andLeft right noBraces =>
      simp only [put, Datum.shellText, Datum.render, Command.render, prompt rfl, rendered, plain]
      cases noBraces <;>
        simp [bind, Except.bind, pure, Except.pure, Style.none?, required, inserted, leading, mark,
          trailing, Script.operand, inBraces, Datum.truthy, String.append_assoc]
  | orLeft right noBraces =>
      simp only [put, Datum.shellText, Datum.render, Command.render, rendered, plain]
      cases noBraces <;>
        simp [bind, Except.bind, pure, Except.pure, Style.none?, required, inserted, leading, mark,
          trailing, Script.operand, inBraces, Datum.truthy, String.append_assoc]
  | piped behind before next rest =>
      have others := Script.renderItems_tree (next :: rest)
      have line : (put (.piped behind before next rest) datum).shellText =
          let line := String.intercalate " | "
            (before.map (Script.text false) ++ text :: (next :: rest).map (Script.text false))
          .ok (some (if behind then inBackground false line else line)) := by
        cases before with
        | nil => exact Script.render_pipe_items (.bool behind) (prompt rfl) rendered others
        | cons first between =>
            refine Script.render_pipe_items (.bool behind) first.defersHeredocs_tree
              (plain first) ?_
            have last : renderItems (datum :: (next :: rest).map Script.tree) =
                .ok ((text :: (next :: rest).map (Script.text false)).map some) := by
              rw [renderItems, rendered, others]
              rfl
            have all := renderItems_append (Script.renderItems_tree between) last
            rwa [← List.map_append] at all
      rw [line, List.map_cons, intercalate_bars]
      cases behind <;>
        simp [inBackground, leading, mark, trailing, String.append_assoc, Function.comp_def]
  | semiLeft right semicolon =>
      simp only [put, Datum.shellText, Datum.render, Command.render, rendered, plain]
      cases semicolon <;>
        simp [bind, Except.bind, pure, Except.pure, Style.bracesOmitted, required, inserted,
          leading, mark, trailing, inBraces, Datum.truthy, String.append_assoc,
          -String.reduceAppend]
  | job line noBraces =>
      have nothing : (Datum.list []).renderRedirs false = .ok "" := rfl
      simp only [put, Datum.shellText, Datum.render, Command.render, rendered, nothing]
      cases noBraces <;>
        simp [bind, Except.bind, pure, Except.pure, Style.none?, required, leading, mark,
          trailing, inBackground, Datum.truthy, String.append_assoc]
  | ifThen body absent =>
      have nothing : (Datum.command .empty).isEmptyCommand = .ok true := rfl
      simp only [put, Datum.shellText, Datum.render, Command.render, bare, rendered, bared]
      cases absent <;>
        simp [bind, Except.bind, pure, Except.pure, Style.none?, inserted, leading, mark,
          trailing, Datum.truthy, nothing, String.append_assoc]
  | ifElse body other =>
      simp only [put, Datum.shellText, Datum.render, Command.render, bare, rendered, bared,
        other.truthy_tree, other.isEmptyCommand_tree, other.isTag_ifElse_tree, plain]
      cases conditional : other.isConditional <;>
        simp [bind, Except.bind, pure, Except.pure, Style.none?, required, inserted, leading, mark,
          trailing, conditional, String.append_assoc]
  | loopTest body =>
      rw [put, Datum.shellText, Datum.render, Command.render, bare, rendered, bared]
      · simp [bind, Except.bind, pure, Except.pure, Style.none?, inserted, leading, mark,
          trailing, String.append_assoc]
      · exact positive
  | loopBody test =>
      rw [put, test.render_loop (bare.symm ▸ rendered)]
      simp [leading, mark, trailing, String.append_assoc]

/-- A deferring command prints its heredocs below the operator after it. -/
theorem render_put_deferred {datum : Datum} {start : String} {headers bodies : List String}
    {position : Position} (canDefer : position.canDefer = true)
    (defers : datum.defersHeredocs = .ok true)
    (rendered : datum.render (.heredocs true) = .ok (some start))
    (headed : datum.deferredHeaders = .ok headers) (bodied : datum.deferredBodies = .ok bodies) :
    ∃ before, (position.put datum).shellText =
      .ok (some (before ++ String.intercalate " " bodies.reverse ++ position.below)) := by
  have plain : ∀ script : Script, script.tree.render .plain = .ok (some (script.text false)) :=
    fun script => script.render_tree false
  cases position with
  | andLeft right noBraces =>
      refine ⟨(if noBraces then start else inBraces start) ++ " " ++
        String.intercalate " " headers ++ " &&\n", ?_⟩
      simp only [put, Datum.shellText, Datum.render, Command.render, defers, headed, bodied,
        rendered, plain]
      cases noBraces <;>
        simp [bind, Except.bind, pure, Except.pure, Style.none?, required, inserted,
          below_andLeft, Script.operand, Datum.truthy, String.append_assoc]
  | piped behind before next rest =>
      have first : before = [] := List.isEmpty_iff.mp canDefer
      have others := Script.renderItems_tree (next :: rest)
      have required := requiredAll_some ((next :: rest).map (Script.text false))
      subst first
      refine ⟨start ++ " " ++ String.intercalate " " headers ++ " |             " ++
        String.intercalate " | " ((next :: rest).map (Script.text false)) ++ "\n", ?_⟩
      simp only [put, Datum.shellText, Datum.render, Command.render, List.map_nil,
        List.nil_append, defers, headed, bodied, rendered, others]
      simp only [bind, Except.bind, pure, Except.pure, Style.none?, required, if_true]
      rw [show (piped behind [] next rest).below = "" from rfl, String.append_empty]
      rfl
  | _ => cases canDefer

/-- A mark is on one line, and the first that is seen of it is an operator. -/
theorem mark_spec (position : Position) :
    Hangs position.mark ∧ Marker.startsOdd position.mark.toList = true ∧
      Opens true position.mark := by
  cases position with
  | andLeft right noBraces | orLeft right noBraces | job line noBraces =>
      rw [mark]
      cases noBraces <;> decide
  | semiLeft right semicolon =>
      rw [mark]
      cases semicolon <;> decide
  | _ =>
      rw [mark]
      decide

theorem hangs_trailing (position : Position) : Hangs position.trailing := by
  cases position with
  | andLeft right noBraces => exact right.hangs_operand noBraces
  | orLeft right noBraces => exact right.hangs_operand noBraces
  | piped behind before next rest =>
      have items : Hangs (String.intercalate " | " ((next :: rest).map (Script.text false))) := by
        refine .intercalate (by decide) fun text inside => ?_
        obtain ⟨script, _, rfl⟩ := List.mem_map.mp inside
        exact script.hangs_text false
      cases behind with
      | false => exact items.append (by decide)
      | true => exact items.append (by decide)
  | semiLeft right semicolon =>
      cases semicolon with
      | false => exact (right.hangs_text false).newline_inBraces
      | true => exact right.hangs_text false
  | job line noBraces => rfl
  | ifThen body absent => exact (body.hangs_text true).append (by decide)
  | ifElse body other =>
      refine (body.hangs_text true).append ?_
      split
      · exact .append (by decide) (other.hangs_text false)
      · exact (Hangs.append (by decide) (other.hangs_text true)).append (by decide)
  | loopTest body => exact (body.hangs_text true).append (by decide)
  | loopBody test => rfl

theorem hangs_below (position : Position) : Hangs position.below := by
  cases position with
  | andLeft right noBraces => exact .append (by decide) (right.hangs_operand noBraces)
  | _ => rfl

theorem startsPlain_below (position : Position) :
    Marker.startsPlain position.below.toList = false := by
  cases position with
  | andLeft right noBraces =>
      rw [below_andLeft, String.toList_append]
      exact Marker.startsPlain_append (by decide) _
  | _ => rfl

theorem startWithOperator_below (position : Position) :
    Marker.startWithOperator (Marker.lines position.below.toList) = false := by
  cases position with
  | andLeft right noBraces =>
      exact (Opens.append_blank (by decide) (right.opens_operand noBraces)).startWithOperator_eq
  | _ => rfl

end Position

/--
A command with heredocs prints in every place.  What stands after the last
marker starts with an operator, unless the heredocs are on a simple command
that is the left side of a conjunction or the first item of a pipeline.
-/
theorem Host.operator_after_last_marker_iff (host : Host) (position : Position) :
    ∃ text after, (position.put host.tree).shellText = .ok (some text) ∧
      Marker.afterLast host.redirs.markers (Marker.lines text.toList) = some after ∧
      (Marker.startWithOperator after = true ↔
        ¬ (host.isSimple = true ∧ position.canDefer = true)) := by
  by_cases deferred : host.isSimple = true ∧ position.canDefer = true
  -- the bodies come after the operator, and what is below them hangs and opens with none
  · obtain ⟨simple, canDefer⟩ := deferred
    obtain ⟨start, headers, bodies, rendered, headed, bodied, terminated⟩ :=
      host.render_deferred simple
    have defers : host.tree.defersHeredocs = .ok true := by
      rw [host.defersHeredocs_tree, simple]
    obtain ⟨before, printed⟩ :=
      Position.render_put_deferred canDefer defers rendered headed bodied
    have after := (terminated.append before).afterLast_eq position.hangs_below
      position.startsPlain_below
    refine ⟨_, _, printed, after, ?_⟩
    rw [position.startWithOperator_below]
    simp [simple, canDefer]
  -- the bodies end the text of the command, and the mark behind it opens with an operator
  · obtain ⟨text, rendered, terminated⟩ := host.render_tree
    obtain ⟨hanging, odd, opens⟩ := position.mark_spec
    have bare : host.tree.bareStyle = .plain := by
      cases host <;> rfl
    have positive : ∀ inner flag, host.tree ≠ .command (.not inner flag) := by
      intro inner flag
      cases host <;> simp [Host.tree]
    have prompt : position.canDefer = true → host.tree.defersHeredocs = .ok false := by
      intro canDefer
      rw [host.defersHeredocs_tree]
      simpa [canDefer] using deferred
    have start : Marker.startsPlain (position.mark ++ position.trailing).toList = false := by
      rw [String.toList_append]
      exact Marker.startsPlain_append odd _
    have after := (terminated.append position.leading).afterLast_eq
      (hanging.append position.hangs_trailing) start
    refine ⟨_, _, position.render_put rendered bare positive prompt, after, ?_⟩
    rw [opens.append.startWithOperator_eq]
    simpa using deferred

/-- A disjunction closes the braces around its left side below the heredoc of that side. -/
theorem or_after_last_marker :
    let heredoc : Datum := .redir (.heredoc (.text "Here") (.tuple [.text "fixed", .int 0])
      (wordOf false "x\n".toList) (.bool false) .null)
    let left : Datum := .command
      (.simple (.int 1) (.list []) (.list [wordOf false "cat".toList]) (.list [heredoc]))
    let text := "\x7b cat 0<<'EOF'\nx\nEOF\n ; \x7d || \x7b r ; \x7d"
    let after := [" ; \x7d || \x7b r ; \x7d".toList]
    ∃ (host : Host) (right : Script), host.tree = left ∧
      ((Position.orLeft right false).put left).shellText = .ok (some text) ∧
      Marker.afterLast host.redirs.markers (Marker.lines text.toList) = some after ∧
      Marker.startWithOperator after = true := by
  intro heredoc left text after
  let document : Document := ⟨"x\n", "EOF", by decide, by decide, by decide⟩
  let redirs : Redirs := ⟨.list, [heredoc], " 0<<'EOF'", [document], by rfl, by rfl,
    List.cons_ne_nil document []⟩
  let host : Host := .simple (.int 1) [] [] (.list [wordOf false "cat".toList]) ["cat"] rfl
    (by rfl) redirs
  let right : Script := .call (.int 1) ⟨"r", by decide, by decide, by decide⟩ []
  refine ⟨host, right, rfl, by rfl, ?_, by decide⟩
  change Marker.afterLast ["EOF".toList] (Marker.lines text.toList) = some after
  decide

end ShellTree
