import ShellTree.Proofs.HeredocCommands
import ShellTree.Proofs.TwoPassOrder
import ShellTree.Proofs.VerbatimCommands

/-!
# Heredocs that wait for an operator

A conjunction and a pipeline print the redirections of a simple command in
three passes: first those that are no heredocs, then the headers of the
heredocs before the operator, and below that line the bodies.  The bodies come
in reverse with a blank between two of them.

The line holds the redirections in order just where no other redirection stands
behind a heredoc, and the bodies stand below it in order just where there is
one.  With more than one, the text below holds the same line feeds as the
bodies in order, and more characters before the last of them.
-/

namespace ShellTree

/-! ## Redirections -/

/-- A redirection that prints: a heredoc, by its header and its body, or another one. -/
inductive Attachment where
  | heredoc (value : Redirection) (header below : String) (tagged : value.tag = .heredoc)
      (header_printed : value.header = .ok header) (body_printed : value.body = .ok below)
  | other (value : Redirection) (text : String) (tagged : (value.tag == .heredoc) = false)
      (printed : value.render = .ok (some text))

namespace Attachment

/-- The tree of a redirection. -/
def tree : Attachment → Datum
  | .heredoc value .. => .redir value
  | .other value .. => .redir value

/-- Is a redirection a heredoc? -/
def isHeredoc : Attachment → Bool
  | .heredoc .. => true
  | .other .. => false

/-- What stands on the line for a redirection. -/
def text : Attachment → String
  | .heredoc _ header .. => header
  | .other _ text .. => text

/-- What stands below the line for a redirection, if it is a heredoc. -/
def below? : Attachment → Option String
  | .heredoc _ _ below .. => some below
  | .other .. => none

/-- Redirections in a row, each with a blank before it. -/
def row (items : List Attachment) : String :=
  String.join (items.map fun item => " " ++ item.text)

theorem row_cons (item : Attachment) (rest : List Attachment) :
    row (item :: rest) = " " ++ item.text ++ row rest := by
  rw [row, List.map_cons, String.join_cons]
  rfl

/-- A blank stands before the first of the headers, and between two of them. -/
theorem blank_intercalate {items : List Attachment} (nonempty : items ≠ []) :
    " " ++ String.intercalate " " (items.map text) = row items := by
  induction items with
  | nil => exact absurd rfl nonempty
  | cons item rest ih =>
      rw [row_cons, List.map_cons]
      cases rest with
      | nil => simp [row]
      | cons next others =>
          rw [← ih (List.cons_ne_nil next others), List.map_cons, String.intercalate_cons_cons]
          simp only [String.append_assoc]

/-- Without the heredocs, the line holds the other redirections. -/
theorem redirectionLine_omitted (items : List Attachment) :
    redirectionLine true (items.map tree) =
      .ok (row (items.filter fun item => !item.isHeredoc)) := by
  induction items with
  | nil => rfl
  | cons item rest ih =>
      cases item with
      | heredoc value header below tagged header_printed body_printed =>
          have known : (Datum.redir value).tag = .ok .heredoc := congrArg Except.ok tagged
          rw [List.map_cons, tree, redirectionLine, known]
          exact ih
      | other value text tagged printed =>
          have known : (Datum.redir value).tag = .ok value.tag := rfl
          have shown : (Datum.redir value).render .plain = .ok (some text) := by
            rw [Datum.render, printed]
            rfl
          rw [List.filter_cons_of_pos rfl, row_cons, List.map_cons, tree, redirectionLine, known]
          change (if (value.tag == .heredoc) = true then _ else _) = _
          rw [tagged, if_neg Bool.false_ne_true, shown, ih]
          rfl

theorem headerItems_eq (items : List Attachment) :
    headerItems (items.map tree) = .ok ((items.filter isHeredoc).map text) := by
  induction items with
  | nil => rfl
  | cons item rest ih =>
      cases item with
      | heredoc value header below tagged header_printed body_printed =>
          have known : (Datum.redir value).tag = .ok .heredoc := congrArg Except.ok tagged
          have first : (Datum.redir value).header = .ok header := header_printed
          rw [List.map_cons, tree, headerItems, known, first, ih]
          rfl
      | other value text tagged printed =>
          have known : (Datum.redir value).tag = .ok value.tag := rfl
          rw [List.map_cons, tree, headerItems, known]
          change (if (value.tag == .heredoc) = true then _ else _) = _
          rw [tagged, if_neg Bool.false_ne_true, ih]
          rfl

theorem bodyItems_eq (items : List Attachment) :
    bodyItems (items.map tree) = .ok (items.filterMap below?) := by
  induction items with
  | nil => rfl
  | cons item rest ih =>
      cases item with
      | heredoc value header below tagged header_printed body_printed =>
          have known : (Datum.redir value).tag = .ok .heredoc := congrArg Except.ok tagged
          have first : (Datum.redir value).body = .ok below := body_printed
          rw [List.map_cons, tree, bodyItems, known, first, ih]
          rfl
      | other value text tagged printed => exact (bodyItems_cons tagged).trans ih

theorem getLast?_of_body {value : Redirection} {below : String} (printed : value.body = .ok below) :
    below.toList.getLast? = some '\n' := by
  cases value with
  | heredoc kind fd arg killLeading eof =>
      rw [Redirection.body] at printed
      obtain ⟨body, _, printed⟩ := bind_eq_ok_iff.mp printed
      generalize (if eof.truthy = true then eof else _) = marker at printed
      cases marker with
      | text word =>
          cases printed
          rw [String.toList_append, List.getLast?_append]
          rfl
      | _ => cases printed
  | _ => cases printed

/-- Every body ends with the line of its marker. -/
theorem getLast?_of_mem_filterMap {items : List Attachment} {below : String}
    (inside : below ∈ items.filterMap below?) : below.toList.getLast? = some '\n' := by
  obtain ⟨item, _, same⟩ := List.mem_filterMap.mp inside
  cases item with
  | heredoc value header text tagged header_printed body_printed =>
      cases same
      exact getLast?_of_body body_printed
  | other value text tagged printed => cases same

end Attachment

/-! ## Bodies in reverse -/

/-- Blanks between texts add no line feed. -/
theorem count_newline_intercalate (texts : List String) :
    (String.intercalate " " texts).toList.count '\n' =
      (texts.flatMap String.toList).count '\n' := by
  induction texts with
  | nil => rfl
  | cons text rest ih =>
      cases rest with
      | nil => simp
      | cons next others =>
          rw [String.intercalate_cons_cons, List.flatMap_cons, List.count_append, ← ih]
          simp

theorem length_intercalate {texts : List String} (nonempty : texts ≠ []) :
    (String.intercalate " " texts).toList.length + 1 =
      (texts.flatMap String.toList).length + texts.length := by
  induction texts with
  | nil => exact absurd rfl nonempty
  | cons text rest ih =>
      cases rest with
      | nil => simp
      | cons next others =>
          have following := ih (List.cons_ne_nil next others)
          rw [String.intercalate_cons_cons, List.flatMap_cons, List.length_append,
            String.toList_append, String.toList_append, List.length_append, List.length_append,
            List.length_cons]
          have blank : " ".toList.length = 1 := rfl
          omega

/-- The text that was first is last in reverse. -/
theorem getLast?_intercalate_reverse {texts : List String}
    (each : ∀ text ∈ texts, text.toList.getLast? = some '\n') (nonempty : texts ≠ []) :
    (String.intercalate " " texts.reverse).toList.getLast? = some '\n' := by
  cases texts with
  | nil => exact absurd rfl nonempty
  | cons text rest =>
      have last := each text List.mem_cons_self
      rw [List.reverse_cons]
      by_cases alone : rest.reverse = []
      · rw [alone, List.nil_append, String.intercalate_singleton]
        exact last
      · rw [String.intercalate_append_of_ne_nil alone (List.cons_ne_nil text []),
          String.intercalate_singleton, String.toList_append, List.getLast?_append, last]
        rfl

/--
Texts that end in line feeds start what holds them in reverse just where there
is one: the blanks between two of them leave a line feed too many at the end.
-/
theorem join_prefix_reverse_iff {texts : List String}
    (each : ∀ text ∈ texts, text.toList.getLast? = some '\n') (nonempty : texts ≠ [])
    (rest : String) :
    (String.join texts).toList <+: (String.intercalate " " texts.reverse ++ rest).toList ↔
      texts.length = 1 := by
  constructor
  · intro starts
    have swapped := (List.reverse_perm texts).flatMap_right String.toList
    have length := length_intercalate (mt List.reverse_eq_nil_iff.mp nonempty)
    have count := count_newline_intercalate texts.reverse
    rw [swapped.length_eq, List.length_reverse] at length
    rw [swapped.count_eq] at count
    rw [String.toList_join, String.toList_append] at starts
    have positive := List.length_pos_iff.mpr nonempty
    have shorter : texts.flatMap String.toList <+:
        (String.intercalate " " texts.reverse).toList :=
      List.prefix_of_prefix_length_le starts (List.prefix_append _ _) (by omega)
    obtain ⟨tail, same⟩ := shorter
    have ends := getLast?_intercalate_reverse each nonempty
    rw [← same] at length count ends
    rw [List.count_append] at count
    cases tail with
    | nil =>
        rw [List.append_nil] at length
        omega
    | cons c others =>
        -- all line feeds are in the bodies before, but the text ends in one
        rw [List.getLast?_append, List.getLast?_cons, Option.some_or, ← List.getLast?_cons] at ends
        have newline : 0 < (c :: others).count '\n' :=
          List.count_pos_iff.mpr (List.mem_of_getLast? ends)
        omega
  · intro single
    obtain ⟨text, rfl⟩ := List.length_eq_one_iff.mp single
    rw [String.toList_append]
    simp

/-! ## Commands before an operator -/

/-- A simple command that prints, with a heredoc among its redirections. -/
structure Deferring where
  line : Datum
  assignments : List Datum
  assigned : List String
  arguments : Datum
  words : List String
  kind : SeqKind
  items : List Attachment
  assigned_printed : renderItems assignments = .ok (assigned.map some)
  words_printed : arguments.renderWords = .ok words
  waits : items.filter Attachment.isHeredoc ≠ []

namespace Deferring

/-- The tree of a command. -/
def tree (command : Deferring) : Datum :=
  .command (.simple command.line (.list command.assignments) command.arguments
    (.seq command.kind (command.items.map Attachment.tree)))

/-- The text of a command without its redirections. -/
def text (command : Deferring) : String :=
  String.intercalate " " (command.assigned ++ command.words)

/-- The redirections that are no heredocs. -/
def others (command : Deferring) : List Attachment :=
  command.items.filter fun item => !item.isHeredoc

/-- The heredocs. -/
def heredocs (command : Deferring) : List Attachment :=
  command.items.filter Attachment.isHeredoc

/-- What stands below the line for the heredocs, in their order. -/
def bodies (command : Deferring) : List String :=
  command.items.filterMap Attachment.below?

theorem length_bodies (command : Deferring) :
    command.bodies.length = command.heredocs.length := by
  rw [bodies, heredocs]
  induction command.items with
  | nil => rfl
  | cons item rest ih =>
      cases item with
      | heredoc value header below tagged header_printed body_printed =>
          exact congrArg Nat.succ ih
      | other value text tagged printed => exact ih

theorem bodies_ne_nil (command : Deferring) : command.bodies ≠ [] := by
  rw [← List.length_pos_iff, length_bodies, List.length_pos_iff]
  exact command.waits

theorem defersHeredocs_tree (command : Deferring) : command.tree.defersHeredocs = .ok true := by
  obtain ⟨tags, named, holds⟩ := Redirs.tags_of_bodyItems (Attachment.bodyItems_eq command.items)
  have present : command.bodies.isEmpty = false := by simpa using command.bodies_ne_nil
  change _ = !command.bodies.isEmpty at holds
  rw [present] at holds
  simp only [tree, Datum.defersHeredocs, Datum.holdsHeredoc, Datum.items]
  simp only [bind, Except.bind, named, holds]
  rfl

theorem render_omitted (command : Deferring) :
    command.tree.render (.heredocs true) =
      .ok (some (command.text ++ Attachment.row command.others)) := by
  have asked : (Style.heredocs true).heredocsOmitted = .ok true := rfl
  have redirected : (Datum.seq command.kind (command.items.map Attachment.tree)).renderRedirs true =
      .ok (Attachment.row command.others) := by
    rw [Datum.renderRedirs, Attachment.redirectionLine_omitted]
    rfl
  have printed := render_simple command.line command.assigned_printed command.words_printed asked
    redirected
  rw [Bash.intercalate_words] at printed
  exact printed

end Deferring

/-- What a command is linked to: the other side of a conjunction, or the rest of a pipeline. -/
inductive Link where
  | and (right : Datum) (text : String) (noBraces : Bool)
      (printed : right.render .plain = .ok (some text))
  | pipe (kind : SeqKind) (rest : List Datum) (texts : List String)
      (printed : renderItems rest = .ok (texts.map some))
      (clean : ∀ text ∈ texts, '\n' ∉ text.toList)

namespace Link

/-- Put a command before the operator. -/
def put : Link → Datum → Datum
  | .and right _ noBraces _, command => .command (.and command right (.bool noBraces))
  | .pipe kind rest _ _ _, command => .command (.pipe (.bool false) (.seq kind (command :: rest)))

/-- Does a command stand between braces? -/
def braced : Link → Bool
  | .and _ _ noBraces _ => !noBraces
  | .pipe .. => false

/-- What stands before the command. -/
def opening (link : Link) : String :=
  if link.braced then "\x7b " else ""

/-- What stands between the command and the headers. -/
def closing (link : Link) : String :=
  if link.braced then " ; \x7d" else ""

/-- What stands behind the headers on the line. -/
def operator : Link → String
  | .and .. => " &&"
  | .pipe _ _ texts _ _ => " |             " ++ String.intercalate " | " texts

/-- What stands below the bodies. -/
def below : Link → String
  | .and _ text noBraces _ =>
      "                 " ++ (if noBraces then text else inBraces text)
  | .pipe .. => ""

section

variable {right : Datum} {text : String} {noBraces : Bool} {kind : SeqKind} {rest : List Datum}
  {texts : List String} {one : right.render .plain = .ok (some text)}
  {all : renderItems rest = .ok (texts.map some)} {clean : ∀ text ∈ texts, '\n' ∉ text.toList}

@[simp]
theorem operator_and : (Link.and right text noBraces one).operator = " &&" :=
  rfl

@[simp]
theorem operator_pipe : (Link.pipe kind rest texts all clean).operator =
    " |             " ++ String.intercalate " | " texts :=
  rfl

@[simp]
theorem below_and : (Link.and right text noBraces one).below =
    "                 " ++ (if noBraces then text else inBraces text) :=
  rfl

@[simp]
theorem below_pipe : (Link.pipe kind rest texts all clean).below = "" :=
  rfl

end

theorem newline_not_mem_intercalate {texts : List String}
    (each : ∀ text ∈ texts, '\n' ∉ text.toList) :
    '\n' ∉ (String.intercalate " | " texts).toList := by
  induction texts with
  | nil => exact List.not_mem_nil
  | cons text rest ih =>
      obtain ⟨first, others⟩ := List.forall_mem_cons.mp each
      cases rest with
      | nil =>
          rw [String.intercalate_singleton]
          exact first
      | cons next more =>
          rw [String.intercalate_cons_cons, String.toList_append, String.toList_append]
          intro inside
          rcases List.mem_append.mp inside with start | following
          · rcases List.mem_append.mp start with here | bar
            · exact first here
            · exact absurd bar (by decide)
          · exact ih others following

theorem newline_not_mem_operator (link : Link) : '\n' ∉ link.operator.toList := by
  cases link with
  | and right text noBraces printed =>
      rw [operator_and]
      decide
  | pipe kind rest texts printed clean =>
      rw [operator_pipe, String.toList_append]
      intro inside
      rcases List.mem_append.mp inside with bar | items
      · exact absurd bar (by decide)
      · exact newline_not_mem_intercalate clean items

/-- The line holds the other redirections first and the headers last, and the bodies are below. -/
theorem shellText_put (link : Link) (command : Deferring) :
    (link.put command.tree).shellText =
      .ok (some (link.opening ++ command.text ++ Attachment.row command.others ++ link.closing ++
        Attachment.row command.heredocs ++ link.operator ++ "\n" ++
        (String.intercalate " " command.bodies.reverse ++ link.below))) := by
  have defers := command.defersHeredocs_tree
  have start := command.render_omitted
  have headed : command.tree.deferredHeaders = .ok (command.heredocs.map Attachment.text) :=
    Attachment.headerItems_eq command.items
  have bodied : command.tree.deferredBodies = .ok command.bodies :=
    Attachment.bodyItems_eq command.items
  have row : Attachment.row command.heredocs =
      " " ++ String.intercalate " " (command.heredocs.map Attachment.text) :=
    (Attachment.blank_intercalate command.waits).symm
  rw [row]
  cases link with
  | and right text noBraces printed =>
      simp only [put, Datum.shellText, Datum.render, Command.render, defers, headed, bodied, start,
        printed]
      cases noBraces with
      | true =>
          refine congrArg (fun text => Except.ok (some text)) (String.toList_injective ?_)
          simp [opening, closing, braced, inserted]
      | false =>
          refine congrArg (fun text => Except.ok (some text)) (String.toList_injective ?_)
          simp [opening, closing, braced, inBraces]
  | pipe kind rest texts printed clean =>
      have all := requiredAll_some texts
      simp only [put, Datum.shellText, Datum.render, Command.render, defers, headed, bodied, start,
        printed]
      simp only [bind, Except.bind, pure, Except.pure, Style.none?, all, if_true, inserted]
      refine congrArg (fun text => Except.ok (some text)) (String.toList_injective ?_)
      simp [opening, closing, braced]

/--
A command with heredocs before an operator prints its redirections on one line
in order just where no other one stands behind a heredoc.  Below the line the
bodies stand in order with nothing between them just where there is one heredoc.
-/
theorem shellText_deferred_iff (link : Link) (command : Deferring) :
    ∃ line below, (link.put command.tree).shellText = .ok (some (line ++ "\n" ++ below)) ∧
      line = link.opening ++ command.text ++ Attachment.row command.others ++ link.closing ++
        Attachment.row command.heredocs ++ link.operator ∧
      '\n' ∉ link.operator.toList ∧
      (command.others ++ command.heredocs = command.items ↔
        command.items.Pairwise fun first second =>
          first.isHeredoc = true → second.isHeredoc = true) ∧
      ((String.join command.bodies).toList <+: below.toList ↔ command.heredocs.length = 1) := by
  refine ⟨_, _, link.shellText_put command, rfl, link.newline_not_mem_operator, ?_, ?_⟩
  · exact inTwoPasses_eq_self_iff Attachment.isHeredoc command.items
  · rw [← command.length_bodies]
    exact join_prefix_reverse_iff (fun _ => Attachment.getLast?_of_mem_filterMap)
      command.bodies_ne_nil link.below

/-- A heredoc of one line. -/
def lineHeredoc (fd : Int) (letter : Char) : Redirection :=
  .heredoc (.text "Here") (.tuple [.text "fixed", .int fd]) (wordOf false [letter, '\n'])
    (.bool false) .null

/-- A redirection of the output to a file. -/
def toFile : Attachment :=
  .other (.file (.text "To") (.tuple [.text "fixed", .int 1]) (wordOf false ['f'])) "> f" rfl
    (by rfl)

/-- The heredoc for the standard input. -/
def firstHeredoc : Attachment :=
  .heredoc (lineHeredoc 0 'x') "0<<'EOF'" "x\nEOF\n" rfl (by rfl) (by rfl)

/-- A heredoc for another descriptor. -/
def secondHeredoc : Attachment :=
  .heredoc (lineHeredoc 3 'y') "3<<'EOF'" "y\nEOF\n" rfl (by rfl) (by rfl)

/-- A command of one word with redirections. -/
def catWith (items : List Attachment) (waits : items.filter Attachment.isHeredoc ≠ []) :
    Deferring :=
  ⟨.int 1, [], [], .list [wordOf false "cat".toList], ["cat"], .list, items, rfl, by rfl, waits⟩

/-- A command that is linked to another. -/
def letterCall : Datum :=
  .command (.simple (.int 1) (.list []) (.list [wordOf false ['r']]) (.list []))

theorem render_letterCall : letterCall.render .plain = .ok (some "r") := by
  have assigned : renderItems [] = .ok (([] : List String).map some) := rfl
  have words : (Datum.list [wordOf false ['r']]).renderWords = .ok ["r"] := by rfl
  have asked : Style.plain.heredocsOmitted = .ok false := rfl
  have redirected : (Datum.list []).renderRedirs false = .ok "" := rfl
  exact render_simple (.int 1) assigned words asked redirected

theorem renderItems_letterCall : renderItems [letterCall] = .ok (["r"].map some) := by
  rw [renderItems, render_letterCall]
  rfl

/-- One heredoc behind another redirection keeps its place and its body. -/
theorem shellText_deferred_iff_last :
    let command := catWith [toFile, firstHeredoc] (List.cons_ne_nil _ _)
    let link := Link.pipe .list [letterCall] ["r"] renderItems_letterCall
      (List.forall_mem_singleton.mpr (by decide))
    ∃ line below, (link.put command.tree).shellText = .ok (some (line ++ "\n" ++ below)) ∧
      line = "cat > f 0<<'EOF' |             r" ∧
      command.others ++ command.heredocs = command.items ∧
      "x\nEOF\n".toList <+: below.toList := by
  intro command link
  obtain ⟨line, below, printed, same, _, ordered, starts⟩ := shellText_deferred_iff link command
  refine ⟨line, below, printed, same.trans (by decide), ordered.mpr ?_, starts.mpr rfl⟩
  exact .cons (List.forall_mem_singleton.mpr fun _ => rfl) (List.pairwise_singleton _ _)

/--
A redirection between two heredocs is printed before both, and the bodies are
exchanged, so that the shell reads the body of one for the header of the other.
-/
theorem shellText_deferred_exchanged :
    let command := catWith [firstHeredoc, toFile, secondHeredoc] (List.cons_ne_nil _ _)
    let link := Link.and letterCall "r" false render_letterCall
    let below := "y\nEOF\n x\nEOF\n                 \x7b r ; \x7d"
    (link.put command.tree).shellText =
        .ok (some ("\x7b cat > f ; \x7d 0<<'EOF' 3<<'EOF' &&\n" ++ below)) ∧
      (Marker.readBodies ["EOF", "EOF"] below.toList).map Prod.fst = some ["y\n", " x\n"] := by
  intro command link below
  constructor
  · refine (link.shellText_put command).trans ?_
    exact congrArg (fun text => Except.ok (some text)) (by decide)
  · decide

end Link

end ShellTree
