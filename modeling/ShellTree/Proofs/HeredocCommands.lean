import ShellTree.Proofs.Outcome
import ShellTree.Proofs.PipelinesAndJobs
import ShellTree.Proofs.TextAfterMarker

/-!
# Commands with heredocs

Redirections with heredocs among them are on a simple command, or on a script.
Either way the text of the command ends in the marker of a heredoc on a line of
its own.  A simple command also prints without its heredocs, and then the
bodies, which are printed by themselves, end in a marker.
-/

namespace ShellTree

/--
The text of a heredoc below its line: whole lines, and on a line of its own the
marker, which starts with a plain character.
-/
structure Document where
  content : String
  marker : String
  whole : content.toList.getLast? = some '\n'
  clean : '\n' ∉ marker.toList
  plain : Marker.startsPlain marker.toList = true

/-- What is printed for a heredoc below its line. -/
def Document.below (document : Document) : String :=
  document.content ++ document.marker ++ "\n"

/-- A text that ends with one of the documents. -/
def Terminated (documents : List Document) (text : String) : Prop :=
  ∃ document ∈ documents, ∃ before, text = before ++ document.below

namespace Terminated

variable {documents : List Document} {text : String}

theorem append (terminated : Terminated documents text) (before : String) :
    Terminated documents (before ++ text) := by
  obtain ⟨document, member, start, rfl⟩ := terminated
  exact ⟨document, member, before ++ start, String.append_assoc.symm⟩

/-- What hangs behind the last marker is what stands after it. -/
theorem afterLast_eq (terminated : Terminated documents text) {behind : String}
    (hanging : Hangs behind) (start : Marker.startsPlain behind.toList = false) :
    Marker.afterLast (documents.map fun document => document.marker.toList)
        (Marker.lines (text ++ behind).toList) =
      some (Marker.lines behind.toList) := by
  obtain ⟨document, member, before, rfl⟩ := terminated
  obtain ⟨lines, content⟩ := List.getLast?_eq_some_iff.mp document.whole
  have whole : (before ++ document.below ++ behind).toList =
      (before.toList ++ lines) ++ '\n' :: (document.marker.toList ++ '\n' :: behind.toList) := by
    simp [Document.below, content]
  -- a line that hangs is no marker, since all markers start with plain characters
  have absent : ∀ line ∈ Marker.lines behind.toList,
      line ∉ documents.map fun document => document.marker.toList := by
    intro line inside among
    obtain ⟨other, _, rfl⟩ := List.mem_map.mp among
    have odd := Marker.startsPlain_of_mem_lines hanging start inside
    exact Bool.false_ne_true (odd ▸ other.plain)
  rw [whole]
  exact Marker.afterLast_lines (List.mem_map_of_mem member) document.clean absent _

end Terminated

/-! ## Redirections -/

/-- Redirections that print, with a heredoc among them. -/
structure Redirs where
  kind : SeqKind
  items : List Datum
  line : String
  documents : List Document
  line_printed : redirectionLine false items = .ok line
  bodies_printed : bodyItems items = .ok (documents.map Document.below)
  nonempty : documents ≠ []

namespace Redirs

def tree (redirs : Redirs) : Datum :=
  .seq redirs.kind redirs.items

def markers (redirs : Redirs) : List (List Char) :=
  redirs.documents.map fun document => document.marker.toList

/-- The last body comes last, below the others. -/
theorem withBodies_concat (line : String) (bodies : List String) (last : String) :
    ∃ before, withBodies line (bodies ++ [last]) = before ++ last := by
  rw [withBodies, List.foldl_append, List.foldl_cons, List.foldl_nil]
  split
  · exact ⟨_, rfl⟩
  · exact ⟨_, rfl⟩

/-- The text of redirections ends with the last heredoc. -/
theorem render_tree (redirs : Redirs) :
    ∃ text, redirs.tree.renderRedirs false = .ok text ∧ Terminated redirs.documents text := by
  obtain ⟨others, last, same⟩ := (List.eq_nil_or_concat redirs.documents).resolve_left
    redirs.nonempty
  obtain ⟨before, below⟩ :=
    withBodies_concat redirs.line (others.map Document.below) last.below
  refine ⟨before ++ last.below, ?_, last, by simp [same], before, rfl⟩
  have bodies := redirs.bodies_printed
  rw [same, List.concat_eq_append, List.map_append, List.map_singleton] at bodies
  rw [tree, Datum.renderRedirs, redirs.line_printed, bodies, ← below]
  rfl

/-- Bodies are printed for the heredocs and for nothing else. -/
theorem tags_of_bodyItems {items : List Datum} {bodies : List String}
    (printed : bodyItems items = .ok bodies) :
    ∃ tags, items.mapM Datum.tag = .ok tags ∧ tags.contains .heredoc = !bodies.isEmpty := by
  induction items generalizing bodies with
  | nil =>
      cases printed
      exact ⟨[], rfl, rfl⟩
  | cons item rest ih =>
      rw [bodyItems] at printed
      obtain ⟨tag, known, printed⟩ := bind_eq_ok_iff.mp printed
      by_cases heredoc : tag = .heredoc
      · rw [if_pos (beq_iff_eq.mpr heredoc)] at printed
        obtain ⟨first, _, printed⟩ := bind_eq_ok_iff.mp printed
        obtain ⟨others, following, printed⟩ := bind_eq_ok_iff.mp printed
        obtain ⟨tags, named, _⟩ := ih following
        cases printed
        refine ⟨tag :: tags, ?_, by simp [heredoc]⟩
        rw [List.mapM_cons, known, named]
        rfl
      · rw [if_neg (by simpa using heredoc)] at printed
        obtain ⟨tags, named, holds⟩ := ih printed
        refine ⟨tag :: tags, ?_, ?_⟩
        · rw [List.mapM_cons, known, named]
          rfl
        · rw [List.contains_cons, holds, beq_eq_false_iff_ne.mpr (Ne.symm heredoc), Bool.false_or]

/-- Where the line prints, so do the headers by themselves, and the line without them. -/
theorem headers_of_redirectionLine {items : List Datum} {line : String}
    (printed : redirectionLine false items = .ok line) :
    (∃ headers, headerItems items = .ok headers) ∧
      ∃ bare, redirectionLine true items = .ok bare := by
  induction items generalizing line with
  | nil => exact ⟨⟨[], rfl⟩, "", rfl⟩
  | cons item rest ih =>
      rw [redirectionLine] at printed
      obtain ⟨tag, known, printed⟩ := bind_eq_ok_iff.mp printed
      by_cases heredoc : tag = .heredoc
      · rw [if_pos (beq_iff_eq.mpr heredoc), if_neg Bool.false_ne_true] at printed
        obtain ⟨header, shown, printed⟩ := bind_eq_ok_iff.mp printed
        obtain ⟨others, following, _⟩ := bind_eq_ok_iff.mp printed
        obtain ⟨⟨headers, named⟩, bare, omitted⟩ := ih following
        subst heredoc
        refine ⟨⟨header :: headers, ?_⟩, bare, ?_⟩
        · rw [headerItems, known, shown, named]
          rfl
        · rw [redirectionLine, known, omitted]
          rfl
      · rw [if_neg (by simpa using heredoc)] at printed
        obtain ⟨first, shown, printed⟩ := bind_eq_ok_iff.mp printed
        obtain ⟨others, following, _⟩ := bind_eq_ok_iff.mp printed
        obtain ⟨⟨headers, named⟩, bare, omitted⟩ := ih following
        have other : (tag == Tag.heredoc) = false := beq_eq_false_iff_ne.mpr heredoc
        refine ⟨⟨headers, ?_⟩, " " ++ first ++ bare, ?_⟩
        · simp only [headerItems, known, named, bind, Except.bind, other, Bool.false_eq_true,
            if_false]
        · rw [redirectionLine, known]
          change (if (tag == Tag.heredoc) = true then _ else _) = _
          rw [if_neg (by simp [other]), shown, omitted]
          rfl

end Redirs

/-! ## Commands -/

/-- A simple command with heredocs, or a script that has them as redirections. -/
inductive Host where
  | simple (line : Datum) (assignments : List Datum) (assigned : List String)
      (arguments : Datum) (words : List String)
      (assigned_printed : renderItems assignments = .ok (assigned.map some))
      (words_printed : arguments.renderWords = .ok words) (redirs : Redirs)
  | redirected (line : Datum) (script : Script) (redirs : Redirs)

namespace Host

def redirs : Host → Redirs
  | .simple _ _ _ _ _ _ _ redirs => redirs
  | .redirected _ _ redirs => redirs

def tree : Host → Datum
  | .simple line assignments _ arguments _ _ _ redirs =>
      .command (.simple line (.list assignments) arguments redirs.tree)
  | .redirected line script redirs => .command (.redirected line script.tree redirs.tree)

/-- Does a simple command hold the heredocs itself? -/
def isSimple : Host → Bool
  | .simple .. => true
  | .redirected .. => false

/-- Heredocs are looked for on a simple command only. -/
theorem defersHeredocs_tree (host : Host) : host.tree.defersHeredocs = .ok host.isSimple := by
  cases host with
  | simple line assignments assigned arguments words assigned_printed words_printed redirs =>
      obtain ⟨tags, named, holds⟩ := Redirs.tags_of_bodyItems redirs.bodies_printed
      have present : redirs.documents.isEmpty = false := by simpa using redirs.nonempty
      rw [List.isEmpty_map, present] at holds
      simp only [tree, Datum.defersHeredocs, Redirs.tree, Datum.holdsHeredoc, Datum.items]
      simp only [bind, Except.bind, named, holds]
      rfl
  | redirected line script redirs => rfl

/-- The text of a command ends with the last heredoc. -/
theorem render_tree (host : Host) :
    ∃ text, host.tree.render .plain = .ok (some text) ∧
      Terminated host.redirs.documents text := by
  obtain ⟨below, printed, terminated⟩ := host.redirs.render_tree
  cases host with
  | simple line assignments assigned arguments words assigned_printed words_printed redirs =>
      have rendered := render_simple line assigned_printed words_printed
        (show Style.plain.heredocsOmitted = .ok false from rfl) printed
      exact ⟨_, rendered, terminated.append _⟩
  | redirected line script redirs =>
      have inner := script.render_tree false
      rw [Script.style] at inner
      refine ⟨script.text false ++ below, ?_, terminated.append _⟩
      change redirs.tree.renderRedirs false = .ok below at printed
      simp only [tree, Datum.render, Command.render, inner, printed]
      rfl

/--
A simple command prints without its heredocs, and their headers and bodies by
themselves.  The bodies come in reverse, so that the first one ends the text.
-/
theorem render_deferred {host : Host} (simple : host.isSimple = true) :
    ∃ start headers bodies, host.tree.render (.heredocs true) = .ok (some start) ∧
      host.tree.deferredHeaders = .ok headers ∧ host.tree.deferredBodies = .ok bodies ∧
      Terminated host.redirs.documents (String.intercalate " " bodies.reverse) := by
  cases host with
  | redirected line script redirs => cases simple
  | simple line assignments assigned arguments words assigned_printed words_printed redirs =>
      obtain ⟨⟨headers, shown⟩, bare, omitted⟩ :=
        Redirs.headers_of_redirectionLine redirs.line_printed
      have printed : redirs.tree.renderRedirs true = .ok bare := by
        rw [Redirs.tree, Datum.renderRedirs, omitted]
        rfl
      have rendered := render_simple line assigned_printed words_printed
        (show (Style.heredocs true).heredocsOmitted = .ok true from rfl) printed
      refine ⟨_, headers, _, rendered, shown, redirs.bodies_printed, ?_⟩
      obtain ⟨first, others, same⟩ := List.exists_cons_of_ne_nil redirs.nonempty
      change Terminated redirs.documents _
      rw [same, List.map_cons, List.reverse_cons]
      refine ⟨first, List.mem_cons_self, ?_⟩
      -- a blank stands between two bodies, and before the first line of the last one
      by_cases single : (others.map Document.below).reverse = []
      · rw [single]
        exact ⟨"", by simp⟩
      · rw [String.intercalate_append_of_ne_nil single (List.cons_ne_nil _ _),
          String.intercalate_singleton]
        exact ⟨_, rfl⟩

end Host

end ShellTree
