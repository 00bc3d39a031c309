import ShellTree.Proofs.AmpersandSeams
import ShellTree.Proofs.TextMargins

/-!
# Jobs before semicolons

A group whose body is a job is closed without a semicolon, because the shell
takes none behind an ampersand.  The other constructs that close a command with a
semicolon do not look at how it ends, and a group looks at its body only, not at
what stands at the end of it.  The text of a tree holds a clash just where a
construct in it closes a command that ends with an ampersand, or where an
ampersand stands before a command that starts with a semicolon.
-/

namespace ShellTree

open Seam

/-! ## Commands at a seam -/

/-- Does a command print as blanks only? -/
def Datum.printsBlank (datum : Datum) (style : Style) : Bool :=
  match datum.render style with
  | .ok shown => (inserted shown).toList.all isGap
  | .error _ => false

/-- There are redirections, and they end with an ampersand. -/
def Datum.LeaveOpen (redirs : Datum) : Prop :=
  redirs.truthy = true ∧ ∃ text, redirs.renderRedirs false = .ok text ∧ scan .clear text = .waiting

/-- The text of a command ends with an ampersand of its own, or of its redirections. -/
def Command.LeavesOpen : Command → Prop
  | .simple _ _ _ redirs => redirs.LeaveOpen
  | .subshell _ body redirs => body.isTag .semi = true ∧ redirs.LeaveOpen
  | .and _ right noBraces => noBraces.truthy = true ∧ right.printsBlank .plain = true
  | .redirected _ _ redirs => redirs.LeaveOpen
  | .background _ _ _ after _ =>
      after.truthy = false ∨ after.behind.truthy = true ∨
        after.isTag .background = false ∧ after.printsBlank .plain = true
  | _ => False

/-- The text of a datum ends with an ampersand. -/
def EndsOpen : Style → Datum → Prop :=
  Reaches Command.hindmost Command.LeavesOpen fun text => scan .clear text = .waiting

/-- The command that the text of a command starts with, unless that is blank. -/
def Command.forefront (style : Style) : Command → Option (Datum × Style)
  | .background line node redirs after noBraces =>
      if after.isTag .background && node.printsBlank .plain && !redirs.truthy then
        some (after, .plain)
      else (Command.background line node redirs after noBraces).foremost style
  | value => value.foremost style

/-- The text of a command starts with a semicolon of its own. -/
def Command.ShutsItself : Command → Prop
  | .semi left _ semicolon => semicolon.truthy = true ∧ left.printsBlank .plain = true
  | _ => False

/-- The text of a datum starts with a semicolon. -/
def StartsShut : Style → Datum → Prop :=
  Reaches Command.forefront Command.ShutsItself fun text => scan .waiting text = .clashed

/-- A command inside a construct ends with an ampersand, and a semicolon of the construct follows;
or an ampersand of the construct stands before a command that starts with a semicolon. -/
def Command.ClashesItself (style : Style) : Command → Prop
  | .and left right noBraces =>
      if noBraces.truthy then StartsShut .plain right
      else EndsOpen .plain left ∨ EndsOpen .plain right
  | .or left right noBraces =>
      noBraces.truthy = false ∧ (EndsOpen .plain left ∨ EndsOpen .plain right)
  | .semi left right semicolon =>
      if semicolon.truthy then EndsOpen .plain left
      else style ≠ .braces true ∧ (EndsOpen .plain left ∨ EndsOpen .plain right)
  | .not body noBraces => noBraces.truthy = false ∧ EndsOpen .plain body
  | .background _ node redirs after _ =>
      after.truthy = true ∧ StartsShut .plain after ∧
        (after.isTag .background = true →
          if redirs.truthy then redirs.LeaveOpen else EndsOpen .plain node)
  | .whileLoop test body =>
      EndsOpen test.tested.2.bareStyle test.tested.2 ∨ EndsOpen body.bareStyle body
  | .ifElse test thenBranch elseBranch =>
      EndsOpen test.bareStyle test ∨ EndsOpen thenBranch.bareStyle thenBranch ∨
        elseBranch.truthy = true ∧ elseBranch.isEmptyCommand ≠ .ok true ∧
          elseBranch.isTag .ifElse = false ∧ EndsOpen elseBranch.bareStyle elseBranch
  | .case _ _ cases =>
      ∃ fields body, .dict fields ∈ cases.clauses ∧ fallsThrough fields = true ∧
        .inner body body.bareStyle ∈ clauseCommand fields ∧ EndsOpen body.bareStyle body
  | .arithFor _ _ _ _ action => EndsOpen action.bareStyle action
  | .group body =>
      style ≠ .braces true ∧ body.closesItself = false ∧ EndsOpen body.bareStyle body
  | _ => False

/-! ## Trees without stray ampersands -/

/-- One command is printed inside another, in the style that it is asked for. -/
inductive Printed : Style → Command → Style → Command → Prop where
  | self {style : Style} {value : Command} : Printed style value style value
  | inside {style asked last : Style} {value inner held : Command} :
      .inner (.command inner) asked ∈ value.pieces style → Printed asked inner last held →
        Printed style value last held

/-- A redirection that is no heredoc. -/
def Datum.IsAttached (item : Datum) : Prop :=
  ∃ redir, item = .redir redir ∧ redir.tag ≠ .heredoc

/-- Words hold no ampersands and semicolons, redirections are no heredocs and hold no semicolons,
and commands are commands. -/
def Piece.Tame : Piece → Prop
  | .fixed _ => True
  | .inner datum _ => ∃ value, datum = .command value
  | .redirs omitted datum =>
      (∀ items, datum.items = .ok items → ∀ item ∈ items, item.IsAttached) ∧
        ∀ text, datum.renderRedirs omitted = .ok text → ';' ∉ text.toList
  | .headers _ => False
  | .bodies _ => False
  | piece => ∀ text, piece.Spells text → '&' ∉ text.toList ∧ ';' ∉ text.toList

/-- A job is printed without braces. -/
def Command.Unbraced : Command → Prop
  | .background _ _ _ _ noBraces => noBraces.truthy = true
  | _ => True

/-- All that is printed in a command is tame. -/
def Tame (style : Style) (value : Command) : Prop :=
  ∀ last held, Printed style value last held →
    held.Unbraced ∧ ∀ piece ∈ held.pieces last, piece.Tame

/-- Somewhere in a command there is a clash. -/
def ClashesInside (style : Style) (value : Command) : Prop :=
  ∃ last held, Printed style value last held ∧ held.ClashesItself last

/-! ## Redirections show -/

/-- A text, if it is there, is more than blanks. -/
def Visible (shown : Option String) : Prop :=
  ∀ text, shown = some text → text.toList.all isGap = false

theorem visible_some {text : String} (visible : text.toList.all isGap = false) :
    Visible (some text) := by
  rintro other same
  cases same
  exact visible

theorem visible_none : Visible none := by
  rintro text same
  cases same

/-- A redirection shows its operator. -/
theorem always_visible {redir : Redirection} (other : redir.tag ≠ .heredoc) :
    Always redir.render Visible := by
  cases redir with
  | heredoc => exact absurd rfl other
  | file kind fd arg =>
      unfold Redirection.render
      refine .skip fun out => .skip fun into => ?_
      split
      all_goals first
        | exact .fault _
        | exact .skip fun target => .pure (visible_some (by simp [isGap]))
  | single kind fd =>
      unfold Redirection.render
      repeat' refine .ite (fun _ => ?_) fun _ => ?_
      · exact .skip fun descriptor => .pure (visible_some (by simp [isGap]))
      · exact .skip fun target => .pure (visible_some (by simp [isGap]))
      · exact .skip fun target => .pure (visible_some (by simp [isGap]))
      · exact .fault _
  | dup kind fd arg move =>
      unfold Redirection.render
      have finish {shown : Option String} (visible : Visible shown) :
          Always (if move.truthy then (required shown >>= fun moved => pure (some (moved ++ "-")))
            else pure shown) Visible := by
        refine .ite (fun _ => .bind .self fun moved present => .pure ?_) fun _ => .pure visible
        rw [required_eq_ok_iff] at present
        exact visible_some (by simp [visible moved present])
      -- A target that is a word is written like one that is a number.
      have target (result : Except Fault String) : Always
          (if kind.isText "ToFD" then do
            let out ← fd.renderFd (.int 1)
            let word ← result
            let shown ← pure (some (out ++ ">&" ++ word))
            if move.truthy then do
              let moved ← required shown
              pure (some (moved ++ "-"))
            else pure shown
          else if kind.isText "FromFD" then do
            let into ← fd.renderFd (.int 0)
            let word ← result
            let shown ← pure (some (into ++ "<&" ++ word))
            if move.truthy then do
              let moved ← required shown
              pure (some (moved ++ "-"))
            else pure shown
          else do
            let shown ← pure none
            if move.truthy then do
              let moved ← required shown
              pure (some (moved ++ "-"))
            else pure shown) Visible := by
        refine .ite (fun _ => ?_) fun _ => .ite (fun _ => ?_) fun _ => finish visible_none
        · exact .skip fun out => .skip fun word => finish (visible_some (by simp [isGap]))
        · exact .skip fun into => .skip fun word => finish (visible_some (by simp [isGap]))
      dsimp only
      split
      · exact .fault _
      · refine .ite (fun _ => .fault _) fun _ => .ite (fun _ => ?_) fun _ => .fault _
        refine .ite (fun _ => ?_) fun _ => .ite (fun _ => ?_) fun _ => finish visible_none
        · exact .skip fun _ => .fault _
        · exact .skip fun _ => .fault _
      · refine .ite (fun _ => .skip fun _ => ?_) fun _ => .ite (fun _ => ?_) fun _ => .fault _
        · exact target _
        · exact target _
      · exact .ite (fun _ => .fault _) fun _ => .fault _
      · exact .fault _
      · exact .fault _

/-- Redirections that are there show something. -/
theorem all_isGap_renderRedirs {redirs : Datum} {text : String} (present : redirs.truthy = true)
    (attached : ∀ items, redirs.items = .ok items → ∀ item ∈ items, item.IsAttached)
    (rendered : redirs.renderRedirs false = .ok text) : text.toList.all isGap = false := by
  cases redirs with
  | seq kind items =>
      cases items with
      | nil => cases present
      | cons first rest =>
          obtain ⟨redir, rfl, other⟩ := attached _ rfl first List.mem_cons_self
          unfold Datum.renderRedirs at rendered
          obtain ⟨line, listed, rendered⟩ := bind_eq_ok_iff.mp rendered
          obtain ⟨bodies, below, rendered⟩ := bind_eq_ok_iff.mp rendered
          cases rendered
          obtain ⟨behind, same⟩ := exists_withBodies line bodies
          have first : line.toList.all isGap = false := by
            rw [redirectionLine] at listed
            obtain ⟨tag, tagged, listed⟩ := bind_eq_ok_iff.mp listed
            cases tagged
            rw [if_neg (by simpa using other)] at listed
            simp only [bind_eq_ok_iff, required_eq_ok_iff, exists_eq_right] at listed
            obtain ⟨start, shown, others, _, listed⟩ := listed
            cases listed
            have visible := always_visible other _ shown start rfl
            simp [visible]
          rw [same, String.toList_append, List.all_append, first]
          rfl
  | _ =>
      unfold Datum.renderRedirs at rendered
      obtain ⟨entries, same, rendered⟩ := bind_eq_ok_iff.mp rendered
      split at rendered
      next absent => cases present.symm.trans (truthy_of_entries same absent)
      next => cases rendered

/-! ## Edges of pieces -/

/-- Whatever pieces print as has these edges. -/
def Edged (pieces : List Piece) (edges : Edges) : Prop :=
  ∀ text, Spelled pieces text → HasEdges text edges

/-- Pieces are taken in groups, each with its edges. -/
theorem settles_of_spelled {groups : List (List Piece)} {edges : List Edges} {text : String}
    (each : List.Forall₂ Edged groups edges) (spelled : Spelled groups.flatten text) :
    Settles text (joinAll edges) := by
  have texts : ∃ texts, text = String.join texts ∧ List.Forall₂ HasEdges texts edges := by
    induction each generalizing text with
    | nil =>
        obtain ⟨texts, none, rfl⟩ := spelled
        cases none
        exact ⟨[], rfl, .nil⟩
    | cons first _ ih =>
        obtain ⟨start, rest, before, behind, rfl⟩ := spelled.append_cases
        obtain ⟨texts, rfl, edged⟩ := ih behind
        exact ⟨start :: texts, String.join_cons.symm, .cons (first start before) edged⟩
  obtain ⟨texts, rfl, edged⟩ := texts
  exact settles_join edged

theorem edged_nil : Edged [] .absent := by
  rintro text ⟨texts, none, rfl⟩
  cases none
  exact hasEdges_of_fit rfl

theorem edged_fixed {own : String} (edges : Edges) (fits : edges.fit own = true) :
    Edged [.fixed own] edges := by
  intro text spelled
  obtain rfl : text = own := spelled.spells_of_one
  exact hasEdges_of_fit fits

theorem exists_edged_word {piece : Piece}
    (tame : ∀ text, piece.Spells text → '&' ∉ text.toList ∧ ';' ∉ text.toList) :
    ∃ blank, Edged [piece] ⟨blank, false, false⟩ := by
  by_cases some : ∃ text, piece.Spells text
  · obtain ⟨text, spells⟩ := some
    obtain ⟨noAmp, quiet⟩ := tame text spells
    refine ⟨text.toList.all isGap, fun other spelled => ?_⟩
    rw [← spells.eq spelled.spells_of_one]
    exact hasEdges_of_plain noAmp quiet
  · exact ⟨false, fun text spelled => absurd ⟨text, spelled.spells_of_one⟩ some⟩

theorem exists_edged_redirs (redirs : Datum)
    (tame : ∀ piece ∈ redirPieces false redirs, piece.Tame) :
    ∃ opened, Edged (redirPieces false redirs) ⟨!redirs.truthy, opened, false⟩ ∧
      (opened = true ↔ redirs.LeaveOpen) := by
  by_cases present : redirs.truthy = true
  · rw [redirPieces, if_pos present] at tame ⊢
    obtain ⟨attached, quiet⟩ := tame _ List.mem_cons_self
    by_cases some : ∃ text, redirs.renderRedirs false = .ok text
    · obtain ⟨text, rendered⟩ := some
      refine ⟨scan .clear text == .waiting, fun other again => ?_, ?_⟩
      · cases rendered.symm.trans again.spells_of_one
        have edged := hasEdges_of_quiet (quiet text rendered)
        rw [all_isGap_renderRedirs present attached rendered] at edged
        rwa [present]
      · rw [beq_iff_eq]
        constructor
        · exact fun ends => ⟨present, text, rendered, ends⟩
        · rintro ⟨_, other, again, ends⟩
          cases rendered.symm.trans again
          exact ends
    · refine ⟨false, fun text spelled => absurd ⟨text, spelled.spells_of_one⟩ some, ?_⟩
      simp [Datum.LeaveOpen, not_exists.mp some]
  · rw [redirPieces, if_neg present]
    refine ⟨false, ?_, by simp [Datum.LeaveOpen, present]⟩
    rw [eq_false_of_ne_true present]
    exact edged_nil

/-- The edges of a command are told by the chains of commands in it. -/
structure Known (style : Style) (datum : Datum) (edges : Edges) : Prop where
  edged : Edged [.inner datum style] edges
  opened : edges.opened = true ↔ EndsOpen style datum
  shut : edges.shut = true ↔ StartsShut style datum

theorem Spelled.exists_spells {pieces : List Piece} {text : String}
    (spelled : Spelled pieces text) (piece : Piece) (inside : piece ∈ pieces) :
    ∃ part, piece.Spells part ∧ part.toList ⊆ text.toList := by
  obtain ⟨before, behind, rfl⟩ := List.append_of_mem inside
  obtain ⟨start, rest, _, following, rfl⟩ := spelled.append_cases
  obtain ⟨part, others, spells, _, rfl⟩ := following.cons_cases
  exact ⟨part, spells, by simp⟩

theorem Known.printsBlank_eq {style : Style} {datum : Datum} {edges : Edges} {text : String}
    (known : Known style datum edges) (spells : (Piece.inner datum style).Spells text) :
    datum.printsBlank style = edges.blank := by
  rw [← (known.edged text (.one spells)).blank]
  obtain ⟨shown, rendered, rfl⟩ := spells
  rw [Datum.printsBlank, rendered]

section Chains

variable {style asked : Style} {value : Command} {inner : Datum}

theorem endsOpen_iff :
    EndsOpen style (.command value) ↔ value.LeavesOpen ∨
      ∃ inner asked, value.hindmost style = some (inner, asked) ∧ EndsOpen asked inner :=
  reaches_command_iff

theorem startsShut_iff :
    StartsShut style (.command value) ↔ value.ShutsItself ∨
      ∃ inner asked, value.forefront style = some (inner, asked) ∧ StartsShut asked inner :=
  reaches_command_iff

theorem endsOpen_alone (last : value.hindmost style = none) :
    EndsOpen style (.command value) ↔ value.LeavesOpen := by
  simp [endsOpen_iff, last]

theorem endsOpen_linked (last : value.hindmost style = some (inner, asked)) :
    EndsOpen style (.command value) ↔ value.LeavesOpen ∨ EndsOpen asked inner := by
  simp [endsOpen_iff, last]

theorem not_endsOpen (last : value.hindmost style = none) (itself : ¬ value.LeavesOpen) :
    ¬ EndsOpen style (.command value) :=
  (endsOpen_alone last).not.mpr itself

theorem not_startsShut (first : value.forefront style = none) (itself : ¬ value.ShutsItself) :
    ¬ StartsShut style (.command value) := by
  simp [startsShut_iff, first, itself]

theorem startsShut_linked (first : value.forefront style = some (inner, asked)) :
    StartsShut style (.command value) ↔ value.ShutsItself ∨ StartsShut asked inner := by
  simp [startsShut_iff, first]

end Chains

/-! ## What a text tells about its command -/

/-- The edges of a text say of a command what stands in it. -/
inductive Faithful (style : Style) (value : Command) : Option Edges → Prop where
  | clash : value.ClashesItself style → Faithful style value none
  | edges {edges : Edges} : ¬ value.ClashesItself style →
      (edges.opened = true ↔ EndsOpen style (.command value)) →
      (edges.shut = true ↔ StartsShut style (.command value)) →
      Faithful style value (some edges)

/-- A text clashes where its command does, and else has the edges that its command tells. -/
def Told (style : Style) (value : Command) (text : String) : Prop :=
  ∃ result, Settles text result ∧ Faithful style value result

/-- The text of a tame command whose inner commands are without a clash. -/
structure Composed (style : Style) (value : Command) (text : String) : Prop where
  usual : style = .plain ∨ style = .braces true
  unbraced : value.Unbraced
  tame : ∀ piece ∈ value.pieces style, piece.Tame
  known : ∀ datum asked, .inner datum asked ∈ value.pieces style →
    ∃ edges, Known asked datum edges
  spelled : Spelled (value.pieces style) text

section Constructs

variable {style : Style} {text : String}

/-- A construct that writes something of its own at both ends. -/
theorem told_of_enclosed {value : Command} (settles : Settles text (some .solid))
    (apart : ¬ value.ClashesItself style) (ends : ¬ value.LeavesOpen)
    (starts : ¬ value.ShutsItself) (last : value.hindmost style = none)
    (first : value.forefront style = none) : Told style value text := by
  refine ⟨_, settles, .edges apart ?_ ?_⟩
  · exact iff_of_false Bool.false_ne_true (not_endsOpen last ends)
  · exact iff_of_false Bool.false_ne_true (not_startsShut first starts)

/-- A row starts as its first command does, and ends as its last one does. -/
theorem exists_edged_row (mark : String) (between : Edged [.fixed mark] .solid) (first : Datum)
    (rest : List Datum) (inner : ∀ item ∈ first :: rest, ∃ edges, Known .plain item edges) :
    ∃ edges, Edged (piecesBetween mark (first :: rest)) edges ∧
      (edges.opened = true ↔ EndsOpen .plain (rest.getLastD first)) ∧
      (edges.shut = true ↔ StartsShut .plain first) := by
  induction rest generalizing first with
  | nil =>
      obtain ⟨edges, known⟩ := inner first List.mem_cons_self
      exact ⟨edges, known.edged, known.opened, known.shut⟩
  | cons next rest ih =>
      obtain ⟨edges, known⟩ := inner first List.mem_cons_self
      obtain ⟨others, row, opened, _⟩ :=
        ih next fun item inside => inner item (List.mem_cons_of_mem first inside)
      refine ⟨⟨false, others.opened, edges.shut⟩, fun text spelled => ?_, ?_, known.shut⟩
      · have settles := settles_of_spelled (.cons known.edged (.cons between (.cons row .nil)))
          (by simpa [piecesBetween] using spelled)
        simpa [Settles] using settles
      · rw [List.getLastD_cons]
        exact opened

theorem told_pipe {behind items : Datum} (composed : Composed style (.pipe behind items) text) :
    Told style (.pipe behind items) text := by
  obtain ⟨_, _, tame, inner, spelled⟩ := composed
  have empty (none : pipePieces behind.truthy items = [])
      (last : pipeHindmost behind.truthy items = .none)
      (first : pipeForemost behind.truthy items = .none) :
      Told style (.pipe behind items) text := by
    rw [Command.pieces, none] at spelled
    refine ⟨some .absent, edged_nil text spelled, .edges id ?_ ?_⟩
    · exact iff_of_false Bool.false_ne_true (not_endsOpen last id)
    · exact iff_of_false Bool.false_ne_true (not_startsShut first id)
  cases items with
  | seq kind items =>
      cases items with
      | nil => exact empty rfl rfl rfl
      | cons first rest =>
          rw [Command.pieces, pipePieces] at spelled tame inner
          have ready : ¬ first.waits = true := by
            intro wait
            rw [if_pos wait] at tame
            exact tame (.headers first) (by simp)
          rw [if_neg ready] at spelled tame inner
          split at spelled
          next job =>
              rw [if_pos job] at inner
              obtain ⟨edges, row, _⟩ := exists_edged_row " | " (edged_fixed .solid rfl) first rest
                fun item held => inner item .plain (by simpa [mem_piecesBetween] using held)
              have settles := settles_of_spelled (.cons (edged_fixed .solid rfl) (.cons row
                (.cons (edged_fixed .solid rfl) .nil))) (by simpa using spelled)
              refine told_of_enclosed (by simpa using settles) id id id ?_ ?_
              · simp [Command.hindmost, pipeHindmost, job]
              · simp [Command.forefront, Command.foremost, pipeForemost, ready, job]
          next single =>
              rw [if_neg single] at inner
              obtain ⟨edges, row, opened, shut⟩ := exists_edged_row " | " (edged_fixed .solid rfl)
                first rest fun item held => inner item .plain (mem_piecesBetween.mpr ⟨held, rfl⟩)
              have last : (Command.pipe behind (.seq kind (first :: rest))).hindmost style =
                  some (rest.getLastD first, .plain) := by
                simp [Command.hindmost, pipeHindmost, ready, single]
              have foremost : (Command.pipe behind (.seq kind (first :: rest))).forefront style =
                  some (first, .plain) := by
                simp [Command.forefront, Command.foremost, pipeForemost, ready, single]
              refine ⟨some edges, row text spelled, .edges id ?_ ?_⟩
              · simpa [endsOpen_linked last, Command.LeavesOpen] using opened
              · simpa [startsShut_linked foremost, Command.ShutsItself] using shut
  | _ => exact empty rfl rfl rfl

theorem told_simple {line assignments arguments redirs : Datum}
    (composed : Composed style (.simple line assignments arguments redirs) text) :
    Told style (.simple line assignments arguments redirs) text := by
  obtain ⟨usual, _, tame, _, spelled⟩ := composed
  have kept : decide (style = .heredocs true) = false := by
    rcases usual with rfl | rfl <;> rfl
  rw [Command.pieces, kept] at spelled tame
  obtain ⟨blank, called⟩ := exists_edged_word (tame (.call assignments arguments) (by simp))
  obtain ⟨opened, listed, ends⟩ := exists_edged_redirs redirs fun piece inside =>
    tame piece (List.mem_cons_of_mem _ inside)
  have settles := settles_of_spelled (.cons called (.cons listed .nil)) (by simpa using spelled)
  refine ⟨some ⟨blank && !redirs.truthy, opened, false⟩, by simpa using settles, .edges id ?_ ?_⟩
  · rw [endsOpen_alone rfl]
    exact ends
  · exact iff_of_false Bool.false_ne_true (not_startsShut rfl id)

theorem told_subshell {line body redirs : Datum}
    (composed : Composed style (.subshell line body redirs) text) :
    Told style (.subshell line body redirs) text := by
  obtain ⟨_, _, tame, inner, spelled⟩ := composed
  rw [Command.pieces] at spelled tame inner
  split at spelled
  next sequence =>
      rw [if_pos sequence] at tame inner
      obtain ⟨edges, known⟩ := inner body (.braces true) (by simp)
      obtain ⟨opened, listed, ends⟩ := exists_edged_redirs redirs fun piece inside =>
        tame piece (by simp [inside])
      have settles := settles_of_spelled (.cons (edged_fixed .solid rfl) (.cons known.edged
        (.cons (edged_fixed .solid rfl) (.cons listed .nil)))) (by simpa using spelled)
      refine ⟨some ⟨false, opened, false⟩, by simpa using settles, .edges id ?_ ?_⟩
      · rw [endsOpen_alone rfl]
        simpa [Command.LeavesOpen, sequence] using ends
      · exact iff_of_false Bool.false_ne_true (not_startsShut rfl id)
  next other =>
      rw [if_neg other] at tame inner
      obtain ⟨edges, known⟩ := inner body .plain (by simp)
      obtain ⟨opened, listed, _⟩ := exists_edged_redirs redirs fun piece inside =>
        tame piece (by simp [inside])
      have settles := settles_of_spelled (.cons (edged_fixed .solid rfl) (.cons known.edged
        (.cons listed (.cons (edged_fixed .solid rfl) .nil)))) (by simpa using spelled)
      refine told_of_enclosed (by simpa using settles) id ?_ id rfl rfl
      simp [Command.LeavesOpen, other]

/-- Two commands in braces that are closed with semicolons. -/
theorem told_of_braces {value : Command} (left right : Datum) (mark : String)
    (composed : Composed style value text)
    (same : value.pieces style = [.fixed "\x7b ", .inner left .plain, .fixed mark,
      .inner right .plain, .fixed " ; \x7d"])
    (closes : Edged [.fixed mark] .closing)
    (clashes : value.ClashesItself style ↔ EndsOpen .plain left ∨ EndsOpen .plain right)
    (ends : ¬ value.LeavesOpen) (starts : ¬ value.ShutsItself)
    (last : value.hindmost style = none) (first : value.forefront style = none) :
    Told style value text := by
  obtain ⟨_, _, _, inner, spelled⟩ := composed
  rw [same] at inner spelled
  obtain ⟨⟨_, opened, _⟩, before⟩ := inner left .plain (by simp)
  obtain ⟨⟨_, opened', _⟩, behind⟩ := inner right .plain (by simp)
  have settles := settles_of_spelled (.cons (edged_fixed .solid rfl) (.cons before.edged
    (.cons closes (.cons behind.edged (.cons (edged_fixed .closing rfl) .nil))))) spelled
  cases opened' with
  | true =>
      refine ⟨none, by simpa using settles, .clash ?_⟩
      exact clashes.mpr (.inr (behind.opened.mp rfl))
  | false =>
      cases opened with
      | true =>
          refine ⟨none, by simpa using settles, .clash ?_⟩
          exact clashes.mpr (.inl (before.opened.mp rfl))
      | false =>
          refine told_of_enclosed (by simpa using settles) ?_ ends starts last first
          simp [clashes, ← before.opened, ← behind.opened]

/-- Two commands with a mark between them. -/
theorem told_of_joined {value : Command} {left right : Datum} {asked asked' : Style}
    (mark : String) (opens closes : Bool) (composed : Composed style value text)
    (same : value.pieces style = [.inner left asked, .fixed mark, .inner right asked'])
    (between : Edged [.fixed mark] ⟨false, opens, closes⟩)
    (clashes : value.ClashesItself style ↔
      closes = true ∧ EndsOpen asked left ∨ opens = true ∧ StartsShut asked' right)
    (ends : value.LeavesOpen ↔ opens = true ∧ right.printsBlank asked' = true)
    (starts : value.ShutsItself ↔ closes = true ∧ left.printsBlank asked = true)
    (last : value.hindmost style = some (right, asked'))
    (first : value.forefront style = some (left, asked)) : Told style value text := by
  obtain ⟨_, _, _, inner, spelled⟩ := composed
  rw [same] at inner spelled
  obtain ⟨edges, before⟩ := inner left asked (by simp)
  obtain ⟨edges', behind⟩ := inner right asked' (by simp)
  obtain ⟨start, begins, _⟩ := spelled.exists_spells (.inner left asked) (by simp)
  obtain ⟨part, spells, _⟩ := spelled.exists_spells (.inner right asked') (by simp)
  have settles := settles_of_spelled (.cons before.edged (.cons between (.cons behind.edged .nil)))
    spelled
  rw [joinAll_between] at settles
  have clash : (closes && edges.opened || opens && edges'.shut) = true ↔
      value.ClashesItself style := by
    simp [clashes, before.opened, behind.shut]
  split at settles
  next holds => exact ⟨none, settles, .clash (clash.mp holds)⟩
  next apart =>
      refine ⟨_, settles, .edges (clash.not.mp apart) ?_ ?_⟩
      · simp [endsOpen_linked last, ends, behind.printsBlank_eq spells, behind.opened]
      · simp [startsShut_linked first, starts, before.printsBlank_eq begins, before.shut]

theorem told_and {left right noBraces : Datum}
    (composed : Composed style (.and left right noBraces) text) :
    Told style (.and left right noBraces) text := by
  have ready : ¬ left.waits = true := by
    intro wait
    have tame := composed.tame
    rw [Command.pieces, if_pos wait] at tame
    by_cases omitted : noBraces.truthy = true
    · rw [if_pos omitted] at tame
      exact tame (.headers left) (by simp)
    · rw [if_neg omitted] at tame
      exact tame (.headers left) (by simp)
  by_cases omitted : noBraces.truthy = true
  · have same : (Command.and left right noBraces).pieces style =
        [.inner left .plain, .fixed " && ", .inner right .plain] := by
      rw [Command.pieces, if_neg ready, if_pos omitted]
    refine told_of_joined " && " true false composed same (edged_fixed .opening rfl) ?_ ?_ ?_
      (if_pos omitted) ?_
    · simp [Command.ClashesItself, omitted]
    · simp [Command.LeavesOpen, omitted]
    · simp [Command.ShutsItself]
    · simp [Command.forefront, Command.foremost, omitted, ready]
  · refine told_of_braces left right " ; \x7d && \x7b " composed ?_ (edged_fixed .closing rfl)
      ?_ ?_ id (if_neg omitted) (if_neg omitted)
    · rw [Command.pieces, if_neg ready, if_neg omitted]
    · simp [Command.ClashesItself, omitted]
    · simp [Command.LeavesOpen, omitted]

theorem told_or {left right noBraces : Datum}
    (composed : Composed style (.or left right noBraces) text) :
    Told style (.or left right noBraces) text := by
  by_cases omitted : noBraces.truthy = true
  · refine told_of_joined " || " false false composed (if_pos omitted) (edged_fixed .solid rfl)
      ?_ ?_ ?_ (if_pos omitted) (if_pos omitted)
    · simp [Command.ClashesItself, omitted]
    · simp [Command.LeavesOpen]
    · simp [Command.ShutsItself]
  · refine told_of_braces left right " ; \x7d || \x7b " composed (if_neg omitted)
      (edged_fixed .closing rfl) ?_ id id (if_neg omitted) (if_neg omitted)
    simp [Command.ClashesItself, omitted]

theorem told_semi {left right semicolon : Datum}
    (composed : Composed style (.semi left right semicolon) text) :
    Told style (.semi left right semicolon) text := by
  by_cases line : semicolon.truthy = true
  · refine told_of_joined " ; " false true composed (if_pos line) (edged_fixed .closing rfl)
      ?_ ?_ ?_ (if_pos line) (if_pos line)
    · simp [Command.ClashesItself, line]
    · simp [Command.LeavesOpen]
    · simp [Command.ShutsItself, line]
  · by_cases bare : style = .braces true
    · have same : (Command.semi left right semicolon).pieces style =
          [.inner left left.bareStyle, .fixed sequenceBreak, .inner right right.bareStyle] := by
        rw [Command.pieces, if_neg line, if_pos bare]
      refine told_of_joined sequenceBreak false false composed same (edged_fixed .solid rfl)
        ?_ ?_ ?_ ?_ ?_
      · simp [Command.ClashesItself, line, bare]
      · simp [Command.LeavesOpen]
      · simp [Command.ShutsItself, line]
      · simp [Command.hindmost, line, bare]
      · simp [Command.forefront, Command.foremost, line, bare]
    · refine told_of_braces left right " ; \x7d\n\x7b " composed ?_ (edged_fixed .closing rfl)
        ?_ id ?_ ?_ ?_
      · rw [Command.pieces, if_neg line, if_neg bare]
      · simp [Command.ClashesItself, line, bare]
      · simp [Command.ShutsItself, line]
      · simp [Command.hindmost, line, bare]
      · simp [Command.forefront, Command.foremost, line, bare]

/-- A command behind something else. -/
theorem told_of_leading {value : Command} {body : Datum} {asked : Style} {start : List Piece}
    (composed : Composed style value text)
    (same : value.pieces style = start ++ [.inner body asked]) (begins : Edged start .solid)
    (apart : ¬ value.ClashesItself style) (ends : ¬ value.LeavesOpen)
    (starts : ¬ value.ShutsItself) (last : value.hindmost style = some (body, asked))
    (first : value.forefront style = none) : Told style value text := by
  obtain ⟨_, _, _, inner, spelled⟩ := composed
  rw [same] at inner spelled
  obtain ⟨edges, known⟩ := inner body asked (by simp)
  have settles := settles_of_spelled (.cons begins (.cons known.edged .nil))
    (by simpa using spelled)
  refine ⟨some ⟨false, edges.opened, false⟩, by simpa using settles, .edges apart ?_ ?_⟩
  · simpa [endsOpen_linked last, ends] using known.opened
  · exact iff_of_false Bool.false_ne_true (not_startsShut first starts)

/-- A command that is closed with a semicolon. -/
theorem told_of_closed {value : Command} {body : Datum} {asked : Style} {start : List Piece}
    (mark : String) (composed : Composed style value text)
    (same : value.pieces style = start ++ [.inner body asked, .fixed mark])
    (begins : Edged start .solid) (closes : Edged [.fixed mark] .closing)
    (clashes : value.ClashesItself style ↔ EndsOpen asked body) (ends : ¬ value.LeavesOpen)
    (starts : ¬ value.ShutsItself) (last : value.hindmost style = none)
    (first : value.forefront style = none) : Told style value text := by
  obtain ⟨_, _, _, inner, spelled⟩ := composed
  rw [same] at inner spelled
  obtain ⟨⟨_, opened, _⟩, known⟩ := inner body asked (by simp)
  have settles := settles_of_spelled (.cons begins (.cons known.edged (.cons closes .nil)))
    (by simpa using spelled)
  rw [← known.opened] at clashes
  cases opened with
  | true => exact ⟨none, by simpa using settles, .clash (clashes.mpr rfl)⟩
  | false =>
      refine told_of_enclosed (by simpa using settles) ?_ ends starts last first
      exact clashes.not.mpr Bool.false_ne_true

theorem told_not {body noBraces : Datum} (composed : Composed style (.not body noBraces) text) :
    Told style (.not body noBraces) text := by
  by_cases omitted : noBraces.truthy = true
  · have same : (Command.not body noBraces).pieces style =
        [.fixed "! "] ++ [.inner body .plain] := if_pos omitted
    refine told_of_leading composed same (edged_fixed .solid rfl) ?_ id id (if_pos omitted) rfl
    simp [Command.ClashesItself, omitted]
  · have same : (Command.not body noBraces).pieces style =
        [.fixed "! \x7b "] ++ [.inner body .plain, .fixed " ; \x7d"] := if_neg omitted
    refine told_of_closed " ; \x7d" composed same (edged_fixed .solid rfl)
      (edged_fixed .closing rfl) ?_ id id (if_neg omitted) rfl
    simp [Command.ClashesItself, omitted]

theorem told_coproc {name body : Datum} (composed : Composed style (.coproc name body) text) :
    Told style (.coproc name body) text := by
  by_cases called : body.isTag .simple = true
  · have same : (Command.coproc name body).pieces style =
        [.fixed "coproc "] ++ [.inner body .plain] := if_pos called
    exact told_of_leading composed same (edged_fixed .solid rfl) id id id rfl rfl
  · have same : (Command.coproc name body).pieces style =
        [.fixed "coproc ", .word name, .fixed " "] ++ [.inner body .plain] := if_neg called
    obtain ⟨_, named⟩ := exists_edged_word (composed.tame (.word name) (by simp [same]))
    refine told_of_leading composed same (fun part spelled => ?_) id id id rfl rfl
    have settles := settles_of_spelled (.cons (edged_fixed .solid rfl) (.cons named
      (.cons (edged_fixed .absent rfl) .nil))) spelled
    simpa [Settles] using settles

theorem told_time {posix node : Datum} (composed : Composed style (.time posix node) text) :
    Told style (.time posix node) text := by
  have word : Edged [.fixed (if posix.truthy then "time -p " else "time ")] .solid := by
    split <;> exact edged_fixed .solid rfl
  exact told_of_leading composed rfl word id id id rfl rfl

theorem told_redirected {line node redirs : Datum}
    (composed : Composed style (.redirected line node redirs) text) :
    Told style (.redirected line node redirs) text := by
  obtain ⟨_, _, tame, inner, spelled⟩ := composed
  rw [Command.pieces] at tame inner spelled
  obtain ⟨edges, known⟩ := inner node .plain (by simp)
  obtain ⟨opened, listed, ends⟩ := exists_edged_redirs redirs fun piece inside =>
    tame piece (List.mem_cons_of_mem _ inside)
  have settles := settles_of_spelled (.cons known.edged (.cons listed .nil))
    (by simpa using spelled)
  have foremost : (Command.redirected line node redirs).forefront style = some (node, .plain) :=
    rfl
  refine ⟨some ⟨edges.blank && !redirs.truthy, (edges.opened && !redirs.truthy) || opened,
    edges.shut⟩, by simpa using settles, .edges id ?_ ?_⟩
  · by_cases present : redirs.truthy = true
    · have last : (Command.redirected line node redirs).hindmost style = none := if_pos present
      simpa [endsOpen_alone last, Command.LeavesOpen, present] using ends
    · have last : (Command.redirected line node redirs).hindmost style = some (node, .plain) :=
        if_neg present
      simp [endsOpen_linked last, Command.LeavesOpen, present, ends, known.opened, or_comm]
  · simpa [startsShut_linked foremost, Command.ShutsItself] using known.shut

theorem told_defun {line name body bashMode : Datum}
    (composed : Composed style (.defun line name body bashMode) text) :
    Told style (.defun line name body bashMode) text := by
  obtain ⟨_, _, tame, inner, spelled⟩ := composed
  rw [Command.pieces] at tame inner spelled
  obtain ⟨edges, known⟩ := inner body _ (List.mem_append_right _
    (List.mem_cons_of_mem _ (List.mem_cons_of_mem _ List.mem_cons_self)))
  obtain ⟨blank, named⟩ := exists_edged_word (tame (.word name) (by simp))
  refine told_of_enclosed ?_ id id id rfl rfl
  split at spelled
  · have settles := settles_of_spelled (.cons (edged_fixed .solid rfl) (.cons named (.cons
      (edged_fixed .solid rfl) (.cons known.edged (.cons (edged_fixed .solid rfl) .nil))))) spelled
    simpa using settles
  · have settles := settles_of_spelled (.cons named (.cons
      (edged_fixed .solid rfl) (.cons known.edged (.cons (edged_fixed .solid rfl) .nil)))) spelled
    simpa using settles

/-- A loop over words. -/
theorem told_of_words {value : Command} {name words body : Datum} {asked : Style}
    {start mark : String} (composed : Composed style value text)
    (same : value.pieces style = [.fixed start, .word name, .fixed " in ", .words words,
      .fixed mark, .inner body asked, .fixed "\ndone"])
    (opens : Edged [.fixed start] .solid) (closes : Edged [.fixed mark] .closing)
    (apart : ¬ value.ClashesItself style) (ends : ¬ value.LeavesOpen)
    (starts : ¬ value.ShutsItself) (last : value.hindmost style = none)
    (first : value.forefront style = none) : Told style value text := by
  obtain ⟨_, _, tame, inner, spelled⟩ := composed
  rw [same] at tame inner spelled
  obtain ⟨edges, known⟩ := inner body asked (by simp)
  obtain ⟨_, named⟩ := exists_edged_word (tame (.word name) (by simp))
  obtain ⟨_, listed⟩ := exists_edged_word (tame (.words words) (by simp))
  have settles := settles_of_spelled (.cons opens (.cons named (.cons (edged_fixed .solid rfl)
    (.cons listed (.cons closes (.cons known.edged (.cons (edged_fixed .solid rfl) .nil)))))))
    spelled
  exact told_of_enclosed (by simpa using settles) apart ends starts last first

theorem told_arith {line body : Datum} (composed : Composed style (.arith line body) text) :
    Told style (.arith line body) text := by
  obtain ⟨_, _, tame, _, spelled⟩ := composed
  rw [Command.pieces] at tame spelled
  obtain ⟨_, listed⟩ := exists_edged_word (tame (.words body) (by simp))
  have settles := settles_of_spelled (.cons (edged_fixed .solid rfl) (.cons listed (.cons
    (edged_fixed .solid rfl) .nil))) spelled
  exact told_of_enclosed (by simpa using settles) id id id rfl rfl

theorem told_arithFor {line start test step action : Datum}
    (composed : Composed style (.arithFor line start test step action) text) :
    Told style (.arithFor line start test step action) text := by
  have words (datum : Datum) (inside : .words datum ∈
      (Command.arithFor line start test step action).pieces style) :
      ∃ blank, Edged [.words datum] ⟨blank, false, false⟩ :=
    exists_edged_word (composed.tame (.words datum) inside)
  obtain ⟨_, first⟩ := words start (by simp [Command.pieces])
  obtain ⟨_, second⟩ := words test (by simp [Command.pieces])
  obtain ⟨_, third⟩ := words step (by simp [Command.pieces])
  have same : (Command.arithFor line start test step action).pieces style =
      [.fixed "for ((", .words start, .fixed "; ", .words test, .fixed "; ", .words step,
        .fixed "));         do "] ++ [.inner action action.bareStyle, .fixed "; done"] := rfl
  refine told_of_closed "; done" composed same (fun part spelled => ?_) (edged_fixed .closing rfl)
    Iff.rfl id id rfl rfl
  have settles := settles_of_spelled (.cons (edged_fixed .solid rfl) (.cons first (.cons
    (edged_fixed .closing rfl) (.cons second (.cons (edged_fixed .closing rfl) (.cons third
      (.cons (edged_fixed .solid rfl) .nil))))))) spelled
  simpa [Settles] using settles

theorem told_whileLoop {test body : Datum}
    (composed : Composed style (.whileLoop test body) text) :
    Told style (.whileLoop test body) text := by
  obtain ⟨_, _, _, inner, spelled⟩ := composed
  rw [Command.pieces] at spelled inner
  obtain ⟨⟨_, opened, _⟩, tested⟩ := inner test.tested.2 test.tested.2.bareStyle (by simp)
  obtain ⟨⟨_, opened', _⟩, known⟩ := inner body body.bareStyle (by simp)
  have word : Edged [.fixed test.tested.1] .solid := by
    rcases tested_cases test with same | same <;> rw [same] <;> exact edged_fixed .solid rfl
  have settles := settles_of_spelled (.cons word (.cons tested.edged (.cons
    (edged_fixed .closing rfl) (.cons known.edged (.cons (edged_fixed .closing rfl) .nil)))))
    spelled
  cases opened' with
  | true => exact ⟨none, by simpa using settles, .clash (.inr (known.opened.mp rfl))⟩
  | false =>
      cases opened with
      | true => exact ⟨none, by simpa using settles, .clash (.inl (tested.opened.mp rfl))⟩
      | false =>
          refine told_of_enclosed (by simpa using settles) ?_ id id rfl rfl
          simp [Command.ClashesItself, ← tested.opened, ← known.opened]

theorem told_group {body : Datum} (composed : Composed style (.group body) text) :
    Told style (.group body) text := by
  by_cases bare : style = .braces true
  · obtain ⟨_, _, _, inner, spelled⟩ := composed
    rw [Command.pieces, if_pos bare] at spelled inner
    obtain ⟨edges, known⟩ := inner body body.bareStyle (by simp)
    have last : (Command.group body).hindmost style = some (body, body.bareStyle) := if_pos bare
    have foremost : (Command.group body).forefront style = some (body, body.bareStyle) :=
      if_pos bare
    refine ⟨some edges, known.edged text spelled, .edges ?_ ?_ ?_⟩
    · simp [Command.ClashesItself, bare]
    · simpa [endsOpen_linked last, Command.LeavesOpen] using known.opened
    · simpa [startsShut_linked foremost, Command.ShutsItself] using known.shut
  · by_cases job : body.closesItself = true
    · obtain ⟨_, _, _, inner, spelled⟩ := composed
      rw [Command.pieces, if_neg bare] at spelled inner
      obtain ⟨edges, known⟩ := inner body body.bareStyle (by simp)
      rw [if_pos job] at spelled
      have settles := settles_of_spelled (.cons (edged_fixed .solid rfl) (.cons known.edged
        (.cons (edged_fixed .solid rfl) .nil))) spelled
      refine told_of_enclosed (by simpa using settles) ?_ id id (if_neg bare) (if_neg bare)
      simp [Command.ClashesItself, job]
    · have same : (Command.group body).pieces style =
          [.fixed "\x7b "] ++ [.inner body body.bareStyle, .fixed "; \x7d"] := by
        rw [Command.pieces, if_neg bare, if_neg job]
        rfl
      refine told_of_closed "; \x7d" composed same (edged_fixed .solid rfl)
        (edged_fixed .closing rfl) ?_ id id (if_neg bare) (if_neg bare)
      simp [Command.ClashesItself, bare, job]

theorem told_ifElse {test thenBranch elseBranch : Datum}
    (composed : Composed style (.ifElse test thenBranch elseBranch) text) :
    Told style (.ifElse test thenBranch elseBranch) text := by
  obtain ⟨_, _, _, inner, spelled⟩ := composed
  rw [Command.pieces] at spelled inner
  obtain ⟨⟨_, opened, _⟩, tested⟩ := inner test test.bareStyle (by simp)
  obtain ⟨⟨_, opened', _⟩, known⟩ := inner thenBranch thenBranch.bareStyle (by simp)
  -- What follows the two of them starts with a semicolon.
  have finish (pieces : List Piece) (last : Edges) (closes : Edged pieces last)
      (shut : last.shut = true)
      (following : Spelled (List.flatten [[.fixed "if "], [.inner test test.bareStyle],
        [.fixed "        ; then "], [.inner thenBranch thenBranch.bareStyle], pieces]) text)
      (others : ¬ (elseBranch.truthy = true ∧ elseBranch.isEmptyCommand ≠ .ok true ∧
        elseBranch.isTag .ifElse = false ∧ EndsOpen elseBranch.bareStyle elseBranch))
      (ends : last.opened = true ↔
        EndsOpen style (.command (.ifElse test thenBranch elseBranch))) :
      Told style (.ifElse test thenBranch elseBranch) text := by
    have settles := settles_of_spelled (.cons (edged_fixed .solid rfl) (.cons tested.edged (.cons
      (edged_fixed .closing rfl) (.cons known.edged (.cons closes .nil)))))
      following
    cases opened' with
    | true =>
        refine ⟨none, by simpa [shut] using settles, .clash (.inr (.inl ?_))⟩
        exact known.opened.mp rfl
    | false =>
        cases opened with
        | true => exact ⟨none, by simpa using settles, .clash (.inl (tested.opened.mp rfl))⟩
        | false =>
            refine ⟨some ⟨false, last.opened, false⟩, by simpa [shut] using settles,
              .edges ?_ ends ?_⟩
            · rintro (open' | open' | clash)
              · exact Bool.false_ne_true (tested.opened.mpr open')
              · exact Bool.false_ne_true (known.opened.mpr open')
              · exact others clash
            · exact iff_of_false Bool.false_ne_true (not_startsShut rfl id)
  by_cases absent : (!elseBranch.truthy || decide (elseBranch.isEmptyCommand = .ok true)) = true
  · rw [if_pos absent] at spelled
    refine finish [.fixed "; fi"] .closing (edged_fixed .closing rfl) rfl spelled ?_ ?_
    · rintro ⟨present, more, _⟩
      simp [present, more] at absent
    · refine iff_of_false Bool.false_ne_true (not_endsOpen (if_neg fun again => ?_) id)
      exact present_of_ifElse again absent
  · rw [if_neg absent] at spelled inner
    by_cases again : elseBranch.isTag .ifElse = true
    · rw [if_pos again] at spelled inner
      obtain ⟨edges, other⟩ := inner elseBranch .plain (by simp)
      have last : (Command.ifElse test thenBranch elseBranch).hindmost style =
          some (elseBranch, .plain) := if_pos again
      refine finish [.fixed "; el", .inner elseBranch .plain] ⟨false, edges.opened, true⟩
        (fun part following => ?_) rfl spelled ?_ ?_
      · have settles := settles_of_spelled (.cons (edged_fixed .closing rfl)
          (.cons other.edged .nil)) following
        simpa [Settles] using settles
      · simp [again]
      · simpa [endsOpen_linked last, Command.LeavesOpen] using other.opened
    · rw [if_neg again] at spelled inner
      obtain ⟨⟨_, opened'', _⟩, other⟩ := inner elseBranch elseBranch.bareStyle (by simp)
      cases opened'' with
      | true =>
          have settles := settles_of_spelled (.cons (edged_fixed .solid rfl) (.cons tested.edged
            (.cons (edged_fixed .closing rfl) (.cons known.edged (.cons (edged_fixed .closing rfl)
              (.cons other.edged (.cons (edged_fixed .closing rfl) .nil)))))))
            (by simpa using spelled)
          refine ⟨none, by simpa using settles, .clash (.inr (.inr ⟨?_, ?_, ?_, ?_⟩))⟩
          · simp at absent
            exact absent.1
          · simp at absent
            exact absent.2
          · simpa using again
          · exact other.opened.mp rfl
      | false =>
          refine finish [.fixed "; else ", .inner elseBranch elseBranch.bareStyle, .fixed "; fi"]
            .closing (fun part following => ?_) rfl spelled ?_ ?_
          · have settles := settles_of_spelled (.cons (edged_fixed .closing rfl) (.cons other.edged
              (.cons (edged_fixed .closing rfl) .nil))) following
            simpa [Settles] using settles
          · simp [← other.opened]
          · exact iff_of_false Bool.false_ne_true (not_endsOpen (if_neg again) id)

/-- The text of a job holds an ampersand. -/
theorem mem_of_job {after : Datum} {part : String} (job : after.isTag .background = true)
    (spells : (Piece.inner after .plain).Spells part) : '&' ∈ part.toList := by
  induction size : sizeOf after using Nat.strongRecOn generalizing after part with
  | ind bound ih =>
  obtain ⟨line, node, redirs, later, noBraces, rfl⟩ := exists_job_of_isTag job
  obtain ⟨shown, rendered, rfl⟩ := spells
  have spelled := spelled_of_render rendered
  have own (piece : String) (amp : '&' ∈ piece.toList) (inside : .fixed piece ∈
      (Command.background line node redirs later noBraces).pieces .plain) :
      '&' ∈ (inserted shown).toList := by
    obtain ⟨part, rfl, within⟩ := spelled.exists_spells _ inside
    exact within amp
  by_cases more : later.truthy = true
  · by_cases again : later.isTag .background = true
    · obtain ⟨part, spells, within⟩ := spelled.exists_spells (.inner later .plain)
        (by simp [Command.pieces, more, again])
      refine within (ih _ ?_ again spells rfl)
      simp at size
      omega
    · exact own "  &" (by decide) (by simp [Command.pieces, more, again])
  · by_cases omitted : noBraces.truthy = true
    · exact own " &" (by decide) (by simp [Command.pieces, more, omitted])
    · exact own " & \x7d" (by decide) (by simp [Command.pieces, more, omitted])

/-- A job at the end ends with an ampersand. -/
theorem told_of_last_job {line node redirs after noBraces : Datum} (done : after.truthy = false)
    (composed : Composed style (.background line node redirs after noBraces) text) :
    Told style (.background line node redirs after noBraces) text := by
  obtain ⟨_, omitted, tame, inner, spelled⟩ := composed
  rw [Command.Unbraced] at omitted
  rw [Command.pieces, if_pos (by simp [done]), if_pos omitted] at tame inner spelled
  obtain ⟨edges, known⟩ := inner node .plain (by simp)
  obtain ⟨opened, listed, _⟩ := exists_edged_redirs redirs fun piece inside =>
    tame piece (by simp [inside])
  have settles := settles_of_spelled (.cons known.edged (.cons listed (.cons
    (edged_fixed .opening rfl) .nil))) (by simpa using spelled)
  have foremost : (Command.background line node redirs after noBraces).forefront style =
      some (node, .plain) := by
    have other : after.isTag .background = false := by
      rw [Bool.eq_false_iff]
      intro job
      obtain ⟨_, _, _, _, _, rfl⟩ := exists_job_of_isTag job
      cases done
    simp [Command.forefront, Command.foremost, other, omitted]
  refine ⟨some ⟨false, true, edges.shut⟩, by simpa using settles, .edges ?_ ?_ ?_⟩
  · simp [Command.ClashesItself, done]
  · exact iff_of_true rfl (endsOpen_iff.mpr (.inl (.inl done)))
  · simpa [startsShut_linked foremost, Command.ShutsItself] using known.shut

/-- A job before something else ends with an ampersand, which that stands behind. -/
theorem told_of_job_before {line node redirs after noBraces : Datum} (more : after.truthy = true)
    (other : after.isTag .background = false)
    (composed : Composed style (.background line node redirs after noBraces) text) :
    Told style (.background line node redirs after noBraces) text := by
  obtain ⟨_, _, tame, inner, spelled⟩ := composed
  rw [Command.pieces, if_neg (by simp [more]), if_neg (by simp [other])] at tame inner spelled
  obtain ⟨edges, first⟩ := inner node .plain (by simp)
  obtain ⟨left, listed, _⟩ := exists_edged_redirs redirs fun piece inside =>
    tame piece (by simp [inside])
  obtain ⟨⟨blank, opened, shut⟩, second⟩ := inner after .plain (by simp)
  obtain ⟨part, spells, _⟩ := spelled.exists_spells (.inner after .plain) (by simp)
  have settles := settles_of_spelled (.cons first.edged (.cons listed (.cons
    (edged_fixed .opening rfl) (.cons second.edged .nil)))) (by simpa using spelled)
  have single : after.behind.truthy = false := by
    rw [Bool.eq_false_iff]
    intro again
    rw [isTag_of_behind again] at other
    cases other
  have last : (Command.background line node redirs after noBraces).hindmost style =
      some (after, .plain) := by
    simp [Command.hindmost, more, single]
  have foremost : (Command.background line node redirs after noBraces).forefront style =
      some (node, .plain) := by
    simp [Command.forefront, Command.foremost, other, more]
  cases shut with
  | true =>
      refine ⟨none, by simpa using settles, .clash ⟨more, second.shut.mp rfl, ?_⟩⟩
      simp [other]
  | false =>
      refine ⟨some ⟨false, blank || opened, edges.shut⟩, by simpa using settles, .edges ?_ ?_ ?_⟩
      · exact fun clash => Bool.false_ne_true (second.shut.mpr clash.2.1)
      · simp [endsOpen_linked last, Command.LeavesOpen, more, single, other,
          second.printsBlank_eq spells, ← second.opened]
      · simpa [startsShut_linked foremost, Command.ShutsItself] using first.shut

/-- A job before another one ends with nothing. -/
theorem told_of_job_row {line node redirs after noBraces : Datum}
    (job : after.isTag .background = true)
    (composed : Composed style (.background line node redirs after noBraces) text) :
    Told style (.background line node redirs after noBraces) text := by
  have more : after.truthy = true := by
    obtain ⟨_, _, _, _, _, rfl⟩ := exists_job_of_isTag job
    rfl
  obtain ⟨_, _, tame, inner, spelled⟩ := composed
  rw [Command.pieces, if_neg (by simp [more]), if_pos job] at tame inner spelled
  obtain ⟨⟨blank, opened, shut⟩, first⟩ := inner node .plain (by simp)
  obtain ⟨left, listed, ends⟩ := exists_edged_redirs redirs fun piece inside =>
    tame piece (by simp [inside])
  obtain ⟨⟨blank', opened', shut'⟩, second⟩ := inner after .plain (by simp)
  obtain ⟨start, begins, _⟩ := spelled.exists_spells (.inner node .plain) (by simp)
  obtain ⟨part, spells, _⟩ := spelled.exists_spells (.inner after .plain) (by simp)
  have ahead : node.printsBlank .plain = blank := first.printsBlank_eq begins
  obtain rfl : blank' = false := by
    refine (second.edged part (.one spells)).blank.symm.trans (List.all_eq_false.mpr ?_)
    exact ⟨'&', mem_of_job job spells, by decide⟩
  -- If there is nothing before the other job, it is the first.
  have starts : ((shut' && (blank && !redirs.truthy)) || shut) = true ↔
      StartsShut style (.command (.background line node redirs after noBraces)) := by
    by_cases lone : blank = true ∧ redirs.truthy = false
    · have foremost : (Command.background line node redirs after noBraces).forefront style =
          some (after, .plain) := by
        simp [Command.forefront, job, ahead, lone]
      cases lone.1
      cases (first.edged start (.one begins)).of_blank rfl
      simpa [startsShut_linked foremost, Command.ShutsItself, lone.2] using second.shut
    · have foremost : (Command.background line node redirs after noBraces).forefront style =
          some (node, .plain) := by
        simp [Command.forefront, Command.foremost, job, ahead, lone, more]
      have hidden : (blank && !redirs.truthy) = false := by simpa using lone
      simpa [startsShut_linked foremost, Command.ShutsItself, hidden] using first.shut
  have clashes : (Command.background line node redirs after noBraces).ClashesItself style ↔
      (shut' && ((opened && !redirs.truthy) || left)) = true := by
    by_cases present : redirs.truthy = true
    · simp [Command.ClashesItself, more, job, present, second.shut, ends]
    · simp [Command.ClashesItself, more, job, present, second.shut, first.opened, ends,
        Datum.LeaveOpen]
  have ending : ∃ opens,
      Edged (.inner after .plain :: if after.behind.truthy then [.fixed " &"] else [])
        ⟨false, opens, shut'⟩ ∧ (opens = true ↔
          EndsOpen style (.command (.background line node redirs after noBraces))) := by
    by_cases again : after.behind.truthy = true
    · refine ⟨true, fun part following => ?_, ?_⟩
      · have settles := settles_of_spelled (.cons second.edged (.cons
          (edged_fixed .opening rfl) .nil)) (by simpa [again] using following)
        simpa [Settles] using settles
      · exact iff_of_true rfl (endsOpen_iff.mpr (.inl (.inr (.inl again))))
    · have last : (Command.background line node redirs after noBraces).hindmost style =
          some (after, .plain) := by
        simp [Command.hindmost, more, again]
      refine ⟨opened', by simpa [again] using second.edged, ?_⟩
      simpa [endsOpen_linked last, Command.LeavesOpen, more, again, job] using second.opened
  obtain ⟨opens, behind, ends⟩ := ending
  have settles := settles_of_spelled (.cons first.edged (.cons listed (.cons
    (edged_fixed .absent rfl) (.cons behind .nil)))) (by simpa using spelled)
  rw [joinAll_beside _ _ _ rfl] at settles
  by_cases clash : (shut' && ((opened && !redirs.truthy) || left)) = true
  · rw [if_pos clash] at settles
    exact ⟨none, settles, .clash (clashes.mpr clash)⟩
  · rw [if_neg clash] at settles
    exact ⟨_, settles, .edges (clashes.not.mpr clash) ends starts⟩

/-! ## Clauses of a case -/

theorem clauseCommand_cases (fields : List (String × Datum)) :
    clauseCommand fields = [] ∨ ∃ body, clauseCommand fields = [.inner body body.bareStyle] := by
  induction fields with
  | nil => exact .inl rfl
  | cons field rest ih =>
      rw [clauseCommand]
      split
      · split
        · exact .inr ⟨_, rfl⟩
        · exact .inl rfl
      · exact ih

/-- A clause goes on with the next one, behind a command that ends with an ampersand. -/
def ClauseClashes (clause : Datum) : Prop :=
  ∃ fields body, clause = .dict fields ∧ fallsThrough fields = true ∧
    .inner body body.bareStyle ∈ clauseCommand fields ∧ EndsOpen body.bareStyle body

theorem edged_patterns {fields : List (String × Datum)}
    (tame : (Piece.patterns fields).Tame) : Edged [.patterns fields] .solid := by
  intro text spelled
  obtain ⟨noAmp, quiet⟩ := tame text spelled.spells_of_one
  have edged := hasEdges_of_plain noAmp quiet
  obtain ⟨patterns, _, rfl⟩ := spelled.spells_of_one
  have visible : (((if patterns.head? == some "esac" then "(" else "") ++
      String.intercalate "|" patterns ++ ") ").toList.all isGap) = false := by
    simp [isGap]
  rwa [visible] at edged

theorem clashesWhen_clause {clause : Datum} (tame : ∀ piece ∈ clause.clausePieces, piece.Tame)
    (inner : ∀ datum asked, .inner datum asked ∈ clause.clausePieces →
      ∃ edges, Known asked datum edges)
    (spelled : Spelled clause.clausePieces text) : ClashesWhen text (ClauseClashes clause) := by
  cases clause with
  | dict fields =>
      rw [Datum.clausePieces] at tame inner spelled
      have patterns := edged_patterns (tame (.patterns fields) (by simp))
      have mark : Edged [.fixed (if fallsThrough fields then ";&" else ";;")]
          ⟨false, fallsThrough fields, fallsThrough fields⟩ := by
        cases fallsThrough fields <;> exact edged_fixed _ rfl
      rcases clauseCommand_cases fields with none | ⟨body, only⟩
      · have settles := settles_of_spelled (.cons patterns (.cons mark .nil))
          (by simpa [none] using spelled)
        have edged : HasEdges text ⟨false, fallsThrough fields, false⟩ := by
          simpa [Settles] using settles
        exact .apart (by simp [ClauseClashes, none]) edged rfl
      · obtain ⟨⟨blank, opened, shut⟩, known⟩ := inner body body.bareStyle (by simp [only])
        have settles := settles_of_spelled (.cons patterns (.cons known.edged (.cons mark .nil)))
          (by simpa [only] using spelled)
        have clashes : ClauseClashes (.dict fields) ↔
            fallsThrough fields = true ∧ opened = true := by
          simp [ClauseClashes, only, known.opened]
        by_cases both : fallsThrough fields = true ∧ opened = true
        · refine .clash (clashes.mpr both) ?_
          simpa [Settles, both.1, both.2] using settles
        · have edged : HasEdges text ⟨false, fallsThrough fields, false⟩ := by
            simpa [Settles, both] using settles
          exact .apart (clashes.not.mpr both) edged rfl
  | _ => exact .apart (by simp [ClauseClashes]) (edged_nil text spelled) rfl

theorem clashesWhen_clauses {items : List Datum}
    (tame : ∀ piece ∈ clausesBetween items, piece.Tame)
    (inner : ∀ datum asked, .inner datum asked ∈ clausesBetween items →
      ∃ edges, Known asked datum edges)
    (spelled : Spelled (clausesBetween items) text) :
    ClashesWhen text (∃ clause ∈ items, ClauseClashes clause) := by
  induction items generalizing text with
  | nil => exact .apart (by simp) (edged_nil text spelled) rfl
  | cons clause rest ih =>
      cases rest with
      | nil => simpa using clashesWhen_clause tame inner spelled
      | cons next rest =>
          rw [clausesBetween] at tame inner spelled
          obtain ⟨first, behind, before, following, rfl⟩ := spelled.append_cases
          obtain ⟨blank, others, rfl, row, rfl⟩ := following.cons_cases
          have start := clashesWhen_clause (fun piece inside => tame piece (by simp [inside]))
            (fun datum asked inside => inner datum asked (by simp [inside])) before
          have more := ih (fun piece inside => tame piece (by simp [inside]))
            (fun datum asked inside => inner datum asked (by simp [inside])) row
          have gap : ClashesWhen " " False :=
            .apart id (hasEdges_of_fit rfl : HasEdges " " .absent) rfl
          simpa using start.append (gap.append more)

theorem told_case {line argument cases : Datum}
    (composed : Composed style (.case line argument cases) text) :
    Told style (.case line argument cases) text := by
  obtain ⟨_, _, tame, inner, spelled⟩ := composed
  rw [Command.pieces] at tame inner spelled
  obtain ⟨_, named⟩ := exists_edged_word (tame (.word argument) (by simp))
  obtain ⟨start, last, front, closing, rfl⟩ := spelled.append_cases
  obtain ⟨first, row, before, clauses, rfl⟩ := front.append_cases
  have opens : HasEdges first .solid := by
    have settles := settles_of_spelled (.cons (edged_fixed .solid rfl) (.cons named (.cons
      (edged_fixed .solid rfl) .nil))) before
    simpa [Settles] using settles
  have clashes : (Command.case line argument cases).ClashesItself style ↔
      ∃ clause ∈ cases.clauses, ClauseClashes clause := by
    rw [Command.ClashesItself]
    constructor
    · rintro ⟨fields, body, listed, clash⟩
      exact ⟨_, listed, fields, body, rfl, clash⟩
    · rintro ⟨_, listed, fields, body, rfl, clash⟩
      exact ⟨fields, body, listed, clash⟩
  cases clashesWhen_clauses (fun piece inside => tame piece (by simp [inside]))
      (fun datum asked inside => inner datum asked (by simp [inside])) clauses with
  | clash holds clashed =>
      exact ⟨none, (opens.steady.append_clashed clashed).append last, .clash (clashes.mpr holds)⟩
  | apart fails edged shut =>
      have settles := settles_join (.cons opens (.cons edged (.cons
        (edged_fixed .solid rfl last closing) .nil)))
      refine told_of_enclosed ?_ (clashes.not.mpr fails) id id rfl rfl
      simpa [String.append_assoc] using settles

/-- Each construct but a condition is told by the commands inside. -/
theorem told_of_composed {value : Command} (other : value.tag ≠ .cond)
    (composed : Composed style value text) : Told style value text := by
  cases value with
  | pipe => exact told_pipe composed
  | simple => exact told_simple composed
  | subshell => exact told_subshell composed
  | and => exact told_and composed
  | or => exact told_or composed
  | semi => exact told_semi composed
  | not => exact told_not composed
  | redirected => exact told_redirected composed
  | background line node redirs after noBraces =>
      cases more : after.truthy with
      | false => exact told_of_last_job more composed
      | true =>
          cases job : after.isTag .background with
          | false => exact told_of_job_before more job composed
          | true => exact told_of_job_row job composed
  | defun => exact told_defun composed
  | forLoop =>
      exact told_of_words composed rfl (edged_fixed .solid rfl) (edged_fixed .closing rfl)
        id id id rfl rfl
  | whileLoop => exact told_whileLoop composed
  | ifElse => exact told_ifElse composed
  | case => exact told_case composed
  | select =>
      exact told_of_words composed rfl (edged_fixed .solid rfl) (edged_fixed .closing rfl)
        id id id rfl rfl
  | arith => exact told_arith composed
  | cond => exact absurd rfl other
  | arithFor => exact told_arithFor composed
  | coproc => exact told_coproc composed
  | time => exact told_time composed
  | group => exact told_group composed

end Constructs

end ShellTree
