import ShellTree.Proofs.DeferredHeredocs
import ShellTree.Proofs.TextPieces

/-!
# How texts start and end

Most constructs write something of their own before and after the commands inside
them.  The others start with the text of a command inside, the *foremost* one, or
end with that of the *hindmost* one, and so on inside these.  What stands at the
end of such a chain is what the whole text starts or ends with.

A command substitution looks at both ends of its body, and puts blanks around it
if there are parentheses at both.  It is read as arithmetic where the body has a
parenthesis at its start only.
-/

namespace ShellTree

/-! ## Pieces at the margins -/

namespace Piece

/-- The text of a piece starts with a character. -/
def Starts (piece : Piece) (c : Char) : Prop :=
  ∃ text, piece.Spells text ∧ text.toList.head? = some c

/-- The text of a piece ends with a character. -/
def Ends (piece : Piece) (c : Char) : Prop :=
  ∃ text, piece.Spells text ∧ text.toList.getLast? = some c

variable {piece : Piece} {text : String} {c : Char}

theorem Spells.starts_iff (spells : piece.Spells text) :
    piece.Starts c ↔ text.toList.head? = some c := by
  constructor
  · rintro ⟨other, spelled, starts⟩
    rwa [spells.eq spelled]
  · exact fun starts => ⟨text, spells, starts⟩

theorem Spells.ends_iff (spells : piece.Spells text) :
    piece.Ends c ↔ text.toList.getLast? = some c := by
  constructor
  · rintro ⟨other, spelled, ends⟩
    rwa [spells.eq spelled]
  · exact fun ends => ⟨text, spells, ends⟩

end Piece

/-- Pieces that never start with a character. -/
def NeverStart (c : Char) (pieces : List Piece) : Prop :=
  ∀ text, Spelled pieces text → text.toList.head? ≠ some c

/-- Pieces that never end with a character. -/
def NeverEnd (c : Char) (pieces : List Piece) : Prop :=
  ∀ text, Spelled pieces text → text.toList.getLast? ≠ some c

namespace Spelled

variable {piece : Piece} {pieces : List Piece} {text own : String} {c : Char}

/-- A text starts as its first piece does, unless that is empty. -/
theorem starts_iff (spelled : Spelled (piece :: pieces) text) (never : NeverStart c pieces) :
    text.toList.head? = some c ↔ piece.Starts c := by
  obtain ⟨first, rest, spells, following, rfl⟩ := cons_cases spelled
  rw [spells.starts_iff, String.toList_append, List.head?_append]
  cases first.toList.head? with
  | none => simpa using never rest following
  | some other => simp

/-- A text ends as its last piece does, unless that is empty. -/
theorem ends_iff (spelled : Spelled pieces text) (before : List Piece)
    (last : pieces = before ++ [piece]) (never : NeverEnd c before ∨ ¬ piece.Spells "") :
    text.toList.getLast? = some c ↔ piece.Ends c := by
  subst last
  obtain ⟨first, rest, before, only, rfl⟩ := append_cases spelled
  rw [only.spells_of_one.ends_iff, String.toList_append, List.getLast?_append]
  cases ends : rest.toList.getLast? with
  | none =>
      have empty : rest = "" := by simpa using ends
      rcases never with never | present
      · simpa using never first before
      · exact absurd (empty ▸ only.spells_of_one) present
  | some other => simp

theorem head?_of_fixed (spelled : Spelled (.fixed own :: pieces) text)
    (starts : own.toList.head? = some c) : text.toList.head? = some c := by
  obtain ⟨first, rest, rfl, _, rfl⟩ := cons_cases spelled
  rw [String.toList_append, List.head?_append, starts]
  rfl

theorem getLast?_of_fixed (spelled : Spelled pieces text)
    (last : pieces.getLast? = some (.fixed own)) (ends : own.toList.getLast? = some c) :
    text.toList.getLast? = some c := by
  obtain ⟨before, rfl⟩ := List.getLast?_eq_some_iff.mp last
  obtain ⟨first, rest, _, only, rfl⟩ := append_cases spelled
  obtain rfl : rest = own := only.spells_of_one
  rw [String.toList_append, List.getLast?_append, ends]
  rfl

end Spelled

/-- A text starts with another character. -/
def startsOther (c : Char) (text : String) : Bool :=
  text.toList.head?.any (· != c)

/-- A text ends with another character. -/
def endsOther (c : Char) (text : String) : Bool :=
  text.toList.getLast?.any (· != c)

theorem neverStart_nil (c : Char) : NeverStart c [] := by
  rintro text ⟨texts, each, rfl⟩
  cases each
  simp

theorem neverStart_fixed {own : String} {c : Char} (other : startsOther c own = true)
    (pieces : List Piece) : NeverStart c (.fixed own :: pieces) := by
  intro text spelled
  obtain ⟨d, starts, different⟩ := (Option.any_eq_true ..).mp other
  rw [spelled.head?_of_fixed starts]
  simpa using different

theorem neverEnd_nil (c : Char) : NeverEnd c [] := by
  rintro text ⟨texts, each, rfl⟩
  cases each
  simp

theorem neverEnd_fixed {own : String} {c : Char} {pieces : List Piece}
    (last : pieces.getLast? = some (.fixed own)) (other : endsOther c own = true) :
    NeverEnd c pieces := by
  intro text spelled
  obtain ⟨d, ends, different⟩ := (Option.any_eq_true ..).mp other
  rw [spelled.getLast?_of_fixed last ends]
  simpa using different

/-! ## Redirections -/

/-- A line of redirections starts with a blank, unless all that it holds is left out. -/
theorem redirectionLine_start {omitted : Bool} {items : List Datum} {line : String}
    (rendered : redirectionLine omitted items = .ok line) :
    line.toList.head? = some ' ' ∨ line = "" ∧ (omitted = false → items = []) := by
  induction items generalizing line with
  | nil =>
      cases rendered
      exact .inr ⟨rfl, fun _ => rfl⟩
  | cons item rest ih =>
      rw [redirectionLine] at rendered
      obtain ⟨tag, tagged, rendered⟩ := bind_eq_ok_iff.mp rendered
      split at rendered
      next heredoc =>
          split at rendered
          next left =>
              rcases ih rendered with starts | ⟨empty, _⟩
              · exact .inl starts
              · exact .inr ⟨empty, fun kept => absurd left (by simp [kept])⟩
          next =>
              simp only [bind_eq_ok_iff] at rendered
              obtain ⟨first, _, others, _, rendered⟩ := rendered
              cases rendered
              exact .inl (by simp)
      next =>
          simp only [bind_eq_ok_iff] at rendered
          obtain ⟨first, _, others, _, rendered⟩ := rendered
          cases rendered
          exact .inl (by simp)

theorem exists_withBodies (line : String) (bodies : List String) :
    ∃ rest, withBodies line bodies = line ++ rest := by
  induction bodies generalizing line with
  | nil => exact ⟨"", by simp [withBodies]⟩
  | cons body bodies ih =>
      rw [withBodies_cons]
      split
      · obtain ⟨rest, same⟩ := ih (line ++ body)
        exact ⟨body ++ rest, by rw [same, String.append_assoc]⟩
      · obtain ⟨rest, same⟩ := ih (line ++ "\n" ++ body)
        exact ⟨"\n" ++ body ++ rest, by rw [same]; simp only [String.append_assoc]⟩

theorem truthy_of_entries {datum : Datum} {entries : List String}
    (same : datum.entries = .ok entries) (absent : entries.isEmpty = true) :
    datum.truthy = false := by
  cases datum with
  | text value =>
      cases same
      simpa [Datum.truthy] using absent
  | dict fields =>
      cases same
      simpa [Datum.truthy] using absent
  | _ => cases same

/-- Redirections start with a blank, unless all of them are left out. -/
theorem renderRedirs_start {redirs : Datum} {omitted : Bool} {text : String}
    (rendered : redirs.renderRedirs omitted = .ok text) :
    text.toList.head? = some ' ' ∨ text = "" ∧ (omitted = false → redirs.truthy = false) := by
  cases redirs with
  | seq kind items =>
      unfold Datum.renderRedirs at rendered
      obtain ⟨line, listed, rendered⟩ := bind_eq_ok_iff.mp rendered
      split at rendered
      next left =>
          cases rendered
          rcases redirectionLine_start listed with starts | ⟨empty, _⟩
          · exact .inl starts
          · exact .inr ⟨empty, fun kept => absurd left (by simp [kept])⟩
      next kept =>
          obtain ⟨bodies, below, rendered⟩ := bind_eq_ok_iff.mp rendered
          cases rendered
          obtain ⟨rest, same⟩ := exists_withBodies line bodies
          rw [same]
          rcases redirectionLine_start listed with starts | ⟨rfl, none⟩
          · left
            rw [String.toList_append, List.head?_append, starts]
            rfl
          · have absent := none (by simpa using kept)
            subst absent
            cases below
            exact .inr ⟨same.symm, fun _ => rfl⟩
  | _ =>
      unfold Datum.renderRedirs at rendered
      obtain ⟨entries, same, rendered⟩ := bind_eq_ok_iff.mp rendered
      split at rendered
      next absent =>
          cases rendered
          exact .inr ⟨rfl, fun _ => truthy_of_entries same absent⟩
      next => cases rendered

/-- The bodies that wait for an operator end in line feeds. -/
theorem newline_of_bodyItems {items : List Datum} {bodies : List String}
    (rendered : bodyItems items = .ok bodies) :
    ∀ body ∈ bodies, body.toList.getLast? = some '\n' := by
  induction items generalizing bodies with
  | nil =>
      cases rendered
      simp
  | cons item rest ih =>
      rw [bodyItems] at rendered
      obtain ⟨tag, tagged, rendered⟩ := bind_eq_ok_iff.mp rendered
      split at rendered
      next =>
          simp only [bind_eq_ok_iff] at rendered
          obtain ⟨first, written, others, listed, rendered⟩ := rendered
          cases rendered
          intro body inside
          rcases List.mem_cons.mp inside with rfl | later
          · cases item with
            | redir value => exact Attachment.getLast?_of_body written
            | _ => cases written
          · exact ih listed body later
      next => exact ih rendered

theorem neverEnd_bodies {c : Char} (other : c ≠ '\n') (first : Datum) (pieces : List Piece) :
    NeverEnd c (pieces ++ [.fixed "\n", .bodies first]) := by
  intro text spelled
  obtain ⟨before, behind, _, below, rfl⟩ := spelled.append_cases
  obtain ⟨newline, rest, rfl, only, rfl⟩ := below.cons_cases
  obtain ⟨bodies, listed, rfl⟩ := only.spells_of_one
  have each : ∀ body ∈ bodies, body.toList.getLast? = some '\n' := by
    unfold Datum.deferredBodies at listed
    split at listed
    · exact newline_of_bodyItems listed
    · cases listed
      simp
  have ends : ("\n" ++ String.intercalate " " bodies.reverse).toList.getLast? = some '\n' := by
    by_cases none : bodies = []
    · subst none
      rfl
    · rw [String.toList_append, List.getLast?_append, getLast?_intercalate_reverse each none]
      rfl
  rw [String.toList_append, List.getLast?_append, ends]
  exact fun same => other (Option.some.inj same).symm

theorem neverStart_redirPieces {c : Char} (visible : c ≠ ' ') (omitted : Bool) (redirs : Datum)
    {pieces : List Piece} (never : NeverStart c pieces) :
    NeverStart c (redirPieces omitted redirs ++ pieces) := by
  intro text spelled
  rw [redirPieces] at spelled
  split at spelled
  next =>
      obtain ⟨first, rest, rendered, following, rfl⟩ := spelled.cons_cases
      rw [String.toList_append, List.head?_append]
      rcases renderRedirs_start rendered with starts | ⟨rfl, _⟩
      · rw [starts]
        exact fun same => visible (Option.some.inj same).symm
      · simpa using never rest following
  next => exact never text spelled

/-! ## The foremost and the hindmost command -/

/-- The foremost member of a pipeline, in the background or not. -/
def pipeForemost (behind : Bool) : Datum → Option (Datum × Style)
  | .seq _ (first :: _) =>
      if first.waits then some (first, .heredocs true)
      else if behind then none else some (first, .plain)
  | _ => none

/-- The command inside that the text of a command starts with, in the style that it is asked for. -/
def Command.foremost (style : Style) : Command → Option (Datum × Style)
  | .pipe behind items => pipeForemost behind.truthy items
  | .and left _ noBraces =>
      if noBraces.truthy then some (left, if left.waits then .heredocs true else .plain) else none
  | .or left _ noBraces => if noBraces.truthy then some (left, .plain) else none
  | .semi left _ semicolon =>
      if semicolon.truthy then some (left, .plain)
      else if style = .braces true then some (left, left.bareStyle) else none
  | .redirected _ node _ => some (node, .plain)
  | .background _ node _ after noBraces =>
      if after.truthy || noBraces.truthy then some (node, .plain) else none
  | .group body => if style = .braces true then some (body, body.bareStyle) else none
  | _ => none

/-- The hindmost member of a pipeline, in the background or not. -/
def pipeHindmost (behind : Bool) : Datum → Option (Datum × Style)
  | .seq _ (first :: rest) =>
      if first.waits || behind then none else some (rest.getLastD first, .plain)
  | _ => none

/-- The command inside that the text of a command ends with, in the style that it is asked for. -/
def Command.hindmost (style : Style) : Command → Option (Datum × Style)
  | .pipe behind items => pipeHindmost behind.truthy items
  | .and _ right noBraces => if noBraces.truthy then some (right, .plain) else none
  | .or _ right noBraces => if noBraces.truthy then some (right, .plain) else none
  | .semi _ right semicolon =>
      if semicolon.truthy then some (right, .plain)
      else if style = .braces true then some (right, right.bareStyle) else none
  | .not body noBraces => if noBraces.truthy then some (body, .plain) else none
  | .redirected _ node redirs => if redirs.truthy then none else some (node, .plain)
  | .background _ _ _ after _ =>
      if after.truthy && !after.behind.truthy then some (after, .plain) else none
  | .ifElse _ _ elseBranch =>
      if elseBranch.isTag .ifElse then some (elseBranch, .plain) else none
  | .coproc _ body => some (body, .plain)
  | .time _ node => some (node, .plain)
  | .group body => if style = .braces true then some (body, body.bareStyle) else none
  | _ => none

/-- The text of a command starts with a parenthesis of its own, or of a word. -/
def Command.OpensItself : Command → Prop
  | .subshell .. => True
  | .arith .. => True
  | .simple _ assignments arguments _ => (Piece.call assignments arguments).Starts '('
  | .defun _ name _ bashMode => bashMode.truthy = false ∧ (Piece.word name).Starts '('
  | _ => False

/-- The text of a command ends with a parenthesis of its own, or of a word. -/
def Command.ClosesItself : Command → Prop
  | .subshell _ body redirs =>
      body.isTag .semi = true → redirs.truthy = true → (Piece.redirs false redirs).Ends ')'
  | .arith .. => True
  | .simple _ assignments arguments redirs =>
      if redirs.truthy then (Piece.redirs false redirs).Ends ')'
      else (Piece.call assignments arguments).Ends ')'
  | .redirected _ _ redirs => redirs.truthy = true ∧ (Piece.redirs false redirs).Ends ')'
  | _ => False

theorem piecesBetween_cons (mark : String) (first : Datum) (rest : List Datum) :
    ∃ more, piecesBetween mark (first :: rest) = .inner first .plain :: more ∧
      (more = [] ∨ ∃ others, more = .fixed mark :: others) := by
  cases rest with
  | nil => exact ⟨[], rfl, .inl rfl⟩
  | cons next rest => exact ⟨_, rfl, .inr ⟨_, rfl⟩⟩

theorem piecesBetween_concat (mark : String) (first : Datum) (rest : List Datum) :
    ∃ before, piecesBetween mark (first :: rest) =
        before ++ [.inner (rest.getLastD first) .plain] ∧
      (before = [] ∨ ∃ others, before = others ++ [.fixed mark]) := by
  induction rest generalizing first with
  | nil => exact ⟨[], rfl, .inl rfl⟩
  | cons next rest ih =>
      obtain ⟨before, same, ends⟩ := ih next
      refine ⟨.inner first .plain :: .fixed mark :: before, ?_, .inr ?_⟩
      · rw [piecesBetween, same, List.getLastD_cons]
        rfl
      · rcases ends with rfl | ⟨others, rfl⟩
        · exact ⟨[.inner first .plain], rfl⟩
        · exact ⟨.inner first .plain :: .fixed mark :: others, rfl⟩

/-! ## The start of each construct -/

/-- How the text of a command starts: with that of its foremost command, or on its own. -/
inductive StartsAs (style : Style) (value : Command) : Option (Datum × Style) → Prop where
  | inner {inner : Datum} {asked : Style} {rest : List Piece}
      (same : value.pieces style = .inner inner asked :: rest) (never : NeverStart '(' rest)
      (other : ¬ value.OpensItself) : StartsAs style value (some (inner, asked))
  | own (known : style ≠ .brackets false → ∀ text, Spelled (value.pieces style) text →
      (text.toList.head? = some '(' ↔ value.OpensItself)) : StartsAs style value none

section Starts

variable {style : Style}

theorem StartsAs.fixed {value : Command} {own : String} {rest : List Piece}
    (same : value.pieces style = .fixed own :: rest) (other : startsOther '(' own = true)
    (shut : ¬ value.OpensItself) : StartsAs style value none := by
  refine .own fun _ text spelled => iff_of_false ?_ shut
  rw [same] at spelled
  exact neverStart_fixed other rest text spelled

theorem StartsAs.paren {value : Command} {own : String} {rest : List Piece}
    (same : value.pieces style = .fixed own :: rest) (starts : own.toList.head? = some '(')
    (opens : value.OpensItself) : StartsAs style value none := by
  refine .own fun _ text spelled => iff_of_true ?_ opens
  rw [same] at spelled
  exact spelled.head?_of_fixed starts

theorem StartsAs.nothing {value : Command} (same : value.pieces style = [])
    (shut : ¬ value.OpensItself) : StartsAs style value none := by
  refine .own fun _ text spelled => iff_of_false ?_ shut
  rw [same] at spelled
  exact neverStart_nil '(' text spelled

theorem neverStart_redirs (redirs : Datum) {pieces : List Piece} (never : NeverStart '(' pieces) :
    NeverStart '(' (redirPieces false redirs ++ pieces) :=
  neverStart_redirPieces (by decide) false redirs never

theorem startsAs_pipe (behind items : Datum) :
    StartsAs style (.pipe behind items) (pipeForemost behind.truthy items) := by
  cases items with
  | seq kind items =>
      cases items with
      | nil => exact .nothing rfl id
      | cons first rest =>
          rw [pipeForemost]
          split
          next wait => exact .inner (if_pos wait) (neverStart_fixed rfl _) id
          next ready =>
              split
              next job => exact .fixed ((if_neg ready).trans (if_pos job)) rfl id
              next single =>
                  have pieces : (Command.pipe behind (.seq kind (first :: rest))).pieces style =
                      piecesBetween " | " (first :: rest) := (if_neg ready).trans (if_neg single)
                  obtain ⟨more, same, rfl | ⟨others, rfl⟩⟩ := piecesBetween_cons " | " first rest
                  · exact .inner (pieces.trans same) (neverStart_nil _) id
                  · exact .inner (pieces.trans same) (neverStart_fixed rfl _) id
  | _ => exact .nothing rfl id

theorem startsAs_simple (line assignments arguments redirs : Datum) :
    StartsAs style (.simple line assignments arguments redirs) none := by
  refine .own fun _ text spelled => ?_
  have behind := neverStart_redirPieces (c := '(') (by decide)
    (decide (style = .heredocs true)) redirs (neverStart_nil '(')
  rw [List.append_nil] at behind
  rw [Command.pieces] at spelled
  exact spelled.starts_iff behind

theorem startsAs_subshell (line body redirs : Datum) :
    StartsAs style (.subshell line body redirs) none := by
  by_cases sequence : body.isTag .semi = true
  · exact .paren (if_pos sequence) rfl trivial
  · exact .paren (if_neg sequence) rfl trivial

theorem startsAs_and (left right noBraces : Datum) :
    StartsAs style (.and left right noBraces)
      ((Command.and left right noBraces).foremost style) := by
  rw [Command.foremost]
  by_cases wait : left.waits = true <;> split
  next omitted =>
      exact .inner ((if_pos wait).trans (if_pos omitted)) (neverStart_fixed rfl _) id
  next shut => exact .fixed ((if_pos wait).trans (if_neg shut)) rfl id
  next omitted =>
      exact .inner ((if_neg wait).trans (if_pos omitted)) (neverStart_fixed rfl _) id
  next shut => exact .fixed ((if_neg wait).trans (if_neg shut)) rfl id

theorem startsAs_or (left right noBraces : Datum) :
    StartsAs style (.or left right noBraces) ((Command.or left right noBraces).foremost style) := by
  rw [Command.foremost]
  split
  next omitted => exact .inner (if_pos omitted) (neverStart_fixed rfl _) id
  next shut => exact .fixed (if_neg shut) rfl id

theorem startsAs_semi (left right semicolon : Datum) :
    StartsAs style (.semi left right semicolon)
      ((Command.semi left right semicolon).foremost style) := by
  rw [Command.foremost]
  split
  next mark => exact .inner (if_pos mark) (neverStart_fixed rfl _) id
  next unmarked =>
      split
      next bare =>
          exact .inner ((if_neg unmarked).trans (if_pos bare)) (neverStart_fixed rfl _) id
      next shut => exact .fixed ((if_neg unmarked).trans (if_neg shut)) rfl id

theorem startsAs_not (body noBraces : Datum) : StartsAs style (.not body noBraces) none := by
  by_cases omitted : noBraces.truthy = true
  · exact .fixed (if_pos omitted) rfl id
  · exact .fixed (if_neg omitted) rfl id

theorem startsAs_redirected (line node redirs : Datum) :
    StartsAs style (.redirected line node redirs) (some (node, .plain)) := by
  have never := neverStart_redirs redirs (neverStart_nil _)
  rw [List.append_nil] at never
  exact .inner rfl never id

theorem startsAs_background (line node redirs after noBraces : Datum) :
    StartsAs style (.background line node redirs after noBraces)
      ((Command.background line node redirs after noBraces).foremost style) := by
  rw [Command.foremost]
  by_cases last : (!after.truthy) = true
  · rw [show after.truthy = false by simpa using last, Bool.false_or]
    split
    next omitted =>
        exact .inner ((if_pos last).trans (if_pos omitted))
          (neverStart_redirs redirs (neverStart_fixed rfl _)) id
    next shut => exact .fixed ((if_pos last).trans (if_neg shut)) rfl id
  · rw [if_pos (by simp_all)]
    refine .inner (if_neg last) (neverStart_redirs redirs ?_) id
    split
    · exact neverStart_fixed rfl _
    · exact neverStart_fixed rfl _

theorem startsAs_defun (line name body bashMode : Datum) :
    StartsAs style (.defun line name body bashMode) none := by
  by_cases bash : bashMode.truthy = true
  · have same : (Command.defun line name body bashMode).pieces style =
        .fixed "function " :: _ := congrArg (· ++ _) (if_pos bash)
    exact .fixed same rfl (by simp [Command.OpensItself, bash])
  · refine .own fun _ text spelled => ?_
    rw [Command.pieces, if_neg bash, List.nil_append] at spelled
    rw [spelled.starts_iff (neverStart_fixed rfl _)]
    simp [Command.OpensItself, bash]

theorem startsAs_whileLoop (test body : Datum) : StartsAs style (.whileLoop test body) none := by
  refine .fixed rfl ?_ id
  rcases tested_cases test with same | same <;> rw [same] <;> rfl

theorem startsAs_cond (line kind op left right inverted : Datum) :
    StartsAs style (.cond line kind op left right inverted) none := by
  refine .own fun framed text spelled => ?_
  rw [Command.pieces, if_pos framed] at spelled
  exact iff_of_false (neverStart_fixed rfl _ text spelled) id

theorem startsAs_coproc (name body : Datum) : StartsAs style (.coproc name body) none := by
  by_cases simple : body.isTag .simple = true
  · exact .fixed (if_pos simple) rfl id
  · exact .fixed (if_neg simple) rfl id

theorem startsAs_time (posix node : Datum) : StartsAs style (.time posix node) none := by
  refine .fixed rfl ?_ id
  split <;> rfl

theorem startsAs_group (body : Datum) :
    StartsAs style (.group body) ((Command.group body).foremost style) := by
  rw [Command.foremost]
  split
  next bare => exact .inner (if_pos bare) (neverStart_nil _) id
  next shut => exact .fixed (if_neg shut) rfl id

end Starts

theorem startsAs_foremost (style : Style) (value : Command) :
    StartsAs style value (value.foremost style) := by
  cases value with
  | pipe => exact startsAs_pipe _ _
  | simple => exact startsAs_simple _ _ _ _
  | subshell => exact startsAs_subshell _ _ _
  | and => exact startsAs_and _ _ _
  | or => exact startsAs_or _ _ _
  | semi => exact startsAs_semi _ _ _
  | not => exact startsAs_not _ _
  | redirected => exact startsAs_redirected _ _ _
  | background => exact startsAs_background _ _ _ _ _
  | defun => exact startsAs_defun _ _ _ _
  | whileLoop => exact startsAs_whileLoop _ _
  | arith => exact .paren rfl rfl trivial
  | cond => exact startsAs_cond _ _ _ _ _ _
  | coproc => exact startsAs_coproc _ _
  | time => exact startsAs_time _ _
  | group => exact startsAs_group _
  | forLoop | ifElse | case | select | arithFor => exact .fixed rfl rfl id

/-- Where a command has a foremost one, it starts with its text. -/
theorem pieces_of_foremost {value : Command} {style asked : Style} {inner : Datum}
    (found : value.foremost style = some (inner, asked)) :
    ∃ rest, value.pieces style = .inner inner asked :: rest ∧ NeverStart '(' rest ∧
      ¬ value.OpensItself := by
  have starts := startsAs_foremost style value
  rw [found] at starts
  cases starts with
  | inner same never other => exact ⟨_, same, never, other⟩

/-- Where a command has no foremost one, the start of its text is its own. -/
theorem starts_iff_of_alone {value : Command} {style : Style} {text : String}
    (framed : style ≠ .brackets false) (alone : value.foremost style = none)
    (spelled : Spelled (value.pieces style) text) :
    text.toList.head? = some '(' ↔ value.OpensItself := by
  have starts := startsAs_foremost style value
  rw [alone] at starts
  cases starts with
  | own known => exact known framed text spelled

/-! ## The end of each construct -/

/-- How the text of a command ends: with that of its hindmost command, or on its own. -/
inductive EndsAs (style : Style) (value : Command) : Option (Datum × Style) → Prop where
  | inner {inner : Datum} {asked : Style} (before : List Piece)
      (same : value.pieces style = before ++ [.inner inner asked]) (never : NeverEnd ')' before)
      (other : ¬ value.ClosesItself) : EndsAs style value (some (inner, asked))
  | own (known : style ≠ .brackets false → style ≠ .heredocs true →
      ∀ text, Spelled (value.pieces style) text →
        (text.toList.getLast? = some ')' ↔ value.ClosesItself)) : EndsAs style value none

theorem redirs_present {redirs : Datum} (present : redirs.truthy = true) :
    ¬ (Piece.redirs false redirs).Spells "" := by
  intro rendered
  rcases renderRedirs_start rendered with starts | ⟨_, absent⟩
  · cases starts
  · rw [absent rfl] at present
    cases present

theorem isTag_of_behind {after : Datum} (more : after.behind.truthy = true) :
    after.isTag .background = true := by
  cases after with
  | command value =>
      cases value with
      | background => rfl
      | _ => cases more
  | _ => cases more

theorem present_of_ifElse {datum : Datum} (again : datum.isTag .ifElse = true) :
    ¬ (!datum.truthy || decide (datum.isEmptyCommand = .ok true)) = true := by
  obtain ⟨value, rfl, tag⟩ := exists_command_of_isTag again (.inr (.inr rfl))
  cases value <;> cases tag
  simp [Datum.truthy, Datum.isEmptyCommand]

section Ends

variable {style : Style}

theorem EndsAs.fixed {value : Command} {own : String} {pieces : List Piece}
    (same : value.pieces style = pieces) (last : pieces.getLast? = some (.fixed own))
    (other : endsOther ')' own = true) (opened : ¬ value.ClosesItself) :
    EndsAs style value none := by
  refine .own fun _ _ text spelled => iff_of_false ?_ opened
  rw [same] at spelled
  exact neverEnd_fixed last other text spelled

theorem EndsAs.nothing {value : Command} (same : value.pieces style = [])
    (opened : ¬ value.ClosesItself) : EndsAs style value none := by
  refine .own fun _ _ text spelled => iff_of_false ?_ opened
  rw [same] at spelled
  exact neverEnd_nil ')' text spelled

theorem endsAs_pipe (behind items : Datum) :
    EndsAs style (.pipe behind items) (pipeHindmost behind.truthy items) := by
  cases items with
  | seq kind items =>
      cases items with
      | nil => exact .nothing rfl id
      | cons first rest =>
          rw [pipeHindmost]
          by_cases wait : first.waits = true
          · rw [wait, Bool.true_or, if_pos rfl]
            refine .own fun _ _ text spelled => iff_of_false ?_ id
            rw [Command.pieces, pipePieces, if_pos wait] at spelled
            exact neverEnd_bodies (by decide) first _ text spelled
          · rw [show first.waits = false by simpa using wait, Bool.false_or]
            split
            next job =>
                exact .fixed ((if_neg wait).trans (if_pos job)) List.getLast?_concat rfl id
            next single =>
                have pieces : (Command.pipe behind (.seq kind (first :: rest))).pieces style =
                    piecesBetween " | " (first :: rest) := (if_neg wait).trans (if_neg single)
                obtain ⟨before, same, rfl | ⟨others, rfl⟩⟩ := piecesBetween_concat " | " first rest
                · exact .inner _ (pieces.trans same) (neverEnd_nil _) id
                · exact .inner _ (pieces.trans same) (neverEnd_fixed List.getLast?_concat rfl) id
  | _ => exact .nothing rfl id

theorem endsAs_simple (line assignments arguments redirs : Datum) :
    EndsAs style (.simple line assignments arguments redirs) none := by
  refine .own fun _ whole text spelled => ?_
  rw [Command.pieces, redirPieces, decide_eq_false whole] at spelled
  rw [Command.ClosesItself]
  split at spelled
  next present =>
      rw [if_pos present]
      exact spelled.ends_iff [.call assignments arguments] rfl (.inr (redirs_present present))
  next absent =>
      rw [if_neg absent]
      exact spelled.ends_iff [] rfl (.inl (neverEnd_nil _))

theorem endsAs_subshell (line body redirs : Datum) :
    EndsAs style (.subshell line body redirs) none := by
  refine .own fun _ _ text spelled => ?_
  rw [Command.pieces] at spelled
  rw [Command.ClosesItself]
  split at spelled
  next sequence =>
      rw [redirPieces] at spelled
      split at spelled
      next present =>
          rw [spelled.ends_iff _ rfl (.inr (redirs_present present))]
          simp [sequence, present]
      next absent =>
          exact iff_of_true (spelled.getLast?_of_fixed rfl rfl)
            fun _ present => absurd present absent
  next single =>
      exact iff_of_true (spelled.getLast?_of_fixed List.getLast?_concat rfl)
        fun sequence => absurd sequence single

theorem endsAs_and (left right noBraces : Datum) :
    EndsAs style (.and left right noBraces) ((Command.and left right noBraces).hindmost style) := by
  rw [Command.hindmost]
  by_cases wait : left.waits = true <;> split
  next omitted =>
      exact .inner [_, _, _, _, _, _] ((if_pos wait).trans (if_pos omitted))
        (neverEnd_fixed rfl rfl) id
  next shut => exact .fixed ((if_pos wait).trans (if_neg shut)) rfl rfl id
  next omitted =>
      exact .inner [_, _] ((if_neg wait).trans (if_pos omitted)) (neverEnd_fixed rfl rfl) id
  next shut => exact .fixed ((if_neg wait).trans (if_neg shut)) rfl rfl id

theorem endsAs_or (left right noBraces : Datum) :
    EndsAs style (.or left right noBraces) ((Command.or left right noBraces).hindmost style) := by
  rw [Command.hindmost]
  split
  next omitted => exact .inner [_, _] (if_pos omitted) (neverEnd_fixed rfl rfl) id
  next shut => exact .fixed (if_neg shut) rfl rfl id

theorem endsAs_semi (left right semicolon : Datum) :
    EndsAs style (.semi left right semicolon)
      ((Command.semi left right semicolon).hindmost style) := by
  rw [Command.hindmost]
  split
  next mark => exact .inner [_, _] (if_pos mark) (neverEnd_fixed rfl rfl) id
  next unmarked =>
      split
      next bare =>
          exact .inner [_, _] ((if_neg unmarked).trans (if_pos bare)) (neverEnd_fixed rfl rfl) id
      next shut => exact .fixed ((if_neg unmarked).trans (if_neg shut)) rfl rfl id

theorem endsAs_not (body noBraces : Datum) :
    EndsAs style (.not body noBraces) ((Command.not body noBraces).hindmost style) := by
  rw [Command.hindmost]
  split
  next omitted => exact .inner [_] (if_pos omitted) (neverEnd_fixed rfl rfl) id
  next shut => exact .fixed (if_neg shut) rfl rfl id

theorem endsAs_redirected (line node redirs : Datum) :
    EndsAs style (.redirected line node redirs)
      ((Command.redirected line node redirs).hindmost style) := by
  rw [Command.hindmost]
  split
  next present =>
      refine .own fun _ _ text spelled => ?_
      rw [Command.pieces, redirPieces, if_pos present] at spelled
      rw [spelled.ends_iff [.inner node .plain] rfl (.inr (redirs_present present))]
      simp [Command.ClosesItself, present]
  next absent =>
      refine .inner [] ?_ (neverEnd_nil _) fun own => absent own.1
      rw [Command.pieces, redirPieces, if_neg absent]
      rfl

theorem endsAs_background (line node redirs after noBraces : Datum) :
    EndsAs style (.background line node redirs after noBraces)
      ((Command.background line node redirs after noBraces).hindmost style) := by
  rw [Command.hindmost]
  by_cases last : (!after.truthy) = true
  · rw [show after.truthy = false by simpa using last, Bool.false_and, if_neg Bool.false_ne_true]
    by_cases omitted : noBraces.truthy = true
    · exact .fixed ((if_pos last).trans (if_pos omitted)) List.getLast?_concat rfl id
    · exact .fixed ((if_pos last).trans (if_neg omitted)) List.getLast?_concat rfl id
  · rw [show after.truthy = true by simpa using last, Bool.true_and]
    have pieces : (Command.background line node redirs after noBraces).pieces style =
        .inner node .plain :: redirPieces false redirs ++ _ := if_neg last
    split
    next final =>
        have alone : ¬ after.behind.truthy = true := by simpa using final
        by_cases job : after.isTag .background = true
        · refine .inner (.inner node .plain :: redirPieces false redirs ++ [.fixed " "]) ?_
            (neverEnd_fixed List.getLast?_concat rfl) id
          rw [pieces, if_pos job, if_neg alone]
          simp
        · refine .inner (.inner node .plain :: redirPieces false redirs ++ [.fixed "  &"]) ?_
            (neverEnd_fixed List.getLast?_concat rfl) id
          rw [pieces, if_neg job]
          simp
    next following =>
        have more : after.behind.truthy = true := by simpa using following
        rw [if_pos (isTag_of_behind more), if_pos more, ← List.append_assoc] at pieces
        exact .fixed pieces List.getLast?_concat rfl id

theorem endsAs_defun (line name body bashMode : Datum) :
    EndsAs style (.defun line name body bashMode) none := by
  refine .own fun _ _ text spelled => iff_of_false ?_ id
  rw [Command.pieces] at spelled
  split at spelled <;> exact neverEnd_fixed rfl rfl text spelled

theorem endsAs_ifElse (test thenBranch elseBranch : Datum) :
    EndsAs style (.ifElse test thenBranch elseBranch)
      ((Command.ifElse test thenBranch elseBranch).hindmost style) := by
  rw [Command.hindmost]
  split
  next again =>
      refine .inner [.fixed "if ", .inner test test.bareStyle, .fixed "        ; then ",
        .inner thenBranch thenBranch.bareStyle, .fixed "; el"] ?_ (neverEnd_fixed rfl rfl) id
      rw [Command.pieces, if_neg (present_of_ifElse again), if_pos again]
      rfl
  next other =>
      refine .own fun _ _ text spelled => iff_of_false ?_ id
      rw [Command.pieces, if_neg other] at spelled
      split at spelled <;> exact neverEnd_fixed rfl rfl text spelled

theorem endsAs_arith (line body : Datum) : EndsAs style (.arith line body) none := by
  refine .own fun _ _ text spelled => iff_of_true ?_ trivial
  rw [Command.pieces] at spelled
  exact spelled.getLast?_of_fixed rfl rfl

theorem endsAs_cond (line kind op left right inverted : Datum) :
    EndsAs style (.cond line kind op left right inverted) none := by
  refine .own fun framed _ text spelled => iff_of_false ?_ id
  rw [Command.pieces, if_pos framed, if_pos framed] at spelled
  exact neverEnd_fixed List.getLast?_concat rfl text spelled

theorem endsAs_coproc (name body : Datum) :
    EndsAs style (.coproc name body) (some (body, .plain)) := by
  by_cases simple : body.isTag .simple = true
  · exact .inner [_] (if_pos simple) (neverEnd_fixed rfl rfl) id
  · exact .inner [_, _, _] (if_neg simple) (neverEnd_fixed rfl rfl) id

theorem endsAs_time (posix node : Datum) :
    EndsAs style (.time posix node) (some (node, .plain)) := by
  refine .inner [_] rfl (neverEnd_fixed rfl ?_) id
  split <;> rfl

theorem endsAs_group (body : Datum) :
    EndsAs style (.group body) ((Command.group body).hindmost style) := by
  rw [Command.hindmost]
  split
  next bare => exact .inner [] (if_pos bare) (neverEnd_nil _) id
  next shut =>
      refine .fixed (if_neg shut) rfl ?_ id
      split <;> rfl

end Ends

theorem endsAs_hindmost (style : Style) (value : Command) :
    EndsAs style value (value.hindmost style) := by
  cases value with
  | pipe => exact endsAs_pipe _ _
  | simple => exact endsAs_simple _ _ _ _
  | subshell => exact endsAs_subshell _ _ _
  | and => exact endsAs_and _ _ _
  | or => exact endsAs_or _ _ _
  | semi => exact endsAs_semi _ _ _
  | not => exact endsAs_not _ _
  | redirected => exact endsAs_redirected _ _ _
  | background => exact endsAs_background _ _ _ _ _
  | defun => exact endsAs_defun _ _ _ _
  | ifElse => exact endsAs_ifElse _ _ _
  | arith => exact endsAs_arith _ _
  | cond => exact endsAs_cond _ _ _ _ _ _
  | coproc => exact endsAs_coproc _ _
  | time => exact endsAs_time _ _
  | group => exact endsAs_group _
  | case => exact .fixed rfl List.getLast?_concat rfl id
  | forLoop | whileLoop | select | arithFor => exact .fixed rfl rfl rfl id

/-- Where a command has a hindmost one, it ends with its text. -/
theorem pieces_of_hindmost {value : Command} {style asked : Style} {inner : Datum}
    (found : value.hindmost style = some (inner, asked)) :
    ∃ before, value.pieces style = before ++ [.inner inner asked] ∧ NeverEnd ')' before ∧
      ¬ value.ClosesItself := by
  have ends := endsAs_hindmost style value
  rw [found] at ends
  cases ends with
  | inner before same never other => exact ⟨before, same, never, other⟩

/-- Where a command has no hindmost one, the end of its text is its own. -/
theorem ends_iff_of_alone {value : Command} {style : Style} {text : String}
    (framed : style ≠ .brackets false) (whole : style ≠ .heredocs true)
    (alone : value.hindmost style = none) (spelled : Spelled (value.pieces style) text) :
    text.toList.getLast? = some ')' ↔ value.ClosesItself := by
  have ends := endsAs_hindmost style value
  rw [alone] at ends
  cases ends with
  | own known => exact known framed whole text spelled

theorem bareStyle_cases (datum : Datum) :
    datum.bareStyle = .plain ∨ datum.bareStyle = .braces true := by
  rw [Datum.bareStyle]
  split
  · exact .inr rfl
  · exact .inl rfl

theorem asked_of_foremost {value : Command} {style asked : Style} {inner : Datum}
    (found : value.foremost style = some (inner, asked)) : asked ≠ .brackets false := by
  have bare (datum : Datum) : datum.bareStyle ≠ .brackets false := by
    rcases bareStyle_cases datum with same | same <;> rw [same] <;> decide
  unfold Command.foremost pipeForemost at found
  repeat' split at found
  all_goals cases found
  all_goals first | exact bare _ | decide

theorem asked_of_hindmost {value : Command} {style asked : Style} {inner : Datum}
    (found : value.hindmost style = some (inner, asked)) :
    asked = .plain ∨ asked = .braces true := by
  unfold Command.hindmost pipeHindmost at found
  repeat' split at found
  all_goals cases found
  all_goals first | exact bareStyle_cases _ | exact .inl rfl

/-! ## Chains of commands -/

/--
From command to command the chain leads to one that shows a property itself, or
to something that is no command and whose text shows it.
-/
inductive Reaches (next : Style → Command → Option (Datum × Style)) (itself : Command → Prop)
    (shows : String → Prop) : Style → Datum → Prop where
  | here {style : Style} {value : Command} : itself value →
      Reaches next itself shows style (.command value)
  | further {style asked : Style} {value : Command} {inner : Datum} :
      next style value = some (inner, asked) → Reaches next itself shows asked inner →
        Reaches next itself shows style (.command value)
  | other {style : Style} {datum : Datum} {shown : Option String} :
      (∀ value, datum ≠ .command value) → datum.render style = .ok shown →
        shows (inserted shown) → Reaches next itself shows style datum

theorem reaches_command_iff {next : Style → Command → Option (Datum × Style)}
    {itself : Command → Prop} {shows : String → Prop} {style : Style} {value : Command} :
    Reaches next itself shows style (.command value) ↔
      itself value ∨ ∃ inner asked, next style value = some (inner, asked) ∧
        Reaches next itself shows asked inner := by
  constructor
  · intro reaches
    cases reaches with
    | here itself => exact .inl itself
    | further found deeper => exact .inr ⟨_, _, found, deeper⟩
    | other leaf => exact absurd rfl (leaf value)
  · rintro (itself | ⟨inner, asked, found, deeper⟩)
    · exact .here itself
    · exact .further found deeper

/-- What one link of a chain says about the texts of the commands. -/
structure IsChain (next : Style → Command → Option (Datum × Style)) (itself : Command → Prop)
    (shows : String → Prop) (usual : Style → Prop) : Prop where
  alone {value : Command} {style : Style} {shown : Option String} :
    usual style → next style value = none → value.render style = .ok shown →
      (shows (inserted shown) ↔ itself value)
  linked {value : Command} {style asked : Style} {inner : Datum} {shown : Option String} :
    next style value = some (inner, asked) → value.render style = .ok shown →
      ∃ text, inner.render asked = .ok text ∧ (shows (inserted shown) ↔ shows (inserted text)) ∧
        ¬ itself value
  smaller {value : Command} {style asked : Style} {inner : Datum} :
    next style value = some (inner, asked) → sizeOf inner < sizeOf value
  usual {value : Command} {style asked : Style} {inner : Datum} :
    next style value = some (inner, asked) → usual asked

theorem IsChain.shows_iff {next : Style → Command → Option (Datum × Style)}
    {itself : Command → Prop} {shows : String → Prop} {usual : Style → Prop}
    (chain : IsChain next itself shows usual) {datum : Datum} {style : Style}
    {shown : Option String} (asked : usual style) (rendered : datum.render style = .ok shown) :
    shows (inserted shown) ↔ Reaches next itself shows style datum := by
  induction size : sizeOf datum using Nat.strongRecOn generalizing datum style shown with
  | ind bound ih =>
  by_cases command : ∃ value, datum = .command value
  · obtain ⟨value, rfl⟩ := command
    rw [reaches_command_iff]
    cases found : next style value with
    | none => simp [chain.alone asked found rendered]
    | some first =>
        obtain ⟨inner, asked⟩ := first
        obtain ⟨text, inside, same, notItself⟩ := chain.linked found rendered
        have smaller : sizeOf inner < bound := by
          have less := chain.smaller found
          simp at size
          omega
        rw [same, ih _ smaller (chain.usual found) inside rfl]
        simp [notItself]
  · have leaf : ∀ value, datum ≠ .command value := fun value same => command ⟨value, same⟩
    constructor
    · exact .other leaf rendered
    · intro reaches
      cases reaches with
      | here => exact absurd rfl (leaf _)
      | further => exact absurd rfl (leaf _)
      | other _ again shows =>
          cases rendered.symm.trans again
          exact shows

/-! ## Parentheses at the margins -/

/-- The text of a datum starts with an opening parenthesis. -/
def OpensParen : Style → Datum → Prop :=
  Reaches Command.foremost Command.OpensItself fun text => text.toList.head? = some '('

/-- The text of a datum ends with a closing parenthesis. -/
def ClosesParen : Style → Datum → Prop :=
  Reaches Command.hindmost Command.ClosesItself fun text => text.toList.getLast? = some ')'

theorem isChain_foremost : IsChain Command.foremost Command.OpensItself
    (fun text => text.toList.head? = some '(') (· ≠ .brackets false) where
  alone framed alone rendered := starts_iff_of_alone framed alone (spelled_of_render rendered)
  linked {_ _ asked inner _} found rendered := by
    obtain ⟨rest, same, never, notItself⟩ := pieces_of_foremost found
    have spelled := spelled_of_render rendered
    rw [same] at spelled
    obtain ⟨first, _, ⟨text, inside, rfl⟩, _, _⟩ := spelled.cons_cases
    have spells : (Piece.inner inner asked).Spells (inserted text) := ⟨text, inside, rfl⟩
    exact ⟨text, inside, (spelled.starts_iff never).trans spells.starts_iff, notItself⟩
  smaller found := by
    obtain ⟨rest, same, _⟩ := pieces_of_foremost found
    exact sizeOf_lt_of_mem_pieces (same ▸ List.mem_cons_self)
  usual := asked_of_foremost

theorem isChain_hindmost : IsChain Command.hindmost Command.ClosesItself
    (fun text => text.toList.getLast? = some ')')
    (fun style => style = .plain ∨ style = .braces true) where
  alone usual alone rendered := by
    refine ends_iff_of_alone ?_ ?_ alone (spelled_of_render rendered) <;>
      rcases usual with rfl | rfl <;> decide
  linked {_ _ asked inner _} found rendered := by
    obtain ⟨before, same, never, notItself⟩ := pieces_of_hindmost found
    have spelled := spelled_of_render rendered
    rw [same] at spelled
    obtain ⟨_, last, _, only, _⟩ := spelled.append_cases
    obtain ⟨text, inside, rfl⟩ := only.spells_of_one
    have spells : (Piece.inner inner asked).Spells (inserted text) := ⟨text, inside, rfl⟩
    exact ⟨text, inside, (spelled.ends_iff before rfl (.inl never)).trans spells.ends_iff,
      notItself⟩
  smaller found := by
    obtain ⟨before, same, _⟩ := pieces_of_hindmost found
    exact sizeOf_lt_of_mem_pieces (same ▸ List.mem_append_right before List.mem_cons_self)
  usual := asked_of_hindmost

/-- A body in parentheses is told by both of its ends. -/
theorem prefix_paddedParens_iff (body : String) :
    "$((".toList <+: ("$(" ++ paddedParens body ++ ")").toList ↔
      body.toList.head? = some '(' ∧ body.toList.getLast? ≠ some ')' := by
  have start (inner : String) : "$((".toList <+: ("$(" ++ inner ++ ")").toList ↔
      inner.toList.head? = some '(' := by
    cases same : inner.toList with
    | nil => simp [same]
    | cons c rest => simp [same, eq_comm]
  rw [start, paddedParens]
  split
  next both => simp_all
  next => simp_all

/--
A command substitution is read as arithmetic just where the command starts with
a parenthesis and does not end with one: where a subshell or an arithmetic
command is the foremost one in it, and something else stands at its end.
-/
theorem substitution_arithmetic_iff {node : Datum} {mode : QuoteMode} {text : String}
    (rendered : (WordPart.command node).render mode = .ok text) :
    "$((".toList <+: text.toList ↔ OpensParen .plain node ∧ ¬ ClosesParen .plain node := by
  rw [WordPart.render] at rendered
  simp only [bind_eq_ok_iff, required_eq_ok_iff, exists_eq_right] at rendered
  obtain ⟨body, inside, rendered⟩ := rendered
  cases rendered
  have opens := isChain_foremost.shows_iff (by decide) inside
  have closes := isChain_hindmost.shows_iff (.inl rfl) inside
  rw [prefix_paddedParens_iff, OpensParen, ClosesParen, ← opens, ← closes]
  rfl

/-- A command of one letter. -/
def oneLetter (letter : Char) : Datum :=
  .command (.simple (.int 1) (.list []) (.list [wordOf true [letter]]) (.list []))

/-- A subshell that runs a command. -/
def inSubshell (body : Datum) : Datum :=
  .command (.subshell (.int 1) body (.list []))

/-- A sequence between two subshells stands between blanks, and is no arithmetic. -/
theorem substitution_arithmetic_iff_subshells :
    let node := Datum.command
      (.semi (inSubshell (oneLetter 'a')) (inSubshell (oneLetter 'b')) (.bool true))
    (WordPart.command node).render .unquoted = .ok "$( ( a ) ; ( b ) )" ∧
      OpensParen .plain node ∧ ClosesParen .plain node := by
  intro node
  have rendered : (WordPart.command node).render .unquoted = .ok "$( ( a ) ; ( b ) )" := by rfl
  have opens : OpensParen .plain node := .further rfl (.here trivial)
  refine ⟨rendered, opens, ?_⟩
  by_contra closes
  have starts := (substitution_arithmetic_iff rendered).mpr ⟨opens, closes⟩
  exact absurd starts (by decide)

/-- A sequence that only starts with a subshell reads as arithmetic. -/
theorem substitution_arithmetic_of_sequence :
    (WordPart.command (.command (.semi (inSubshell (oneLetter 'a')) (oneLetter 'b')
      (.bool true)))).render .unquoted = .ok "$(( a ) ; b)" ∧
      "$((".toList <+: "$(( a ) ; b)".toList :=
  ⟨by rfl, by decide⟩

end ShellTree
