import ShellTree.Proofs.JobsBeforeSemicolons

/-!
# Clashes in a tree

A construct tells the edges of its text from the commands inside, and a clash in
one of these is a clash in the whole.  So the text of a tree holds an ampersand
before a semicolon just where one of the constructs that are printed puts them
there.
-/

namespace ShellTree

open Seam

/-! ## Conditions -/

/-- Only conditions are printed without their brackets. -/
theorem isCond_of_brackets {value : Command} {shown : Option String}
    (rendered : value.render (.brackets false) = .ok shown) : value.tag = .cond := by
  cases value with
  | cond => rfl
  | whileLoop test body =>
      by_cases inverted : ∃ inner flag, test = .command (.not inner flag)
      · obtain ⟨inner, flag, rfl⟩ := inverted
        rw [Command.render] at rendered
        cases rendered
      · rw [Command.render] at rendered
        · cases rendered
        · intro inner flag same
          exact inverted ⟨inner, flag, same⟩
  | _ =>
      unfold Command.render at rendered
      cases rendered

theorem Spelled.not_mem {c : Char} {pieces : List Piece} {text : String}
    (spelled : Spelled pieces text)
    (each : ∀ piece ∈ pieces, ∀ part, piece.Spells part → c ∉ part.toList) :
    c ∉ text.toList := by
  induction pieces generalizing text with
  | nil =>
      obtain ⟨texts, none, rfl⟩ := spelled
      cases none
      simp [String.join_nil]
  | cons piece rest ih =>
      obtain ⟨first, others, spells, following, rfl⟩ := spelled.cons_cases
      rw [String.toList_append, List.mem_append, not_or]
      exact ⟨each piece List.mem_cons_self first spells,
        ih following fun piece inside => each piece (List.mem_cons_of_mem _ inside)⟩

section Conditions

variable {style : Style} {value : Command} {shown : Option String}

/-- A condition is put together from words and other conditions, without semicolons. -/
theorem cond_pieces {piece : Piece} (isCond : value.tag = .cond)
    (inside : piece ∈ value.pieces style) :
    (∃ own, piece = .fixed own ∧ ';' ∉ own.toList) ∨ (∃ word, piece = .word word) ∨
      ∃ inner, piece = .inner inner (.brackets false) := by
  cases value with
  | cond line kind op left right inverted =>
      have fixed {own : String} (quiet : ';' ∉ own.toList) (same : piece = .fixed own) :
          (∃ own, piece = .fixed own ∧ ';' ∉ own.toList) ∨ (∃ word, piece = .word word) ∨
            ∃ inner, piece = .inner inner (.brackets false) :=
        .inl ⟨own, same, quiet⟩
      rw [Command.pieces] at inside
      simp only [List.mem_append] at inside
      rcases inside with ((framed | marked) | inside) | framed
      · split at framed
        · exact fixed (by decide) (List.mem_singleton.mp framed)
        · cases framed
      · split at marked
        · exact fixed (by decide) (List.mem_singleton.mp marked)
        · cases marked
      · unfold condPieces at inside
        repeat' split at inside
        all_goals simp only [List.mem_cons, List.not_mem_nil, or_false] at inside
        · rcases inside with same | same | same
          · exact fixed (by decide) same
          · exact .inr (.inr ⟨_, same⟩)
          · exact fixed (by decide) same
        · rcases inside with same | same | same
          · exact .inr (.inr ⟨_, same⟩)
          · exact fixed (by decide) same
          · exact .inr (.inr ⟨_, same⟩)
        · rcases inside with same | same | same
          · exact .inr (.inr ⟨_, same⟩)
          · exact fixed (by decide) same
          · exact .inr (.inr ⟨_, same⟩)
        · rcases inside with same | same | same
          · exact .inr (.inl ⟨_, same⟩)
          · exact fixed (by decide) same
          · exact .inr (.inr ⟨_, same⟩)
        · rcases inside with same | same | same | same | same
          · exact .inr (.inr ⟨_, same⟩)
          · exact fixed (by decide) same
          · exact .inr (.inl ⟨_, same⟩)
          · exact fixed (by decide) same
          · exact .inr (.inr ⟨_, same⟩)
        · exact .inr (.inl ⟨_, inside⟩)
      · split at framed
        · exact fixed (by decide) (List.mem_singleton.mp framed)
        · cases framed
  | _ => cases isCond

/-- What is printed in a condition is a condition. -/
theorem isCond_of_mem {inner : Command} {asked : Style} (isCond : value.tag = .cond)
    (rendered : value.render style = .ok shown)
    (inside : .inner (.command inner) asked ∈ value.pieces style) :
    inner.tag = .cond ∧ ∃ text, inner.render asked = .ok text := by
  obtain ⟨part, ⟨text, printed, rfl⟩, _⟩ := (spelled_of_render rendered).exists_spells _ inside
  rcases cond_pieces isCond inside with ⟨own, same, _⟩ | ⟨word, same⟩ | ⟨held, same⟩
  · cases same
  · cases same
  · cases same
    exact ⟨isCond_of_brackets printed, text, printed⟩

theorem isCond_of_printed {last : Style} {held : Command} (isCond : value.tag = .cond)
    (rendered : value.render style = .ok shown) (printed : Printed style value last held) :
    held.tag = .cond := by
  induction printed generalizing shown with
  | self => exact isCond
  | inside member _ ih =>
      obtain ⟨again, text, printed⟩ := isCond_of_mem isCond rendered member
      exact ih again printed

theorem Tame.inside {inner : Command} {asked : Style} (tame : Tame style value)
    (inside : .inner (.command inner) asked ∈ value.pieces style) : Tame asked inner :=
  fun last held printed => tame last held (.inside inside printed)

/-- A tame condition holds no semicolon. -/
theorem quiet_of_cond (isCond : value.tag = .cond) (tame : Tame style value)
    (rendered : value.render style = .ok shown) : ';' ∉ (inserted shown).toList := by
  induction size : sizeOf value using Nat.strongRecOn generalizing value style shown with
  | ind bound ih =>
  refine (spelled_of_render rendered).not_mem fun piece inside part spells => ?_
  have calm := (tame style value .self).2 piece inside
  rcases cond_pieces isCond inside with ⟨own, rfl, quiet⟩ | ⟨word, rfl⟩ | ⟨inner, rfl⟩
  · cases spells
    exact quiet
  · exact (calm part spells).2
  · obtain ⟨held, rfl⟩ := calm
    obtain ⟨text, printed, rfl⟩ := spells
    have smaller := sizeOf_lt_of_mem_pieces inside
    refine ih _ ?_ (isCond_of_brackets printed) (tame.inside inside) printed rfl
    simp at smaller
    omega

theorem told_cond (isCond : value.tag = .cond) (usual : style = .plain ∨ style = .braces true)
    (tame : Tame style value) (rendered : value.render style = .ok shown) :
    Told style value (inserted shown) := by
  have quiet := quiet_of_cond isCond tame rendered
  have spelled := spelled_of_render rendered
  cases value with
  | cond line kind op left right inverted =>
      have framed : style ≠ .brackets false := by
        rcases usual with rfl | rfl <;> decide
      rw [Command.pieces, if_pos framed, if_pos framed] at spelled
      obtain ⟨front, last, before, closing, same⟩ := spelled.append_cases
      rw [List.append_assoc] at before
      obtain ⟨start, middle, opening, _, rfl⟩ := before.append_cases
      have inside : ';' ∉ middle.toList := by
        intro semi
        apply quiet
        simp [same, semi]
      have settles := settles_join (.cons (edged_fixed .solid rfl start opening)
        (.cons (hasEdges_of_quiet inside) (.cons (edged_fixed .solid rfl last closing) .nil)))
      refine told_of_enclosed ?_ id id id rfl rfl
      simpa [same, String.append_assoc] using settles
  | _ => cases isCond

end Conditions

/-! ## What each construct writes -/

/-- A scan never stops behind a semicolon in what a construct writes itself. -/
def Piece.isSteady : Piece → Bool
  | .fixed own => scan .clear own != .closing && scan .waiting own != .closing
  | _ => true

theorem all_isSteady (style : Style) (value : Command) :
    (value.pieces style).all Piece.isSteady = true := by
  have redirected (omitted : Bool) (redirs : Datum) :
      (redirPieces omitted redirs).all Piece.isSteady = true := by
    rw [redirPieces]
    split <;> rfl
  cases value with
  | pipe behind items =>
      have row (items : List Datum) : (piecesBetween " | " items).all Piece.isSteady = true := by
        induction items with
        | nil => rfl
        | cons item rest ih =>
            cases rest with
            | nil => rfl
            | cons next rest => exact ih
      rw [Command.pieces]
      unfold pipePieces
      repeat' split
      · simp only [List.all_append, row]
        rfl
      · simp only [List.all_append, List.all_cons, row]
        rfl
      · exact row _
      · rfl
  | simple => exact redirected _ _
  | subshell =>
      rw [Command.pieces]
      split <;> simp only [List.all_append, redirected] <;> rfl
  | redirected => exact redirected _ _
  | background =>
      rw [Command.pieces]
      repeat' split
      all_goals
        simp only [List.all_append, List.all_cons, redirected]
        rfl
  | whileLoop test body =>
      rw [Command.pieces]
      rcases tested_cases test with same | same <;> rw [same] <;> rfl
  | case line argument cases =>
      have command (fields : List (String × Datum)) :
          (clauseCommand fields).all Piece.isSteady = true := by
        rcases clauseCommand_cases fields with same | ⟨body, same⟩ <;> rw [same] <;> rfl
      have single (clause : Datum) : clause.clausePieces.all Piece.isSteady = true := by
        cases clause with
        | dict fields =>
            simp only [Datum.clausePieces, List.cons_append, List.all_cons, List.all_append,
              command]
            split <;> rfl
        | _ => rfl
      have clauses (items : List Datum) : (clausesBetween items).all Piece.isSteady = true := by
        induction items with
        | nil => rfl
        | cons clause rest ih =>
            cases rest with
            | nil => exact single clause
            | cons next rest =>
                rw [clausesBetween, List.all_append, List.all_cons, single, ih]
                rfl
      rw [Command.pieces, List.all_append, List.all_append, clauses]
      rfl
  | cond line kind op left right inverted =>
      have inside : (condPieces kind op left right).all Piece.isSteady = true := by
        unfold condPieces
        repeat' split
        all_goals rfl
      simp only [Command.pieces, List.all_append, inside]
      repeat' split
      all_goals rfl
  | _ =>
      rw [Command.pieces]
      repeat' split
      all_goals rfl

/-- A command inside is asked for as it is, or without its braces. -/
theorem usual_of_mem {style asked : Style} {value : Command} {inner : Datum}
    (other : value.tag ≠ .cond) (tame : ∀ piece ∈ value.pieces style, piece.Tame)
    (inside : .inner inner asked ∈ value.pieces style) :
    asked = .plain ∨ asked = .braces true := by
  have none := @inner_not_mem_redirPieces inner asked
  cases value with
  | pipe behind items =>
      cases items with
      | seq kind items =>
          cases items with
          | nil => cases inside
          | cons first rest =>
              rw [Command.pieces, pipePieces] at inside tame
              split at inside
              next wait =>
                  rw [if_pos wait] at tame
                  exact (tame (.headers first) (by simp)).elim
              next ready =>
                  have listed : .inner inner asked ∈ piecesBetween " | " (first :: rest) := by
                    split at inside
                    · simpa using inside
                    · exact inside
                  exact .inl (mem_piecesBetween.mp listed).2
      | _ => cases inside
  | and left right noBraces =>
      rw [Command.pieces] at inside tame
      split at inside
      next wait =>
          rw [if_pos wait] at tame
          exfalso
          split at tame
          · exact tame (.headers left) (by simp)
          · exact tame (.headers left) (by simp)
      next ready =>
          left
          split at inside
          · simp at inside
            tauto
          · simp at inside
            tauto
  | case line argument cases =>
      have listed : .inner inner asked ∈ clausesBetween cases.clauses := by
        simpa [Command.pieces] using inside
      obtain ⟨fields, _, held⟩ := mem_clausesBetween listed
      obtain ⟨_, _, rfl⟩ := mem_clauseCommand held
      exact bareStyle_cases inner
  | cond => exact absurd rfl other
  | simple | arith =>
      rw [Command.pieces] at inside
      simp [none] at inside
  | _ =>
      rw [Command.pieces] at inside
      repeat' split at inside
      all_goals
        simp [none] at inside
        grind [bareStyle_cases]

/-! ## Trees -/

/-- The text of a command clashes just where something in it does, and else has the edges that the
command tells. -/
inductive Resolved (style : Style) (value : Command) (text : String) : Prop where
  | clash : ClashesInside style value → Clashed text → Resolved style value text
  | known {edges : Edges} : ¬ ClashesInside style value → HasEdges text edges →
      Known style (.command value) edges → Resolved style value text

theorem clashesInside_iff {style : Style} {value : Command} :
    ClashesInside style value ↔ value.ClashesItself style ∨ ∃ inner asked,
      .inner (.command inner) asked ∈ value.pieces style ∧ ClashesInside asked inner := by
  constructor
  · rintro ⟨last, held, printed, clash⟩
    cases printed with
    | self => exact .inl clash
    | inside member deeper => exact .inr ⟨_, _, member, last, held, deeper, clash⟩
  · rintro (clash | ⟨inner, asked, member, last, held, deeper, clash⟩)
    · exact ⟨style, value, .self, clash⟩
    · exact ⟨last, held, .inside member deeper, clash⟩

section Trees

variable {style : Style} {value : Command} {shown : Option String}

/-- If nothing inside clashes, the construct decides. -/
theorem Told.resolved (told : Told style value (inserted shown))
    (rendered : value.render style = .ok shown)
    (calm : ∀ inner asked, .inner (.command inner) asked ∈ value.pieces style →
      ¬ ClashesInside asked inner) : Resolved style value (inserted shown) := by
  obtain ⟨result, settles, faithful⟩ := told
  cases faithful with
  | clash clashes => exact .clash (clashesInside_iff.mpr (.inl clashes)) settles
  | edges apart opened shut =>
      refine .known ?_ settles ⟨fun text spelled => ?_, opened, shut⟩
      · rw [clashesInside_iff]
        rintro (clashes | ⟨inner, asked, member, deeper⟩)
        · exact apart clashes
        · exact calm inner asked member deeper
      · obtain ⟨again, same, rfl⟩ := spelled.spells_of_one
        cases rendered.symm.trans same
        exact settles

theorem steady_of_spells {piece : Piece} {text : String} (tame : piece.Tame)
    (own : piece.isSteady = true) (spells : piece.Spells text)
    (inside : ∀ datum asked, piece = .inner datum asked → Steady text) : Steady text := by
  cases piece with
  | fixed =>
      cases spells
      simp only [Piece.isSteady, Bool.and_eq_true, bne_iff_ne] at own
      exact steady_literal own.1 own.2
  | inner datum asked => exact inside datum asked rfl
  | redirs omitted datum => exact (hasEdges_of_quiet (tame.2 text spells)).steady
  | headers | bodies => exact tame.elim
  | word | words | call | patterns => exact (hasEdges_of_quiet (tame text spells).2).steady

/-- A text clashes if a piece of it does. -/
theorem Spelled.clashed {pieces : List Piece} {text : String} {piece : Piece}
    (spelled : Spelled pieces text)
    (steady : ∀ piece ∈ pieces, ∀ part, piece.Spells part → Steady part)
    (inside : piece ∈ pieces) (clash : ∀ part, piece.Spells part → Clashed part) :
    Clashed text := by
  induction pieces generalizing text with
  | nil => cases inside
  | cons first rest ih =>
      obtain ⟨start, others, spells, following, rfl⟩ := spelled.cons_cases
      rcases List.mem_cons.mp inside with rfl | later
      · exact (clash start spells).append others
      · refine (steady first List.mem_cons_self start spells).append_clashed ?_
        exact ih following (fun piece held => steady piece (List.mem_cons_of_mem _ held)) later

/-- Each tame command that prints is resolved. -/
theorem resolved_of_render (usual : style = .plain ∨ style = .braces true)
    (tame : Tame style value) (rendered : value.render style = .ok shown) :
    Resolved style value (inserted shown) := by
  induction size : sizeOf value using Nat.strongRecOn generalizing value style shown with
  | ind bound ih =>
  by_cases isCond : value.tag = .cond
  · refine (told_cond isCond usual tame rendered).resolved rendered ?_
    rintro inner asked member ⟨last, held, printed, clash⟩
    have again := isCond_of_printed isCond rendered (.inside member printed)
    cases held <;> cases again
    exact clash
  obtain ⟨unbraced, calm⟩ := tame style value .self
  have spelled := spelled_of_render rendered
  have inner {held : Command} {asked : Style} {part : String}
      (member : .inner (.command held) asked ∈ value.pieces style)
      (spells : (Piece.inner (.command held) asked).Spells part) : Resolved asked held part := by
    obtain ⟨text, printed, rfl⟩ := spells
    have smaller := sizeOf_lt_of_mem_pieces member
    refine ih _ ?_ (usual_of_mem isCond calm member) (tame.inside member) printed rfl
    simp at smaller
    omega
  by_cases clash : ∃ held asked, .inner (.command held) asked ∈ value.pieces style ∧
      ClashesInside asked held
  · obtain ⟨held, asked, member, deeper⟩ := clash
    refine .clash (clashesInside_iff.mpr (.inr ⟨held, asked, member, deeper⟩)) ?_
    refine spelled.clashed (fun piece inside part spells => ?_) member fun part spells => ?_
    · refine steady_of_spells (calm piece inside) ?_ spells ?_
      · exact List.all_eq_true.mp (all_isSteady style value) piece inside
      · rintro datum asked rfl
        obtain ⟨held, rfl⟩ := calm _ inside
        cases inner inside spells with
        | clash _ clashed => exact clashed.steady
        | known _ edged _ => exact edged.steady
    · cases inner member spells with
      | clash _ clashed => exact clashed
      | known apart => exact absurd deeper apart
  · push Not at clash
    refine (told_of_composed isCond ⟨usual, unbraced, calm, ?_, spelled⟩).resolved rendered clash
    intro datum asked member
    obtain ⟨held, rfl⟩ := calm _ member
    obtain ⟨part, spells, _⟩ := spelled.exists_spells _ member
    cases inner member spells with
    | clash deeper => exact absurd deeper (clash held asked member)
    | known _ _ known => exact ⟨_, known⟩

end Trees

/--
The text of a tame tree holds an ampersand before a semicolon just where a
construct in it closes a command that ends with an ampersand, or puts an
ampersand before a command that starts with a semicolon.
-/
theorem clashes_iff_clashesInside {tree : Command} {text : String} (tame : Tame .plain tree)
    (rendered : tree.render .plain = .ok (some text)) :
    Clashes text.toList ↔ ClashesInside .plain tree := by
  rw [clashes_iff]
  cases resolved_of_render (.inl rfl) tame rendered with
  | clash inside clashed =>
      have bad := clashed .clear (by decide)
      simp only [inserted] at bad
      simp [bad, inside, State.isBad]
  | known apart edged =>
      have run := edged.run (show State.clear ≠ .closing by decide)
      simp only [inserted] at run
      rw [run]
      refine iff_of_false ?_ apart
      rw [Edges.run]
      split <;> decide

/-- A piece is tame, and so is all that is printed in it. -/
def TameThrough : Piece → Prop
  | .inner datum asked => ∃ value, datum = .command value ∧ Tame asked value
  | piece => piece.Tame

theorem tame_of_pieces {style : Style} {value : Command} (pieces : List Piece)
    (unbraced : value.Unbraced) (same : value.pieces style = pieces)
    (each : ∀ piece ∈ pieces, TameThrough piece) : Tame style value := by
  subst same
  intro last held printed
  cases printed with
  | self =>
      refine ⟨unbraced, fun piece inside => ?_⟩
      have through := each piece inside
      cases piece with
      | inner datum asked =>
          obtain ⟨value, rfl, _⟩ := through
          exact ⟨value, rfl⟩
      | _ => exact through
  | inside member deeper =>
      obtain ⟨value, same, tame⟩ := each _ member
      cases same
      exact tame last held deeper

/-- A job that runs a command. -/
def asJob (node : Datum) : Datum :=
  .command (.background .null node (.list []) .null (.bool true))

theorem tameThrough_oneLetter {letter : Char} (known : letter = 'a' ∨ letter = 'b') :
    TameThrough (.inner (oneLetter letter) .plain) := by
  refine ⟨_, rfl, tame_of_pieces [.call (.list []) (.list [wordOf true [letter]])] trivial rfl ?_⟩
  intro piece inside
  cases List.mem_singleton.mp inside
  rintro text ⟨assigned, words, before, behind, rfl⟩
  cases before
  rcases known with rfl | rfl <;> cases behind <;> decide

theorem tameThrough_asJob {node : Datum} (tame : TameThrough (.inner node .plain)) :
    TameThrough (.inner (asJob node) .plain) := by
  refine ⟨_, rfl, tame_of_pieces [.inner node .plain, .fixed " &"] rfl rfl ?_⟩
  simpa [TameThrough, Piece.Tame] using tame

/-- A group that only ends with a job is closed with a semicolon, behind the ampersand. -/
theorem clashes_iff_clashesInside_group :
    let tree := Command.group
      (.command (.and (oneLetter 'a') (asJob (oneLetter 'b')) (.bool true)))
    Tame .plain tree ∧ tree.render .plain = .ok (some "\x7b a && b &; \x7d") ∧
      ClashesInside .plain tree ∧ Clashes "\x7b a && b &; \x7d".toList := by
  intro tree
  have tame : Tame .plain tree := by
    refine tame_of_pieces [.fixed "\x7b ", .inner
      (.command (.and (oneLetter 'a') (asJob (oneLetter 'b')) (.bool true))) .plain,
      .fixed "; \x7d"] trivial rfl ?_
    have list : Tame .plain (.and (oneLetter 'a') (asJob (oneLetter 'b')) (.bool true)) := by
      refine tame_of_pieces [.inner (oneLetter 'a') .plain, .fixed " && ",
        .inner (asJob (oneLetter 'b')) .plain] trivial rfl ?_
      simp only [List.forall_mem_cons, List.not_mem_nil]
      exact ⟨tameThrough_oneLetter (.inl rfl), trivial,
        tameThrough_asJob (tameThrough_oneLetter (.inr rfl)), by simp⟩
    simpa [TameThrough, Piece.Tame] using list
  have rendered : tree.render .plain = .ok (some "\x7b a && b &; \x7d") := by rfl
  have inside : ClashesInside .plain tree := by
    refine ⟨.plain, tree, .self, by decide, rfl, ?_⟩
    exact .further rfl (.here (.inl rfl))
  exact ⟨tame, rendered, inside, (clashes_iff_clashesInside tame rendered).mpr inside⟩

/-- A loop puts a semicolon behind a job. -/
theorem clashes_of_loop :
    let tree := Command.whileLoop (oneLetter 'a') (asJob (oneLetter 'b'))
    Tame .plain tree ∧
      tree.render .plain = .ok (some "while a; do             b &; done ") ∧
      Clashes "while a; do             b &; done ".toList := by
  intro tree
  refine ⟨?_, by rfl, ?_⟩
  · refine tame_of_pieces [.fixed "while ", .inner (oneLetter 'a') .plain,
      .fixed "; do             ", .inner (asJob (oneLetter 'b')) .plain, .fixed "; done "]
      trivial rfl ?_
    simp only [List.forall_mem_cons, List.not_mem_nil]
    exact ⟨trivial, tameThrough_oneLetter (.inl rfl), trivial,
      tameThrough_asJob (tameThrough_oneLetter (.inr rfl)), trivial, by simp⟩
  · rw [clashes_iff]
    rfl

end ShellTree
