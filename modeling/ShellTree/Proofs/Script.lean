import ShellTree.Print.Render
import ShellTree.Proofs.Grammar

/-!
# Scripts

A *script* is a tree that is put together from calls of plain words by the
constructs of the control structure.  It comes with the tree that the tagged
reader builds for it, with the phrase that it is, and with its text.

Where braces can be left out a sequence prints them nowhere; everywhere else it
puts them around its two sides.  The text is therefore given with a flag that
says which of the two is meant.
-/

namespace ShellTree

open Grammar (Phrase)

/-- A word that stands for itself wherever a word may stand. -/
structure PlainWord where
  text : String
  nonempty : text ≠ ""
  plain : text.toList.all Grammar.isPlain = true
  unreserved : Grammar.keywords.lookup text = none

namespace PlainWord

/-- The tree of a word, with the mark of bash on its characters or without. -/
def tree (bashMode : Bool) (word : PlainWord) : Datum :=
  wordOf bashMode word.text.toList

theorem isPlain_of_mem (word : PlainWord) : ∀ c ∈ word.text.toList, Grammar.isPlain c = true :=
  List.all_eq_true.mp word.plain

end PlainWord

/-- Scripts; an alternative that is left out is absent or the empty command. -/
inductive Script where
  | call (line : Datum) (name : PlainWord) (arguments : List PlainWord)
  | and (left right : Script)
  | or (left right : Script)
  | semi (left right : Script)
  | not (body : Script)
  | subshell (line : Datum) (body : Script)
  | ifThen (test body : Script) (absent : Bool)
  | ifElse (test body other : Script)
  | whileLoop (test body : Script)

namespace Script

/-- The tree of a script. -/
def tree : Script → Datum
  | .call line name arguments =>
      .command (.simple line (.list []) (.list ((name :: arguments).map (PlainWord.tree false)))
        (.list []))
  | .and left right => .command (.and left.tree right.tree (.bool false))
  | .or left right => .command (.or left.tree right.tree (.bool false))
  | .semi left right => .command (.semi left.tree right.tree (.bool false))
  | .not body => .command (.not body.tree (.bool false))
  | .subshell line body => .command (.subshell line body.tree (.list []))
  | .ifThen test body absent =>
      .command (.ifElse test.tree body.tree (if absent then .null else .command .empty))
  | .ifElse test body other => .command (.ifElse test.tree body.tree other.tree)
  | .whileLoop test body => .command (.whileLoop test.tree body.tree)

/-- The phrase that a script is. -/
def phrase : Script → Phrase
  | .call _ name arguments => .call ((name :: arguments).map PlainWord.text)
  | .and left right => .and left.phrase right.phrase
  | .or left right => .or left.phrase right.phrase
  | .semi left right => .sequence left.phrase right.phrase
  | .not body => .not body.phrase
  | .subshell _ body => .parens body.phrase
  | .ifThen test body _ => .ifThen test.phrase body.phrase
  | .ifElse test body other => .ifElse test.phrase body.phrase other.phrase
  | .whileLoop test body => .whileLoop test.phrase body.phrase

/-- Is a script a single command? -/
def isCommand : Script → Bool
  | .call .. | .subshell .. | .ifThen .. | .ifElse .. | .whileLoop .. => true
  | _ => false

/-- Is a script a sequence? -/
def isSemi : Script → Bool
  | .semi .. => true
  | _ => false

/-- Is a script a conditional? -/
def isConditional : Script → Bool
  | .ifThen .. | .ifElse .. => true
  | _ => false

/-- The text of a script, in a place where braces are left out or are not. -/
def text (bare : Bool) : Script → String
  | .call _ name arguments => String.intercalate " " ((name :: arguments).map PlainWord.text)
  | .and left right => inBraces (left.text false) ++ " && " ++ inBraces (right.text false)
  | .or left right => inBraces (left.text false) ++ " || " ++ inBraces (right.text false)
  | .semi left right =>
      if bare then left.text true ++ sequenceBreak ++ right.text true
      else inBraces (left.text false) ++ "\n" ++ inBraces (right.text false)
  | .not body => "! " ++ inBraces (body.text false)
  | .subshell _ body => inParens (body.text true)
  | .ifThen test body _ =>
      "if " ++ test.text true ++ "        ; then " ++ body.text true ++ "; fi"
  | .ifElse test body other =>
      if other.isConditional then
        "if " ++ test.text true ++ "        ; then " ++ body.text true ++ "; el" ++
          other.text false
      else
        "if " ++ test.text true ++ "        ; then " ++ body.text true ++ "; else " ++
          other.text true ++ "; fi"
  | .whileLoop (.not test) body =>
      "until " ++ test.text true ++ "; do             " ++ body.text true ++ "; done "
  | .whileLoop test body =>
      "while " ++ test.text true ++ "; do             " ++ body.text true ++ "; done "

/-- The style in which a script is asked for its text. -/
def style : Bool → Script → Style
  | true, script => script.tree.bareStyle
  | false, _ => .plain

end Script

/-! ## Plain words in print -/

/-- The code point of a character is the code point of that character. -/
theorem charOfCode_toNat (c : Char) : charOfCode c.toNat = .ok c := by
  have valid : c.toNat.isValidChar := c.valid
  have bound : c.toNat < 0x110000 := by
    rcases valid with low | high
    · exact Nat.lt_trans low (by decide)
    · exact high.2
  rw [charOfCode_of_lt bound, codeChar, if_pos valid, Char.ofNat_toNat]

/-- Characters are printed as they are, but for the dollar signs of words that bash did not read. -/
theorem renderParts_chars (bashMode : Bool) (chars : List Char)
    (safe : bashMode = true ∨ '$' ∉ chars) :
    renderParts .unquoted
        (chars.map fun c => .part (.char (.int c.toNat) (.bool bashMode))) =
      .ok (String.ofList chars) := by
  induction chars with
  | nil => rfl
  | cons c rest ih =>
      have others : bashMode = true ∨ '$' ∉ rest :=
        safe.imp_right fun absent inside => absent (List.mem_cons_of_mem c inside)
      have first : Datum.render (.quoting .unquoted)
          (.part (.char (.int c.toNat) (.bool bashMode))) = .ok (some (String.singleton c)) := by
        simp only [Datum.render, WordPart.render, Datum.char, charOfCode_toNat]
        rfl
      have plain : (!(Datum.bool bashMode).truthy && String.singleton c == "$") = false := by
        rcases safe with rfl | absent
        · rfl
        · have different : String.singleton c ≠ "$" := by
            intro same
            have equal : c = '$' := by simpa using congrArg String.toList same
            exact absent (equal ▸ List.mem_cons_self)
          rw [beq_eq_false_iff_ne.mpr different, Bool.and_false]
      have whole : String.singleton c ++ String.ofList rest = String.ofList (c :: rest) := by
        apply String.toList_injective
        simp
      simp only [List.map_cons, renderParts, first, ih others]
      simp only [bind, Except.bind, required, pure, Except.pure, plain, Bool.false_and,
        Bool.false_eq_true, if_false, whole]

theorem PlainWord.renderWord_tree (bashMode : Bool) (word : PlainWord) :
    (word.tree bashMode).renderWord .unquoted = .ok word.text := by
  have noDollar : '$' ∉ word.text.toList := fun inside => by
    have odd := word.isPlain_of_mem '$' inside
    exact absurd odd (by decide)
  rw [PlainWord.tree, wordOf, Datum.renderWord, renderParts_chars bashMode _ (.inr noDollar),
    String.ofList_toList]

theorem renderWordItems_tree (bashMode : Bool) (words : List PlainWord) :
    renderWordItems (words.map (PlainWord.tree bashMode)) = .ok (words.map PlainWord.text) := by
  induction words with
  | nil => rfl
  | cons word rest ih =>
      simp only [List.map_cons, renderWordItems, word.renderWord_tree bashMode, ih]
      rfl

/-! ## Commands in print -/

theorem requiredAll_some (texts : List String) :
    requiredAll (texts.map some) = .ok texts := by
  induction texts with
  | nil => rfl
  | cons text rest ih =>
      simp only [List.map_cons, requiredAll, ih]
      rfl

/-- A simple command prints its assignments, its words and its redirections in this order. -/
theorem render_simple {assignments : List Datum} {assigned words : List String}
    {arguments redirs : Datum} {behind : String} {style : Style} {omitted : Bool} (line : Datum)
    (assigned_printed : renderItems assignments = .ok (assigned.map some))
    (words_printed : arguments.renderWords = .ok words)
    (asked : style.heredocsOmitted = .ok omitted)
    (redirected : redirs.renderRedirs omitted = .ok behind) :
    (Datum.command (.simple line (.list assignments) arguments redirs)).render style =
      .ok (some (String.intercalate " " assigned ++
        (if assigned.isEmpty || words.isEmpty then "" else " ") ++
        String.intercalate " " words ++ behind)) := by
  simp only [Datum.render, Command.render, assigned_printed, words_printed, asked]
  simp only [bind, Except.bind, pure, Except.pure, requiredAll_some, redirected]

/-- A call prints its words. -/
theorem render_call (bashMode : Bool) (line : Datum) (words : List PlainWord) :
    (Datum.command (.simple line (.list []) (.list (words.map (PlainWord.tree bashMode)))
      (.list []))).render .plain =
      .ok (some (String.intercalate " " (words.map PlainWord.text))) := by
  have shown : (Datum.list (words.map (PlainWord.tree bashMode))).renderWords =
      .ok (words.map PlainWord.text) := by
    rw [Datum.renderWords, renderWordItems_tree]
  have printed := render_simple line (show renderItems [] = .ok (List.map some []) from rfl) shown
    (show Style.plain.heredocsOmitted = .ok false from rfl)
    (show (Datum.list []).renderRedirs false = .ok "" from rfl)
  simpa using printed

/-- A subshell puts its redirections behind the parenthesis if it holds a sequence. -/
theorem render_subshell {body redirs : Datum} {inner behind : String} {tag : Tag} (line : Datum)
    (tagged : body.tag = .ok tag) (printed : body.render body.bareStyle = .ok (some inner))
    (redirected : redirs.renderRedirs false = .ok behind) :
    Command.render .plain (.subshell line body redirs) =
      .ok (some (if body.isTag .semi then inParens inner ++ behind
        else inParens (inner ++ behind))) := by
  have same : body.isTag .semi = (tag == .semi) := by
    rw [Datum.tag] at tagged
    rw [Datum.isTag]
    cases found : body.tag? <;> rw [found] at tagged <;> cases tagged
    rfl
  rw [Datum.bareStyle, same] at printed
  rw [same]
  cases semi : tag == .semi <;> rw [semi] at printed
  · simp only [Bool.false_eq_true, if_false] at printed
    simp only [Command.render, tagged, printed, redirected, bind, Except.bind, Style.none?, semi]
    rfl
  · simp only [if_true] at printed
    simp only [Command.render, tagged, printed, redirected, bind, Except.bind, Style.none?, semi]
    rfl

/-! ## Scripts in print -/

namespace Script

theorem defersHeredocs_tree (script : Script) : script.tree.defersHeredocs = .ok false := by
  cases script <;> rfl

theorem exists_tag_tree (script : Script) : ∃ tag, script.tree.tag = .ok tag := by
  cases script <;> exact ⟨_, rfl⟩

theorem style_true (script : Script) :
    script.style true = if script.isSemi then .braces true else .plain := by
  cases script <;> rfl

theorem isTag_ifElse_tree (script : Script) :
    script.tree.isTag .ifElse = script.isConditional := by
  cases script <;> rfl

theorem isTag_semi_tree (script : Script) : script.tree.isTag .semi = script.isSemi := by
  cases script <;> rfl

theorem truthy_tree (script : Script) : script.tree.truthy = true := by
  cases script <;> rfl

theorem isEmptyCommand_tree (script : Script) : script.tree.isEmptyCommand = .ok false := by
  cases script with
  | call line name arguments =>
      rw [tree, Datum.isEmptyCommand]
      split <;> rfl
  | _ => rfl

theorem render_subshell {body : Script} {inner behind : String} {redirs : Datum} (line : Datum)
    (hbody : body.tree.render (body.style true) = .ok (some inner))
    (hredirs : redirs.renderRedirs false = .ok behind) :
    Command.render .plain (.subshell line body.tree redirs) =
      .ok (some (if body.isSemi then inParens inner ++ behind else inParens (inner ++ behind))) := by
  obtain ⟨tag, htag⟩ := body.exists_tag_tree
  have rendered := ShellTree.render_subshell line htag hbody hredirs
  rwa [isTag_semi_tree] at rendered

theorem style_of_single {script : Script} (single : script.isSemi = false) (bare : Bool) :
    script.style bare = .plain := by
  cases bare with
  | true => rw [style_true, single, if_neg Bool.false_ne_true]
  | false => rfl

/-- A script prints as its text. -/
theorem render_tree (bare : Bool) (script : Script) :
    script.tree.render (script.style bare) = .ok (some (script.text bare)) := by
  fun_induction text bare script with
  | case1 bare line name arguments =>
      rw [style_of_single rfl]
      exact render_call false line (name :: arguments)
  | case2 bare left right ihl ihr =>
      rw [style] at ihl ihr
      rw [style_of_single rfl]
      simp only [tree, Datum.render, Command.render, defersHeredocs_tree, ihl, ihr]
      rfl
  | case3 bare left right ihl ihr =>
      rw [style] at ihl ihr
      rw [style_of_single rfl]
      simp only [tree, Datum.render, Command.render, ihl, ihr]
      rfl
  | case4 left right ihl ihr =>
      rw [style] at ihl ihr
      rw [style_true, isSemi, if_pos rfl]
      simp only [tree, Datum.render, Command.render, ihl, ihr]
      rfl
  | case5 bare left right plain ihl ihr =>
      rw [style] at ihl ihr
      rw [Bool.eq_false_iff.mpr plain, style]
      simp only [tree, Datum.render, Command.render, ihl, ihr]
      rfl
  | case6 bare body ih =>
      rw [style] at ih
      rw [style_of_single rfl]
      simp only [tree, Datum.render, Command.render, ih]
      rfl
  | case7 bare line body ih =>
      have rendered := render_subshell line ih (show (Datum.list []).renderRedirs false = .ok ""
        from rfl)
      simp only [String.append_empty, ite_self] at rendered
      rw [style_of_single rfl]
      exact rendered
  | case8 bare test body absent iht ihb =>
      rw [style] at iht ihb
      rw [style_of_single rfl]
      simp only [tree, Datum.render, Command.render, iht, ihb]
      cases absent <;> rfl
  | case9 bare test body other conditional iht ihb iho =>
      rw [style] at iht ihb
      rw [style] at iho
      rw [style_of_single rfl]
      simp only [tree, Datum.render, Command.render, iht, ihb, iho, truthy_tree,
        isEmptyCommand_tree, isTag_ifElse_tree, conditional]
      rfl
  | case10 bare test body other simple iht ihb iho =>
      rw [style] at iht ihb iho
      rw [style_of_single rfl]
      simp only [tree, Datum.render, Command.render, iht, ihb, iho, truthy_tree,
        isEmptyCommand_tree, isTag_ifElse_tree, simple]
      rfl
  | case11 bare test body iht ihb =>
      rw [style] at iht ihb
      rw [style_of_single rfl]
      simp only [tree, Datum.render, Command.render, iht, ihb]
      rfl
  | case12 bare test body positive iht ihb =>
      have different : ∀ inner flag, test.tree = .command (.not inner flag) → False := by
        intro inner flag same
        cases test <;> simp [tree] at same
        exact positive _ rfl
      rw [style] at iht ihb
      rw [style_of_single rfl, tree, Datum.render, Command.render, iht, ihb]
      · rfl
      · exact different

end Script

end ShellTree
