import ShellTree.Proofs.Escapes

/-!
# Single quotes that become double ones

A word between single quotes is printed between double quotes, with a backslash
before each double quote in it and every other character as it is.  Between
double quotes the shell still expands what a dollar sign or a backquote begins,
and takes some backslashes off.  So the text is read back as the word just where
no character in it does anything of that kind.
-/

namespace ShellTree

/-! ## Reading between double quotes -/

namespace Quoting

/-- A character that makes an expansion of a dollar sign before it. -/
def opensExpansion (c : Char) : Bool :=
  c.isAlphanum || ['_', '@', '*', '#', '?', '-', '$', '!', '\x7b', '('].contains c

/-- Does a character begin an expansion, given what follows it? -/
def expands (c : Char) (rest : List Char) : Bool :=
  c == '\x60' || (c == '$' && rest.head?.any opensExpansion)

/--
The characters of a text behind an opening double quote, up to the closing one
at its end.  There are none where the quote is closed earlier or not at all, or
where something is expanded.  A dollar sign that begins no expansion stands for
itself.
-/
def content : Quoting → List Char → Option (List Char)
  | _, [] => none
  | place, c :: rest =>
      if place = .double ∧ c = '"' then
        if rest = [] then some [] else none
      else if place = .double ∧ expands c rest = true then none
      else (content (place.step c).1 rest).map fun others => (place.step c).2 ++ others

/-- The characters that a double-quoted text stands for, if nothing in it is expanded. -/
def contentText : List Char → Option (List Char)
  | [] => none
  | c :: rest => if c = '"' then content .double rest else none

/-- What is left of a character behind a backslash between double quotes, and of the backslash. -/
def behindBackslash (c : Char) : List Char :=
  if c = '\n' then [] else if c ∈ active then [c] else ['\\', c]

theorem length_behindBackslash (c : Char) : (behindBackslash c).length ≤ 2 := by
  unfold behindBackslash
  split
  · exact Nat.zero_le 2
  · split
    · exact Nat.le_succ 1
    · exact Nat.le_refl 2

theorem length_behindBackslash_of_taken {c : Char} (taken : c ∈ '\n' :: active) :
    (behindBackslash c).length ≤ 1 := by
  unfold behindBackslash
  split
  · exact Nat.zero_le 1
  · next newline =>
      rw [if_pos ((List.mem_cons.mp taken).resolve_left newline)]
      exact Nat.le_refl 1

theorem behindBackslash_of_not_taken {c : Char} (left : c ∉ '\n' :: active) :
    behindBackslash c = ['\\', c] := by
  rw [List.mem_cons, not_or] at left
  rw [behindBackslash, if_neg left.1, if_neg left.2]

theorem content_cons_backslash (text : List Char) :
    content .double ('\\' :: text) = content .doubleEscape text := by
  rw [content, if_neg (by decide), if_neg (by simp [expands])]
  exact congrFun Option.map_id (content .doubleEscape text)

theorem content_behind_backslash (c : Char) (text : List Char) :
    content .doubleEscape (c :: text) =
      (content .double text).map (behindBackslash c ++ ·) := by
  rw [content, if_neg (by simp), if_neg (by simp)]
  simp only [step, behindBackslash, active, List.mem_cons, List.not_mem_nil, or_false]

theorem content_cons_quote {text : List Char} (more : text ≠ []) :
    content .double ('"' :: text) = none := by
  rw [content, if_pos ⟨rfl, rfl⟩, if_neg more]

theorem content_cons_of_expands {c : Char} {text : List Char} (expanded : expands c text = true) :
    content .double (c :: text) = none := by
  have other : c ≠ '"' := by
    rintro rfl
    simp [expands] at expanded
  rw [content, if_neg fun both => other both.2, if_pos ⟨rfl, expanded⟩]

theorem content_cons {c : Char} {text : List Char} (literal : expands c text = false)
    (quote : c ≠ '"') (slash : c ≠ '\\') :
    content .double (c :: text) = (content .double text).map (c :: ·) := by
  have kept : Quoting.double.step c = (.double, [c]) := by
    rw [step, if_neg quote, if_neg slash]
  rw [content, if_neg fun both => quote both.2, if_neg fun both => by simp [literal] at both, kept]
  rfl

end Quoting

/-! ## Characters in print -/

/-- Characters between double quotes as they are printed, up to the closing quote. -/
def requoted (chars : List Char) : List Char :=
  (chars.flatMap fun c => if c = '"' then ['\\', '"'] else [c]) ++ ['"']

theorem requoted_ne_nil (chars : List Char) : requoted chars ≠ [] := by
  simp [requoted]

theorem requoted_cons_quote (chars : List Char) :
    requoted ('"' :: chars) = '\\' :: '"' :: requoted chars := by
  simp [requoted]

theorem requoted_cons {c : Char} (other : c ≠ '"') (chars : List Char) :
    requoted (c :: chars) = c :: requoted chars := by
  simp [requoted, other]

/-- Characters begin an expansion in print just where they do by themselves. -/
theorem expands_requoted (c : Char) (chars : List Char) :
    Quoting.expands c (requoted chars) = Quoting.expands c chars := by
  cases chars with
  | nil => simp [requoted, Quoting.expands, Quoting.opensExpansion]
  | cons next rest =>
      by_cases quote : next = '"'
      · subst quote
        simp [requoted_cons_quote, Quoting.expands, Quoting.opensExpansion]
      · simp [requoted_cons quote, Quoting.expands]

/-- A character means nothing between double quotes, given what follows it. -/
def inertBefore (rest : List Char) (c : Char) : Bool :=
  !Quoting.expands c rest &&
    (c != '\\' || rest.head?.any fun next => !('\n' :: Quoting.active).contains next)

/-- No character means anything between double quotes. -/
def inert : List Char → Bool
  | [] => true
  | c :: rest => inertBefore rest c && inert rest

/-! ## What is read back -/

theorem content_requoted_quote (chars : List Char) :
    Quoting.content .double (requoted ('"' :: chars)) =
      (Quoting.content .double (requoted chars)).map ('"' :: ·) := by
  rw [requoted_cons_quote, Quoting.content_cons_backslash, Quoting.content_behind_backslash]
  rfl

theorem content_requoted_backslash (chars : List Char) :
    Quoting.content .double (requoted ('\\' :: chars)) =
      Quoting.content .doubleEscape (requoted chars) := by
  rw [requoted_cons (by decide), Quoting.content_cons_backslash]

theorem content_requoted_of_expands {c : Char} {chars : List Char}
    (expanded : Quoting.expands c chars = true) :
    Quoting.content .double (requoted (c :: chars)) = none := by
  have other : c ≠ '"' := by
    rintro rfl
    simp [Quoting.expands] at expanded
  rw [requoted_cons other]
  exact Quoting.content_cons_of_expands ((expands_requoted c chars).trans expanded)

theorem content_requoted_cons {c : Char} {chars : List Char}
    (literal : Quoting.expands c chars = false) (quote : c ≠ '"') (slash : c ≠ '\\') :
    Quoting.content .double (requoted (c :: chars)) =
      (Quoting.content .double (requoted chars)).map (c :: ·) := by
  rw [requoted_cons quote]
  exact Quoting.content_cons ((expands_requoted c chars).trans literal) quote slash

/-- A backslash at the end escapes the closing quote. -/
theorem content_escaped_nil : Quoting.content .doubleEscape (requoted []) = none := by
  decide

/-- A backslash before a printed double quote escapes the backslash there. -/
theorem content_escaped_quote (chars : List Char) :
    Quoting.content .doubleEscape (requoted ('"' :: chars)) = none := by
  rw [requoted_cons_quote, Quoting.content_behind_backslash,
    Quoting.content_cons_quote (requoted_ne_nil chars)]
  rfl

theorem content_escaped_cons {c : Char} (quote : c ≠ '"') (chars : List Char) :
    Quoting.content .doubleEscape (requoted (c :: chars)) =
      (Quoting.content .double (requoted chars)).map (Quoting.behindBackslash c ++ ·) := by
  rw [requoted_cons quote, Quoting.content_behind_backslash]

/-- No more is read back than was printed, with a backslash before it or not. -/
theorem length_content_requoted (chars : List Char) :
    (∀ read, Quoting.content .double (requoted chars) = some read →
      read.length ≤ chars.length) ∧
    ∀ read, Quoting.content .doubleEscape (requoted chars) = some read →
      read.length ≤ chars.length + 1 := by
  induction chars with
  | nil =>
      refine ⟨fun read found => ?_, fun read found => ?_⟩
      · cases found
        exact Nat.le_refl 0
      · rw [content_escaped_nil] at found
        cases found
  | cons c rest later =>
      obtain ⟨plain, escaped⟩ := later
      refine ⟨fun read found => ?_, fun read found => ?_⟩
      · by_cases quote : c = '"'
        · subst quote
          rw [content_requoted_quote, Option.map_eq_some_iff] at found
          obtain ⟨others, inside, rfl⟩ := found
          exact Nat.succ_le_succ (plain others inside)
        by_cases slash : c = '\\'
        · subst slash
          rw [content_requoted_backslash] at found
          exact escaped read found
        cases literal : Quoting.expands c rest with
        | true =>
            rw [content_requoted_of_expands literal] at found
            cases found
        | false =>
            rw [content_requoted_cons literal quote slash, Option.map_eq_some_iff] at found
            obtain ⟨others, inside, rfl⟩ := found
            exact Nat.succ_le_succ (plain others inside)
      · by_cases quote : c = '"'
        · subst quote
          rw [content_escaped_quote] at found
          cases found
        · rw [content_escaped_cons quote, Option.map_eq_some_iff] at found
          obtain ⟨others, inside, rfl⟩ := found
          have few := Quoting.length_behindBackslash c
          have short := plain others inside
          rw [List.length_append, List.length_cons]
          omega

/-- A backslash that is taken off is missing from what is read back. -/
theorem content_escaped_ne {c : Char} (quote : c ≠ '"') (taken : c ∈ '\n' :: Quoting.active)
    (chars : List Char) :
    Quoting.content .doubleEscape (requoted (c :: chars)) ≠ some ('\\' :: c :: chars) := by
  intro found
  rw [content_escaped_cons quote, Option.map_eq_some_iff] at found
  obtain ⟨others, inside, same⟩ := found
  have few := Quoting.length_behindBackslash_of_taken taken
  have short := (length_content_requoted chars).1 others inside
  have long := congrArg List.length same
  rw [List.length_append, List.length_cons, List.length_cons] at long
  omega

theorem inertBefore_of_not_active {c : Char} (plain : c ∉ Quoting.active) (rest : List Char) :
    inertBefore rest c = true := by
  simp only [Quoting.active, List.mem_cons, List.not_mem_nil, or_false, not_or] at plain
  obtain ⟨dollar, backquote, _, slash⟩ := plain
  simp [inertBefore, Quoting.expands, dollar, backquote, slash]

theorem inertBefore_backslash (c : Char) (chars : List Char) :
    inertBefore (c :: chars) '\\' = true ↔ c ∉ '\n' :: Quoting.active := by
  have literal : Quoting.expands '\\' (c :: chars) = false := rfl
  rw [inertBefore, literal, ← List.contains_iff_mem, Bool.not_eq_true, Bool.not_false,
    Bool.true_and, bne_self_eq_false, Bool.false_or, List.head?_cons, Option.any_some,
    Bool.not_eq_true']

theorem inert_backslash_cons (c : Char) (chars : List Char) :
    inert ('\\' :: c :: chars) = true ↔ c ∉ '\n' :: Quoting.active ∧ inert chars = true := by
  rw [inert, inert, Bool.and_eq_true, Bool.and_eq_true, inertBefore_backslash]
  refine and_congr_right fun left => and_iff_right ?_
  exact inertBefore_of_not_active (fun active => left (List.mem_cons_of_mem '\n' active)) chars

/--
Printed characters are read back just where they are inert.  Behind a backslash
that is still open, they are read back with the backslash just where they are
inert behind it.
-/
theorem content_requoted_iff (chars : List Char) :
    (Quoting.content .double (requoted chars) = some chars ↔ inert chars = true) ∧
    (Quoting.content .doubleEscape (requoted chars) = some ('\\' :: chars) ↔
      inert ('\\' :: chars) = true) := by
  induction chars with
  | nil => decide
  | cons c rest later =>
      obtain ⟨plain, escaped⟩ := later
      refine ⟨?_, ?_⟩
      · by_cases quote : c = '"'
        · subst quote
          have before : inertBefore rest '"' = true := by
            simp [inertBefore, Quoting.expands]
          rw [content_requoted_quote, Option.map_eq_some_iff]
          simp [inert, before, ← plain]
        by_cases slash : c = '\\'
        · subst slash
          rw [content_requoted_backslash]
          exact escaped
        cases literal : Quoting.expands c rest with
        | true =>
            have before : inertBefore rest c = false := by
              simp [inertBefore, literal]
            simp [content_requoted_of_expands literal, inert, before]
        | false =>
            have before : inertBefore rest c = true := by
              simp [inertBefore, literal, slash]
            rw [content_requoted_cons literal quote slash, Option.map_eq_some_iff]
            simp [inert, before, ← plain]
      · -- What is read back behind a backslash that is taken off is too short.
        rw [inert_backslash_cons]
        by_cases quote : c = '"'
        · subst quote
          simp [content_escaped_quote, Quoting.active]
        by_cases taken : c ∈ '\n' :: Quoting.active
        · exact iff_of_false (content_escaped_ne quote taken rest) fun both => both.1 taken
        · rw [content_escaped_cons quote, Quoting.behindBackslash_of_not_taken taken,
            Option.map_eq_some_iff]
          simp [taken, ← plain]

/-! ## Words between single quotes -/

/-- A text between double quotes is read back from its printed characters. -/
theorem contentText_quoted (text : String) :
    Quoting.contentText ("\"" ++ inMode .quoted text ++ "\"").toList =
      Quoting.content .double (requoted text.toList) := by
  have chars : ("\"" ++ inMode .quoted text ++ "\"").toList = '"' :: requoted text.toList := by
    rw [inMode, if_pos rfl]
    simp [requoted]
  rw [chars, Quoting.contentText, if_pos rfl]

namespace Shfmt

variable {part word : Json} {text : String}

/-- A text between single quotes is printed between double quotes. -/
theorem singleQuoted_shows (typed : part.get? "Type" = some (.str Kind.singleQuoted.label))
    (value : (part.get? "Value").getD (.str "") = .str text) (mode : QuoteMode) :
    PartShows none mode part ("\"" ++ inMode .quoted text ++ "\"") := by
  have absent : literal? none part = .ok none := rfl
  obtain ⟨_, kind⟩ := Json.fetch_of_get? typed
  have worth : part.textField "Value" = .ok (.str text) := by
    cases part with
    | obj fields => exact congrArg Except.ok value
    | _ => cases typed
  refine ⟨_, ?_, .quoted (.cells _)⟩
  rw [readPart]
  simp only [absent, kind, kindOf?_label, worth, bind, Except.bind]
  rfl

/--
A word between single quotes is printed between double quotes, and the shell
reads the text back as the word just where every character of it is inert: no
backquote, no dollar sign that begins an expansion, and no backslash at the end
or before a dollar sign, a backquote, a double quote, a backslash or a newline.
-/
theorem singleQuoted_read_back (listed : word.items? "Parts" = some [part])
    (typed : part.get? "Type" = some (.str Kind.singleQuoted.label))
    (value : (part.get? "Value").getD (.str "") = .str text) :
    ∃ read shown, readWord none word = .ok read ∧ textOf read = .ok shown ∧
      shown = "\"" ++ inMode .quoted text ++ "\"" ∧
      (Quoting.contentText shown.toList = some text.toList ↔ inert text.toList = true) := by
  obtain ⟨read, same, printed⟩ := word_shows_part listed (singleQuoted_shows typed value .unquoted)
  refine ⟨read, _, same, printed, rfl, ?_⟩
  rw [contentText_quoted]
  exact (content_requoted_iff text.toList).1

/-- Double quotes, a lone dollar sign and a backslash before a letter are read back. -/
theorem singleQuoted_read_back_inert :
    ∃ read shown, readWord none (wordNode (valueNode .singleQuoted "\"5 $\" \\n")) = .ok read ∧
      textOf read = .ok shown ∧ shown = "\"\\\"5 $\\\" \\n\"" ∧
      Quoting.contentText shown.toList = some "\"5 $\" \\n".toList := by
  have listed : (wordNode (valueNode .singleQuoted "\"5 $\" \\n")).items? "Parts" =
      some [valueNode .singleQuoted "\"5 $\" \\n"] := rfl
  obtain ⟨read, shown, same, printed, text, back⟩ := singleQuoted_read_back listed rfl rfl
  exact ⟨read, shown, same, printed, text.trans (by decide), back.mpr (by decide)⟩

/-- A dollar sign before a name is expanded in what is printed. -/
theorem singleQuoted_dollar_expanded :
    ∃ read, readWord none (wordNode (valueNode .singleQuoted "$x")) = .ok read ∧
      textOf read = .ok "\"$x\"" ∧ Quoting.contentText "\"$x\"".toList = none := by
  have typed : (valueNode .singleQuoted "$x").get? "Type" =
      some (.str Kind.singleQuoted.label) := rfl
  obtain ⟨read, same, printed⟩ := wordNode_shows (singleQuoted_shows typed rfl .unquoted)
  have text : "\"" ++ inMode .quoted "$x" ++ "\"" = "\"$x\"" := by decide
  exact ⟨read, same, text ▸ printed, by decide⟩

end Shfmt

end ShellTree
