import ShellTree.Proofs.Delimiter

/-!
# Escapes in print

The shell undoes escapes by two rules.  Outside quotes a backslash makes the
next character literal, whatever it is.  Between double quotes it does so only
before the characters that mean something there, and stays before all others.

The printer escapes an escaped character outside quotes if it means something
to the shell, and leaves it alone otherwise, so that a word reads back as what
it stands for.  Between double quotes it still escapes some characters that
mean nothing there, and the shell keeps their backslashes: a quoted text reads
back as what it stands for just where it holds none of these.
-/

namespace ShellTree

/-! ## Escapes as the shell reads them -/

namespace Quoting

/--
The characters of a text behind an opening double quote, up to the closing one
at its end.  There are none where the quote is closed earlier or not at all, or
where the shell would expand something.
-/
def literal : Quoting → List Char → Option (List Char)
  | _, [] => none
  | place, c :: rest =>
      if place = .double ∧ c = '"' then
        if rest = [] then some [] else none
      else if place = .double ∧ (c = '$' ∨ c = '\x60') then none
      else (literal (place.step c).1 rest).map fun others => (place.step c).2 ++ others

/-- The characters that a double-quoted text stands for. -/
def literalText : List Char → Option (List Char)
  | [] => none
  | c :: rest => if c = '"' then literal .double rest else none

/-- The characters that mean something between double quotes. -/
def active : List Char :=
  ['$', '\x60', '"', '\\']

theorem literal_cons_of_plain {c : Char} (plain : c ∉ active) (rest : List Char) :
    literal .double (c :: rest) = (literal .double rest).map (c :: ·) := by
  obtain ⟨dollar, back, quote, slash⟩ : c ≠ '$' ∧ c ≠ '\x60' ∧ c ≠ '"' ∧ c ≠ '\\' := by
    simpa [active] using plain
  have kept : Quoting.double.step c = (.double, [c]) := by
    rw [step, if_neg quote, if_neg slash]
  rw [literal, if_neg fun both => quote both.2, if_neg fun both => both.2.elim dollar back, kept]
  rfl

/-- A backslash before a character that means nothing stays. -/
theorem literal_cons_backslash {c : Char} (sameLine : c ≠ '\n') (rest : List Char) :
    literal .double ('\\' :: c :: rest) =
      (literal .double rest).map ((if c ∈ active then [c] else ['\\', c]) ++ ·) := by
  have stays : Quoting.double.step '\\' = (.doubleEscape, []) := rfl
  have taken : Quoting.doubleEscape.step c =
      (.double, if c ∈ active then [c] else ['\\', c]) := by
    rw [step, if_neg sameLine]
    simp only [active, List.mem_cons, List.not_mem_nil, or_false]
  rw [literal, if_neg (by decide), if_neg (by decide), stays, literal, if_neg (by simp),
    if_neg (by simp), taken, Option.map_map]
  rfl

/-- A text outside quotes without its escapes. -/
def unescape : List Char → List Char
  | [] => []
  | [c] => [c]
  | c :: next :: rest => if c = '\\' then next :: unescape rest else c :: unescape (next :: rest)

/-- The characters of a text outside quotes that make the next one literal. -/
def escaping : List Char → List Bool
  | [] => []
  | [_] => [false]
  | c :: next :: rest =>
      if c = '\\' then true :: false :: escaping rest else false :: escaping (next :: rest)

theorem unescape_cons_backslash (c : Char) (rest : List Char) :
    unescape ('\\' :: c :: rest) = c :: unescape rest := by
  rw [unescape, if_pos rfl]

theorem escaping_cons_backslash (c : Char) (rest : List Char) :
    escaping ('\\' :: c :: rest) = true :: false :: escaping rest := by
  rw [escaping, if_pos rfl]

theorem unescape_cons_of_ne {c : Char} (plain : c ≠ '\\') (rest : List Char) :
    unescape (c :: rest) = c :: unescape rest := by
  cases rest with
  | nil => rfl
  | cons next others => rw [unescape, if_neg plain]

theorem escaping_cons_of_ne {c : Char} (plain : c ≠ '\\') (rest : List Char) :
    escaping (c :: rest) = false :: escaping rest := by
  cases rest with
  | nil => rfl
  | cons next others => rw [escaping, if_neg plain]

/-- The character at a place is a backslash that escapes, or comes right behind one. -/
def Sheltered (text : List Char) (place : Nat) : Prop :=
  (escaping text)[place]? = some true ∨
    ∃ before, before + 1 = place ∧ (escaping text)[before]? = some true

theorem Sheltered.behind_escape {text : List Char} {place : Nat} (sheltered : Sheltered text place)
    (c : Char) : Sheltered ('\\' :: c :: text) (place + 2) := by
  rw [Sheltered, escaping_cons_backslash]
  refine sheltered.imp id ?_
  rintro ⟨before, rfl, escapes⟩
  exact ⟨before + 2, rfl, escapes⟩

theorem Sheltered.behind_plain {text : List Char} {place : Nat} (sheltered : Sheltered text place)
    {c : Char} (plain : c ≠ '\\') : Sheltered (c :: text) (place + 1) := by
  rw [Sheltered, escaping_cons_of_ne plain]
  refine sheltered.imp id ?_
  rintro ⟨before, rfl, escapes⟩
  exact ⟨before + 1, rfl, escapes⟩

/-- An escape shelters its backslash and the character behind it. -/
theorem sheltered_of_lt_two {place : Nat} (near : place < 2) (c : Char) (text : List Char) :
    Sheltered ('\\' :: c :: text) place := by
  rw [Sheltered, escaping_cons_backslash]
  match place, near with
  | 0, _ => exact .inl rfl
  | 1, _ => exact .inr ⟨0, rfl, rfl⟩

end Quoting

/-! ## Escaped characters in print -/

namespace Escape

/-- How an escaped character is written that is printable ASCII. -/
def spelling (mode : QuoteMode) (c : Char) : List Char :=
  if c ∈ everywhere ∨ (c ∈ outsideQuotes ∧ mode = .unquoted) ∨ c = '\\' then ['\\', c] else [c]

theorem charText_of_printable {c : Char} (printable : 32 ≤ c.toNat ∧ c.toNat ≤ 126)
    (other : c ≠ '\x27') (number : String) :
    charText c number = String.ofList (if c = '\\' then ['\\', c] else [c]) := by
  have visible : ∀ control : Char, control.toNat < 32 → c ≠ control := by
    rintro control low rfl
    omega
  rw [charText, if_neg other]
  by_cases slash : c = '\\'
  · rw [if_pos slash, if_pos slash, slash]
  · rw [if_neg slash, if_neg (visible '\n' (by decide)), if_neg (visible '\t' (by decide)),
      if_neg (visible '\r' (by decide)), if_neg (visible '\x08' (by decide)), if_pos printable,
      if_neg slash]
    rfl

theorem text_of_printable {c : Char} (printable : 32 ≤ c.toNat ∧ c.toNat ≤ 126)
    (mode : QuoteMode) :
    text mode (.int c.toNat) = .ok (String.ofList (spelling mode c)) := by
  have known : Datum.char (.int c.toNat) = .ok c := charOfCode_toNat c
  have written : "\\" ++ String.singleton c = String.ofList ['\\', c] :=
    String.toList_injective (by simp)
  rw [text, codeText, known]
  change (if everywhere.contains c = true then _ else
    if (outsideQuotes.contains c && mode == .unquoted) = true then _ else _) = _
  by_cases always : c ∈ everywhere
  · rw [if_pos (List.contains_iff_mem.mpr always), spelling, if_pos (.inl always)]
    exact congrArg Except.ok written
  · rw [if_neg (mt List.contains_iff_mem.mp always)]
    by_cases outside : c ∈ outsideQuotes ∧ mode = .unquoted
    · rw [if_pos (by simpa using outside), spelling, if_pos (.inr (.inl outside))]
      exact congrArg Except.ok written
    · have apostrophe : c ≠ '\x27' := fun same => always (same ▸ by decide)
      rw [if_neg (by simpa using outside), spelling]
      simp only [always, outside, false_or]
      exact congrArg Except.ok (charText_of_printable printable apostrophe _)

/-- The characters that are escaped between double quotes and mean nothing there. -/
def inVain : List Char :=
  ['\x27', '(', ')', '\x7b', '\x7d', '&', '|', ';']

theorem mem_active_iff {c : Char} (escaped : c ∈ '\\' :: everywhere) :
    c ∈ Quoting.active ↔ c ∉ inVain := by
  have each : ('\\' :: everywhere).all
      (fun c => decide (c ∈ Quoting.active ↔ c ∉ inVain)) = true := by decide
  exact of_decide_eq_true (List.all_eq_true.mp each c escaped)

theorem escaped_of_mem {c : Char} (marked : c ∈ Quoting.active ∨ c ∈ inVain) :
    c ∈ '\\' :: everywhere := by
  have active : Quoting.active ⊆ '\\' :: everywhere := by decide
  have vain : inVain ⊆ '\\' :: everywhere := by decide
  exact marked.elim (active ·) (vain ·)

/-- What the shell reads between double quotes for an escaped character. -/
def understood (c : Char) : List Char :=
  if c ∈ inVain then ['\\', c] else [c]

theorem literal_spelling {c : Char} (printable : 32 ≤ c.toNat ∧ c.toNat ≤ 126)
    (rest : List Char) :
    Quoting.literal .double (spelling .quoted c ++ rest) =
      (Quoting.literal .double rest).map (understood c ++ ·) := by
  by_cases escaped : c ∈ '\\' :: everywhere
  · have spelled : spelling .quoted c = ['\\', c] :=
      if_pos ((List.mem_cons.mp escaped).elim (.inr ∘ .inr) .inl)
    have sameLine : c ≠ '\n' := by
      rintro rfl
      exact absurd printable.1 (by decide)
    have kept : (if c ∈ Quoting.active then [c] else ['\\', c]) = understood c := by
      simp only [mem_active_iff escaped, understood, ite_not]
    rw [spelled, List.cons_append, List.cons_append, List.nil_append,
      Quoting.literal_cons_backslash sameLine, kept]
  · have spelled : spelling .quoted c = [c] := by
      refine if_neg ?_
      rintro (always | ⟨_, outside⟩ | slash)
      · exact escaped (List.mem_cons_of_mem _ always)
      · cases outside
      · exact escaped (slash ▸ List.mem_cons_self)
    have plain : c ∉ Quoting.active := fun active => escaped (escaped_of_mem (.inl active))
    have kept : understood c = [c] := if_neg fun vain => escaped (escaped_of_mem (.inr vain))
    rw [spelled, List.singleton_append, Quoting.literal_cons_of_plain plain, kept]
    rfl

end Escape

/-- An escaped character of a word that is printable ASCII. -/
structure EscapedChar where
  char : Char
  printable : 32 ≤ char.toNat ∧ char.toNat ≤ 126

namespace EscapedChar

/-- The character as a part of a word. -/
def part (value : EscapedChar) : WordPart :=
  .escaped (.int value.char.toNat)

theorem render_part (value : EscapedChar) (mode : QuoteMode) :
    value.part.render mode = .ok (String.ofList (Escape.spelling mode value.char)) := by
  rw [part, WordPart.render, Escape.text_of_printable value.printable]

theorem shows_part (value : EscapedChar) (mode : QuoteMode) :
    Shows mode [.part value.part] (String.ofList (Escape.spelling mode value.char)) := by
  refine .part (value.render_part mode) ?_
  intro code mark same
  cases same

theorem shows_parts (mode : QuoteMode) (values : List EscapedChar) :
    Shows mode (values.map fun value => .part value.part)
      (String.ofList (values.flatMap fun value => Escape.spelling mode value.char)) := by
  induction values with
  | nil => exact .nil
  | cons value rest ih =>
      rw [List.map_cons, List.flatMap_cons, String.ofList_append]
      exact (value.shows_part mode).append ih

theorem literal_spelled (values : List EscapedChar) :
    Quoting.literal .double
        ((values.flatMap fun value => Escape.spelling .quoted value.char) ++ ['"']) =
      some (values.flatMap fun value => Escape.understood value.char) := by
  induction values with
  | nil => rfl
  | cons value rest ih =>
      rw [List.flatMap_cons, List.append_assoc, Escape.literal_spelling value.printable, ih,
        List.flatMap_cons]
      rfl

theorem understood_eq_iff (values : List EscapedChar) :
    (values.flatMap fun value => Escape.understood value.char) = values.map char ↔
      ∀ value ∈ values, value.char ∉ Escape.inVain := by
  induction values with
  | nil => simp
  | cons value rest ih =>
      rw [List.flatMap_cons, List.map_cons, List.forall_mem_cons, ← ih, Escape.understood]
      by_cases vain : value.char ∈ Escape.inVain
      · -- the text starts with a backslash, which is not one of these characters
        have other : '\\' ≠ value.char := by
          intro same
          rw [← same] at vain
          exact absurd vain (by decide)
        simp [vain, other]
      · simp [vain]

/--
A quoted word of escaped characters is a double-quoted text in which nothing is
expanded.  It reads back as these characters just where there is none among
them before which the shell keeps the backslash.
-/
theorem literalText_quoted_iff (kind : SeqKind) (values : List EscapedChar) :
    ∃ text, (Datum.part (.quoted (.seq kind
        (values.map fun value => .part value.part)))).shellText = .ok (some text) ∧
      Quoting.literalText text.toList =
        some (values.flatMap fun value => Escape.understood value.char) ∧
      (Quoting.literalText text.toList = some (values.map char) ↔
        ∀ value ∈ values, value.char ∉ Escape.inVain) := by
  let body := values.flatMap fun value => Escape.spelling .quoted value.char
  have printed : (Datum.seq kind (values.map fun value => .part value.part)).renderWord .quoted =
      .ok (String.ofList body) := by
    rw [Datum.renderWord, (shows_parts .quoted values).renderParts_eq]
  have read : Quoting.literalText ("\"" ++ String.ofList body ++ "\"").toList =
      some (values.flatMap fun value => Escape.understood value.char) := by
    simp only [String.toList_append, String.toList_ofList]
    exact literal_spelled values
  refine ⟨"\"" ++ String.ofList body ++ "\"", ?_, read, ?_⟩
  · simp only [Datum.shellText, Datum.render, Style.quoteMode, WordPart.render, printed, bind,
      Except.bind, pure, Except.pure]
  · rw [read, Option.some.injEq, understood_eq_iff]

/-- An apostrophe between double quotes gets a backslash, which the shell does not take away. -/
theorem literalText_quoted_apostrophe :
    (Datum.part (.quoted (.list [.part (.escaped (.int 39))]))).shellText =
        .ok (some "\"\\'\"") ∧
      Quoting.literalText "\"\\'\"".toList = some ['\\', '\x27'] ∧
      Quoting.literalText "\"\\'\"".toList ≠ some ['\x27'] := by
  refine ⟨by rfl, by decide, by decide⟩

end EscapedChar

/-! ## Words outside quotes -/

/-- The characters that mean something to the shell outside quotes. -/
def special : List Char :=
  [' ', '\x27', '"', '\x60', '(', ')', '\x7b', '\x7d', '$', '&', '|', ';', '*', '?', '[', ']', '#',
    '<', '>', '~', '\\']

theorem Escape.spelling_unquoted (c : Char) :
    spelling .unquoted c = if c ∈ special then ['\\', c] else [c] := by
  have covered : special ⊆ everywhere ++ outsideQuotes ++ ['\\'] := by decide
  have covers : everywhere ++ outsideQuotes ++ ['\\'] ⊆ special := by decide
  have same : c ∈ special ↔ c ∈ everywhere ∨ c ∈ outsideQuotes ∨ c = '\\' := by
    have both : c ∈ special ↔ c ∈ everywhere ++ outsideQuotes ++ ['\\'] :=
      ⟨(covered ·), (covers ·)⟩
    simpa [or_assoc] using both
  simp only [spelling, same, and_true]

theorem not_mem_special_of_isPlain {c : Char} (plain : Grammar.isPlain c = true) : c ∉ special := by
  have each : special.all (fun c => !Grammar.isPlain c) = true := by decide
  intro inside
  have odd := List.all_eq_true.mp each c inside
  rw [plain] at odd
  cases odd

/--
A character of a word: an escaped one, or one that stands for itself: a letter,
a digit, a mark of a name, or a dollar sign.
-/
inductive Cell where
  | escaped (value : EscapedChar)
  | plain (char : Char) (ordinary : Grammar.isPlain char = true ∨ char = '$')

namespace Cell

/-- The dollar sign that stands for itself. -/
def dollar : Cell :=
  .plain '$' (.inr rfl)

/-- The character that a cell stands for. -/
def char : Cell → Char
  | .escaped value => value.char
  | .plain char _ => char

/-- The cell as a part of a word. -/
def part : Cell → Datum
  | .escaped value => .part value.part
  | .plain char _ => .part (.char (.int char.toNat) (.bool false))

/-- How a cell is written, given whether it is the last one. -/
def spelling (last : Bool) : Cell → List Char
  | .escaped value => Escape.spelling .unquoted value.char
  | .plain char _ => if char = '$' ∧ last = false then ['\\', char] else [char]

/-- How a word is written. -/
def spelled : List Cell → List Char
  | [] => []
  | cell :: rest => cell.spelling rest.isEmpty ++ spelled rest

theorem renderParts_part (cells : List Cell) :
    renderParts .unquoted (cells.map part) = .ok (String.ofList (spelled cells)) := by
  induction cells with
  | nil => rfl
  | cons cell rest ih =>
      rw [spelled, String.ofList_append]
      cases cell with
      | escaped value =>
          have first := value.shows_part .unquoted (rest.map part)
          rw [ih] at first
          exact first
      | plain c ordinary =>
          have empty : (rest.map part).isEmpty = rest.isEmpty := List.isEmpty_map
          have alone : (String.singleton c == "$") = decide (c = '$') := by
            rw [Bool.eq_iff_iff, beq_iff_eq, decide_eq_true_eq, ← String.toList_inj]
            simp
          have first : (part (.plain c ordinary)).render (.quoting .unquoted) =
              .ok (some (String.singleton c)) := by
            simp only [part, Datum.render, WordPart.render, Datum.char, charOfCode_toNat]
            rfl
          rw [List.map_cons, renderParts, first, ih]
          simp only [part, bind, Except.bind, required, pure, Except.pure, Datum.truthy, empty,
            alone, Except.ok.injEq, ← String.toList_inj, spelling]
          cases rest with
          | nil => simp
          | cons next others =>
              by_cases isDollar : c = '$'
              · simp [isDollar]
              · simp [isDollar]

/--
A cell is written with a backslash, or as it is.  The second is never the case
for a character that means something, but for a dollar sign that comes last.
-/
theorem spelling_cases (cell : Cell) (last : Bool) :
    cell.spelling last = ['\\', cell.char] ∨
      cell.spelling last = [cell.char] ∧ cell.char ≠ '\\' ∧
        (cell.char ∈ special → cell = dollar ∧ last = true) := by
  cases cell with
  | escaped value =>
      rw [spelling, Escape.spelling_unquoted, char]
      by_cases marked : value.char ∈ special
      · exact .inl (if_pos marked)
      · refine .inr ⟨if_neg marked, ?_, (absurd · marked)⟩
        intro slash
        exact marked (slash ▸ by decide)
  | plain c ordinary =>
      rw [spelling, char]
      by_cases guarded : c = '$' ∧ last = false
      · exact .inl (if_pos guarded)
      · refine .inr ⟨if_neg guarded, ?_, fun marked => ?_⟩
        · rintro rfl
          exact absurd ordinary (by decide)
        · have isDollar : c = '$' :=
            ordinary.resolve_left fun plain => not_mem_special_of_isPlain plain marked
          subst isDollar
          exact ⟨rfl, by simpa using guarded⟩

theorem unescape_spelled (cells : List Cell) :
    Quoting.unescape (spelled cells) = cells.map char := by
  induction cells with
  | nil => rfl
  | cons cell rest ih =>
      rw [spelled, List.map_cons, ← ih]
      rcases cell.spelling_cases rest.isEmpty with escaped | ⟨plain, noSlash, _⟩
      · rw [escaped, List.cons_append, List.cons_append, List.nil_append,
          Quoting.unescape_cons_backslash]
      · rw [plain, List.singleton_append, Quoting.unescape_cons_of_ne noSlash]

theorem sheltered_of_mem_special (cells : List Cell) {place : Nat} {c : Char}
    (found : (spelled cells)[place]? = some c) (marked : c ∈ special) :
    Quoting.Sheltered (spelled cells) place ∨
      cells.getLast? = some dollar ∧ place + 1 = (spelled cells).length := by
  induction cells generalizing place with
  | nil => cases found
  | cons cell rest ih =>
      rw [spelled] at found ⊢
      -- what is said of a place in the rest is said of it in the whole
      have last : rest.getLast? = some dollar → (cell :: rest).getLast? = some dollar := by
        intro last
        rw [List.getLast?_cons, last]
        rfl
      rcases cell.spelling_cases rest.isEmpty with escaped | ⟨plain, noSlash, sole⟩
      · rw [escaped, List.cons_append, List.cons_append, List.nil_append] at found ⊢
        match place with
        | 0 => exact .inl (Quoting.sheltered_of_lt_two (by decide) _ _)
        | 1 => exact .inl (Quoting.sheltered_of_lt_two (by decide) _ _)
        | place + 2 =>
            refine (ih found).imp (·.behind_escape cell.char) fun atEnd => ⟨last atEnd.1, ?_⟩
            rw [List.length_cons, List.length_cons, ← atEnd.2]
      · rw [plain, List.singleton_append] at found ⊢
        match place with
        | 0 =>
            cases Option.some.inj found
            obtain ⟨rfl, final⟩ := sole marked
            rw [List.isEmpty_iff.mp final]
            exact .inr ⟨rfl, rfl⟩
        | place + 1 =>
            refine (ih found).imp (·.behind_plain noSlash) fun atEnd => ⟨last atEnd.1, ?_⟩
            rw [List.length_cons, ← atEnd.2]

/--
A word outside quotes reads back as what it stands for, and no character of its
text means anything to the shell but a backslash that escapes the next one, and
a dollar sign in the last place.
-/
theorem unescape_renderWord (kind : SeqKind) (cells : List Cell) :
    ∃ text, (Datum.seq kind (cells.map part)).renderWord .unquoted = .ok text ∧
      Quoting.unescape text.toList = cells.map char ∧
      ∀ place c, text.toList[place]? = some c → c ∈ special →
        Quoting.Sheltered text.toList place ∨
          cells.getLast? = some dollar ∧ place + 1 = text.toList.length := by
  refine ⟨String.ofList (spelled cells), ?_, ?_, ?_⟩
  · rw [Datum.renderWord, renderParts_part]
  · rw [String.toList_ofList, unescape_spelled]
  · rw [String.toList_ofList]
    exact fun _ _ => sheltered_of_mem_special cells

end Cell

end ShellTree
