import ShellTree.Bash.Reader
import ShellTree.Proofs.Encoding
import ShellTree.Proofs.Script

/-!
# Simple commands of bash are printed as they were written

Bash keeps a word as the bytes of its text, with an escape byte before every
character that would otherwise be one of its marks.  Reading takes these escape
bytes out again and nothing else, and the printer adds nothing, so a simple
command prints as its words with blanks between them.
-/

namespace ShellTree

namespace Bash

open Utf8

/-! ## Words -/

/-- The characters that are marks where they stand in a word of bash. -/
def isMark (c : Char) : Bool :=
  c == '\x01' || c == '\x7f'

/-- The bytes of a text as a word of bash holds it, with an escape byte before every mark. -/
def guarded (chars : List Char) : List UInt8 :=
  chars.flatMap fun c => if isMark c then 1 :: encodeChar c else encodeChar c

theorem guarded_of_clean {chars : List Char} (clean : ∀ c ∈ chars, isMark c = false) :
    guarded chars = chars.flatMap encodeChar := by
  induction chars with
  | nil => rfl
  | cons c rest ih =>
      have others := ih fun d inside => clean d (List.mem_cons_of_mem c inside)
      rw [guarded] at others ⊢
      rw [List.flatMap_cons, List.flatMap_cons, others, clean c List.mem_cons_self,
        if_neg Bool.false_ne_true]

/-- The number that spells a character. -/
def spelled (c : Char) : Datum :=
  .int (number (encodeChar c))

/-- The numbers of a text as a word of bash holds it. -/
def cells (chars : List Char) : List Datum :=
  chars.flatMap fun c => if isMark c then [spelled '\x01', spelled c] else [spelled c]

theorem cells_cons_of_mark {c : Char} (mark : isMark c = true) (rest : List Char) :
    cells (c :: rest) = spelled '\x01' :: spelled c :: cells rest := by
  simp [cells, mark]

theorem cells_cons_of_plain {c : Char} (plain : ¬ isMark c = true) (rest : List Char) :
    cells (c :: rest) = spelled c :: cells rest := by
  simp [cells, plain]

theorem cells_guarded (chars : List Char) :
    ((split (guarded chars)).map fun piece => .int (number piece)) = cells chars := by
  induction chars with
  | nil => simp [guarded, cells, split]
  | cons c rest ih =>
      have escape : encodeChar '\x01' = [1] := by decide
      by_cases mark : isMark c = true
      · have bytes : guarded (c :: rest) =
            encodeChar '\x01' ++ (encodeChar c ++ guarded rest) := by
          simp [guarded, mark, escape]
        rw [bytes, split_encodeChar, split_encodeChar, List.map_cons, List.map_cons, ih,
          cells_cons_of_mark mark]
        rfl
      · have bytes : guarded (c :: rest) = encodeChar c ++ guarded rest := by
          simp [guarded, mark]
        rw [bytes, split_encodeChar, List.map_cons, ih, cells_cons_of_plain mark]
        rfl

/-- A number is met by the one character that it spells. -/
theorem isInt_spelled (mark : Char) {value : Int} (same : spelled mark = .int value) (c : Char) :
    (spelled c).isInt value = decide (c = mark) := by
  have number : (number (encodeChar mark) : Int) = value := Datum.int.inj same
  by_cases equal : c = mark
  · rw [equal, same]
    simp [Datum.isInt, Datum.integer?]
  · have different : (Bash.number (encodeChar c) : Int) ≠ value := by
      intro spelledSame
      exact equal (number_encodeChar_injective (Int.ofNat.inj (spelledSame.trans number.symm)))
    simp [Datum.isInt, Datum.integer?, spelled, different, equal]

theorem isInt_escapeByte (c : Char) : (spelled c).isInt escapeByte = decide (c = '\x01') :=
  isInt_spelled '\x01' rfl c

theorem isInt_nullByte (c : Char) : (spelled c).isInt nullByte = decide (c = '\x7f') :=
  isInt_spelled '\x7f' rfl c

theorem isInt_backslash (c : Char) : (spelled c).isInt backslash = decide (c = '\\') :=
  isInt_spelled '\\' rfl c

theorem charOf_spelled (c : Char) :
    charOf (spelled c) = .ok (.part (.char (.int c.toNat) (.bool true))) :=
  charOf_int (codeOfNumber_encodeChar c)

/-- An escape byte after a backslash is kept only if the text has one there. -/
theorem keepsEscape_cells {chars : List Char} (plain : chars.head? ≠ some '\x01') :
    keepsEscape (cells chars) = false := by
  cases chars with
  | nil => rfl
  | cons c rest =>
      have different : c ≠ '\x01' := by simpa using plain
      by_cases mark : isMark c = true
      · have deleted : c = '\x7f' := by simpa [isMark, different] using mark
        rw [cells_cons_of_mark mark, keepsEscape, isInt_nullByte, deleted]
        simp
      · rw [cells_cons_of_plain mark]
        cases cells rest <;> simp [keepsEscape, isInt_escapeByte, different]

/-- What stands in a word is what its text says, without the bytes that escape marks. -/
theorem expand_cells (chars : List Char) (unbroken : ¬ ['\\', '\x01'] <:+: chars) :
    expand (cells chars) =
      .ok (chars.map fun c => .part (.char (.int c.toNat) (.bool true))) := by
  induction chars with
  | nil => rfl
  | cons c rest ih =>
      have others := ih fun inside => unbroken (List.infix_cons inside)
      by_cases mark : isMark c = true
      · rw [cells_cons_of_mark mark, expand, isInt_escapeByte, if_pos (by decide)]
        simp only [charOf_spelled, others]
        rfl
      · have noEscape : c ≠ '\x01' := by
          rintro rfl
          exact mark rfl
        have noneFollows : c = '\\' → rest.head? ≠ some '\x01' := by
          rintro rfl follows
          obtain ⟨more, rfl⟩ := List.head?_eq_some_iff.mp follows
          exact unbroken ⟨[], more, rfl⟩
        have taken : (decide (c = '\\') && keepsEscape (cells rest)) = false := by
          by_cases slash : c = '\\'
          · rw [keepsEscape_cells (noneFollows slash), Bool.and_false]
          · rw [decide_eq_false slash, Bool.false_and]
        rw [cells_cons_of_plain mark, expand.eq_def]
        simp only [isInt_escapeByte, isInt_backslash, decide_eq_true_eq, noEscape, if_false, taken,
          Bool.false_eq_true, charOf_spelled, others]
        rfl

theorem wordOfBytes_guarded {chars : List Char} (unbroken : ¬ ['\\', '\x01'] <:+: chars) :
    wordOfBytes (guarded chars) = .ok (wordOf true chars) := by
  rw [wordOfBytes, cells_guarded, expand_cells chars unbroken]
  rfl

theorem renderWord_wordOf (chars : List Char) :
    (wordOf true chars).renderWord .unquoted = .ok (String.ofList chars) := by
  rw [wordOf, Datum.renderWord, renderParts_chars true chars (.inl rfl)]

/-! ## Assignments -/

theorem cutAtEquals_append (name value : List UInt8) (absent : 61 ∉ name) :
    cutAtEquals (name ++ 61 :: value) = some (name, value) := by
  induction name with
  | nil => rfl
  | cons b rest ih =>
      have different : b ≠ 61 := fun same => absent (same ▸ List.mem_cons_self)
      have others := ih fun inside => absent (List.mem_cons_of_mem b inside)
      rw [List.cons_append, cutAtEquals, if_neg different, others]
      rfl

/-! ## Records -/

/-- The record holds a value under a key. -/
def Record.Has (record : Record) (key : String) (value : Record) : Prop :=
  ∃ fields, record = .object fields ∧ fields.lookup key = some value

theorem Record.Has.field_eq {record value : Record} {key : String} (has : record.Has key value) :
    ∃ smaller, record.field key = .ok ⟨value, smaller⟩ := by
  obtain ⟨fields, rfl, found⟩ := has
  have smaller := sizeOf_lookup found
  refine ⟨by simp; omega, ?_⟩
  simp only [Record.field]
  split
  · next inner same =>
      cases same.symm.trans found
      rfl
  · next same => cases same.symm.trans found

theorem Record.items_list (items : List Record) :
    ∃ inside, (Record.list items).items = .ok inside ∧ inside.map Subtype.val = items := by
  refine ⟨_, rfl, ?_⟩
  simp [Function.comp_def]

/-- The record of a word that spells a text. -/
structure Spells (word : Record) (text : String) : Prop where
  bytes : word.Has "word" (.bytes (guarded text.toList))
  flags : ∃ flags, word.Has "flags" (.list flags)
  unbroken : ¬ ['\\', '\x01'] <:+: text.toList

/-- Bash has marked the word as an assignment. -/
def Assigns (word : Record) : Prop :=
  ∃ flags, word.Has "flags" (.list flags) ∧ (Record.list flags).holds wordAssignment = .ok true

/-- The text has an equals sign, and no mark before the first one. -/
def NamesVariable (text : String) : Prop :=
  ∃ name value, text.toList = name ++ '=' :: value ∧
    ∀ c ∈ name, c ≠ '=' ∧ isMark c = false

/-- The record of a simple command without redirections and flags. -/
structure IsSimple (node : Record) (words : List Record) : Prop where
  kind : node.Has "type" (.int CommandType.simple.number)
  content : ∃ value com line, node.Has "value" value ∧ value.Has "simple_com" com ∧
    com.Has "line" line ∧ com.Has "words" (.list words) ∧ com.Has "redirects" (.list [])
  redirects : node.Has "redirects" (.list [])
  flags : node.Has "flags" (.list [])

theorem Spells.readWord_eq {word : Record} {text : String} (spells : Spells word text) :
    readWord word = .ok (wordOf true text.toList) := by
  obtain ⟨flags, has⟩ := spells.flags
  obtain ⟨_, bytes⟩ := spells.bytes.field_eq
  obtain ⟨_, marked⟩ := has.field_eq
  simp only [readWord, bytes, marked, bind, Except.bind, Record.wordBytes,
    wordOfBytes_guarded spells.unbroken]

theorem readSimpleWords_arguments (words : List (Record × String))
    (spells : ∀ word ∈ words, Spells word.1 word.2) :
    readSimpleWords false (words.map Prod.fst) =
      .ok ([], words.map fun word => wordOf true word.2.toList) := by
  induction words with
  | nil => rfl
  | cons word rest ih =>
      have first := spells word List.mem_cons_self
      have others := ih fun other inside => spells other (List.mem_cons_of_mem word inside)
      obtain ⟨flags, has⟩ := first.flags
      obtain ⟨_, marked⟩ := has.field_eq
      simp only [List.map_cons, readSimpleWords, marked, Record.holds, others, first.readWord_eq,
        bind, Except.bind, Bool.and_false, Bool.false_eq_true, if_false]
      rfl

/-- Reading goes on with what a step without a session has found. -/
theorem liftM_ok_bind {α β : Type} (value : α) (next : α → Reading β) :
    (liftM (Except.ok value : Except Fault α) : Reading α) >>= next = next value :=
  rfl

/-- An assignment keeps its name as a text and its value as a word. -/
theorem Spells.readAssign_eq {word : Record} {text : String} {name value : List Char}
    (spells : Spells word text) (parts : text.toList = name ++ '=' :: value)
    (clean : ∀ c ∈ name, c ≠ '=' ∧ isMark c = false) :
    readAssign word = .ok (.assign (.text (String.ofList name)) (wordOf true value)) := by
  obtain ⟨flags, has⟩ := spells.flags
  obtain ⟨_, bytes⟩ := spells.bytes.field_eq
  obtain ⟨_, marked⟩ := has.field_eq
  have cut : guarded text.toList = name.flatMap encodeChar ++ 61 :: guarded value := by
    rw [parts, ← guarded_of_clean fun c inside => (clean c inside).2]
    simp only [guarded, List.flatMap_append, List.flatMap_cons]
    rfl
  have absent : 61 ∉ name.flatMap encodeChar := by
    intro inside
    obtain ⟨c, member, among⟩ := List.mem_flatMap.mp inside
    have same := toNat_of_mem_encodeChar among (by decide)
    exact (clean c member).1 (Char.toNat_inj.mp same.symm)
  have unbroken : ¬ ['\\', '\x01'] <:+: value := by
    intro inside
    have tail : value <:+ text.toList := by
      rw [parts]
      exact (List.suffix_cons '=' value).trans (List.suffix_append _ _)
    exact spells.unbroken (inside.trans tail.isInfix)
  simp only [readAssign, bytes, bind, Except.bind, cut, cutAtEquals_append _ _ absent,
    decode?_flatMap, marked, wordOfBytes_guarded unbroken]
  rfl

/-! ## Simple commands -/

theorem intercalate_words (assigned words : List String) :
    String.intercalate " " assigned ++ (if assigned.isEmpty || words.isEmpty then "" else " ") ++
      String.intercalate " " words = String.intercalate " " (assigned ++ words) := by
  by_cases none : assigned = []
  · simp [none]
  by_cases alone : words = []
  · simp [alone]
  · rw [String.intercalate_append_of_ne_nil none alone]
    simp [none, alone]

theorem renderWordItems_wordOf (words : List (Record × String)) :
    renderWordItems (words.map fun word => wordOf true word.2.toList) =
      .ok (words.map Prod.snd) := by
  induction words with
  | nil => rfl
  | cons word rest ih =>
      simp only [List.map_cons, renderWordItems, renderWord_wordOf, ih, String.ofList_toList]
      rfl

/-- The words of a simple command, read and printed again. -/
theorem readSimpleWords_shown (words : List (Record × String))
    (spells : ∀ word ∈ words, Spells word.1 word.2)
    (assigns : ∀ word ∈ words.head?, Assigns word.1 → NamesVariable word.2) :
    ∃ assignments arguments assigned shown,
      readSimpleWords true (words.map Prod.fst) = .ok (assignments, arguments) ∧
        renderItems assignments = .ok (assigned.map some) ∧
        renderWordItems arguments = .ok shown ∧ assigned ++ shown = words.map Prod.snd := by
  cases words with
  | nil => exact ⟨[], [], [], [], rfl, rfl, rfl, rfl⟩
  | cons word rest =>
      have first := spells word List.mem_cons_self
      have others := fun other inside => spells other (List.mem_cons_of_mem word inside)
      obtain ⟨flags, has⟩ := first.flags
      obtain ⟨_, marked⟩ := has.field_eq
      cases assigned : flags.any fun item => item.integer? == some wordAssignment with
      | true =>
          obtain ⟨name, value, parts, clean⟩ := assigns word rfl
            ⟨flags, has, by rw [Record.holds, assigned]⟩
          refine ⟨[.assign (.text (String.ofList name)) (wordOf true value)], _, [word.2],
            rest.map Prod.snd, ?_, ?_, renderWordItems_wordOf rest, rfl⟩
          · simp only [List.map_cons, readSimpleWords, marked, Record.holds, assigned,
              readSimpleWords_arguments rest others, first.readAssign_eq parts clean,
              bind, Except.bind, Bool.and_self, if_true]
            rfl
          · have whole : String.ofList name ++ "=" ++ String.ofList value = word.2 := by
              apply String.toList_injective
              simp [parts]
            have shown : (Datum.text (String.ofList name)).display = .ok (String.ofList name) := rfl
            simp only [renderItems, Datum.render, Style.none?, shown, renderWord_wordOf, bind,
              Except.bind, pure, Except.pure, whole]
            rfl
      | false =>
          refine ⟨[], _, [], (word :: rest).map Prod.snd, ?_, rfl,
            renderWordItems_wordOf (word :: rest), rfl⟩
          simp only [List.map_cons, readSimpleWords, marked, Record.holds, assigned,
            readSimpleWords_arguments rest others, first.readWord_eq,
            bind, Except.bind, Bool.false_and, Bool.false_eq_true, if_false]
          rfl

/-- A simple command is printed as its words with blanks between them. -/
theorem shellText_read_simple (session : Session) {node : Record}
    (words : List (Record × String)) (simple : IsSimple node (words.map Prod.fst))
    (spells : ∀ word ∈ words, Spells word.1 word.2)
    (assigns : ∀ word ∈ words.head?, Assigns word.1 → NamesVariable word.2) :
    ∃ tree, session.read node = (.ok tree, session) ∧
      tree.shellText = .ok (some (String.intercalate " " (words.map Prod.snd))) := by
  obtain ⟨assignments, arguments, assigned, shown, read, assigned_printed, words_printed, same⟩ :=
    readSimpleWords_shown words spells assigns
  obtain ⟨value, com, line, hvalue, hcom, hline, hwords, hredirects⟩ := simple.content
  obtain ⟨_, kind⟩ := simple.kind.field_eq
  obtain ⟨_, valueField⟩ := hvalue.field_eq
  obtain ⟨_, comField⟩ := hcom.field_eq
  obtain ⟨_, lineField⟩ := hline.field_eq
  obtain ⟨_, wordsField⟩ := hwords.field_eq
  obtain ⟨_, redirectsField⟩ := hredirects.field_eq
  obtain ⟨_, outerRedirects⟩ := simple.redirects.field_eq
  obtain ⟨_, flags⟩ := simple.flags.field_eq
  obtain ⟨inside, items, values⟩ := Record.items_list (words.map Prod.fst)
  have noRedirs : readRedirs (.list []) = .ok (.list []) := rfl
  have com_read : readSimple com = .ok (.command (.simple line.datum (.list assignments)
      (.list arguments) (.list []))) := by
    simp only [readSimple, lineField, wordsField, redirectsField, items, values, read, noRedirs,
      bind, Except.bind]
    rfl
  refine ⟨.command (.simple line.datum (.list assignments) (.list arguments) (.list [])), ?_, ?_⟩
  · have tag : (Record.int CommandType.simple.number).integer?.bind CommandType.ofNumber? =
        some .simple := rfl
    rw [Session.read, readCommand]
    simp only [kind, liftM_ok_bind, tag, valueField, comField, com_read, outerRedirects, flags]
    rfl
  · have printed := render_simple line.datum assigned_printed
      (show (Datum.list arguments).renderWords = .ok shown by rw [Datum.renderWords, words_printed])
      (show Style.plain.heredocsOmitted = .ok false from rfl)
      (show (Datum.list []).renderRedirs false = .ok "" from rfl)
    rw [intercalate_words, same, String.append_empty] at printed
    exact printed

/-- The record of a word. -/
def wordRecord (bytes : List UInt8) (flags : List Int) : Record :=
  .object [("word", .bytes bytes), ("flags", .list (flags.map .int))]

/-- The record of a simple command with the given words. -/
def simpleRecord (line : Int) (words : List Record) : Record :=
  .object [("type", .int CommandType.simple.number), ("flags", .list []), ("redirects", .list []),
    ("value", .object [("simple_com",
      .object [("line", .int line), ("words", .list words), ("redirects", .list [])])])]

theorem isSimple_simpleRecord (line : Int) (words : List Record) :
    IsSimple (simpleRecord line words) words := by
  refine ⟨⟨_, rfl, rfl⟩, ⟨_, _, .int line, ⟨_, rfl, rfl⟩, ⟨_, rfl, rfl⟩, ?_, ?_, ?_⟩,
    ⟨_, rfl, rfl⟩, ⟨_, rfl, rfl⟩⟩
  · exact ⟨_, rfl, rfl⟩
  · exact ⟨_, rfl, rfl⟩
  · exact ⟨_, rfl, rfl⟩

theorem spells_wordRecord {text : String} {bytes : List UInt8} (flags : List Int)
    (spelled : guarded text.toList = bytes) (unbroken : ¬ ['\\', '\x01'] <:+: text.toList) :
    Spells (wordRecord bytes flags) text :=
  ⟨⟨_, rfl, spelled ▸ rfl⟩, ⟨_, _, rfl, rfl⟩, unbroken⟩

/-- An assignment with marks in its value, and an argument with a mark after a backslash. -/
theorem shellText_read_simple_marked :
    ∃ tree, Session.start.read (simpleRecord 1
        [wordRecord [120, 61, 36, 0xC3, 0xA9, 1, 1, 1, 127] [wordAssignment],
          wordRecord [92, 1, 127, 0xE2, 0x82, 0xAC] [wordQuoted]]) = (.ok tree, Session.start) ∧
      tree.shellText = .ok (some "x=$\u00e9\x01\x7f \\\x7f\u20ac") := by
  refine shellText_read_simple Session.start
    [(wordRecord [120, 61, 36, 0xC3, 0xA9, 1, 1, 1, 127] [wordAssignment], "x=$\u00e9\x01\x7f"),
      (wordRecord [92, 1, 127, 0xE2, 0x82, 0xAC] [wordQuoted], "\\\x7f\u20ac")]
    (isSimple_simpleRecord 1 _) ?_ ?_
  · intro word inside
    simp only [List.mem_cons, List.not_mem_nil, or_false] at inside
    rcases inside with rfl | rfl
    · have noBackslash : '\\' ∉ "x=$\u00e9\x01\x7f".toList := by decide
      exact spells_wordRecord _ (by decide) fun broken =>
        noBackslash (broken.subset List.mem_cons_self)
    · have noEscape : '\x01' ∉ "\\\x7f\u20ac".toList := by decide
      exact spells_wordRecord _ (by decide) fun broken =>
        noEscape (broken.subset (List.mem_cons_of_mem _ List.mem_cons_self))
  · rintro word ⟨⟩ _
    exact ⟨['x'], "$\u00e9\x01\x7f".toList, rfl, List.forall_mem_singleton.mpr (by decide)⟩

end Bash

end ShellTree
