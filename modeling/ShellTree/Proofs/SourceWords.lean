import ShellTree.Proofs.Assignments
import ShellTree.Proofs.Decoding

/-!
# Words that point into the script

A part of a word that says where it begins and ends is taken from the script,
whatever else it says about itself.  The parts are taken and read one by one, so
a word prints as it stands in the script if each of its parts is a text there,
and as another text if a part cuts through a character or is no text at all.
-/

namespace ShellTree

namespace Shfmt

/-- The bytes from one offset to another that is not before it. -/
structure Range where
  start : Nat
  finish : Nat
  ordered : start ≤ finish

namespace Range

/-- The bytes of a script in a range. -/
def within (range : Range) (bytes : List UInt8) : List UInt8 :=
  (bytes.take range.finish).drop range.start

theorem slice_eq (range : Range) (bytes : List UInt8) :
    slice bytes range.start range.finish = range.within bytes := by
  have start : place bytes.length range.start = min range.start bytes.length := by
    rw [place, if_neg (by omega), Int.toNat_natCast]
  have finish : place bytes.length range.finish = min range.finish bytes.length := by
    rw [place, if_neg (by omega), Int.toNat_natCast]
  rw [slice, within, start, finish]
  rcases Nat.le_total range.finish bytes.length with inside | beyond
  · have before := Nat.le_trans range.ordered inside
    rw [Nat.min_eq_left inside, Nat.min_eq_left before]
  · rw [Nat.min_eq_right beyond, List.take_of_length_le beyond, List.take_length]
    rcases Nat.le_total range.start bytes.length with before | outside
    · rw [Nat.min_eq_left before]
    · rw [Nat.min_eq_right outside, List.drop_length, List.drop_of_length_le outside]

end Range

/-- Ranges that follow each other without a gap from one offset to another. -/
def Tiles : Nat → List Range → Nat → Prop
  | start, [], finish => start = finish
  | start, range :: rest, finish => range.start = start ∧ Tiles range.finish rest finish

theorem Tiles.le {ranges : List Range} {start finish : Nat} (tiles : Tiles start ranges finish) :
    start ≤ finish := by
  induction ranges generalizing start with
  | nil => exact Nat.le_of_eq tiles
  | cons range rest ih =>
      obtain ⟨rfl, following⟩ := tiles
      exact Nat.le_trans range.ordered (ih following)

theorem drop_take_append {α : Type} (items : List α) {start middle finish : Nat}
    (first : start ≤ middle) (second : middle ≤ finish) :
    (items.take middle).drop start ++ (items.take finish).drop middle =
      (items.take finish).drop start := by
  have split : items.take finish = items.take middle ++ (items.take finish).drop middle := by
    conv_lhs => rw [← List.take_append_drop middle (items.take finish)]
    rw [List.take_take, Nat.min_eq_left second]
  conv_rhs => rw [split]
  rw [List.drop_append]
  rcases Nat.le_total middle items.length with inside | beyond
  · have none : start - (items.take middle).length = 0 := by simp; omega
    rw [none, List.drop_zero]
  · have nothing : (items.take finish).drop middle = [] :=
      List.drop_of_length_le (by simp; omega)
    rw [nothing, List.drop_nil]

/-- What tiles a range holds the bytes of the range. -/
theorem Tiles.flatten_within {ranges : List Range} {start finish : Nat}
    (tiles : Tiles start ranges finish) (bytes : List UInt8) :
    (ranges.map fun range => range.within bytes).flatten = (bytes.take finish).drop start := by
  induction ranges generalizing start with
  | nil =>
      obtain rfl : start = finish := tiles
      rw [List.drop_of_length_le (List.length_take_le start bytes)]
      rfl
  | cons range rest ih =>
      obtain ⟨rfl, following⟩ := tiles
      rw [List.map_cons, List.flatten_cons, ih following]
      exact drop_take_append bytes range.ordered following.le

/-! ## Parts and words with offsets -/

/-- The offset that a node gives for one of its ends. -/
def Offset (node : Json) (key : String) (value : Nat) : Prop :=
  ∃ pos offset, node.get? key = some pos ∧ pos.get? "Offset" = some offset ∧
    integerOf offset = .ok value

/-- A part of a word that gives the offsets of a range. -/
structure Marks (part : Json) (range : Range) : Prop where
  starts : Offset part "Pos" range.start
  ends : Offset part "End" range.finish

/-- A word whose parts give the offsets of ranges; a word that is not there has no parts. -/
inductive WordMarks : Json → List Range → Prop where
  | absent : WordMarks .null []
  | present {word : Json} {parts : List Json} {ranges : List Range}
      (listed : word.items? "Parts" = some parts) (each : List.Forall₂ Marks parts ranges) :
      WordMarks word ranges

variable {bytes : List UInt8} {mode : QuoteMode}

theorem isNull_of_integerOf {offset : Json} {value : Int} (stands : integerOf offset = .ok value) :
    offset.isNull = false := by
  cases offset with
  | null => cases stands
  | _ => rfl

/-- A part that gives its offsets is what stands in the script between them. -/
theorem Marks.literal?_eq {part : Json} {range : Range} (marks : Marks part range) :
    literal? (some bytes) part = .ok (some (Utf8.decodeReplacing (range.within bytes))) := by
  obtain ⟨pos, start, foundPos, foundStart, startValue⟩ := marks.starts
  obtain ⟨stop, finish, foundStop, foundFinish, finishValue⟩ := marks.ends
  obtain ⟨_, fetchedPos⟩ := Json.fetch_of_get? foundPos
  obtain ⟨_, fetchedStop⟩ := Json.fetch_of_get? foundStop
  rw [literal?]
  simp only [fetchedPos, fetchedStop, ok_bind, foundStart, foundFinish,
    isNull_of_integerOf startValue, isNull_of_integerOf finishValue, Bool.or_self]
  change sliceText bytes start finish = _
  simp only [sliceText, startValue, finishValue]
  rw [range.slice_eq]

theorem Marks.shows {part : Json} {range : Range} (marks : Marks part range) :
    PartShows (some bytes) mode part
      (inMode mode (Utf8.decodeReplacing (range.within bytes))) := by
  refine ⟨_, ?_, .cells _⟩
  rw [readPart, marks.literal?_eq]
  rfl

/-- The text that ranges of a script are read as, one by one. -/
def textWithin (bytes : List UInt8) (ranges : List Range) : String :=
  String.join ((ranges.map fun range => range.within bytes).map Utf8.decodeReplacing)

theorem WordMarks.textOf_eq {word : Json} {ranges : List Range} (marks : WordMarks word ranges)
    (bytes : List UInt8) :
    ∃ parts, readWord (some bytes) word = .ok parts ∧
      textOf parts = .ok (textWithin bytes ranges) := by
  cases marks with
  | absent =>
      refine ⟨[], ?_, rfl⟩
      rw [readWord]
      rfl
  | @present _ parts _ listed each =>
      have shown : List.Forall₂ (PartShows (some bytes) .unquoted) parts
          ((ranges.map fun range => range.within bytes).map Utf8.decodeReplacing) := by
        rw [List.map_map, List.forall₂_map_right_iff]
        exact each.imp fun _ _ marks => marks.shows
      obtain ⟨read, same, whole⟩ := word_shows listed shown
      exact ⟨read, same, whole.renderParts_eq⟩

/-! ## Nodes that point into a script -/

/-- The node of a position. -/
def positionNode (offset : Nat) : Json :=
  .obj [("Offset", .int offset)]

/-- The node of a part of some kind with its offsets. -/
def markedNode (kind : Kind) (range : Range) : Json :=
  .obj [("Type", .str kind.label), ("Pos", positionNode range.start),
    ("End", positionNode range.finish)]

theorem marks_markedNode (kind : Kind) (range : Range) : Marks (markedNode kind range) range :=
  ⟨⟨_, _, rfl, rfl, rfl⟩, ⟨_, _, rfl, rfl, rfl⟩⟩

/-- The node of a word with the parts that lie in given ranges. -/
def markedWord (parts : List (Kind × Range)) : Json :=
  .obj [("Parts", .arr (parts.map fun part => markedNode part.1 part.2))]

theorem wordMarks_markedWord (parts : List (Kind × Range)) :
    WordMarks (markedWord parts) (parts.map Prod.snd) := by
  apply WordMarks.present rfl
  rw [List.forall₂_map_left_iff, List.forall₂_map_right_iff]
  exact List.forall₂_same.mpr fun part _ => marks_markedNode part.1 part.2

/-! ## Scripts of any bytes -/

/--
A word whose parts tile a range of the script prints as a text, whatever the
bytes of the script are.  It is written as the bytes of that range just where
each part by itself is the bytes of a text.
-/
theorem encode_word_eq_iff {word : Json} {ranges : List Range} {start finish : Nat}
    (marks : WordMarks word ranges) (tiles : Tiles start ranges finish) (bytes : List UInt8) :
    ∃ parts text, readWord (some bytes) word = .ok parts ∧ textOf parts = .ok text ∧
      (Utf8.encode text = (bytes.take finish).drop start ↔
        ∀ range ∈ ranges, ∃ piece, Utf8.encode piece = range.within bytes) := by
  obtain ⟨parts, read, printed⟩ := marks.textOf_eq bytes
  refine ⟨parts, _, read, printed, ?_⟩
  rw [textWithin, ← tiles.flatten_within, Utf8.encode_join_decodeReplacing_iff, List.forall_mem_map]

/-- A character of two bytes in one part, and a letter between quotes in the next. -/
theorem encode_word_eq_iff_accent :
    let accent : Range := ⟨0, 2, by decide⟩
    let letter : Range := ⟨2, 3, by decide⟩
    let word := markedWord [(.literal, accent), (.doubleQuoted, letter)]
    WordMarks word [accent, letter] ∧ Tiles 0 [accent, letter] 3 ∧
      ∃ parts text, readWord (some [0xC3, 0xA9, 0x78]) word = .ok parts ∧
        textOf parts = .ok text ∧ Utf8.encode text = [0xC3, 0xA9, 0x78] := by
  intro accent letter word
  have marks : WordMarks word [accent, letter] := wordMarks_markedWord _
  have tiles : Tiles 0 [accent, letter] 3 := ⟨rfl, rfl, rfl⟩
  obtain ⟨parts, text, read, printed, same⟩ :=
    encode_word_eq_iff marks tiles [0xC3, 0xA9, 0x78]
  refine ⟨marks, tiles, parts, text, read, printed, same.mpr ?_⟩
  exact List.forall_mem_cons.mpr
    ⟨⟨"\u00e9", by decide⟩, List.forall_mem_singleton.mpr ⟨"x", by decide⟩⟩

/-- A byte that starts no character is printed as the replacement character. -/
theorem encode_word_ne_broken :
    let range : Range := ⟨0, 1, by decide⟩
    let word := markedWord [(.literal, range)]
    WordMarks word [range] ∧ Tiles 0 [range] 1 ∧
      ∃ parts text, readWord (some [0xFF]) word = .ok parts ∧ textOf parts = .ok text ∧
        Utf8.encode text = [0xEF, 0xBF, 0xBD] ∧ Utf8.encode text ≠ [0xFF] := by
  intro range word
  have marks : WordMarks word [range] := wordMarks_markedWord _
  obtain ⟨parts, read, printed⟩ := marks.textOf_eq [0xFF]
  have givenUp : Utf8.codes [0xFF] = [none] := by
    rw [Utf8.codes, show (Utf8.step 0xFF []).code = none from rfl, List.drop_nil, Utf8.codes]
  have text : textWithin [0xFF] [range] = "\ufffd" := by
    change String.join [Utf8.decodeReplacing [0xFF]] = _
    rw [Utf8.decodeReplacing, givenUp]
    rfl
  rw [text] at printed
  refine ⟨marks, ⟨rfl, rfl⟩, parts, _, read, printed, by decide, by decide⟩

/-! ## Scripts that are texts -/

/-- A stretch of a script between two of its characters' bounds. -/
structure Stretch (script : String) where
  first : script.Pos
  last : script.Pos
  ordered : first ≤ last

namespace Stretch

variable {script : String}

/-- The text of a stretch. -/
def text (stretch : Stretch script) : String :=
  String.extract stretch.first stretch.last

/-- The bytes of a stretch. -/
def range (stretch : Stretch script) : Range where
  start := stretch.first.offset.byteIdx
  finish := stretch.last.offset.byteIdx
  ordered := stretch.ordered

section

variable (before inside after : String) (whole : script = before ++ inside ++ after)

theorem splits_first :
    (String.Pos.ofEqAppend (whole.trans (String.append_assoc ..))).Splits before
      (inside ++ after) :=
  String.Pos.splits_ofEqAppend _

theorem splits_last : (String.Pos.ofEqAppend whole).Splits (before ++ inside) after :=
  String.Pos.splits_ofEqAppend whole

/-- The stretch that stands behind one text and before another. -/
def between : Stretch script where
  first := String.Pos.ofEqAppend (whole.trans (String.append_assoc ..))
  last := String.Pos.ofEqAppend whole
  ordered := by
    rw [String.Pos.le_iff, (splits_first before inside after whole).offset_eq_rawEndPos,
      (splits_last before inside after whole).offset_eq_rawEndPos, String.Pos.Raw.le_iff,
      String.byteIdx_rawEndPos, String.byteIdx_rawEndPos, String.utf8ByteSize_append]
    exact Nat.le_add_right _ _

theorem text_between : (between before inside after whole).text = inside := by
  obtain ⟨_, same⟩ := String.copy_slice_eq_iff_splits.mpr
    ⟨before, after, splits_first before inside after whole, splits_last before inside after whole⟩
  rw [text, String.extract_eq_copy_slice _ _ (between before inside after whole).ordered]
  exact same

end

end Stretch

variable {script : String}

theorem encode_extract (first last : script.Pos) :
    Utf8.encode (String.extract first last) =
      ((Utf8.encode script).take last.offset.byteIdx).drop first.offset.byteIdx := by
  rw [Utf8.encode_eq, Utf8.encode_eq, String.toByteArray_extract, ByteArray.data_extract,
    Array.toList_extract, List.extract_eq_take_drop, List.drop_take]

/-- The stretches of a word as one text. -/
def wordText (word : List (Stretch script)) : String :=
  String.join (word.map Stretch.text)

theorem map_within_encode (word : List (Stretch script)) :
    ((word.map Stretch.range).map fun range => range.within (Utf8.encode script)) =
      (word.map Stretch.text).map Utf8.encode := by
  rw [List.map_map, List.map_map]
  refine List.map_congr_left fun stretch _ => ?_
  rw [Function.comp_apply, Function.comp_apply, Stretch.text, encode_extract]
  rfl

theorem textWithin_encode (word : List (Stretch script)) :
    textWithin (Utf8.encode script) (word.map Stretch.range) = wordText word := by
  have back : Utf8.decodeReplacing ∘ Utf8.encode = id := funext Utf8.decodeReplacing_encode
  rw [textWithin, map_within_encode, List.map_map, back, List.map_id, wordText]

/-- Stretches that follow each other without a gap are the text from the first to the last. -/
theorem wordText_of_tiles {word : List (Stretch script)} {first last : script.Pos}
    (tiles : Tiles first.offset.byteIdx (word.map Stretch.range) last.offset.byteIdx) :
    wordText word = String.extract first last := by
  apply Utf8.encode_injective
  rw [wordText, Utf8.encode_join, ← map_within_encode, tiles.flatten_within, encode_extract]

/-- A call without assignments whose words consist of stretches of a script. -/
structure MarkedCall (script : String) (node : Json) (words : List (List (Stretch script))) :
    Prop where
  kind : node.get? "Type" = some (.str Kind.call.label)
  placed : ∃ line, lineOf (field node "Pos") = .ok line
  unassigned : node.items? "Assigns" = some []
  listed : ∃ arguments, node.items? "Args" = some arguments ∧
    List.Forall₂ (fun argument word => WordMarks argument (word.map Stretch.range)) arguments words

theorem exists_arguments {nodes : List Json} {words : List (List (Stretch script))}
    (each : List.Forall₂ (fun node word => WordMarks node (word.map Stretch.range)) nodes words) :
    ∃ arguments : List (Argument (some (Utf8.encode script))),
      arguments.map Argument.node = nodes ∧ arguments.map Argument.text = words.map wordText := by
  induction each with
  | nil => exact ⟨[], rfl, rfl⟩
  | @cons node word _ _ marks _ ih =>
      obtain ⟨arguments, sameNodes, sameTexts⟩ := ih
      have printed := marks.textOf_eq (Utf8.encode script)
      rw [textWithin_encode] at printed
      refine ⟨⟨node, wordText word, printed⟩ :: arguments, ?_, ?_⟩
      · rw [List.map_cons, sameNodes]
      · rw [List.map_cons, sameTexts, List.map_cons]

theorem MarkedCall.shellText_eq {node : Json} {words : List (List (Stretch script))}
    (call : MarkedCall script node words) :
    ∃ tree, readCommand (some (Utf8.encode script)) node = .ok tree ∧
      tree.shellText = .ok (some (String.intercalate " " (words.map wordText))) := by
  obtain ⟨nodes, listed, each⟩ := call.listed
  obtain ⟨arguments, rfl, texts⟩ := exists_arguments each
  have isCall : IsCall (some (Utf8.encode script)) node [] arguments :=
    ⟨call.kind, call.placed, call.unassigned, listed⟩
  rw [← texts]
  exact isCall.shellText_eq

/--
A call whose words consist of stretches of the script prints these, with a blank
between words.  Calls with the same stretches print alike, and a word whose
stretches follow each other without a gap prints as it stands in the script.
-/
theorem shellText_markedCall {node : Json} {words : List (List (Stretch script))}
    (call : MarkedCall script node words) :
    (∃ tree, readCommand (some (Utf8.encode script)) node = .ok tree ∧
      tree.shellText = .ok (some (String.intercalate " " (words.map wordText)))) ∧
    (∀ other, MarkedCall script other words →
      readCommand (some (Utf8.encode script)) other >>= Datum.shellText =
        readCommand (some (Utf8.encode script)) node >>= Datum.shellText) ∧
    ∀ word ∈ words, ∀ first last : script.Pos,
      Tiles first.offset.byteIdx (word.map Stretch.range) last.offset.byteIdx →
        wordText word = String.extract first last := by
  refine ⟨call.shellText_eq, ?_, ?_⟩
  · intro other called
    obtain ⟨tree, read, printed⟩ := call.shellText_eq
    obtain ⟨otherTree, otherRead, otherPrinted⟩ := called.shellText_eq
    rw [read, otherRead, ok_bind, ok_bind, printed, otherPrinted]
  · intro word _ first last tiles
    exact wordText_of_tiles tiles

/-- A name, and a word of a character of two bytes and an expansion. -/
theorem shellText_markedCall_accent :
    let script := "a \u00e9$x"
    let name : Stretch script := .between "" "a" " \u00e9$x" rfl
    let accent : Stretch script := .between "a " "\u00e9" "$x" rfl
    let param : Stretch script := .between "a \u00e9" "$x" "" rfl
    let node := callNode [] [markedWord [(.literal, name.range)],
      markedWord [(.literal, accent.range), (.param, param.range)]]
    MarkedCall script node [[name], [accent, param]] ∧
      ∃ tree, readCommand (some (Utf8.encode script)) node = .ok tree ∧
        tree.shellText = .ok (some script) := by
  intro script name accent param node
  have call : MarkedCall script node [[name], [accent, param]] :=
    ⟨rfl, ⟨none, rfl⟩, rfl, _, rfl,
      .cons (wordMarks_markedWord _) (.cons (wordMarks_markedWord _) .nil)⟩
  obtain ⟨⟨tree, read, printed⟩, _⟩ := shellText_markedCall call
  have texts : [[name], [accent, param]].map wordText = ["a", "\u00e9$x"] := by
    simp only [List.map_cons, List.map_nil, wordText]
    rw [Stretch.text_between, Stretch.text_between, Stretch.text_between]
    rfl
  have joined : String.intercalate " " ["a", "\u00e9$x"] = script := by decide
  rw [texts, joined] at printed
  exact ⟨call, tree, read, printed⟩

end Shfmt

end ShellTree
