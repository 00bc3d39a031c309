import ShellTree.Proofs.Decoding
import ShellTree.Proofs.VerbatimCommands

/-!
# Bytes that are no text are kept in their places

A byte string is split at the characters that stand in it, and a byte at which
none starts becomes a piece by itself.  So whatever is broken, too long or cut
off in it, the pieces are all of it, in order, and a word has one cell for each:
the code point of the character, or the value of the byte.
-/

namespace ShellTree

namespace Utf8

theorem valid_eq_isSome (bytes : List UInt8) :
    valid bytes = ((codes bytes).mapM id).isSome := by
  rw [valid]
  induction codes bytes with
  | nil => rfl
  | cons code rest ih =>
      rw [List.all_cons, ih, List.mapM_cons]
      cases code with
      | none => rfl
      | some point => cases rest.mapM id <;> rfl

theorem valid_encode (text : String) : valid (encode text) = true := by
  rw [valid, encode, codes_flatMap, List.all_map]
  exact List.all_eq_true.mpr fun _ _ => rfl

/-- A byte string is valid just where it is the bytes of a text. -/
theorem valid_iff (bytes : List UInt8) : valid bytes = true ↔ ∃ text, encode text = bytes := by
  constructor
  case mpr =>
    rintro ⟨text, rfl⟩
    exact valid_encode text
  intro all
  induction bytes using reading_induction with
  | nil => exact ⟨"", rfl⟩
  | char c others ih =>
      rw [valid, codes_encodeChar, List.all_cons, Option.isSome_some, Bool.true_and] at all
      obtain ⟨text, same⟩ := ih all
      refine ⟨String.singleton c ++ text, ?_⟩
      rw [encode_append, same, encode, String.toList_singleton, List.flatMap_singleton]
  | givenUp b rest broken =>
      rw [valid, codes, List.all_cons, broken, Option.isSome_none, Bool.false_and] at all
      cases all

/-- Bytes that start with a text start with its first character. -/
theorem exists_encodeChar_of_encode {text : String} {b : UInt8} {rest : List UInt8} {size : Nat}
    (same : encode text = (b :: rest).take (size + 1)) :
    ∃ c others, b :: rest = encodeChar c ++ others := by
  have whole := List.take_append_drop (size + 1) (b :: rest)
  rw [← same, encode] at whole
  rw [encode] at same
  cases chars : text.toList with
  | nil =>
      rw [chars] at same
      cases same
  | cons c others =>
      rw [chars, List.flatMap_cons, List.append_assoc] at whole
      exact ⟨c, _, whole.symm⟩

end Utf8

namespace Bash

open Utf8

/-! ## Pieces -/

/--
Bytes are cut into pieces that stand for code points.  A character is a piece.  A
byte is a piece by itself, and stands for its value, if none of the stretches of up
to four bytes that start with it is a text; at the end of the bytes they are shorter.
-/
inductive Cut : List UInt8 → List (List UInt8) → List Nat → Prop
  | done : Cut [] [] []
  | char {rest : List UInt8} {pieces : List (List UInt8)} {codes : List Nat} (c : Char)
      (following : Cut rest pieces codes) :
      Cut (encodeChar c ++ rest) (encodeChar c :: pieces) (c.toNat :: codes)
  | byte {b : UInt8} {rest : List UInt8} {pieces : List (List UInt8)} {codes : List Nat}
      (broken : ∀ size, 1 ≤ size → size ≤ 4 → ∀ text, encode text ≠ (b :: rest).take size)
      (following : Cut rest pieces codes) :
      Cut (b :: rest) ([b] :: pieces) (b.toNat :: codes)

variable {bytes : List UInt8} {pieces : List (List UInt8)} {codes : List Nat}

theorem split_of_broken {b : UInt8} {rest : List UInt8}
    (broken : ∀ size, 1 ≤ size → size ≤ 4 → ∀ text, encode text ≠ (b :: rest).take size) :
    split (b :: rest) = [b] :: split rest := by
  have none : [1, 2, 3, 4].find? (fun size => valid ((b :: rest).take size)) = none := by
    refine List.find?_eq_none.mpr fun size member good => ?_
    obtain ⟨text, same⟩ := (valid_iff _).mp good
    have bounds : 1 ≤ size ∧ size ≤ 4 := by
      simp only [List.mem_cons, List.not_mem_nil, or_false] at member
      omega
    exact broken size bounds.1 bounds.2 text same
  rw [split, pieceLength, none]
  rfl

/-- Splitting cuts every byte string. -/
theorem cut_split (bytes : List UInt8) : ∃ codes, Cut bytes (split bytes) codes := by
  induction length : bytes.length using Nat.strongRecOn generalizing bytes with
  | ind _ ih =>
      cases bytes with
      | nil => exact ⟨[], by rw [split]; exact .done⟩
      | cons b rest =>
          by_cases starts : ∃ c others, b :: rest = encodeChar c ++ others
          · obtain ⟨c, others, same⟩ := starts
            obtain ⟨first, tails, encoded, _⟩ := exists_sequence c
            have shorter : others.length < (b :: rest).length := by
              rw [same, encoded]
              simp only [List.cons_append, List.length_cons, List.length_append]
              omega
            obtain ⟨codes, cut⟩ := ih _ (length ▸ shorter) others rfl
            rw [same, split_encodeChar]
            exact ⟨c.toNat :: codes, .char c cut⟩
          -- a stretch that is a text starts with a character, and here none starts
          · have broken : ∀ count, 1 ≤ count → count ≤ 4 → ∀ text,
                encode text ≠ (b :: rest).take count := by
              intro count positive _ text same
              rw [← Nat.sub_add_cancel positive] at same
              exact starts (exists_encodeChar_of_encode same)
            obtain ⟨codes, cut⟩ := ih _ (length ▸ Nat.lt_succ_self rest.length) rest rfl
            rw [split_of_broken broken]
            exact ⟨b.toNat :: codes, .byte broken cut⟩

/-- There is no other way to cut a byte string. -/
theorem Cut.eq_split (cut : Cut bytes pieces codes) : pieces = split bytes := by
  induction cut with
  | done => rw [split]
  | char c _ ih => rw [split_encodeChar, ih]
  | byte broken _ ih => rw [split_of_broken broken, ih]

theorem Cut.flatten_eq (cut : Cut bytes pieces codes) : pieces.flatten = bytes := by
  induction cut with
  | done => rfl
  | char c _ ih => rw [List.flatten_cons, ih]
  | byte _ _ ih => rw [List.flatten_cons, ih, List.singleton_append]

/-! ## Cells -/

/-- Where no item is an escape byte, nothing is taken out. -/
theorem expand_eq_mapM {items : List Datum}
    (plain : ∀ item ∈ items, item.isInt escapeByte = false) : expand items = items.mapM charOf := by
  induction items with
  | nil => rfl
  | cons item rest ih =>
      obtain ⟨here, others⟩ := List.forall_mem_cons.mp plain
      have kept : keepsEscape rest = false := by
        cases rest with
        | nil => rfl
        | cons next more => cases more <;> simp [keepsEscape, others next List.mem_cons_self]
      rw [expand.eq_def]
      simp only [here, kept, Bool.and_false, Bool.false_eq_true, if_false, ih others,
        List.mapM_cons]

theorem byteCount_byte (b : UInt8) : byteCount (number [b]) = 1 := by
  by_cases null : b = 0
  · rw [null]
    rfl
  · exact byteCount_of_ne_zero null (show 0 ≤ 4 by decide)

/-- A byte that is no text by itself stands for its value. -/
theorem codeOfNumber_byte {b : UInt8} (broken : ∀ text, encode text ≠ [b]) :
    codeOfNumber (number [b]) = .ok b.toNat := by
  have invalid : (codes [b]).mapM id = none := by
    rw [← Option.isNone_iff_eq_none, ← Option.not_isSome, ← valid_eq_isSome, Bool.not_eq_true']
    exact Bool.eq_false_iff.mpr fun good => ((valid_iff _).mp good).elim broken
  have below : ¬ Nat.pow 256 1 ≤ number [b] := Nat.not_le.mpr (number_lt [b])
  have back : bytesOf 1 (number [b]) = [b] := bytesOf_number [b]
  rw [codeOfNumber, byteCount_byte]
  simp only [below, if_false, back, invalid]
  rw [number_singleton]

/-- The cell of a word that holds a code point. -/
def cellOf (code : Nat) : Datum :=
  .part (.char (.int code) (.bool true))

/-- Each piece becomes the cell of its code point. -/
theorem Cut.mapM_charOf (cut : Cut bytes pieces codes) :
    (pieces.map fun piece => Datum.int (number piece)).mapM charOf = .ok (codes.map cellOf) := by
  induction cut with
  | done => rfl
  | char c _ ih =>
      have cell : charOf (.int (number (encodeChar c))) = .ok (cellOf c.toNat) :=
        charOf_int (codeOfNumber_encodeChar c)
      rw [List.map_cons, List.mapM_cons, ih, cell]
      rfl
  | @byte b _ _ _ broken _ ih =>
      have cell : charOf (.int (number [b])) = .ok (cellOf b.toNat) :=
        charOf_int (codeOfNumber_byte (broken 1 (Nat.le_refl 1) (by decide)))
      rw [List.map_cons, List.mapM_cons, ih, cell]
      rfl

theorem Cut.codes_eq {points : List Nat} (cut : Cut bytes pieces codes)
    (other : Cut bytes pieces points) : codes = points := by
  have cells := Except.ok.inj (cut.mapM_charOf.symm.trans other.mapM_charOf)
  have injective : Function.Injective cellOf := by
    intro code point same
    have values : (code : Int) = point := by simpa [cellOf] using same
    exact Int.ofNat.inj values
  exact injective.list_map cells

/-- Without an escape byte, no piece spells one. -/
theorem Cut.not_escape (cut : Cut bytes pieces codes) (clean : 1 ∉ bytes) :
    ∀ item ∈ pieces.map fun piece => Datum.int (number piece), item.isInt escapeByte = false := by
  induction cut with
  | done => exact List.forall_mem_nil _
  | char c _ ih =>
      rw [List.mem_append, not_or] at clean
      have different : c ≠ '\x01' := by
        rintro rfl
        exact clean.1 (by decide)
      refine List.forall_mem_cons.mpr ⟨?_, ih clean.2⟩
      change (spelled c).isInt escapeByte = false
      rw [isInt_escapeByte, decide_eq_false different]
  | @byte b rest pieces codes _ _ ih =>
      rw [List.mem_cons, not_or] at clean
      refine List.forall_mem_cons.mpr ⟨?_, ih clean.2⟩
      change (Datum.int (number [b])).isInt escapeByte = false
      have different : (b.toNat : Int) ≠ 1 := fun same =>
        clean.1 (UInt8.toNat_inj.mp (Int.ofNat.inj same)).symm
      rw [number_singleton, Datum.isInt, Datum.integer?, escapeByte]
      simpa using different

/--
Bytes are split and decoded in their places.  Whatever byte string without an
escape byte is read, its pieces make it up.  They are the one way to cut it into
characters and bytes at which no text starts, and the word has one cell for each
of them, with its code point.
-/
theorem wordOfBytes_eq_cells (clean : 1 ∉ bytes) :
    (split bytes).flatten = bytes ∧
      ∃ codes, (∀ pieces points, Cut bytes pieces points ↔
          pieces = split bytes ∧ points = codes) ∧
        wordOfBytes bytes = .ok (.list (codes.map cellOf)) := by
  obtain ⟨codes, cut⟩ := cut_split bytes
  refine ⟨cut.flatten_eq, codes, fun pieces points => ⟨fun other => ?_, ?_⟩, ?_⟩
  · have same := other.eq_split
    subst same
    exact ⟨rfl, other.codes_eq cut⟩
  · rintro ⟨rfl, rfl⟩
    exact cut
  · rw [wordOfBytes, expand_eq_mapM (cut.not_escape clean), cut.mapM_charOf]
    rfl

/--
A character without its last byte, a backslash, an accented letter, a surrogate, and a
byte at the end that promises another.
-/
def brokenBytes : List UInt8 :=
  [0xE2, 0x82, 0x5C, 0xC3, 0xA9, 0xED, 0xA0, 0x80, 0xC3]

theorem wordOfBytes_eq_cells_broken :
    1 ∉ brokenBytes ∧ (split brokenBytes).flatten = brokenBytes ∧
      ∃ codes, (∀ pieces points, Cut brokenBytes pieces points ↔
          pieces = split brokenBytes ∧ points = codes) ∧
        wordOfBytes brokenBytes = .ok (.list (codes.map cellOf)) :=
  ⟨by decide, wordOfBytes_eq_cells (by decide)⟩

end Bash

end ShellTree
