import ShellTree.Bash.Word

/-!
# Characters as bytes and as numbers

The bytes of a character are read as that character, and no shorter run of them
is a text.  So a byte string that spells a text is split at its characters, and
the number that the bytes of a character spell leads back to the character.
-/

namespace ShellTree

namespace Utf8

/-! ## Bytes that follow a first byte -/

/-- The next byte lies in the range that the first one promises, the others in the usual one. -/
def Follows (low high : UInt8) : List UInt8 → Prop
  | [] => True
  | next :: others => (low ≤ next ∧ next ≤ high) ∧ Follows 0x80 0xBF others

/-- The code point that following bytes complete. -/
def completed : Nat → List UInt8 → Nat
  | code, [] => code
  | code, b :: rest => completed (code * 64 + b.toNat % 64) rest

theorem follow_append {low high : UInt8} {tails : List UInt8} (follows : Follows low high tails)
    (code used : Nat) (rest : List UInt8) :
    follow tails.length low high code used (tails ++ rest) =
      ⟨some (completed code tails), used + tails.length⟩ := by
  induction tails generalizing low high code used with
  | nil => rfl
  | cons b tails ih =>
      obtain ⟨⟨above, below⟩, others⟩ := follows
      have inside : (decide (low ≤ b) && decide (b ≤ high)) = true := by simp [above, below]
      rw [List.length_cons, List.cons_append, follow, if_pos inside, ih others, completed]
      simp [Nat.add_assoc, Nat.add_comm 1]

/-- Bytes that break off are given up. -/
theorem follow_short {low high : UInt8} {tails : List UInt8} (follows : Follows low high tails)
    (more code used : Nat) :
    (follow (tails.length + more + 1) low high code used tails).code = none := by
  induction tails generalizing low high code used with
  | nil => simp [follow]
  | cons b tails ih =>
      obtain ⟨⟨above, below⟩, others⟩ := follows
      have inside : (decide (low ≤ b) && decide (b ≤ high)) = true := by simp [above, below]
      rw [List.length_cons,
        show tails.length + 1 + more + 1 = (tails.length + more + 1) + 1 by omega, follow,
        if_pos inside]
      exact ih others _ _

/-! ## The bytes of a character -/

theorem lead?_toUInt8 {n : Nat} (bound : n < 256) :
    lead? n.toUInt8 =
      if n < 0x80 then some ⟨0, 0x80, 0xBF⟩
      else if n < 0xC2 then none
      else if n < 0xE0 then some ⟨1, 0x80, 0xBF⟩
      else if n = 0xE0 then some ⟨2, 0xA0, 0xBF⟩
      else if n = 0xED then some ⟨2, 0x80, 0x9F⟩
      else if n < 0xF0 then some ⟨2, 0x80, 0xBF⟩
      else if n = 0xF0 then some ⟨3, 0x90, 0xBF⟩
      else if n < 0xF4 then some ⟨3, 0x80, 0xBF⟩
      else if n = 0xF4 then some ⟨3, 0x80, 0x8F⟩
      else none := by
  have value : n.toUInt8.toNat = n := UInt8.toNat_ofNat_of_lt' bound
  simp only [lead?, UInt8.lt_iff_toNat_lt, ← UInt8.toNat_inj, value]
  rfl

/-- Bytes that are one character: a first byte and the bytes that it promises. -/
structure Sequence (code : Nat) (first : UInt8) (tails : List UInt8) : Prop where
  lead : ∃ lead, lead? first = some lead ∧ lead.more = tails.length ∧
    Follows lead.low lead.high tails
  code_eq : completed (leadBits first tails.length) tails = code
  length_le : tails.length ≤ 3

theorem toNat_tail (n : Nat) : (0x80 + n % 64).toUInt8.toNat = 0x80 + n % 64 :=
  UInt8.toNat_ofNat_of_lt' (show 0x80 + n % 64 < 256 by omega)

/-- A following byte lies between the bounds that its payload allows. -/
theorem tail_between {n : Nat} (low high : Nat) (above : low ≤ 0x80 + n % 64)
    (below : 0x80 + n % 64 ≤ high) (byte : high < 256) :
    low.toUInt8 ≤ (0x80 + n % 64).toUInt8 ∧ (0x80 + n % 64).toUInt8 ≤ high.toUInt8 := by
  have lowValue : low.toUInt8.toNat = low := UInt8.toNat_ofNat_of_lt' (show low < 256 by omega)
  have highValue : high.toUInt8.toNat = high := UInt8.toNat_ofNat_of_lt' byte
  rw [UInt8.le_iff_toNat_le, UInt8.le_iff_toNat_le, toNat_tail, lowValue, highValue]
  exact ⟨above, below⟩

theorem tail_usual (n : Nat) :
    0x80 ≤ (0x80 + n % 64).toUInt8 ∧ (0x80 + n % 64).toUInt8 ≤ 0xBF :=
  tail_between 0x80 0xBF (by omega) (by omega) (by decide)

theorem sequence_one {n : Nat} (one : n < 0x80) : Sequence n n.toUInt8 [] := by
  refine ⟨⟨⟨0, 0x80, 0xBF⟩, ?_, rfl, trivial⟩, ?_, by simp⟩
  · rw [lead?_toUInt8 (by omega), if_pos one]
  · exact UInt8.toNat_ofNat_of_lt' (show n < 256 by omega)

theorem sequence_two {n : Nat} (low : 0x80 ≤ n) (high : n < 0x800) :
    Sequence n (0xC0 + n / 64).toUInt8 [(0x80 + n % 64).toUInt8] := by
  have value : (0xC0 + n / 64).toUInt8.toNat = 0xC0 + n / 64 :=
    UInt8.toNat_ofNat_of_lt' (show 0xC0 + n / 64 < 256 by omega)
  refine ⟨⟨⟨1, 0x80, 0xBF⟩, ?_, rfl, tail_usual n, trivial⟩, ?_, by simp⟩
  · rw [lead?_toUInt8 (by omega), if_neg (by omega), if_neg (by omega), if_pos (by omega)]
  · rw [show leadBits _ _ = (0xC0 + n / 64).toUInt8.toNat % 32 from rfl, value, completed,
      completed, toNat_tail]
    omega

theorem sequence_three {n : Nat} (valid : n.isValidChar) (low : 0x800 ≤ n) (high : n < 0x10000) :
    Sequence n (0xE0 + n / 4096).toUInt8
      [(0x80 + n / 64 % 64).toUInt8, (0x80 + n % 64).toUInt8] := by
  have value : (0xE0 + n / 4096).toUInt8.toNat = 0xE0 + n / 4096 :=
    UInt8.toNat_ofNat_of_lt' (show 0xE0 + n / 4096 < 256 by omega)
  have noSurrogate : n < 0xD800 ∨ 0xDFFF < n ∧ n < 0x110000 := valid
  refine ⟨?_, ?_, by simp⟩
  · rw [lead?_toUInt8 (by omega), if_neg (by omega), if_neg (by omega), if_neg (by omega)]
    -- the first byte fixes the range of the second, which keeps out overlong forms and surrogates
    by_cases overlong : 0xE0 + n / 4096 = 0xE0
    · rw [if_pos overlong]
      exact ⟨_, rfl, rfl, tail_between 0xA0 0xBF (by omega) (by omega) (by decide),
        tail_usual n, trivial⟩
    by_cases surrogate : 0xE0 + n / 4096 = 0xED
    · rw [if_neg overlong, if_pos surrogate]
      exact ⟨_, rfl, rfl, tail_between 0x80 0x9F (by omega) (by omega) (by decide),
        tail_usual n, trivial⟩
    · rw [if_neg overlong, if_neg surrogate, if_pos (by omega)]
      exact ⟨_, rfl, rfl, tail_usual (n / 64), tail_usual n, trivial⟩
  · rw [show leadBits _ _ = (0xE0 + n / 4096).toUInt8.toNat % 16 from rfl, value, completed,
      completed, completed, toNat_tail, toNat_tail]
    omega

theorem sequence_four {n : Nat} (valid : n.isValidChar) (low : 0x10000 ≤ n) :
    Sequence n (0xF0 + n / 262144).toUInt8
      [(0x80 + n / 4096 % 64).toUInt8, (0x80 + n / 64 % 64).toUInt8,
        (0x80 + n % 64).toUInt8] := by
  have inside : n < 0xD800 ∨ 0xDFFF < n ∧ n < 0x110000 := valid
  have value : (0xF0 + n / 262144).toUInt8.toNat = 0xF0 + n / 262144 :=
    UInt8.toNat_ofNat_of_lt' (show 0xF0 + n / 262144 < 256 by omega)
  refine ⟨?_, ?_, by simp⟩
  · rw [lead?_toUInt8 (by omega), if_neg (by omega), if_neg (by omega), if_neg (by omega),
      if_neg (by omega), if_neg (by omega), if_neg (by omega)]
    by_cases overlong : 0xF0 + n / 262144 = 0xF0
    · rw [if_pos overlong]
      exact ⟨_, rfl, rfl, tail_between 0x90 0xBF (by omega) (by omega) (by decide),
        tail_usual (n / 64), tail_usual n, trivial⟩
    by_cases usual : 0xF0 + n / 262144 < 0xF4
    · rw [if_neg overlong, if_pos usual]
      exact ⟨_, rfl, rfl, tail_usual (n / 4096), tail_usual (n / 64), tail_usual n, trivial⟩
    · rw [if_neg overlong, if_neg usual, if_pos (by omega)]
      exact ⟨_, rfl, rfl, tail_between 0x80 0x8F (by omega) (by omega) (by decide),
        tail_usual (n / 64), tail_usual n, trivial⟩
  · rw [show leadBits _ _ = (0xF0 + n / 262144).toUInt8.toNat % 8 from rfl, value, completed,
      completed, completed, completed, toNat_tail, toNat_tail, toNat_tail]
    omega

/-- A character is a first byte and the bytes that it promises. -/
theorem exists_sequence (c : Char) :
    ∃ first tails, encodeChar c = first :: tails ∧ Sequence c.toNat first tails := by
  have valid : c.toNat.isValidChar := c.valid
  rw [encodeChar]
  by_cases one : c.toNat < 0x80
  · exact ⟨_, _, if_pos one, sequence_one one⟩
  by_cases two : c.toNat < 0x800
  · exact ⟨_, _, by rw [if_neg one, if_pos two], sequence_two (by omega) two⟩
  by_cases three : c.toNat < 0x10000
  · exact ⟨_, _, by rw [if_neg one, if_neg two, if_pos three],
      sequence_three valid (by omega) three⟩
  · exact ⟨_, _, by rw [if_neg one, if_neg two, if_neg three],
      sequence_four valid (by omega)⟩

/-- A small byte of a character is the character itself. -/
theorem toNat_of_mem_encodeChar {c : Char} {b : UInt8} (inside : b ∈ encodeChar c)
    (ascii : b.toNat < 0x80) : b.toNat = c.toNat := by
  have bound : c.toNat < 0xD800 ∨ 0xDFFF < c.toNat ∧ c.toNat < 0x110000 := c.valid
  unfold encodeChar at inside
  by_cases one : c.toNat < 0x80
  · rw [if_pos one, List.mem_singleton] at inside
    rw [inside]
    exact UInt8.toNat_ofNat_of_lt' (show c.toNat < 256 by omega)
  -- all bytes of a longer character are large
  exfalso
  rw [if_neg one] at inside
  have large : ∀ n : Nat, 0x80 ≤ n → n < 256 → b ≠ n.toUInt8 := by
    rintro n above below rfl
    rw [UInt8.toNat_ofNat_of_lt' below] at ascii
    omega
  by_cases two : c.toNat < 0x800
  · rw [if_pos two] at inside
    simp only [List.mem_cons, List.not_mem_nil, or_false] at inside
    rcases inside with same | same <;> exact large _ (by omega) (by omega) same
  by_cases three : c.toNat < 0x10000
  · rw [if_neg two, if_pos three] at inside
    simp only [List.mem_cons, List.not_mem_nil, or_false] at inside
    rcases inside with same | same | same <;> exact large _ (by omega) (by omega) same
  · rw [if_neg two, if_neg three] at inside
    simp only [List.mem_cons, List.not_mem_nil, or_false] at inside
    rcases inside with same | same | same | same <;> exact large _ (by omega) (by omega) same

namespace Sequence

variable {code : Nat} {first : UInt8} {tails : List UInt8}

theorem step_append (sequence : Sequence code first tails) (rest : List UInt8) :
    step first (tails ++ rest) = ⟨some code, tails.length + 1⟩ := by
  obtain ⟨⟨lead, found, more, follows⟩, same, _⟩ := sequence
  simp only [step, found, more]
  rw [follow_append follows, same, Nat.add_comm]

theorem codes_append (sequence : Sequence code first tails) (rest : List UInt8) :
    codes (first :: (tails ++ rest)) = some code :: codes rest := by
  rw [codes, sequence.step_append rest]
  simp

end Sequence

/-! ## Texts -/

theorem Follows.take {low high : UInt8} {tails : List UInt8} (follows : Follows low high tails)
    (count : Nat) : Follows low high (tails.take count) := by
  induction tails generalizing low high count with
  | nil => simpa using follows
  | cons b rest ih =>
      cases count with
      | zero => trivial
      | succ count => exact ⟨follows.1, ih follows.2 count⟩

/-- A character that is broken off is no text. -/
theorem Sequence.not_valid_take {code : Nat} {first : UInt8} {tails : List UInt8}
    (sequence : Sequence code first tails) {count : Nat} (short : count < tails.length) :
    valid (first :: tails.take count) = false := by
  obtain ⟨⟨lead, found, more, follows⟩, _⟩ := sequence
  have length : (tails.take count).length = count := by simp; omega
  have broken := follow_short (follows.take count) (tails.length - count - 1)
    (leadBits first lead.more) 1
  rw [length, show count + (tails.length - count - 1) + 1 = lead.more by omega] at broken
  have givenUp : (step first (tails.take count)).code = none := by
    simpa only [step, found] using broken
  rw [valid, codes, List.all_cons, givenUp]
  rfl

theorem codes_encodeChar (c : Char) (rest : List UInt8) :
    codes (encodeChar c ++ rest) = some c.toNat :: codes rest := by
  obtain ⟨first, tails, bytes, sequence⟩ := exists_sequence c
  rw [bytes]
  exact sequence.codes_append rest

theorem codes_flatMap (chars : List Char) :
    codes (chars.flatMap encodeChar) = chars.map fun c => some c.toNat := by
  induction chars with
  | nil => simp [codes]
  | cons c rest ih => rw [List.flatMap_cons, codes_encodeChar, ih, List.map_cons]

theorem decode?_flatMap (chars : List Char) :
    decode? (chars.flatMap encodeChar) = some (String.ofList chars) := by
  have points : (chars.map fun c => some c.toNat).mapM id = some (chars.map Char.toNat) := by
    rw [List.mapM_map]
    induction chars with
    | nil => rfl
    | cons c rest ih => simp_all
  rw [decode?, codes_flatMap, points]
  simp [Function.comp_def]

theorem decodeReplacing_encode (text : String) : decodeReplacing (encode text) = text := by
  rw [decodeReplacing, encode, codes_flatMap]
  simp [Function.comp_def]

end Utf8

namespace Bash

open Utf8

/-! ## Pieces and their numbers -/

/-- The first of four sizes that will do is found. -/
theorem find?_size {size : Nat → Bool} {count : Nat} (bound : count ≤ 3)
    (whole : size (count + 1) = true) (short : ∀ less, less < count → size (less + 1) = false) :
    [1, 2, 3, 4].find? size = some (count + 1) := by
  match count with
  | 0 => simp [whole]
  | 1 => simp [whole, short 0]
  | 2 => simp [whole, short 0, short 1]
  | 3 => simp [whole, short 0, short 1, short 2]

theorem pieceLength_encodeChar (c : Char) (rest : List UInt8) :
    pieceLength (encodeChar c ++ rest) = (encodeChar c).length := by
  obtain ⟨first, tails, bytes, sequence⟩ := exists_sequence c
  have bound := sequence.length_le
  have whole : valid ((first :: tails ++ rest).take (tails.length + 1)) = true := by
    have all := sequence.codes_append []
    rw [List.append_nil] at all
    simp [valid, all, codes]
  have short : ∀ count, count < tails.length →
      valid ((first :: tails ++ rest).take (count + 1)) = false := by
    intro count less
    have broken := sequence.not_valid_take less
    simpa [List.take_append_of_le_length (Nat.le_of_lt less)] using broken
  rw [bytes, pieceLength, find?_size bound whole short, Option.getD_some, List.length_cons]

theorem split_encodeChar (c : Char) (rest : List UInt8) :
    split (encodeChar c ++ rest) = encodeChar c :: split rest := by
  have length := pieceLength_encodeChar c rest
  obtain ⟨first, tails, bytes, _⟩ := exists_sequence c
  rw [bytes] at length ⊢
  rw [List.cons_append] at length ⊢
  rw [split, length]
  simp

theorem number_singleton (b : UInt8) : number [b] = b.toNat := by
  simp [number]

theorem number_concat (bytes : List UInt8) (last : UInt8) :
    number (bytes ++ [last]) = number bytes * 256 + last.toNat := by
  simp [number]

theorem number_concat_div (bytes : List UInt8) (last : UInt8) :
    number (bytes ++ [last]) / 256 = number bytes := by
  have bound := last.toNat_lt
  rw [number_concat]
  omega

theorem bytesOf_number (bytes : List UInt8) : bytesOf bytes.length (number bytes) = bytes := by
  induction hcount : bytes.length generalizing bytes with
  | zero => rw [List.length_eq_zero_iff.mp hcount, bytesOf]
  | succ count ih =>
      rcases List.eq_nil_or_concat bytes with rfl | ⟨init, last, rfl⟩
      · cases hcount
      · rw [List.concat_eq_append] at hcount ⊢
        have shorter : init.length = count := by simpa using hcount
        have byte : (number (init ++ [last]) % 256).toUInt8 = last := by
          rw [number_concat, Nat.mul_add_mod_of_lt last.toNat_lt]
          exact UInt8.ofNat_toNat
        rw [bytesOf, number_concat_div, ih init shorter, byte]

theorem number_lt (bytes : List UInt8) : number bytes < Nat.pow 256 bytes.length := by
  induction hcount : bytes.length generalizing bytes with
  | zero => rw [List.length_eq_zero_iff.mp hcount]; decide
  | succ count ih =>
      rcases List.eq_nil_or_concat bytes with rfl | ⟨init, last, rfl⟩
      · cases hcount
      · rw [List.concat_eq_append] at hcount ⊢
        have shorter : number init < Nat.pow 256 count := ih init (by simpa using hcount)
        have byte := last.toNat_lt
        have power : Nat.pow 256 (count + 1) = Nat.pow 256 count * 256 := rfl
        rw [number_concat, power]
        omega

theorem digitCount_zero (limit : Nat) : digitCount limit 0 = 0 := by
  cases limit <;> rfl

/-- The digits of a number are the bytes that spell it, if the first is not null. -/
theorem digitCount_number (limit : Nat) (first : UInt8) (tails : List UInt8)
    (nonzero : first ≠ 0) (bound : tails.length < limit) :
    digitCount limit (number (first :: tails)) = tails.length + 1 := by
  induction limit generalizing tails with
  | zero => omega
  | succ limit ih =>
      rcases List.eq_nil_or_concat tails with rfl | ⟨init, last, rfl⟩
      · have positive : first.toNat ≠ 0 := fun same => nonzero (UInt8.toNat_inj.mp same)
        rw [number_singleton, digitCount, if_neg positive, Nat.div_eq_of_lt first.toNat_lt,
          digitCount_zero]
        rfl
      · rw [List.concat_eq_append] at bound ⊢
        rw [List.length_append, List.length_singleton] at bound
        have more := ih init (by omega)
        have positive : number (first :: init) ≠ 0 := by
          intro same
          rw [same, digitCount_zero] at more
          omega
        have whole := number_concat (first :: init) last
        have quotient := number_concat_div (first :: init) last
        rw [List.cons_append] at whole quotient
        rw [digitCount, if_neg (by omega), quotient, more, List.length_append,
          List.length_singleton]

/-- Up to five bytes are told from their number, if the first is not null. -/
theorem byteCount_of_ne_zero {first : UInt8} {tails : List UInt8} (nonzero : first ≠ 0)
    (short : tails.length ≤ 4) : byteCount (number (first :: tails)) = tails.length + 1 := by
  have digits := digitCount_number 5 first tails nonzero (by omega)
  have positive : number (first :: tails) ≠ 0 := by
    intro same
    rw [same, digitCount_zero] at digits
    omega
  have below : number (first :: tails) < Nat.pow 256 5 :=
    Nat.lt_of_lt_of_le (number_lt _) (Nat.pow_le_pow_right (by decide) (by simp; omega))
  rw [byteCount, if_neg positive, if_pos below, digits]

theorem byteCount_number {code : Nat} {first : UInt8} {tails : List UInt8}
    (sequence : Sequence code first tails) :
    byteCount (number (first :: tails)) = tails.length + 1 := by
  have short := sequence.length_le
  by_cases null : first = 0
  · -- the null byte promises nothing
    obtain ⟨⟨lead, found, more, _⟩, _⟩ := sequence
    rw [null] at found
    cases found
    rw [null, List.eq_nil_of_length_eq_zero more.symm]
    rfl
  · exact byteCount_of_ne_zero null (by omega)

/-- The number that spells a character stands for it. -/
theorem codeOfNumber_encodeChar (c : Char) :
    codeOfNumber (number (encodeChar c)) = .ok c.toNat := by
  have alone : codes (encodeChar c) = [some c.toNat] := by
    have read := codes_encodeChar c []
    rwa [List.append_nil, show codes [] = [] by rw [codes]] at read
  obtain ⟨first, tails, bytes, sequence⟩ := exists_sequence c
  rw [bytes] at alone ⊢
  have below := number_lt (first :: tails)
  have back := bytesOf_number (first :: tails)
  rw [List.length_cons] at below back
  rw [codeOfNumber, byteCount_number sequence]
  simp only [Nat.not_le.mpr below, if_false, back, alone]
  rfl

/-- A number becomes the cell of the code point that it stands for. -/
theorem charOf_int {n code : Nat} (stands : codeOfNumber n = .ok code) :
    charOf (.int n) = .ok (.part (.char (.int code) (.bool true))) := by
  have needed : bytesNeeded (.int n) = .ok (byteCount n) := by
    simp [bytesNeeded, Datum.integer?]
  simp only [charOf, codeOf, needed, bind, Except.bind, Datum.integer?, Int.toNat_natCast, stands]
  rfl

/-- Different characters are spelled by different numbers. -/
theorem number_encodeChar_injective {c other : Char}
    (same : number (encodeChar c) = number (encodeChar other)) : c = other := by
  have codes := (codeOfNumber_encodeChar c).symm.trans
    (same ▸ codeOfNumber_encodeChar other)
  exact Char.toNat_inj.mp (Except.ok.inj codes)

end Bash
end ShellTree
