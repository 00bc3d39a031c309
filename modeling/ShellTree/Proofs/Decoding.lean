import Mathlib.Data.List.Basic
import ShellTree.Proofs.Encoding

/-!
# Bytes that are read with replacements

Every byte string is read as some text, with a replacement character for each
part that is given up.  What is read as a character is the bytes of that
character.  What is given up is never longer than the replacement, so bytes
that are read and written again do not become fewer.  They stay the same just
where they are the bytes of a text.
-/

namespace ShellTree

namespace Utf8

/-! ## The bytes of texts -/

/-- The bytes of a character are those that strings are made of. -/
theorem encodeChar_eq (c : Char) : encodeChar c = String.utf8EncodeChar c := by
  have valid : c.toNat < 0xD800 ∨ 0xDFFF < c.toNat ∧ c.toNat < 0x110000 := c.valid
  have same : c.val.toNat = c.toNat := rfl
  simp only [encodeChar, String.utf8EncodeChar, same]
  by_cases one : c.toNat < 0x80
  · rw [if_pos one, if_pos (by omega)]
  by_cases two : c.toNat < 0x800
  · rw [if_neg one, if_pos two, if_neg (by omega), if_pos (by omega),
      show 0xC0 + c.toNat / 64 = c.toNat / 64 % 32 + 192 by omega, Nat.add_comm 0x80]
  by_cases three : c.toNat < 0x10000
  · rw [if_neg one, if_neg two, if_pos three, if_neg (by omega), if_neg (by omega),
      if_pos (by omega), show 0xE0 + c.toNat / 4096 = c.toNat / 4096 % 16 + 224 by omega,
      Nat.add_comm 0x80, Nat.add_comm 0x80]
  · rw [if_neg one, if_neg two, if_neg three, if_neg (by omega), if_neg (by omega),
      if_neg (by omega), show 0xF0 + c.toNat / 262144 = c.toNat / 262144 % 8 + 240 by omega,
      Nat.add_comm 0x80, Nat.add_comm 0x80, Nat.add_comm 0x80]

theorem encode_eq (text : String) : encode text = text.toByteArray.data.toList := by
  have bytes : text.toByteArray = text.toList.utf8Encode := by
    rw [← String.toByteArray_ofList, String.ofList_toList]
  rw [bytes, List.utf8Encode, encode, funext encodeChar_eq]
  simp

theorem encode_append (first second : String) :
    encode (first ++ second) = encode first ++ encode second := by
  rw [encode, String.toList_append, List.flatMap_append]
  rfl

theorem encode_join (texts : List String) :
    encode (String.join texts) = (texts.map encode).flatten := by
  induction texts with
  | nil => rfl
  | cons text rest ih => rw [String.join_cons, encode_append, ih, List.map_cons, List.flatten_cons]

theorem encode_injective {first second : String} (same : encode first = encode second) :
    first = second := by
  rw [← decodeReplacing_encode first, same, decodeReplacing_encode]

/-! ## Bytes that are read as a character -/

theorem of_follow {more : Nat} {low high : UInt8} {code used : Nat} {rest : List UInt8}
    {point size : Nat} (read : follow more low high code used rest = ⟨some point, size⟩) :
    ∃ tails others, rest = tails ++ others ∧ tails.length = more ∧ Follows low high tails ∧
      completed code tails = point ∧ size = used + more := by
  induction more generalizing low high code used rest with
  | zero =>
      cases read
      exact ⟨[], rest, rfl, rfl, trivial, rfl, rfl⟩
  | succ more ih =>
      cases rest with
      | nil => cases read
      | cons b rest =>
          rw [follow] at read
          split at read
          next inside =>
              obtain ⟨tails, others, same, length, follows, point, size⟩ := ih read
              have between : low ≤ b ∧ b ≤ high := by simpa using inside
              refine ⟨b :: tails, others, ?_, ?_, ⟨between, follows⟩, point, ?_⟩
              · rw [same, List.cons_append]
              · rw [List.length_cons, length]
              · omega
          next => cases read

/-- Bytes that are given up are fewer than were promised. -/
theorem used_lt_of_follow {more : Nat} {low high : UInt8} {code used : Nat} {rest : List UInt8}
    (givenUp : (follow more low high code used rest).code = none) :
    (follow more low high code used rest).used < used + more := by
  induction more generalizing low high code used rest with
  | zero => cases givenUp
  | succ more ih =>
      cases rest with
      | nil => exact Nat.lt_add_of_pos_right (Nat.succ_pos more)
      | cons b rest =>
          rw [follow] at givenUp ⊢
          split at givenUp
          next inside =>
              have fewer := ih givenUp
              rw [if_pos inside]
              omega
          next outside =>
              rw [if_neg outside]
              exact Nat.lt_add_of_pos_right (Nat.succ_pos more)

/-- The number of a byte as a byte. -/
theorem toUInt8_eq {n : Nat} {b : UInt8} (same : n = b.toNat) : n.toUInt8 = b := by
  rw [same]
  exact UInt8.ofNat_toNat

theorem Follows.between {low high b : UInt8} {tails : List UInt8}
    (follows : Follows low high (b :: tails)) :
    low.toNat ≤ b.toNat ∧ b.toNat ≤ high.toNat ∧ Follows 0x80 0xBF tails :=
  ⟨UInt8.le_iff_toNat_le.mp follows.1.1, UInt8.le_iff_toNat_le.mp follows.1.2, follows.2⟩

/-- A code point that is not a surrogate is that of a character. -/
theorem exists_char (point : Nat) (valid : point.isValidChar) : ∃ c : Char, c.toNat = point :=
  ⟨Char.ofNatAux point valid, rfl⟩

/-- A byte that follows carries six bits. -/
theorem exists_sixBits {x : UInt8} (above : 0x80 ≤ x.toNat) (below : x.toNat ≤ 0xBF) :
    ∃ bits, bits < 64 ∧ x.toNat % 64 = bits ∧ 0x80 + bits = x.toNat :=
  ⟨x.toNat - 0x80, by omega, by omega, by omega⟩

/-- Six bits are split off from those before them. -/
theorem split_sixBits (high : Nat) {bits : Nat} (small : bits < 64) :
    (high * 64 + bits) / 64 = high ∧ (high * 64 + bits) % 64 = bits := by
  omega

theorem div_twelveBits (point : Nat) : point / 4096 = point / 64 / 64 := by
  rw [Nat.div_div_eq_div_mul]

theorem div_eighteenBits (point : Nat) : point / 262144 = point / 64 / 64 / 64 := by
  rw [Nat.div_div_eq_div_mul, Nat.div_div_eq_div_mul]

theorem exists_encodeChar_two {b x : UInt8} (low : 0xC2 ≤ b.toNat) (high : b.toNat < 0xE0)
    (follows : Follows 0x80 0xBF [x]) :
    ∃ c : Char, c.toNat = completed (leadBits b 1) [x] ∧ encodeChar c = [b, x] := by
  obtain ⟨above, below, _⟩ := follows.between
  obtain ⟨bits, small, carried, byte⟩ := exists_sixBits above below
  obtain ⟨start, leading⟩ : ∃ start, 0xC0 + start = b.toNat := ⟨b.toNat - 0xC0, by omega⟩
  have point : completed (leadBits b 1) [x] = start * 64 + bits := by
    rw [← carried, show start = b.toNat % 32 by omega]
    rfl
  obtain ⟨c, same⟩ := exists_char (start * 64 + bits) (.inl (by omega))
  refine ⟨c, same.trans point.symm, ?_⟩
  obtain ⟨rest, last⟩ := split_sixBits start small
  rw [encodeChar, same, if_neg (by omega), if_pos (by omega), rest, last,
    toUInt8_eq leading, toUInt8_eq byte]

/-- The first bytes of characters of three bytes, with the range of the second byte. -/
structure LeadsThree (b : UInt8) (lead : Lead) : Prop where
  more : lead.more = 2
  first : 0xE0 ≤ b.toNat
  last : b.toNat < 0xF0
  usual : 0x80 ≤ lead.low.toNat ∧ lead.high.toNat ≤ 0xBF
  overlong : b.toNat = 0xE0 → 0xA0 ≤ lead.low.toNat
  surrogate : b.toNat = 0xED → lead.high.toNat ≤ 0x9F

theorem LeadsThree.exists_encodeChar {b x y : UInt8} {lead : Lead} (leads : LeadsThree b lead)
    (follows : Follows lead.low lead.high [x, y]) :
    ∃ c : Char, c.toNat = completed (leadBits b 2) [x, y] ∧ encodeChar c = [b, x, y] := by
  obtain ⟨_, first, last, ⟨low, high⟩, overlong, surrogate⟩ := leads
  obtain ⟨above, below, others⟩ := follows.between
  obtain ⟨aboveNext, belowNext, _⟩ := others.between
  obtain ⟨start, leading⟩ : ∃ start, 0xE0 + start = b.toNat := ⟨b.toNat - 0xE0, by omega⟩
  obtain ⟨bits, small, carried, byte⟩ := exists_sixBits (Nat.le_trans low above)
    (Nat.le_trans below high)
  obtain ⟨bits', small', carried', byte'⟩ := exists_sixBits aboveNext belowNext
  have point : completed (leadBits b 2) [x, y] = (start * 64 + bits) * 64 + bits' := by
    rw [← carried, ← carried', show start = b.toNat % 16 by omega]
    rfl
  -- neither overlong nor a surrogate
  have least : start = 0 → 32 ≤ bits := by omega
  have apart : start = 13 → bits < 32 := by omega
  have top : start < 16 := by omega
  clear overlong surrogate
  obtain ⟨c, same⟩ := exists_char ((start * 64 + bits) * 64 + bits')
    (show _ < 0xD800 ∨ 0xDFFF < _ ∧ _ < 0x110000 by omega)
  refine ⟨c, same.trans point.symm, ?_⟩
  obtain ⟨rest, end'⟩ := split_sixBits (start * 64 + bits) small'
  obtain ⟨rest', middle⟩ := split_sixBits start small
  rw [encodeChar, same, if_neg (by omega), if_neg (by omega), if_pos (by omega), div_twelveBits,
    rest, end', rest', middle, toUInt8_eq leading, toUInt8_eq byte, toUInt8_eq byte']

/-- The first bytes of characters of four bytes, with the range of the second byte. -/
structure LeadsFour (b : UInt8) (lead : Lead) : Prop where
  more : lead.more = 3
  first : 0xF0 ≤ b.toNat
  last : b.toNat ≤ 0xF4
  usual : 0x80 ≤ lead.low.toNat ∧ lead.high.toNat ≤ 0xBF
  overlong : b.toNat = 0xF0 → 0x90 ≤ lead.low.toNat
  beyond : b.toNat = 0xF4 → lead.high.toNat ≤ 0x8F

theorem LeadsFour.exists_encodeChar {b x y z : UInt8} {lead : Lead} (leads : LeadsFour b lead)
    (follows : Follows lead.low lead.high [x, y, z]) :
    ∃ c : Char, c.toNat = completed (leadBits b 3) [x, y, z] ∧ encodeChar c = [b, x, y, z] := by
  obtain ⟨_, first, last, ⟨low, high⟩, overlong, beyond⟩ := leads
  obtain ⟨above, below, others⟩ := follows.between
  obtain ⟨aboveNext, belowNext, others⟩ := others.between
  obtain ⟨aboveLast, belowLast, _⟩ := others.between
  obtain ⟨start, leading⟩ : ∃ start, 0xF0 + start = b.toNat := ⟨b.toNat - 0xF0, by omega⟩
  obtain ⟨bits, small, carried, byte⟩ := exists_sixBits (Nat.le_trans low above)
    (Nat.le_trans below high)
  obtain ⟨bits', small', carried', byte'⟩ := exists_sixBits aboveNext belowNext
  obtain ⟨bits'', small'', carried'', byte''⟩ := exists_sixBits aboveLast belowLast
  have point : completed (leadBits b 3) [x, y, z] =
      ((start * 64 + bits) * 64 + bits') * 64 + bits'' := by
    rw [← carried, ← carried', ← carried'', show start = b.toNat % 8 by omega]
    rfl
  -- neither overlong nor beyond the last code point
  have least : start = 0 → 16 ≤ bits := by omega
  have most : start < 4 ∨ start = 4 ∧ bits < 16 := by omega
  clear overlong beyond
  obtain ⟨c, same⟩ := exists_char (((start * 64 + bits) * 64 + bits') * 64 + bits'')
    (show _ < 0xD800 ∨ 0xDFFF < _ ∧ _ < 0x110000 by omega)
  refine ⟨c, same.trans point.symm, ?_⟩
  obtain ⟨rest, end'⟩ := split_sixBits ((start * 64 + bits) * 64 + bits') small''
  obtain ⟨rest', before⟩ := split_sixBits (start * 64 + bits) small'
  obtain ⟨rest'', middle⟩ := split_sixBits start small
  rw [encodeChar, same, if_neg (by omega), if_neg (by omega), if_neg (by omega), div_eighteenBits,
    div_twelveBits, rest, end', rest', before, rest'', middle, toUInt8_eq leading, toUInt8_eq byte,
    toUInt8_eq byte', toUInt8_eq byte'']

/-- The promises of first bytes by the number of bytes that follow. -/
theorem lead?_cases {b : UInt8} {lead : Lead} (found : lead? b = some lead) :
    (lead.more = 0 ∧ b.toNat < 0x80) ∨
      (lead = ⟨1, 0x80, 0xBF⟩ ∧ 0xC2 ≤ b.toNat ∧ b.toNat < 0xE0) ∨
      LeadsThree b lead ∨ LeadsFour b lead := by
  have value := lead?_toUInt8 b.toNat_lt
  rw [toUInt8_eq rfl] at value
  rw [value] at found
  -- the bounds of the second byte become numerals once the promise is known
  by_cases one : b.toNat < 0x80
  · rw [if_pos one] at found
    cases found
    exact .inl ⟨rfl, one⟩
  rw [if_neg one] at found
  refine .inr ?_
  by_cases unused : b.toNat < 0xC2
  · rw [if_pos unused] at found
    cases found
  rw [if_neg unused] at found
  by_cases two : b.toNat < 0xE0
  · rw [if_pos two] at found
    cases found
    exact .inl ⟨rfl, by omega, two⟩
  rw [if_neg two] at found
  refine .inr ?_
  by_cases shortest : b.toNat = 0xE0
  · rw [if_pos shortest] at found
    cases found
    exact .inl ⟨rfl, by omega, by omega, by decide, fun _ => by decide, by omega⟩
  rw [if_neg shortest] at found
  by_cases surrogate : b.toNat = 0xED
  · rw [if_pos surrogate] at found
    cases found
    exact .inl ⟨rfl, by omega, by omega, by decide, by omega, fun _ => by decide⟩
  rw [if_neg surrogate] at found
  by_cases three : b.toNat < 0xF0
  · rw [if_pos three] at found
    cases found
    exact .inl ⟨rfl, by omega, three, by decide, by omega, by omega⟩
  rw [if_neg three] at found
  refine .inr ?_
  by_cases shortest' : b.toNat = 0xF0
  · rw [if_pos shortest'] at found
    cases found
    exact ⟨rfl, by omega, by omega, by decide, fun _ => by decide, by omega⟩
  rw [if_neg shortest'] at found
  by_cases four : b.toNat < 0xF4
  · rw [if_pos four] at found
    cases found
    exact ⟨rfl, by omega, by omega, by decide, by omega, by omega⟩
  rw [if_neg four] at found
  by_cases last : b.toNat = 0xF4
  · rw [if_pos last] at found
    cases found
    exact ⟨rfl, by omega, by omega, by decide, by omega, fun _ => by decide⟩
  rw [if_neg last] at found
  cases found

/-- A first byte and the bytes that it promises are the bytes of a character. -/
theorem exists_encodeChar {b : UInt8} {lead : Lead} {tails : List UInt8}
    (found : lead? b = some lead) (length : tails.length = lead.more)
    (follows : Follows lead.low lead.high tails) :
    ∃ c : Char, c.toNat = completed (leadBits b lead.more) tails ∧ encodeChar c = b :: tails := by
  rcases lead?_cases found with ⟨more, one⟩ | ⟨rfl, low, high⟩ | leads | leads
  · rw [more] at length ⊢
    obtain rfl := List.length_eq_zero_iff.mp length
    obtain ⟨c, same⟩ := exists_char b.toNat (.inl (by omega))
    refine ⟨c, same, ?_⟩
    rw [encodeChar, same, if_pos one, toUInt8_eq rfl]
  · obtain ⟨x, rfl⟩ := List.length_eq_one_iff.mp length
    exact exists_encodeChar_two low high follows
  · rw [leads.more] at length ⊢
    obtain ⟨x, y, rfl⟩ := List.length_eq_two.mp length
    exact leads.exists_encodeChar follows
  · rw [leads.more] at length ⊢
    obtain ⟨x, y, z, rfl⟩ := List.length_eq_three.mp length
    exact leads.exists_encodeChar follows

theorem more_le_three {b : UInt8} {lead : Lead} (found : lead? b = some lead) : lead.more ≤ 3 := by
  rcases lead?_cases found with ⟨more, _⟩ | ⟨rfl, _⟩ | leads | leads
  · omega
  · decide
  · have more := leads.more
    omega
  · have more := leads.more
    omega

/-- What is read first is a character, or it is given up and not longer than a replacement. -/
theorem step_cases (b : UInt8) (rest : List UInt8) :
    (∃ c others, b :: rest = encodeChar c ++ others) ∨
      (step b rest).code = none ∧ (step b rest).used ≤ 3 := by
  rw [step]
  cases found : lead? b with
  | none => exact .inr ⟨rfl, show 1 ≤ 3 by decide⟩
  | some lead =>
      simp only []
      cases read : follow lead.more lead.low lead.high (leadBits b lead.more) 1 rest with
      | mk code used =>
          cases code with
          | some point =>
              obtain ⟨tails, others, same, length, follows, _⟩ := of_follow read
              obtain ⟨c, _, bytes⟩ := exists_encodeChar found length follows
              exact .inl ⟨c, others, by rw [bytes, same, List.cons_append]⟩
          | none =>
              have fewer := used_lt_of_follow (congrArg Step.code read)
              rw [read] at fewer
              change used < 1 + lead.more at fewer
              have bound := more_le_three found
              exact .inr ⟨rfl, show used ≤ 3 by omega⟩

/-- Byte strings are read character by character, with parts in between that are given up. -/
theorem reading_induction {motive : List UInt8 → Prop} (nil : motive [])
    (char : ∀ c others, motive others → motive (encodeChar c ++ others))
    (givenUp : ∀ b rest, (step b rest).code = none → (step b rest).used ≤ 3 →
      motive (rest.drop ((step b rest).used - 1)) → motive (b :: rest))
    (bytes : List UInt8) : motive bytes := by
  induction size : bytes.length using Nat.strongRecOn generalizing bytes with
  | ind size ih =>
      cases bytes with
      | nil => exact nil
      | cons b rest =>
          have shorter (others : List UInt8) (less : others.length < (b :: rest).length) :
              motive others :=
            ih others.length (size ▸ less) others rfl
          rcases step_cases b rest with ⟨c, others, same⟩ | ⟨broken, short⟩
          · obtain ⟨first, tails, encoded, _⟩ := exists_sequence c
            rw [same]
            refine char c others (shorter others ?_)
            rw [same, encoded]
            simp only [List.cons_append, List.length_cons, List.length_append]
            omega
          · refine givenUp b rest broken short (shorter _ ?_)
            simp only [List.length_drop, List.length_cons]
            omega

/-! ## Bytes that are read and written again -/

/-- Reading and writing again leaves a byte string as it is, or makes it one of no less bytes. -/
theorem length_le_encode_decodeReplacing (bytes : List UInt8) :
    bytes.length ≤ (encode (decodeReplacing bytes)).length := by
  have spelled (bytes : List UInt8) : encode (decodeReplacing bytes) =
      ((codes bytes).map fun point => (point.map Char.ofNat).getD '\ufffd').flatMap encodeChar := by
    rw [encode, decodeReplacing, String.toList_ofList]
  rw [spelled]
  induction bytes using reading_induction with
  | nil => exact Nat.zero_le _
  | char c others ih =>
      rw [codes_encodeChar, List.map_cons, List.flatMap_cons, List.length_append,
        List.length_append]
      have same : ((some c.toNat).map Char.ofNat).getD '\ufffd' = c := Char.ofNat_toNat c
      rw [same]
      omega
  | givenUp b rest broken short ih =>
      rw [codes, List.map_cons, List.flatMap_cons, List.length_append, broken]
      have size : (encodeChar ((Option.map Char.ofNat none).getD '\ufffd')).length = 3 := by decide
      rw [size]
      rw [List.length_drop] at ih
      have used := one_le_used b rest
      rw [List.length_cons]
      omega

theorem length_flatten_le (pieces : List (List UInt8)) :
    pieces.flatten.length ≤
      (pieces.map fun piece => encode (decodeReplacing piece)).flatten.length := by
  induction pieces with
  | nil => exact Nat.zero_le _
  | cons piece rest ih =>
      have first := length_le_encode_decodeReplacing piece
      simp only [List.map_cons, List.flatten_cons, List.length_append]
      omega

/--
Byte strings that are read one by one, joined and written again are the joined
byte strings just where each of them is the bytes of a text.
-/
theorem encode_join_decodeReplacing_iff (pieces : List (List UInt8)) :
    encode (String.join (pieces.map decodeReplacing)) = pieces.flatten ↔
      ∀ piece ∈ pieces, ∃ text, encode text = piece := by
  rw [encode_join, List.map_map]
  change (pieces.map fun piece => encode (decodeReplacing piece)).flatten = _ ↔ _
  induction pieces with
  | nil => simp
  | cons piece rest ih =>
      rw [List.map_cons, List.flatten_cons, List.flatten_cons, List.forall_mem_cons, ← ih]
      constructor
      · intro same
        -- neither of the two parts has become shorter, so each is as long as before
        have lengths := congrArg List.length same
        rw [List.length_append, List.length_append] at lengths
        have first := length_le_encode_decodeReplacing piece
        have others := length_flatten_le rest
        obtain ⟨whole, following⟩ := List.append_inj same (by omega)
        exact ⟨⟨_, whole⟩, following⟩
      · rintro ⟨⟨text, spelled⟩, following⟩
        rw [following, ← spelled, decodeReplacing_encode]

end Utf8

end ShellTree
