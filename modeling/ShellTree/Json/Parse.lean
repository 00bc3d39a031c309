import ShellTree.Json.Basic

/-!
# Reading JSON

A value may be surrounded by blanks and must be followed by nothing else.
Besides the numbers of the standard the words `NaN`, `Infinity` and
`-Infinity` are read as floats, and the last of several fields of one name
wins.  A lone surrogate escape, which stands for no character, is read as the
replacement character.
-/

namespace ShellTree

namespace Json

def isBlank (c : Char) : Bool :=
  c = ' ' || c = '\t' || c = '\n' || c = '\r'

def skipBlanks (input : List Char) : List Char :=
  input.dropWhile isBlank

def expect : List Char → List Char → Option (List Char)
  | [], input => some input
  | _ :: _, [] => none
  | c :: word, d :: input => if c = d then expect word input else none

theorem expect_append (word input : List Char) :
    expect word (word ++ input) = some input := by
  induction word with
  | nil => rfl
  | cons c word ih => simp [expect, ih]

def hexValue? (c : Char) : Option Nat :=
  if '0' ≤ c ∧ c ≤ '9' then some (c.toNat - '0'.toNat)
  else if 'a' ≤ c ∧ c ≤ 'f' then some (c.toNat - 'a'.toNat + 10)
  else if 'A' ≤ c ∧ c ≤ 'F' then some (c.toNat - 'A'.toNat + 10)
  else none

def codeUnit? : List Char → Option (Nat × List Char)
  | a :: b :: c :: d :: rest => do
      let w ← hexValue? a
      let x ← hexValue? b
      let y ← hexValue? c
      let z ← hexValue? d
      some (((w * 16 + x) * 16 + y) * 16 + z, rest)
  | _ => none

def isHighSurrogate (unit : Nat) : Bool :=
  0xD800 ≤ unit && unit ≤ 0xDBFF

def isLowSurrogate (unit : Nat) : Bool :=
  0xDC00 ≤ unit && unit ≤ 0xDFFF

def unitChar (unit : Nat) : Char :=
  if isHighSurrogate unit || isLowSurrogate unit then '\ufffd' else Char.ofNat unit

/-- The character that follows the escape `\u`, with its second half if it has one. -/
def unicodeEscape (input : List Char) : Option (Char × List Char) := do
  let (high, rest) ← codeUnit? input
  if isHighSurrogate high then
    match rest with
    | '\\' :: 'u' :: more =>
        match codeUnit? more with
        | some (low, after) =>
            if isLowSurrogate low then
              some (Char.ofNat (0x10000 + (high - 0xD800) * 0x400 + (low - 0xDC00)), after)
            else some (unitChar high, rest)
        | none => none
    | _ => some (unitChar high, rest)
  else some (unitChar high, rest)

def shortEscape? : Char → Option Char
  | '"' => some '"'
  | '\\' => some '\\'
  | '/' => some '/'
  | 'b' => some '\x08'
  | 'f' => some '\x0c'
  | 'n' => some '\n'
  | 'r' => some '\r'
  | 't' => some '\t'
  | _ => none

def parseChars : Nat → List Char → Option (List Char × List Char)
  | 0, _ => none
  | _, [] => none
  | fuel + 1, c :: rest =>
      if c = '"' then some ([], rest)
      else if c = '\\' then
        match rest with
        | [] => none
        | 'u' :: more => do
            let (char, after) ← unicodeEscape more
            let (chars, final) ← parseChars fuel after
            some (char :: chars, final)
        | letter :: after => do
            let char ← shortEscape? letter
            let (chars, final) ← parseChars fuel after
            some (char :: chars, final)
      else if c.toNat < 0x20 then none
      else do
        let (chars, final) ← parseChars fuel rest
        some (c :: chars, final)

def digitsValue (digits : List Char) : Nat :=
  digits.foldl (fun value c => value * 10 + (c.toNat - '0'.toNat)) 0

/-- The float `mantissa * 10 ^ exponent`, infinite or zero where it is out of reach. -/
def scientific (mantissa : Nat) (exponent : Int) : Float :=
  let size : Int := (Nat.toDigits 10 mantissa).length
  if mantissa = 0 then 0.0
  else if exponent + size > 400 then 1.0 / 0.0
  else if exponent + size < -400 then 0.0
  else if exponent < 0 then Float.ofScientific mantissa true exponent.natAbs
  else Float.ofScientific mantissa false exponent.toNat

def parseFraction : List Char → Option (List Char) × List Char
  | '.' :: rest =>
      match rest.takeWhile Char.isDigit with
      | [] => (none, '.' :: rest)
      | digits => (some digits, rest.dropWhile Char.isDigit)
  | input => (none, input)

def parseExponent : List Char → Option Int × List Char
  | [] => (none, [])
  | mark :: rest =>
      if mark = 'e' || mark = 'E' then
        let (negative, more) :=
          match rest with
          | '-' :: more => (true, more)
          | '+' :: more => (false, more)
          | more => (false, more)
        match more.takeWhile Char.isDigit with
        | [] => (none, mark :: rest)
        | digits =>
            let value : Int := digitsValue digits
            (some (if negative then -value else value), more.dropWhile Char.isDigit)
      else (none, mark :: rest)

/-- A number: an integer unless it has a fraction or a power of ten. -/
def parseNumber (input : List Char) : Option (Json × List Char) :=
  let (negative, unsigned) :=
    match input with
    | '-' :: rest => (true, rest)
    | rest => (false, rest)
  let whole? :=
    match unsigned with
    | '0' :: rest => some (['0'], rest)
    | rest =>
        match rest.takeWhile Char.isDigit with
        | [] => none
        | digits => some (digits, rest.dropWhile Char.isDigit)
  match whole? with
  | none => none
  | some (whole, afterWhole) =>
      let (fraction?, afterFraction) := parseFraction afterWhole
      let (exponent?, rest) := parseExponent afterFraction
      match fraction?, exponent? with
      | none, none =>
          let value : Int := digitsValue whole
          some (.int (if negative then -value else value), rest)
      | _, _ =>
          let fraction := fraction?.getD []
          let value := scientific (digitsValue (whole ++ fraction))
            (exponent?.getD 0 - fraction.length)
          some (.float (if negative then -value else value), rest)

mutual

/-- A value, without blanks in front. -/
def parseValue : Nat → List Char → Option (Json × List Char)
  | 0, _ => none
  | _, [] => none
  | fuel + 1, c :: rest =>
      if c = '"' then do
        let (chars, after) ← parseChars (rest.length + 1) rest
        some (.str (String.ofList chars), after)
      else if c = '[' then
        match skipBlanks rest with
        | ']' :: after => some (.arr [], after)
        | first => do
            let (items, after) ← parseItems fuel first
            some (.arr items, after)
      else if c = '\x7b' then
        match skipBlanks rest with
        | '\x7d' :: after => some (.obj [], after)
        | first => do
            let (fields, after) ← parseFields fuel first
            some (.obj (fields.foldl
              (fun known field => insertField field.1 field.2 known) []), after)
      else if c = 'n' then (expect "ull".toList rest).map fun after => (.null, after)
      else if c = 't' then (expect "rue".toList rest).map fun after => (.bool true, after)
      else if c = 'f' then (expect "alse".toList rest).map fun after => (.bool false, after)
      else if c = 'N' then
        (expect "aN".toList rest).map fun after => (.float (0.0 / 0.0), after)
      else if c = 'I' then
        (expect "nfinity".toList rest).map fun after => (.float (1.0 / 0.0), after)
      else if c = '-' then
        match expect "Infinity".toList rest with
        | some after => some (.float (-1.0 / 0.0), after)
        | none => parseNumber (c :: rest)
      else parseNumber (c :: rest)

/-- The items of an array up to its closing bracket; there is at least one. -/
def parseItems : Nat → List Char → Option (List Json × List Char)
  | 0, _ => none
  | fuel + 1, input => do
      let (item, after) ← parseValue fuel input
      match skipBlanks after with
      | ']' :: rest => some ([item], rest)
      | ',' :: rest => do
          let (items, final) ← parseItems fuel (skipBlanks rest)
          some (item :: items, final)
      | _ => none

def parseFields : Nat → List Char → Option (List (String × Json) × List Char)
  | 0, _ => none
  | fuel + 1, input =>
      match input with
      | '"' :: start => do
          let (chars, afterKey) ← parseChars (start.length + 1) start
          match skipBlanks afterKey with
          | ':' :: beforeValue => do
              let (value, after) ← parseValue fuel (skipBlanks beforeValue)
              match skipBlanks after with
              | '\x7d' :: rest => some ([(String.ofList chars, value)], rest)
              | ',' :: rest => do
                  let (fields, final) ← parseFields fuel (skipBlanks rest)
                  some ((String.ofList chars, value) :: fields, final)
              | _ => none
          | _ => none
      | _ => none

end

def parse? (input : String) : Option Json :=
  let chars := input.toList
  match parseValue (2 * chars.length + 2) (skipBlanks chars) with
  | some (value, rest) => if (skipBlanks rest).isEmpty then some value else none
  | none => none

end Json

end ShellTree
