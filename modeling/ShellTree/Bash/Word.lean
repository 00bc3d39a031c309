import ShellTree.Text.Utf8
import ShellTree.Tree.Basic

/-!
# The words of bash

Bash keeps a word as bytes, with control bytes in front of characters that it
has escaped.  The bytes are split into characters, each character becomes the
number that its bytes spell, and the numbers become code points again after the
control bytes have been taken out.  Bytes that are no character stand for
themselves.
-/

namespace ShellTree

namespace Bash

/-- The length of the first piece of a byte string: a character, or else one byte. -/
def pieceLength (bytes : List UInt8) : Nat :=
  ([1, 2, 3, 4].find? fun size => Utf8.valid (bytes.take size)).getD 1

def split : List UInt8 → List (List UInt8)
  | [] => []
  | b :: rest =>
      let more := pieceLength (b :: rest) - 1
      (b :: rest.take more) :: split (rest.drop more)
termination_by bytes => bytes.length
decreasing_by simp only [List.length_drop, List.length_cons]; omega

/-- The number that bytes spell, the first being the most significant. -/
def number (bytes : List UInt8) : Nat :=
  bytes.foldl (fun value b => value * 256 + b.toNat) 0

/-- The last `count` bytes of a number, the most significant first. -/
def bytesOf : Nat → Nat → List UInt8
  | 0, _ => []
  | count + 1, n => bytesOf count (n / 256) ++ [(n % 256).toUInt8]

def logarithm (n : Nat) : Float :=
  if n < Nat.pow 2 1023 then Float.log (Float.ofNat n)
  else
    let power := n.log2 + 1
    Float.log (Float.ofNat (n / Nat.pow 2 (power - 64)) / Float.ofNat (Nat.pow 2 64)) +
      Float.log 2.0 * Float.ofNat power

def digitCount : Nat → Nat → Nat
  | 0, _ => 0
  | limit + 1, n => if n = 0 then 0 else digitCount limit (n / 256) + 1

/--
The number of bytes that a number takes, as its logarithm tells.  Up to five
bytes that is the number of its digits; beyond, a number just below a power of
256 may be told to take one more.
-/
def byteCount (n : Nat) : Nat :=
  if n = 0 then 1
  else if n < Nat.pow 256 5 then digitCount 5 n
  else (logarithm n / Float.log 256.0).toUInt64.toNat + 1

def bytesNeeded (datum : Datum) : Except Fault Int :=
  match datum with
  | .float value =>
      if value == 0.0 then .ok 1
      else if value < 0.0 then .error .negativeLogarithm
      else
        match Decimal.binary? (Float.log value / Float.log 256.0) with
        | some size => .ok (size.truncate + 1)
        | none => if value.isNaN then .error .notNumber else .error .infinite
  | other =>
      match other.integer? with
      | some value =>
          if value < 0 then .error .negativeLogarithm else .ok (byteCount value.toNat)
      | none => .error .wrongKind

/-- The code point of a number that spells the bytes of one character, else the number. -/
def codeOfNumber (n : Nat) : Except Fault Nat :=
  let count := byteCount n
  if Nat.pow 256 count ≤ n then .error .characterOverflow
  else
    match (Utf8.codes (bytesOf count n)).mapM id with
    | none => .ok n
    | some [code] => .ok code
    | some _ => .error .wrongKind

def codeOf (datum : Datum) : Except Fault Datum := do
  let _ ← bytesNeeded datum
  match datum with
  | .float _ => .error .noField
  | other =>
      match other.integer? with
      | some value => return .int (← codeOfNumber value.toNat)
      | none => .error .wrongKind

def charOf (datum : Datum) : Except Fault Datum := do
  return .part (.char (← codeOf datum) (.bool true))

/-- The byte that escapes the next character. -/
def escapeByte : Int := 1

/-- The byte that stands for nothing. -/
def nullByte : Int := 127

def backslash : Int := 92

/-- Does an escape byte follow that does not escape a null byte? -/
def keepsEscape : List Datum → Bool
  | [] => false
  | [next] => next.isInt escapeByte
  | next :: third :: _ => next.isInt escapeByte && !third.isInt nullByte

/--
Take out the control bytes of a word.  An escape byte goes and the character
after it stays, whatever it is; after a backslash an escape byte stays, unless
it escapes a null byte.
-/
def expand : List Datum → Except Fault (List Datum)
  | [] => .ok []
  | first :: rest =>
      if first.isInt escapeByte then
        match rest with
        | [] => .error .outOfBounds
        | second :: others => do
            let char ← charOf second
            let more ← expand others
            return char :: more
      else if first.isInt backslash && keepsEscape rest then
        match rest with
        | [] => .error .outOfBounds
        | second :: others => do
            let slash ← charOf first
            let escape ← charOf second
            let more ← expand others
            return slash :: escape :: more
      else do
        let char ← charOf first
        let more ← expand rest
        return char :: more

def wordOfBytes (bytes : List UInt8) : Except Fault Datum := do
  return .list (← expand ((split bytes).map fun piece => .int (number piece)))

def wordOfText (text : String) : Except Fault Datum :=
  wordOfBytes (Utf8.encode text)

end Bash

end ShellTree
