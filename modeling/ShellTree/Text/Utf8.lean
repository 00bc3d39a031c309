/-!
# UTF-8

Characters as sequences of one to four bytes.  Reading goes by the first byte,
which fixes the number of bytes that follow and the range of the second; a
sequence that breaks off is given up at the first byte that cannot continue it,
so the bytes given up together are a maximal part that was still in order.
-/

namespace ShellTree

namespace Utf8

/-- What a first byte promises: how many bytes follow, and the range of the next. -/
structure Lead where
  more : Nat
  low : UInt8
  high : UInt8
deriving DecidableEq

def lead? (b : UInt8) : Option Lead :=
  if b < 0x80 then some ⟨0, 0x80, 0xBF⟩
  else if b < 0xC2 then none
  else if b < 0xE0 then some ⟨1, 0x80, 0xBF⟩
  else if b = 0xE0 then some ⟨2, 0xA0, 0xBF⟩
  else if b = 0xED then some ⟨2, 0x80, 0x9F⟩
  else if b < 0xF0 then some ⟨2, 0x80, 0xBF⟩
  else if b = 0xF0 then some ⟨3, 0x90, 0xBF⟩
  else if b < 0xF4 then some ⟨3, 0x80, 0xBF⟩
  else if b = 0xF4 then some ⟨3, 0x80, 0x8F⟩
  else none

/-- The payload of a first byte with the given number of followers. -/
def leadBits (b : UInt8) : Nat → Nat
  | 0 => b.toNat
  | 1 => b.toNat % 32
  | 2 => b.toNat % 16
  | _ => b.toNat % 8

/-- The outcome of reading one character: a code point or nothing, and the bytes used. -/
structure Step where
  code : Option Nat
  used : Nat
deriving DecidableEq

def follow : Nat → UInt8 → UInt8 → Nat → Nat → List UInt8 → Step
  | 0, _, _, code, used, _ => ⟨some code, used⟩
  | _ + 1, _, _, _, used, [] => ⟨none, used⟩
  | more + 1, low, high, code, used, b :: rest =>
      if low ≤ b && b ≤ high then
        follow more 0x80 0xBF (code * 64 + b.toNat % 64) (used + 1) rest
      else ⟨none, used⟩

def step (b : UInt8) (rest : List UInt8) : Step :=
  match lead? b with
  | none => ⟨none, 1⟩
  | some lead => follow lead.more lead.low lead.high (leadBits b lead.more) 1 rest

theorem used_le_follow (more : Nat) (low high : UInt8) (code used : Nat)
    (rest : List UInt8) : used ≤ (follow more low high code used rest).used := by
  induction more generalizing low high code used rest with
  | zero => simp [follow]
  | succ more ih =>
      cases rest with
      | nil => simp [follow]
      | cons b rest =>
          unfold follow
          split
          · exact Nat.le_of_succ_le (ih _ _ _ _ _)
          · exact Nat.le_refl used

theorem one_le_used (b : UInt8) (rest : List UInt8) : 1 ≤ (step b rest).used := by
  unfold step
  split
  · exact Nat.le_refl 1
  · exact used_le_follow _ _ _ _ _ _

/-- The code points of a byte string, with nothing for each part given up. -/
def codes : List UInt8 → List (Option Nat)
  | [] => []
  | b :: rest =>
      let one := step b rest
      one.code :: codes (rest.drop (one.used - 1))
termination_by bytes => bytes.length
decreasing_by simp only [List.length_drop, List.length_cons]; omega

def valid (bytes : List UInt8) : Bool :=
  (codes bytes).all Option.isSome

def decode? (bytes : List UInt8) : Option String :=
  ((codes bytes).mapM id).map fun points => String.ofList (points.map Char.ofNat)

/-- The text of a byte string, with a replacement character for each part given up. -/
def decodeReplacing (bytes : List UInt8) : String :=
  String.ofList ((codes bytes).map fun point => (point.map Char.ofNat).getD '\ufffd')

def encodeChar (c : Char) : List UInt8 :=
  let n := c.toNat
  if n < 0x80 then [n.toUInt8]
  else if n < 0x800 then [(0xC0 + n / 64).toUInt8, (0x80 + n % 64).toUInt8]
  else if n < 0x10000 then
    [(0xE0 + n / 4096).toUInt8, (0x80 + n / 64 % 64).toUInt8, (0x80 + n % 64).toUInt8]
  else
    [(0xF0 + n / 262144).toUInt8, (0x80 + n / 4096 % 64).toUInt8,
      (0x80 + n / 64 % 64).toUInt8, (0x80 + n % 64).toUInt8]

def encode (text : String) : List UInt8 :=
  text.toList.flatMap encodeChar

end Utf8

end ShellTree
