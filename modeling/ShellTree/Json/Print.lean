import ShellTree.Decimal.Shortest
import ShellTree.Json.Basic

/-!
# Writing JSON

A value is written without blanks, with every character outside printable
ASCII escaped by its UTF-16 code units.
-/

namespace ShellTree

namespace Json

def hexDigit (n : Nat) : Char :=
  if n < 10 then Char.ofNat ('0'.toNat + n) else Char.ofNat ('a'.toNat + (n - 10))

def escapeUnit (unit : Nat) : List Char :=
  ['\\', 'u', hexDigit (unit / 4096 % 16), hexDigit (unit / 256 % 16),
    hexDigit (unit / 16 % 16), hexDigit (unit % 16)]

def escapeChar (c : Char) : List Char :=
  if c = '"' then ['\\', '"']
  else if c = '\\' then ['\\', '\\']
  else if 0x20 ≤ c.toNat ∧ c.toNat < 0x7F then [c]
  else if c.toNat < 0x10000 then escapeUnit c.toNat
  else
    let offset := c.toNat - 0x10000
    escapeUnit (0xD800 + offset / 0x400) ++ escapeUnit (0xDC00 + offset % 0x400)

def printString (value : String) : String :=
  "\"" ++ String.ofList (value.toList.flatMap escapeChar) ++ "\""

mutual

def print : Json → String
  | .null => "null"
  | .bool true => "true"
  | .bool false => "false"
  | .int value => toString value
  | .float value => Decimal.floatText value
  | .str value => printString value
  | .arr items => "[" ++ printItems items ++ "]"
  | .obj fields => "\x7b" ++ printFields fields ++ "\x7d"

def printItems : List Json → String
  | [] => ""
  | [item] => item.print
  | item :: rest => item.print ++ "," ++ printItems rest

def printFields : List (String × Json) → String
  | [] => ""
  | [(key, value)] => printString key ++ ":" ++ value.print
  | (key, value) :: rest =>
      printString key ++ ":" ++ value.print ++ "," ++ printFields rest

end

end Json

end ShellTree
