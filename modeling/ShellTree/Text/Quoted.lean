import ShellTree.Text.Printable

/-!
# Quoted text

A text in quotes with all but its printable characters escaped.  The quotes are
single ones unless the text holds a single quote and no double quote.
-/

namespace ShellTree

namespace Text

/-- The last `width` hexadecimal digits of a number. -/
def hexDigits : Nat → Nat → List Char
  | 0, _ => []
  | width + 1, n =>
      hexDigits width (n / 16) ++
        [Char.ofNat (if n % 16 < 10 then '0'.toNat + n % 16 else 'a'.toNat + (n % 16 - 10))]

def quoteFor (chars : List Char) : Char :=
  if chars.contains '\x27' && !chars.contains '"' then '"' else '\x27'

def escapeQuoted (quote : Char) (c : Char) : List Char :=
  if c = '\\' || c = quote then ['\\', c]
  else if c = '\t' then ['\\', 't']
  else if c = '\n' then ['\\', 'n']
  else if c = '\r' then ['\\', 'r']
  else if isPrintable c then [c]
  else if c.toNat < 0x100 then '\\' :: 'x' :: hexDigits 2 c.toNat
  else if c.toNat < 0x10000 then '\\' :: 'u' :: hexDigits 4 c.toNat
  else '\\' :: 'U' :: hexDigits 8 c.toNat

def quoted (text : String) : String :=
  let chars := text.toList
  let quote := quoteFor chars
  String.ofList (quote :: chars.flatMap (escapeQuoted quote) ++ [quote])

end Text

end ShellTree
