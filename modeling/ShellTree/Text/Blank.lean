/-!
# Blank characters

The white space of Unicode, which does not hold the information separators of
ASCII.
-/

namespace ShellTree

namespace Text

/-- The blank characters, as first and last code points. -/
def blankRuns : List (Nat × Nat) :=
  [(9, 13), (32, 32), (133, 133), (160, 160), (5760, 5760), (8192, 8202), (8232, 8233),
    (8239, 8239), (8287, 8287), (12288, 12288)]

def isBlank (c : Char) : Bool :=
  blankRuns.any fun run => run.1 ≤ c.toNat && c.toNat ≤ run.2

def trim (chars : List Char) : List Char :=
  ((chars.dropWhile isBlank).reverse.dropWhile isBlank).reverse

end Text

end ShellTree
