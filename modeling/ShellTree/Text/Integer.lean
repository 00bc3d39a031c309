import ShellTree.Text.Blank
import ShellTree.Text.Digit

/-!
# Integers in text

An integer is spelled by decimal digits of any script, with an optional sign in
front, blanks around it, and single underscores between digits.
-/

namespace ShellTree

namespace Text

/--
The value of a run of digits that continues a number; an underscore must stand
between two digits.
-/
def digitsValue? : Nat → List Char → Option Nat
  | value, [] => some value
  | value, '_' :: c :: rest =>
      match decimalValue? c with
      | some digit => digitsValue? (value * 10 + digit) rest
      | none => none
  | value, c :: rest =>
      match decimalValue? c with
      | some digit => digitsValue? (value * 10 + digit) rest
      | none => none

def unsigned? : List Char → Option Nat
  | [] => none
  | c :: rest =>
      match decimalValue? c with
      | some digit => digitsValue? digit rest
      | none => none

def integer? (text : String) : Option Int :=
  match trim text.toList with
  | '-' :: rest => (unsigned? rest).map fun value => -(value : Int)
  | '+' :: rest => (unsigned? rest).map fun value => (value : Int)
  | chars => (unsigned? chars).map fun value => (value : Int)

end Text

end ShellTree
