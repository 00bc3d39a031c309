import ShellTree.Fault
import ShellTree.Text.Digit

/-!
# Templates

A template is a text with fields between braces.  A field has a name, which may
be followed by a conversion and a layout; a brace that is meant as one is
written twice.  The templates here are filled without any values, so a field
that is in order fails for want of its value, and the text that is left is the
text with its doubled braces made single.
-/

namespace ShellTree

namespace Text

namespace Template

def opening : Char := '\x7b'

def closing : Char := '\x7d'

/-- Does the layout of a field end?  Fields inside it are passed over. -/
def layoutEnds : Nat → List Char → Bool
  | _, [] => false
  | depth, c :: rest =>
      if c = opening then layoutEnds (depth + 1) rest
      else if c = closing then
        match depth with
        | 0 => true
        | outer + 1 => layoutEnds outer rest
      else layoutEnds depth rest

def conversionEnds : List Char → Bool
  | _ :: c :: rest => c = closing || (c = ':' && layoutEnds 0 rest)
  | _ => false

/--
The name of a field that is in order.  The flag says whether a bracket is open,
in which the marks that end a name mean nothing.
-/
def fieldName? : Bool → List Char → Option (List Char)
  | _, [] => none
  | true, c :: rest => (fieldName? (c != ']') rest).map (c :: ·)
  | false, c :: rest =>
      if c = opening then none
      else if c = closing then some []
      else if c = ':' then if layoutEnds 0 rest then some [] else none
      else if c = '!' then if conversionEnds rest then some [] else none
      else (fieldName? (c == '[') rest).map (c :: ·)

/-- The last position that a sequence can have. -/
def lastPosition : Nat := Nat.pow 2 63 - 1

/-- Why the value with a given name is missing, where the digits read so far spell a position. -/
def missingValue : Nat → List Char → Fault
  | _, [] => .outOfBounds
  | position, c :: rest =>
      match decimalValue? c with
      | none => .missingKey
      | some digit =>
          if lastPosition < position * 10 + digit then .malformedTemplate
          else missingValue (position * 10 + digit) rest

def fieldFault (rest : List Char) : Fault :=
  match fieldName? false rest with
  | none => .malformedTemplate
  | some name => missingValue 0 (name.takeWhile fun c => c != '.' && c != '[')

def fill : List Char → Except Fault (List Char)
  | [] => .ok []
  | [c] => if c = opening ∨ c = closing then .error .malformedTemplate else .ok [c]
  | c :: next :: rest =>
      if c = opening ∨ c = closing then
        if next = c then do return c :: (← fill rest)
        else if c = opening then .error (fieldFault (next :: rest))
        else .error .malformedTemplate
      else do return c :: (← fill (next :: rest))

theorem fill_of_no_braces (text : List Char) (plain : ∀ c ∈ text, c ≠ opening ∧ c ≠ closing) :
    fill text = .ok text := by
  induction text with
  | nil => rfl
  | cons c rest ih =>
      have here := plain c (by simp)
      have others := ih fun other member => plain other (by simp [member])
      cases rest with
      | nil => simp [fill, here]
      | cons next tail =>
          rw [fill, if_neg (by simp [here]), others]
          rfl

end Template

def filled (text : String) : Except Fault String := do
  return String.ofList (← Template.fill text.toList)

end Text

end ShellTree
