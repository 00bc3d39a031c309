import ShellTree.Json.Inside
import ShellTree.Text.Integer
import ShellTree.Text.Utf8
import ShellTree.Tree.Basic

/-!
# Positions in the source

A node may say where in the script it begins and ends.  If the script is at
hand, a part of a word is taken from there, byte by byte, instead of being put
together again from the node.
-/

namespace ShellTree

namespace Shfmt

/-- The script that nodes point into, if it is at hand. -/
abbrev Source : Type := Option (List UInt8)

def integerOf : Json → Except Fault Int
  | .int value => .ok value
  | .bool value => .ok (if value then 1 else 0)
  | .float value =>
      match Decimal.binary? value with
      | some finite => .ok finite.truncate
      | none => if value.isNaN then .error .notNumber else .error .infinite
  | .str text =>
      match Text.integer? text with
      | some value => .ok value
      | none => .error .notInteger
  | _ => .error .wrongKind

/-- A place in a sequence of a given size; a negative one counts from the end. -/
def place (size : Nat) (offset : Int) : Nat :=
  if offset < 0 then (offset + size).toNat else min offset.toNat size

def slice {α : Type} (items : List α) (start finish : Int) : List α :=
  (items.take (place items.length finish)).drop (place items.length start)

/-- The text between two offsets; nothing if an offset stands for no integer. -/
def sliceText (bytes : List UInt8) (start finish : Json) : Except Fault (Option String) :=
  match integerOf start with
  | .error .infinite => .error .infinite
  | .error _ => .ok none
  | .ok first =>
      match integerOf finish with
      | .error .infinite => .error .infinite
      | .error _ => .ok none
      | .ok last => .ok (some (Utf8.decodeReplacing (slice bytes first last)))

/-- The text that a node points to, if the script is at hand and both ends are given. -/
def literal? (source : Source) (node : Json) : Except Fault (Option String) :=
  match source with
  | none => .ok none
  | some bytes => do
      let pos ← node.fetch "Pos"
      let stop ← node.fetch "End"
      match pos.1.get? "Offset", stop.1.get? "Offset" with
      | some start, some finish =>
          if start.isNull || finish.isNull then return none
          else sliceText bytes start finish
      | _, _ => return none

def lineOf (pos : Json) : Except Fault (Option Int) :=
  match pos.get? "Line" with
  | none => .ok none
  | some .null => .ok none
  | some line => (integerOf line).map some

def lineDatum (pos : Json) : Except Fault Datum := do
  match ← lineOf pos with
  | some line => return .int line
  | none => return .null

/-- The line of a position, or the line that stands for none. -/
def lineOrNone (pos : Json) : Except Fault Datum := do
  return .int ((← lineOf pos).getD (-1))

end Shfmt

end ShellTree
