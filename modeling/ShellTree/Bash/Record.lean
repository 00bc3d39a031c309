import ShellTree.Json.Basic
import ShellTree.Text.Utf8
import ShellTree.Tree.Basic

/-!
# The records of bash

The parser of bash describes a command by nested records with named fields.
Their words are byte strings.  A field that is asked for need not be there, and
need not hold what is expected; what is found inside a record is smaller than
the record, so that reading can go inside.
-/

namespace ShellTree

namespace Bash

/-- A record, or what a field of one holds. -/
inductive Record where
  | null
  | bool (value : Bool)
  | int (value : Int)
  | float (value : Float)
  | text (value : String)
  | bytes (value : List UInt8)
  | list (items : List Record)
  | object (fields : List (String × Record))

namespace Record

abbrev Inside (record : Record) : Type :=
  { inner : Record // sizeOf inner < sizeOf record }

theorem sizeOf_lookup {key : String} {inner : Record} {fields : List (String × Record)}
    (found : fields.lookup key = some inner) : sizeOf inner < sizeOf fields := by
  induction fields with
  | nil => simp at found
  | cons field rest ih =>
      obtain ⟨other, value⟩ := field
      simp only [List.lookup_cons] at found
      split at found
      · cases found
        simp
        omega
      · have smaller := ih found
        simp
        omega

def field (record : Record) (key : String) : Except Fault (Inside record) :=
  match record with
  | .object fields =>
      match found : fields.lookup key with
      | some inner =>
          .ok ⟨inner, by
            have smaller := sizeOf_lookup found
            simp
            omega⟩
      | none => .error .noField
  | _ => .error .noField

/-- The items of a list of records; characters and bytes have no fields to ask for. -/
def items (record : Record) : Except Fault (List (Inside record)) :=
  match record with
  | .list items =>
      .ok (items.attach.map fun item =>
        ⟨item.1, by
          have smaller := List.sizeOf_lt_of_mem item.2
          simp
          omega⟩)
  | .text value => if value.isEmpty then .ok [] else .error .noField
  | .bytes value => if value.isEmpty then .ok [] else .error .noField
  | _ => .error .wrongKind

def length : Record → Except Fault Nat
  | .list items => .ok items.length
  | .text value => .ok value.length
  | .bytes value => .ok value.length
  | _ => .error .wrongKind

def truthy : Record → Bool
  | .null => false
  | .bool value => value
  | .int value => value != 0
  | .float value => !(value == 0.0)
  | .text value => !value.isEmpty
  | .bytes value => !value.isEmpty
  | .list items => !items.isEmpty
  | .object _ => true

mutual

def datum : Record → Datum
  | .null => .null
  | .bool value => .bool value
  | .int value => .int value
  | .float value => .float value
  | .text value => .text value
  | .bytes value => .text (Utf8.decodeReplacing value)
  | .list items => .list (dataOfItems items)
  | .object fields => .dict (dataOfFields fields)

def dataOfItems : List Record → List Datum
  | [] => []
  | item :: rest => item.datum :: dataOfItems rest

def dataOfFields : List (String × Record) → List (String × Datum)
  | [] => []
  | (key, value) :: rest => (key, value.datum) :: dataOfFields rest

end

/-- The integer that a number is equal to. -/
def integer? (record : Record) : Option Int :=
  record.datum.integer?

def holds (flags : Record) (number : Int) : Except Fault Bool :=
  match flags with
  | .list items => .ok (items.any fun item => item.integer? == some number)
  | .bytes value =>
      if number < 256 then .ok (value.any fun b => (b.toNat : Int) == number)
      else .error .notByte
  | _ => .error .wrongKind

def wordBytes : Record → Except Fault (List UInt8)
  | .bytes value => .ok value
  | .list items => if items.isEmpty then .ok [] else .error .noField
  | .text value => if value.isEmpty then .ok [] else .error .noField
  | _ => .error .wrongKind

/-- The value of a hexadecimal digit, or zero. -/
def nibble (c : Char) : Nat :=
  if '0' ≤ c ∧ c ≤ '9' then c.toNat - '0'.toNat
  else if 'a' ≤ c ∧ c ≤ 'f' then c.toNat - 'a'.toNat + 10
  else if 'A' ≤ c ∧ c ≤ 'F' then c.toNat - 'A'.toNat + 10
  else 0

def bytesOfHex : List Char → List UInt8
  | high :: low :: rest => (nibble high * 16 + nibble low).toUInt8 :: bytesOfHex rest
  | _ => []

mutual

/-- A record from JSON, where bytes are hexadecimal digits under `hex` or a text under `word`. -/
def ofJson : Json → Record
  | .null => .null
  | .bool value => .bool value
  | .int value => .int value
  | .float value => .float value
  | .str value => .text value
  | .arr items => .list (ofJsonItems items)
  | .obj [("hex", .str digits)] => .bytes (bytesOfHex digits.toList)
  | .obj fields => .object (ofJsonFields fields)

def ofJsonItems : List Json → List Record
  | [] => []
  | item :: rest => ofJson item :: ofJsonItems rest

def ofJsonFields : List (String × Json) → List (String × Record)
  | [] => []
  | (key, value) :: rest =>
      (key,
        match ofJson value with
        | .text word => if key = "word" then .bytes (Utf8.encode word) else .text word
        | other => other) :: ofJsonFields rest

end

end Record

end Bash

end ShellTree
