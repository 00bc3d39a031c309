import ShellTree.Json.Basic

/-!
# Looking into JSON

A reader of JSON asks a value for a field without knowing what the value is, or
whether the field is there.  What is found inside a value is smaller than the
value, so that reading can go inside.
-/

namespace ShellTree

namespace Json

abbrev Inside (value : Json) : Type :=
  { inner : Json // sizeOf inner < sizeOf value }

theorem sizeOf_of_lookup {key : String} {inner : Json} {fields : List (String × Json)}
    (found : fields.lookup key = some inner) : sizeOf inner < sizeOf fields := by
  induction fields with
  | nil => simp at found
  | cons field rest ih =>
      obtain ⟨other, value⟩ := field
      simp only [List.lookup_cons] at found
      split at found
      · cases found
        simp
        omega
      · have smaller := ih found
        simp
        omega

theorem one_lt_sizeOf_obj (fields : List (String × Json)) : 1 < sizeOf (Json.obj fields) := by
  rw [Json.obj.sizeOf_spec]
  cases fields with
  | nil =>
      rw [List.nil.sizeOf_spec]
      omega
  | cons field rest =>
      rw [List.cons.sizeOf_spec]
      omega

/-- Does a value count as true?  Empty, zero and absent ones do not. -/
def truthy : Json → Bool
  | .null => false
  | .bool value => value
  | .int value => value != 0
  | .float value => !(value == 0.0)
  | .str value => !value.isEmpty
  | .arr items => !items.isEmpty
  | .obj fields => !fields.isEmpty

def isObject : Json → Bool
  | .obj _ => true
  | _ => false

def isNull : Json → Bool
  | .null => true
  | _ => false

def isText (text : String) : Json → Bool
  | .str value => value == text
  | _ => false

def has (key : String) (value : Json) : Bool :=
  (value.get? key).isSome

/-- A field of an object, which is null if it is not there. -/
def fetch (value : Json) (key : String) : Except Fault (Inside value) :=
  match value with
  | .obj fields =>
      match found : fields.lookup key with
      | some inner =>
          .ok ⟨inner, by
            have smaller := sizeOf_of_lookup found
            simp
            omega⟩
      | none => .ok ⟨.null, by simpa using one_lt_sizeOf_obj fields⟩
  | _ => .error .noField

def require (value : Json) (key : String) : Except Fault (Inside value) :=
  match value with
  | .obj fields =>
      match found : fields.lookup key with
      | some inner =>
          .ok ⟨inner, by
            have smaller := sizeOf_of_lookup found
            simp
            omega⟩
      | none => .error .missingKey
  | _ => .error .wrongKind

/-- A field of an object, or an empty text. -/
def textField (value : Json) (key : String) : Except Fault Json :=
  match value with
  | .obj fields => .ok ((fields.lookup key).getD (.str ""))
  | _ => .error .noField

/-- The items of an array; a character or a key has no fields to ask for. -/
def elements (value : Json) : Except Fault (List (Inside value)) :=
  match value with
  | .arr items =>
      .ok (items.attach.map fun item =>
        ⟨item.1, by
          have smaller := List.sizeOf_lt_of_mem item.2
          simp
          omega⟩)
  | .str text => if text.isEmpty then .ok [] else .error .noField
  | .obj fields => if fields.isEmpty then .ok [] else .error .noField
  | _ => .error .wrongKind

/-- The items of a field of an object, of which there are none if it is not there. -/
def children (value : Json) (key : String) : Except Fault (List (Inside value)) :=
  match value with
  | .obj fields =>
      match found : fields.lookup key with
      | some inner => do
          let items ← inner.elements
          return items.map fun item =>
            ⟨item.1, by
              have smaller := sizeOf_of_lookup found
              have inside := item.2
              simp
              omega⟩
      | none => .ok []
  | _ => .error .noField

end Json

end ShellTree
