import ShellTree.Fault

/-!
# JSON values

Integers and floats are kept apart, and an object keeps its fields in the order
in which they were written, so that a value can be read back as it stood.
-/

namespace ShellTree

inductive Json where
  | null
  | bool (value : Bool)
  | int (value : Int)
  | float (value : Float)
  | str (value : String)
  | arr (items : List Json)
  | obj (fields : List (String × Json))

namespace Json

def get? (key : String) : Json → Option Json
  | .obj fields => fields.lookup key
  | _ => none

def text? : Json → Option String
  | .str value => some value
  | _ => none

/-- Put a value under a key: a known key keeps its place, a new one goes last. -/
def insertField (key : String) (value : Json) :
    List (String × Json) → List (String × Json)
  | [] => [(key, value)]
  | (other, old) :: rest =>
      if other = key then (key, value) :: rest
      else (other, old) :: insertField key value rest

theorem lookup_insertField (key : String) (value : Json)
    (fields : List (String × Json)) :
    (insertField key value fields).lookup key = some value := by
  induction fields with
  | nil => simp [insertField]
  | cons field rest ih =>
      obtain ⟨other, old⟩ := field
      by_cases same : other = key
      · simp [insertField, same]
      · have differs : (key == other) = false := by
          simpa [beq_eq_false_iff_ne] using fun equal => same equal.symm
        simp [insertField, same, List.lookup_cons, differs, ih]

end Json

end ShellTree
