/-!
# Heredoc markers

A heredoc ends at the first line that equals its marker, so the marker must not
occur as a line of the body.  Markers are `EOF` followed by further `F`s.  A
line is *marked* if it starts like one and goes on; the position of its last
`F` says how long a marker it could be taken for.
-/

namespace ShellTree

namespace Marker

/-- The marker with a number of further `F`s. -/
def ofCount (count : Nat) : String :=
  "EOF" ++ String.ofList (List.replicate count 'F')

def lines : List Char → List (List Char)
  | [] => [[]]
  | c :: rest =>
      match lines rest with
      | [] => [[c]]
      | first :: others => if c = '\n' then [] :: first :: others else (c :: first) :: others

/-- The tail of a line that starts like a marker and goes on. -/
def tail? : List Char → Option (List Char)
  | 'E' :: 'O' :: c :: rest => some (c :: rest)
  | _ => none

/-- One more than the last position of `F` in a tail, or zero. -/
def lastMark : List Char → Nat
  | [] => 0
  | c :: rest =>
      match lastMark rest with
      | 0 => if c = 'F' then 1 else 0
      | found => found + 1

/-- The positions of the last `F` of all marked lines, where a line without one counts as the first. -/
def marks (text : String) : List Nat :=
  (lines text.toList).filterMap fun line => (tail? line).map fun rest => lastMark rest - 1

theorem length_beyond_lt {taken : List Nat} {count : Nat} (found : count ∈ taken) :
    (taken.filter (count + 1 ≤ ·)).length < (taken.filter (count ≤ ·)).length := by
  have nested : taken.filter (count + 1 ≤ ·) =
      (taken.filter (count ≤ ·)).filter (count + 1 ≤ ·) := by
    rw [List.filter_filter]
    refine List.filter_congr fun other _ => ?_
    rw [← Bool.decide_and]
    exact decide_eq_decide.mpr ⟨fun beyond => ⟨beyond, by omega⟩, And.left⟩
  rw [nested, List.length_filter_lt_length_iff_exists]
  exact ⟨count, List.mem_filter.mpr ⟨found, by simp⟩, by simp⟩

def leastFree (taken : List Nat) (count : Nat) : Nat :=
  if count ∈ taken then leastFree taken (count + 1) else count
termination_by (taken.filter (count ≤ ·)).length
decreasing_by exact length_beyond_lt ‹_›

def least (text : String) : String :=
  ofCount (leastFree (marks text) 0)

/-- A marker that is longer than every one that the text could be taken to hold. -/
def fresh (text : String) : String :=
  ofCount (((lines text.toList).filterMap fun line => (tail? line).map lastMark).foldl max 0)

end Marker

end ShellTree
