import ShellTree.Bash.Reader
import ShellTree.Sample.Nodes
import ShellTree.Sample.Records
import ShellTree.Sample.Tagged
import ShellTree.Sample.Trees
import ShellTree.Shfmt.Reader
import ShellTree.Tagged
import ShellTree.Tree.Export
import ShellTree.Walk

/-!
# Measurements

Each measurement takes a size, runs samples of that size through one part of
the library and reports a few numbers that sum up what came out.  A size that
is too small is raised to the least one that makes sense.
-/

namespace ShellTree

namespace Sample

namespace Measure

def size (text : String) : Datum :=
  .int text.length

def nameOf (node : Datum) : Except Fault Datum := do
  return .text (← node.tag).name

/-- The first items of a list that is repeated without end. -/
def cycled {α : Type} (items : List α) (count : Nat) : List α :=
  (List.replicate (count / items.length + 1) items).flatten.take count

def standardCommands : Int := 100

/-- Read a script in the tagged form: how long it is as shell text and as described, and its tag. -/
def script (count : Int) : Except Fault Datum := do
  let node ← ShellTree.Tagged.readCommand (Tagged.script count)
  let text ← required (← node.shellText)
  let description ← node.describe true
  return .list [size text, size description, ← nameOf node]

def standardRounds : Int := 2

/-- Show each sample tree in three ways, round after round: how many were shown. -/
def trees (rounds : Int) : Except Fault Datum := do
  let shown ← Trees.all.mapM fun tree => do
    let _ ← tree.shellText
    let _ ← tree.describe true
    let _ ← tree.toJson
    return 3
  return .int (shown.foldl (· + ·) 0 * max 1 rounds.toNat)

/-- Walk through a script and through the sample trees: a tag, and how many trees there are. -/
def walks (count : Int) : Except Fault Datum := do
  let node ← ShellTree.Tagged.readCommand (Tagged.script count)
  let walked ← (node.walk noReplacement).outcome
  let others ← (walkQuadruples noReplacement
    (Trees.all.map fun tree => [tree, .text "", .int 0, .int 1])).outcome
  return .list [← nameOf walked, .int others.length]

def escapedWord : String := "echo café \x01*.txt > out.log"

def otherWord : String := "printf \x01'%s\\n' naïve text"

def standardWord : Int := 4000

def pieces (text : String) : List Datum :=
  (Bash.split (Utf8.encode text)).map fun piece => .int (Bash.number piece)

/-- Expand a long word, and split and expand a short one: the numbers of characters. -/
def words (count : Int) : Except Fault Datum := do
  let unit := pieces escapedWord
  let long ← Bash.expand (List.replicate (max 1 (count.toNat / unit.length)) unit).flatten
  let short := (List.replicate 3 (pieces otherWord)).flatten
  let expanded ← Bash.expand short
  return .list [.int long.length, .int short.length, .int expanded.length]

def standardLines : Int := 3000

/-- A line of a heredoc; every third looks like a marker. -/
def heredocLine (i : Nat) : String :=
  if i % 3 = 0 then "EO" ++ String.ofList (List.replicate (i / 3 % 5 + 1) 'F')
  else "line number " ++ Nat.repr i

def heredocText (count : Nat) : String :=
  String.intercalate "\n" ((List.range count).map heredocLine)

def codes : List Int :=
  [39, 92, 10, 9, 13, 8, 97, 32, 126, 0, 7, 127, 128, 200, 233, 255, 1000]

def pipelinePiece (i : Nat) : String :=
  if i % 3 = 0 then
    inBraces (String.intercalate " " (List.replicate 3 (Nat.repr i)))
  else inParens ("argument" ++ Nat.repr i)

def conditionPiece (i : Nat) : String :=
  if i % 3 = 0 then inBraces (Nat.repr i) else inParens ("part_" ++ Nat.repr i)

/-- Find markers, and put texts together: the markers, and the lengths of the texts. -/
def texts (lines : Int) : Except Fault Datum := do
  let count := lines.toNat
  let escaped ← codes.mapM fun code => Escape.codeText (.int code)
  let range := List.range (max 5 (count / 10))
  let pipeline := inBackground true (String.intercalate " " (range.map pipelinePiece))
  let condition := inParens (String.intercalate " && " (range.map conditionPiece))
  return .list [
    .text (Marker.least (heredocText count)),
    .text (Marker.fresh (heredocText (count / 3))),
    size (String.join escaped),
    .int expansionOperators.length,
    size pipeline,
    size condition]

def standardReads : Int := 120

/-- Read records of bash: the tags.  There has to be at least one. -/
def records (count : Int) : Except Fault Datum := do
  let chosen := cycled Records.all count.toNat
  if chosen.isEmpty then .error .outOfBounds
  else
    let nodes ← ((Bash.readCommands (.list chosen)).run.run .start).1
    return .list (← nodes.mapM nameOf)

def statements (count : Int) : Except Fault Datum := do
  let chosen := cycled Nodes.all (max Nodes.all.length count.toNat)
  let nodes ← Shfmt.readNodes Nodes.source (.arr chosen)
  return .list (← nodes.mapM nameOf)

end Measure

end Sample

end ShellTree
