import ShellTree.Print.Style
import ShellTree.Tree.Describe

/-!
# Escaped characters

An escaped character is written with a backslash where it means something to
the shell, as a letter escape where it is a control character that has one, as
it is where it is printable ASCII, and by its number otherwise.
-/

namespace ShellTree

namespace Escape

def everywhere : List Char :=
  ['\x27', '"', '\x60', '(', ')', '\x7b', '\x7d', '$', '&', '|', ';']

def outsideQuotes : List Char :=
  ['*', '?', '[', ']', '#', '<', '>', '~', ' ']

/-- The text of a character by itself, given its number as it is to be shown. -/
def charText (c : Char) (number : String) : String :=
  if c = '\x27' then "\\'"
  else if c = '\\' then "\\\\"
  else if c = '\n' then "\\n"
  else if c = '\t' then "\\t"
  else if c = '\r' then "\\r"
  else if c = '\x08' then "\\b"
  else if 32 ≤ c.toNat ∧ c.toNat ≤ 126 then String.singleton c
  else "\\" ++ number

def codeText (code : Datum) : Except Fault String := do
  return charText (← code.char) (← code.display)

def text (mode : QuoteMode) (code : Datum) : Except Fault String := do
  let c ← code.char
  if everywhere.contains c then return "\\" ++ String.singleton c
  else if outsideQuotes.contains c && mode == .unquoted then
    return "\\" ++ String.singleton c
  else codeText code

end Escape

def expansionOperators : List (String × String) :=
  [("Normal", ""), ("Minus", "-"), ("Plus", "+"), ("Question", "?"), ("Assign", "="),
    ("TrimR", "%"), ("TrimRMax", "%%"), ("TrimL", "#"), ("TrimLMax", "##"), ("Length", "#")]

mutual

/-- Can a datum be looked up in a table?  Sequences that can change cannot. -/
def Datum.hashable : Datum → Bool
  | .seq .list _ => false
  | .seq .tuple items => hashableItems items
  | .dict _ => false
  | _ => true

def hashableItems : List Datum → Bool
  | [] => true
  | item :: rest => item.hashable && hashableItems rest

end

def expansionOperator (format : Datum) : Except Fault String :=
  match format with
  | .text name =>
      match expansionOperators.lookup name with
      | some operator => .ok operator
      | none => .error .unknownExpansion
  | other => if other.hashable then .error .unknownExpansion else .error .wrongKind

/-- A text between braces, closed as a list of commands is. -/
def inBraces (body : String) : String :=
  "\x7b " ++ body ++ " ; \x7d"

def inParens (body : String) : String :=
  "( " ++ body ++ " )"

def inBackground (noBraces : Bool) (body : String) : String :=
  if noBraces then body ++ " &" else "\x7b " ++ body ++ " & \x7d"

/-- A datum as text, or nothing if it is what was expected. -/
def shownUnless (expected actual : Datum) : Except Fault String :=
  if expected.equal actual then .ok "" else actual.display

end ShellTree
