import ShellTree.Decimal.Shortest
import ShellTree.Json.Basic
import ShellTree.Tree.Tag

/-!
# Trees

A tree is built from commands, redirections and the parts of words.  Every
field holds a *datum*: a number, a text, a sequence, a record or again a
construct.  Nothing is said about which datum fits which field, because trees
are also made by hand and by replacement; the operations on trees say what they
need, and fail with a fault where they do not find it.
-/

namespace ShellTree

/-- A sequence is open, like a list of words, or fixed, like a descriptor. -/
inductive SeqKind where
  | list
  | tuple
deriving DecidableEq

mutual

/-- What a field of a construct may hold. -/
inductive Datum where
  | null
  | bool (value : Bool)
  | int (value : Int)
  | float (value : Float)
  | text (value : String)
  | seq (kind : SeqKind) (items : List Datum)
  | dict (fields : List (String × Datum))
  | condKind (kind : CondKind)
  | command (value : Command)
  | part (value : WordPart)
  | redir (value : Redirection)
  | assign (var val : Datum)

inductive Command where
  | pipe (behind items : Datum)
  | simple (line assignments arguments redirs : Datum)
  | subshell (line body redirs : Datum)
  | and (left right noBraces : Datum)
  | or (left right noBraces : Datum)
  | semi (left right semicolon : Datum)
  | not (body noBraces : Datum)
  | redirected (line node redirs : Datum)
  | background (line node redirs after noBraces : Datum)
  | defun (line name body bashMode : Datum)
  | forLoop (line argument body name : Datum)
  | whileLoop (test body : Datum)
  | ifElse (test thenBranch elseBranch : Datum)
  | case (line argument cases : Datum)
  | select (line name body choices : Datum)
  | arith (line body : Datum)
  | cond (line kind op left right inverted : Datum)
  | arithFor (line start test step action : Datum)
  | coproc (name body : Datum)
  | time (posix node : Datum)
  | group (body : Datum)

inductive WordPart where
  | char (code bashMode : Datum)
  | escaped (code : Datum)
  | tilde (user : Datum)
  | arith (arg : Datum)
  | param (format nullTest var arg : Datum)
  | quoted (arg : Datum)
  | command (node : Datum)
  | process (op node : Datum)

inductive Redirection where
  | file (kind fd arg : Datum)
  | dup (kind fd arg move : Datum)
  | heredoc (kind fd arg killLeading eof : Datum)
  | single (kind fd : Datum)

end

instance : Inhabited Datum := ⟨.null⟩

def Command.tag : Command → Tag
  | .pipe .. => .pipe
  | .simple .. => .simple
  | .subshell .. => .subshell
  | .and .. => .and
  | .or .. => .or
  | .semi .. => .semi
  | .not .. => .not
  | .redirected .. => .redirected
  | .background .. => .background
  | .defun .. => .defun
  | .forLoop .. => .forLoop
  | .whileLoop .. => .whileLoop
  | .ifElse .. => .ifElse
  | .case .. => .case
  | .select .. => .select
  | .arith .. => .arith
  | .cond .. => .cond
  | .arithFor .. => .arithFor
  | .coproc .. => .coproc
  | .time .. => .time
  | .group .. => .group

def WordPart.tag : WordPart → Tag
  | .char .. => .char
  | .escaped .. => .escaped
  | .tilde .. => .tilde
  | .arith .. => .arithPart
  | .param .. => .param
  | .quoted .. => .quoted
  | .command .. => .commandPart
  | .process .. => .process

def Redirection.tag : Redirection → Tag
  | .file .. => .file
  | .dup .. => .dup
  | .heredoc .. => .heredoc
  | .single .. => .single

def Command.fields : Command → List Datum
  | .pipe behind items => [behind, items]
  | .simple line assignments arguments redirs => [line, assignments, arguments, redirs]
  | .subshell line body redirs => [line, body, redirs]
  | .and left right noBraces => [left, right, noBraces]
  | .or left right noBraces => [left, right, noBraces]
  | .semi left right semicolon => [left, right, semicolon]
  | .not body noBraces => [body, noBraces]
  | .redirected line node redirs => [line, node, redirs]
  | .background line node redirs after noBraces => [line, node, redirs, after, noBraces]
  | .defun line name body bashMode => [line, name, body, bashMode]
  | .forLoop line argument body name => [line, argument, body, name]
  | .whileLoop test body => [test, body]
  | .ifElse test thenBranch elseBranch => [test, thenBranch, elseBranch]
  | .case line argument cases => [line, argument, cases]
  | .select line name body choices => [line, name, body, choices]
  | .arith line body => [line, body]
  | .cond line kind op left right inverted => [line, kind, op, left, right, inverted]
  | .arithFor line start test step action => [line, start, test, step, action]
  | .coproc name body => [name, body]
  | .time posix node => [posix, node]
  | .group body => [body]

def WordPart.fields : WordPart → List Datum
  | .char code bashMode => [code, bashMode]
  | .escaped code => [code]
  | .tilde user => [user]
  | .arith arg => [arg]
  | .param format nullTest var arg => [format, nullTest, var, arg]
  | .quoted arg => [arg]
  | .command node => [node]
  | .process op node => [op, node]

def Redirection.fields : Redirection → List Datum
  | .file kind fd arg => [kind, fd, arg]
  | .dup kind fd arg move => [kind, fd, arg, move]
  | .heredoc kind fd arg killLeading eof => [kind, fd, arg, killLeading, eof]
  | .single kind fd => [kind, fd]

namespace Datum

abbrev list (items : List Datum) : Datum := .seq .list items

abbrev tuple (items : List Datum) : Datum := .seq .tuple items

def tag? : Datum → Option Tag
  | .command value => some value.tag
  | .part value => some value.tag
  | .redir value => some value.tag
  | .assign .. => some .assign
  | _ => none

def tag (datum : Datum) : Except Fault Tag :=
  match datum.tag? with
  | some tag => .ok tag
  | none => .error .noField

def isTag (datum : Datum) (tag : Tag) : Bool :=
  datum.tag? == some tag

def namedFields : Datum → List (String × Datum)
  | .command value => value.tag.fieldNames.zip value.fields
  | .part value => value.tag.fieldNames.zip value.fields
  | .redir value => value.tag.fieldNames.zip value.fields
  | .assign var val => Tag.assign.fieldNames.zip [var, val]
  | _ => []

/-- Does a datum count as true?  Empty, zero and absent ones do not. -/
def truthy : Datum → Bool
  | .null => false
  | .bool value => value
  | .int value => value != 0
  | .float value => !(value == 0.0)
  | .text value => !value.isEmpty
  | .seq _ items => !items.isEmpty
  | .dict fields => !fields.isEmpty
  | _ => true

def length : Datum → Except Fault Nat
  | .text value => .ok value.length
  | .seq _ items => .ok items.length
  | .dict fields => .ok fields.length
  | _ => .error .wrongKind

/-- The integer that a number is equal to; the truth values count as one and zero. -/
def integer? : Datum → Option Int
  | .bool value => some (if value then 1 else 0)
  | .int value => some value
  | .float value => (Decimal.binary? value).bind Decimal.Binary.integer?
  | _ => none

def isInt (datum : Datum) (value : Int) : Bool :=
  datum.integer? == some value

def isText : Datum → String → Bool
  | .text value, expected => value == expected
  | _, _ => false

/--
The texts that come up when something other than a sequence is gone through:
the characters of a text and the keys of a record.
-/
def entries : Datum → Except Fault (List String)
  | .text value => .ok (value.toList.map String.singleton)
  | .dict fields => .ok (fields.map Prod.fst)
  | _ => .error .wrongKind

def items : Datum → Except Fault (List Datum)
  | .seq _ items => .ok items
  | other => other.entries.map (List.map Datum.text)

def iterable : Datum → Bool
  | .seq .. => true
  | .text _ => true
  | .dict _ => true
  | _ => false

mutual

/--
Equality of data: numbers are compared by value across their kinds, records
without regard to order, and a construct is equal to nothing else than itself,
so never to one that was built apart.
-/
def equal : Datum → Datum → Bool
  | .null, .null => true
  | .text first, .text second => first == second
  | .condKind first, .condKind second => first == second
  | .seq kind items, .seq otherKind others => kind == otherKind && equalItems items others
  | .dict fields, .dict others =>
      fields.length == others.length && equalFields fields others
  | .float first, .float second => first == second
  | first, second =>
      match first.integer?, second.integer? with
      | some value, some other => value == other
      | _, _ => false

def equalItems : List Datum → List Datum → Bool
  | [], [] => true
  | first :: rest, second :: others => equal first second && equalItems rest others
  | _, _ => false

/-- Does each field of a record have an equal one in another? -/
def equalFields : List (String × Datum) → List (String × Datum) → Bool
  | [], _ => true
  | (key, value) :: rest, others =>
      (match others.lookup key with
        | some other => equal value other
        | none => false) && equalFields rest others

end

mutual

def ofJson : Json → Datum
  | .null => .null
  | .bool value => .bool value
  | .int value => .int value
  | .float value => .float value
  | .str value => .text value
  | .arr items => .seq .list (ofJsonItems items)
  | .obj fields => .dict (ofJsonFields fields)

def ofJsonItems : List Json → List Datum
  | [] => []
  | item :: rest => ofJson item :: ofJsonItems rest

def ofJsonFields : List (String × Json) → List (String × Datum)
  | [] => []
  | (key, value) :: rest => (key, ofJson value) :: ofJsonFields rest

end

end Datum

/-- The character with a code point, where surrogates stand for the replacement character. -/
def codeChar (code : Nat) : Char :=
  if code.isValidChar then Char.ofNat code else '\ufffd'

def charOfCode (code : Int) : Except Fault Char :=
  if code < -2147483648 ∨ 2147483647 < code then .error .characterOverflow
  else if code < 0 ∨ 0x10FFFF < code then .error .noSuchCharacter
  else .ok (codeChar code.toNat)

theorem charOfCode_of_lt {code : Nat} (bound : code < 0x110000) :
    charOfCode code = .ok (codeChar code) := by
  have inside : ¬ ((code : Int) < -2147483648 ∨ 2147483647 < (code : Int)) := by omega
  have coded : ¬ ((code : Int) < 0 ∨ 0x10FFFF < (code : Int)) := by omega
  rw [charOfCode, if_neg inside, if_neg coded, Int.toNat_natCast]

def Datum.char : Datum → Except Fault Char
  | .int code => charOfCode code
  | .bool value => .ok (if value then '\x01' else '\x00')
  | _ => .error .wrongKind

def wordOf (bashMode : Bool) (chars : List Char) : Datum :=
  .list (chars.map fun c => .part (.char (.int c.toNat) (.bool bashMode)))

/-- The command that does nothing, as it stands where a command is left out. -/
def Command.empty : Command :=
  .simple (.int (-1)) (.list []) (.list []) (.list [])

/-- A command that is neither an assignment, a call nor a redirection, and has no line. -/
def Datum.isEmptyCommand : Datum → Except Fault Bool
  | .command (.simple line assignments arguments redirs) =>
      if line.isInt (-1) then do
        if (← assignments.length) != 0 then return false
        if (← arguments.length) != 0 then return false
        return (← redirs.length) == 0
      else .ok false
  | _ => .ok false

/-- The commands of a list, chained to the right; one command stands for itself. -/
def chain : Datum → List Datum → Datum
  | last, [] => last
  | first, second :: rest => .command (.semi first (chain second rest) (.bool false))

def chainAll : List Datum → Except Fault Datum
  | [] => .error .emptySequence
  | first :: rest => .ok (chain first rest)

end ShellTree
