/-!
# Tags

The constructs of a shell syntax tree by name, and the names of their fields.
-/

namespace ShellTree

inductive Tag where
  | pipe
  | simple
  | subshell
  | and
  | or
  | semi
  | not
  | redirected
  | background
  | defun
  | forLoop
  | whileLoop
  | ifElse
  | case
  | select
  | arith
  | cond
  | arithFor
  | coproc
  | time
  | group
  | char
  | escaped
  | tilde
  | arithPart
  | param
  | quoted
  | commandPart
  | process
  | assign
  | file
  | dup
  | heredoc
  | single
deriving DecidableEq

namespace Tag

def all : List Tag :=
  [.pipe, .simple, .subshell, .and, .or, .semi, .not, .redirected, .background, .defun,
    .forLoop, .whileLoop, .ifElse, .case, .select, .arith, .cond, .arithFor, .coproc, .time,
    .group, .char, .escaped, .tilde, .arithPart, .param, .quoted, .commandPart, .process,
    .assign, .file, .dup, .heredoc, .single]

theorem mem_all (tag : Tag) : tag ∈ all := by
  cases tag <;> decide

/-- The name by which a construct is known in an outline. -/
def label : Tag → String
  | .pipe => "Pipe"
  | .simple => "Command"
  | .subshell => "Subshell"
  | .and => "And"
  | .or => "Or"
  | .semi => "Semi"
  | .not => "Not"
  | .redirected => "Redir"
  | .background => "Background"
  | .defun => "Defun"
  | .forLoop => "For"
  | .whileLoop => "While"
  | .ifElse => "If"
  | .case => "Case"
  | .select => "Select"
  | .arith => "Arith"
  | .cond => "Cond"
  | .arithFor => "ArithFor"
  | .coproc => "Coproc"
  | .time => "Time"
  | .group => "Group"
  | .char => "C"
  | .escaped => "E"
  | .tilde => "T"
  | .arithPart => "A"
  | .param => "V"
  | .quoted => "Q"
  | .commandPart => "B"
  | .process => "P"
  | .assign => "Assign"
  | .file => "File"
  | .dup => "Dup"
  | .heredoc => "Heredoc"
  | .single => "SingleArg"

/-- The name that a construct bears; an assignment has none of its own. -/
def name : Tag → String
  | .assign => "None"
  | tag => tag.label

def ofLabel? (label : String) : Option Tag :=
  all.find? fun tag => tag.label = label

theorem ofLabel?_label (tag : Tag) : ofLabel? tag.label = some tag := by
  cases tag <;> rfl

theorem label_of_ofLabel? {label : String} {tag : Tag} (read : ofLabel? label = some tag) :
    tag.label = label := by
  have found := List.find?_some read
  exact of_decide_eq_true found

theorem label_injective {first second : Tag} (same : first.label = second.label) :
    first = second := by
  have read := ofLabel?_label first
  rw [same, ofLabel?_label second] at read
  exact (Option.some.inj read).symm

/-- The names of the fields, in the order in which they are stored. -/
def fieldNames : Tag → List String
  | .pipe => ["is_background", "items"]
  | .simple => ["line_number", "assignments", "arguments", "redir_list"]
  | .subshell => ["line_number", "body", "redir_list"]
  | .and => ["left_operand", "right_operand", "no_braces"]
  | .or => ["left_operand", "right_operand", "no_braces"]
  | .semi => ["left_operand", "right_operand", "semicolon"]
  | .not => ["body", "no_braces"]
  | .redirected => ["line_number", "node", "redir_list"]
  | .background => ["line_number", "node", "redir_list", "after_ampersand", "no_braces"]
  | .defun => ["line_number", "name", "body", "bash_mode"]
  | .forLoop => ["line_number", "argument", "body", "variable"]
  | .whileLoop => ["test", "body"]
  | .ifElse => ["cond", "then_b", "else_b"]
  | .case => ["line_number", "argument", "cases"]
  | .select => ["line_number", "variable", "body", "map_list"]
  | .arith => ["line_number", "body"]
  | .cond => ["line_number", "cond_type", "op", "left", "right", "invert_return"]
  | .arithFor => ["line_number", "init", "cond", "step", "action"]
  | .coproc => ["name", "body"]
  | .time => ["time_posix", "command"]
  | .group => ["body"]
  | .char => ["char", "bash_mode"]
  | .escaped => ["char"]
  | .tilde => ["string"]
  | .arithPart => ["arg"]
  | .param => ["fmt", "null", "var", "arg"]
  | .quoted => ["arg"]
  | .commandPart => ["node"]
  | .process => ["op", "node"]
  | .assign => ["var", "val"]
  | .file => ["redir_type", "fd", "arg"]
  | .dup => ["dup_type", "fd", "arg", "move"]
  | .heredoc => ["heredoc_type", "fd", "arg", "kill_leading", "eof"]
  | .single => ["redir_type", "fd"]

end Tag

inductive CondKind where
  | and
  | or
  | unary
  | binary
  | term
  | expr
deriving DecidableEq

namespace CondKind

def all : List CondKind :=
  [.and, .or, .unary, .binary, .term, .expr]

def label : CondKind → String
  | .and => "COND_AND"
  | .or => "COND_OR"
  | .unary => "COND_UNARY"
  | .binary => "COND_BINARY"
  | .term => "COND_TERM"
  | .expr => "COND_EXPR"

/-- The number by which a tree records a type of condition. -/
def number : CondKind → Nat
  | .and => 1
  | .or => 2
  | .unary => 3
  | .binary => 4
  | .term => 5
  | .expr => 6

def ofLabel? (label : String) : Option CondKind :=
  all.find? fun kind => kind.label = label

end CondKind

end ShellTree
