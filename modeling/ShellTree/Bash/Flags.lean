import ShellTree.Fault

/-!
# The numbers of bash

The records of bash's parser hold numbers for types, operators and flags.  The
ones that decide how a record is read are types of their own; all of them are
listed with the names that bash gives them.
-/

namespace ShellTree

namespace Bash

inductive CommandType where
  | forLoop
  | case
  | whileLoop
  | ifElse
  | simple
  | select
  | connection
  | functionDef
  | untilLoop
  | group
  | arith
  | cond
  | arithFor
  | subshell
  | coproc
deriving DecidableEq

namespace CommandType

def all : List CommandType :=
  [.forLoop, .case, .whileLoop, .ifElse, .simple, .select, .connection, .functionDef,
    .untilLoop, .group, .arith, .cond, .arithFor, .subshell, .coproc]

def number : CommandType → Int
  | .forLoop => 0
  | .case => 1
  | .whileLoop => 2
  | .ifElse => 3
  | .simple => 4
  | .select => 5
  | .connection => 6
  | .functionDef => 7
  | .untilLoop => 8
  | .group => 9
  | .arith => 10
  | .cond => 11
  | .arithFor => 12
  | .subshell => 13
  | .coproc => 14

def label : CommandType → String
  | .forLoop => "CM_FOR"
  | .case => "CM_CASE"
  | .whileLoop => "CM_WHILE"
  | .ifElse => "CM_IF"
  | .simple => "CM_SIMPLE"
  | .select => "CM_SELECT"
  | .connection => "CM_CONNECTION"
  | .functionDef => "CM_FUNCTION_DEF"
  | .untilLoop => "CM_UNTIL"
  | .group => "CM_GROUP"
  | .arith => "CM_ARITH"
  | .cond => "CM_COND"
  | .arithFor => "CM_ARITH_FOR"
  | .subshell => "CM_SUBSHELL"
  | .coproc => "CM_COPROC"

def ofNumber? (value : Int) : Option CommandType :=
  all.find? fun kind => kind.number = value

theorem ofNumber?_number (kind : CommandType) : ofNumber? kind.number = some kind := by
  cases kind <;> rfl

end CommandType

inductive Instruction where
  | output
  | input
  | asynchronousInput
  | append
  | heredoc
  | hereString
  | dupInput
  | dupOutput
  | heredocTabs
  | close
  | outputAndErrors
  | inputOutput
  | forceOutput
  | dupInputWord
  | dupOutputWord
  | moveInput
  | moveOutput
  | moveInputWord
  | moveOutputWord
  | appendAndErrors
deriving DecidableEq

namespace Instruction

def all : List Instruction :=
  [.output, .input, .asynchronousInput, .append, .heredoc, .hereString, .dupInput, .dupOutput,
    .heredocTabs, .close, .outputAndErrors, .inputOutput, .forceOutput, .dupInputWord,
    .dupOutputWord, .moveInput, .moveOutput, .moveInputWord, .moveOutputWord,
    .appendAndErrors]

def number : Instruction → Int
  | .output => 0
  | .input => 1
  | .asynchronousInput => 2
  | .append => 3
  | .heredoc => 4
  | .hereString => 5
  | .dupInput => 6
  | .dupOutput => 7
  | .heredocTabs => 8
  | .close => 9
  | .outputAndErrors => 10
  | .inputOutput => 11
  | .forceOutput => 12
  | .dupInputWord => 13
  | .dupOutputWord => 14
  | .moveInput => 15
  | .moveOutput => 16
  | .moveInputWord => 17
  | .moveOutputWord => 18
  | .appendAndErrors => 19

def label : Instruction → String
  | .output => "R_OUTPUT_DIRECTION"
  | .input => "R_INPUT_DIRECTION"
  | .asynchronousInput => "R_INPUTA_DIRECTION"
  | .append => "R_APPENDING_TO"
  | .heredoc => "R_READING_UNTIL"
  | .hereString => "R_READING_STRING"
  | .dupInput => "R_DUPLICATING_INPUT"
  | .dupOutput => "R_DUPLICATING_OUTPUT"
  | .heredocTabs => "R_DEBLANK_READING_UNTIL"
  | .close => "R_CLOSE_THIS"
  | .outputAndErrors => "R_ERR_AND_OUT"
  | .inputOutput => "R_INPUT_OUTPUT"
  | .forceOutput => "R_OUTPUT_FORCE"
  | .dupInputWord => "R_DUPLICATING_INPUT_WORD"
  | .dupOutputWord => "R_DUPLICATING_OUTPUT_WORD"
  | .moveInput => "R_MOVE_INPUT"
  | .moveOutput => "R_MOVE_OUTPUT"
  | .moveInputWord => "R_MOVE_INPUT_WORD"
  | .moveOutputWord => "R_MOVE_OUTPUT_WORD"
  | .appendAndErrors => "R_APPEND_ERR_AND_OUT"

def ofNumber? (value : Int) : Option Instruction :=
  all.find? fun instruction => instruction.number = value

theorem ofNumber?_number (instruction : Instruction) :
    ofNumber? instruction.number = some instruction := by
  cases instruction <;> rfl

end Instruction

inductive Connector where
  | ampersand
  | semicolon
  | newline
  | pipe
  | and
  | or
deriving DecidableEq

namespace Connector

def all : List Connector :=
  [.ampersand, .semicolon, .newline, .pipe, .and, .or]

/-- The number of a connector: a character, or a token above all characters. -/
def number : Connector → Int
  | .ampersand => 38
  | .semicolon => 59
  | .newline => 10
  | .pipe => 124
  | .and => 288
  | .or => 289

def label : Connector → String
  | .ampersand => "AMPERSAND"
  | .semicolon => "SEMICOLON"
  | .newline => "NEWLINE"
  | .pipe => "PIPE"
  | .and => "AND_AND"
  | .or => "OR_OR"

def ofNumber? (value : Int) : Option Connector :=
  all.find? fun connector => connector.number = value

theorem ofNumber?_number (connector : Connector) :
    ofNumber? connector.number = some connector := by
  cases connector <;> rfl

end Connector

def wordAssignment : Int := 4

def wordQuoted : Int := 2

def invertReturn : Int := 4

def timePipeline : Int := 128

def timePosix : Int := 256

/-- The descriptor of a redirection is stored in a variable. -/
def variableFd : Int := 1

def fallThrough : Int := 1

/-- The names of numbered members, one bit each from the lowest. -/
def bitMembers (names : List String) : List (String × Int) :=
  names.mapIdx fun place name => (name, Nat.pow 2 place)

def enumerations : List (String × List (String × Int)) :=
  [("OFlag",
      [("O_RDONLY", 0), ("O_WRONLY", 1), ("O_RDWR", 2), ("O_APPEND", 8), ("O_CREAT", 512),
        ("O_TRUNC", 1024)]),
    ("WordDescFlag",
      bitMembers ["W_HASDOLLAR", "W_QUOTED", "W_ASSIGNMENT", "W_SPLITSPACE", "W_NOSPLIT",
        "W_NOGLOB", "W_NOSPLIT2", "W_TILDEEXP", "W_DOLLARAT", "W_ARRAYREF", "W_NOCOMSUB",
        "W_ASSIGNRHS", "W_NOTILDE", "W_NOASSNTILDE", "W_EXPANDRHS", "W_COMPASSIGN",
        "W_ASSNBLTIN", "W_ASSIGNARG", "W_HASQUOTEDNULL", "W_DQUOTE", "W_NOPROCSUB",
        "W_SAWQUOTEDNULL", "W_ASSIGNASSOC", "W_ASSIGNARRAY", "W_ARRAYIND", "W_ASSNGLOBAL",
        "W_NOBRACE", "W_COMPLETE", "W_CHKLOCAL", "W_FORCELOCAL"]),
    ("CommandFlag",
      bitMembers ["CMD_WANT_SUBSHELL", "CMD_FORCE_SUBSHELL", "CMD_INVERT_RETURN",
        "CMD_IGNORE_RETURN", "CMD_NO_FUNCTIONS", "CMD_INHIBIT_EXPANSION", "CMD_NO_FORK",
        "CMD_TIME_PIPELINE", "CMD_TIME_POSIX", "CMD_AMPERSAND", "CMD_STDIN_REDIRECTED",
        "CMD_COMMAND_BUILTIN", "CMD_COPROC_SHELL", "CMD_LASTPIPE", "CMD_STD_PATH",
        "CMD_TRY_OPTIMIZING"]),
    ("CommandType", CommandType.all.map fun kind => (kind.label, kind.number)),
    ("RInstruction", Instruction.all.map fun instruction =>
      (instruction.label, instruction.number)),
    ("CondTypeIntEnum",
      [("COND_AND", 1), ("COND_OR", 2), ("COND_UNARY", 3), ("COND_BINARY", 4),
        ("COND_TERM", 5), ("COND_EXPR", 6)]),
    ("ConnectionType", Connector.all.map fun connector => (connector.label, connector.number)),
    ("RedirectFlag", [("REDIR_VARASSIGN", 1)]),
    ("PatternFlag", [("CASEPAT_FALLTHROUGH", 1), ("CASEPAT_TESTNEXT", 2)])]

def memberName (enumeration : String) (value : Option Int) : Except Fault String :=
  match enumerations.lookup enumeration with
  | none => .error .missingKey
  | some members =>
      match members.find? fun member => some member.2 = value with
      | some member => .ok member.1
      | none => .error .noMember

end Bash

end ShellTree
