import ShellTree.Tree.Basic

/-!
# The operators of shfmt

Operators are written as the numbers of tokens.  A number means different
things in different places, so that there is one table for each place.
-/

namespace ShellTree

namespace Shfmt

inductive BinaryOp where
  | and
  | or
  | pipe
  | pipeAll
deriving DecidableEq

inductive CaseOp where
  | stop
  | fallThrough
  | resume
  | resumeKorn
deriving DecidableEq

inductive RedirOp where
  | output
  | append
  | input
  | inputOutput
  | dupInput
  | dupOutput
  | clobber
  | truncate
  | appendClobber
  | appendTruncate
  | heredoc
  | heredocTabs
  | hereString
  | all
  | allClobber
  | allTruncate
  | appendAll
  | appendAllClobber
  | appendAllTruncate
deriving DecidableEq

/-- Does an operator stand for the standard input if no descriptor is given? -/
def RedirOp.reads : RedirOp → Bool
  | .input => true
  | .inputOutput => true
  | .dupInput => true
  | .heredoc => true
  | .heredocTabs => true
  | .hereString => true
  | _ => false

/-- What a redirection becomes. -/
inductive RedirForm where
  | file (kind : String)
  | heredoc (tabs : Bool)
  | dup (kind : String)
  | single (kind : String)
deriving DecidableEq

def RedirOp.form : RedirOp → RedirForm
  | .output => .file "To"
  | .append => .file "Append"
  | .input => .file "From"
  | .inputOutput => .file "FromTo"
  | .dupInput => .dup "FromFD"
  | .dupOutput => .dup "ToFD"
  | .clobber => .file "Clobber"
  | .truncate => .file "Clobber"
  | .appendClobber => .file "Append"
  | .appendTruncate => .file "Append"
  | .heredoc => .heredoc false
  | .heredocTabs => .heredoc true
  | .hereString => .file "ReadingString"
  | .all => .single "ErrAndOut"
  | .allClobber => .single "ErrAndOut"
  | .allTruncate => .single "ErrAndOut"
  | .appendAll => .single "AppendErrAndOut"
  | .appendAllClobber => .single "AppendErrAndOut"
  | .appendAllTruncate => .single "AppendErrAndOut"

def binaryOps : List (Int × BinaryOp) :=
  [(10, .and), (11, .or), (12, .pipe), (13, .pipeAll)]

def caseOps : List (Int × CaseOp) :=
  [(33, .stop), (34, .fallThrough), (35, .resume), (36, .resumeKorn)]

def redirOps : List (Int × RedirOp) :=
  [(54, .output), (55, .append), (56, .input), (57, .inputOutput), (58, .dupInput),
    (59, .dupOutput), (60, .clobber), (61, .truncate), (62, .appendClobber),
    (63, .appendTruncate), (64, .heredoc), (65, .heredocTabs), (66, .hereString), (67, .all),
    (68, .allClobber), (69, .allTruncate), (70, .appendAll), (71, .appendAllClobber),
    (72, .appendAllTruncate)]

def expansionOps : List (Int × String) :=
  [(68, "+"), (69, ":+"), (70, "-"), (71, ":-"), (72, "?"), (73, ":?"), (74, "="), (75, ":="),
    (76, "%"), (77, "%%"), (78, "#"), (79, "##")]

def globOps : List (Int × String) :=
  [(122, "?("), (123, "*("), (124, "+("), (125, "@("), (126, "!(")]

def processOps : List (Int × String) :=
  [(66, "<("), (67, "=("), (68, ">(")]

def unaryTestOps : List (Int × String) :=
  [(88, "-e"), (89, "-f"), (90, "-d"), (91, "-c"), (92, "-b"), (93, "-p"), (94, "-S"),
    (95, "-L"), (96, "-k"), (97, "-g"), (98, "-u"), (99, "-G"), (100, "-O"), (101, "-N"),
    (102, "-r"), (103, "-w"), (104, "-x"), (105, "-s"), (106, "-t"), (107, "-z"), (108, "-n"),
    (109, "-o"), (110, "-v"), (111, "-R"), (112, "!"), (113, "(")]

def binaryTestOps : List (Int × String) :=
  [(112, "=~"), (113, "-nt"), (114, "-ot"), (115, "-ef"), (116, "-eq"), (117, "-ne"),
    (118, "-le"), (119, "-ge"), (120, "-lt"), (121, "-gt"), (122, "&&"), (123, "||"),
    (124, "="), (125, "=="), (126, "!="), (127, "<"), (128, ">")]

def arithmOps : List (Int × String) :=
  [(68, "+"), (70, "-"), (38, "*"), (85, "/"), (76, "%"), (39, "**"), (40, "=="), (54, ">"),
    (56, "<"), (41, "!="), (42, "<="), (43, ">="), (9, "&"), (12, "|"), (80, "^"), (55, ">>"),
    (61, "<<"), (10, "&&"), (11, "||"), (81, "^^"), (82, ","), (72, "?"), (87, ":"), (74, "="),
    (44, "+="), (45, "-="), (46, "*="), (47, "/="), (48, "%="), (49, "&="), (50, "|="),
    (51, "^="), (52, "<<="), (53, ">>="), (34, "!"), (35, "~"), (36, "++"), (37, "--")]

/-- What a table says about a value, which has to be one that can be looked up at all. -/
def operator {α : Type} (table : List (Int × α)) (value : Json) : Except Fault (Option α) :=
  match value with
  | .arr _ => .error .wrongKind
  | .obj _ => .error .wrongKind
  | other => .ok ((Datum.ofJson other).integer?.bind fun number => table.lookup number)

end Shfmt

end ShellTree
