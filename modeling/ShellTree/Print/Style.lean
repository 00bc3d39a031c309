import ShellTree.Fault

/-!
# Styles of printing

Whoever asks a construct for its shell text may ask for it in a certain style.
Each construct takes the styles that mean something to it and refuses the
others.
-/

namespace ShellTree

/-- Where the parts of a word stand: bare, between double quotes, or in a heredoc. -/
inductive QuoteMode where
  | unquoted
  | quoted
  | heredoc
deriving DecidableEq

/-- The wish that comes with a request for shell text. -/
inductive Style where
  | plain
  /-- Leave out the braces around the two sides of a sequence, or do not. -/
  | braces (omitted : Bool)
  /-- Leave out the heredocs of a command, or do not. -/
  | heredocs (omitted : Bool)
  /-- Put a condition between double brackets, or do not. -/
  | brackets (shown : Bool)
  | quoting (mode : QuoteMode)
  /-- A wish that no construct takes. -/
  | foreign
deriving DecidableEq

namespace Style

/-- For constructs that take no wish. -/
def none? : Style → Except Fault Unit
  | .plain => .ok ()
  | _ => .error .wrongKind

def bracesOmitted : Style → Except Fault Bool
  | .plain => .ok false
  | .braces omitted => .ok omitted
  | _ => .error .wrongKind

def heredocsOmitted : Style → Except Fault Bool
  | .plain => .ok false
  | .heredocs omitted => .ok omitted
  | _ => .error .wrongKind

def bracketsShown : Style → Except Fault Bool
  | .plain => .ok true
  | .brackets shown => .ok shown
  | _ => .error .wrongKind

def quoteMode : Style → Except Fault QuoteMode
  | .plain => .ok .unquoted
  | .quoting mode => .ok mode
  | _ => .error .wrongKind

end Style

end ShellTree
