import ShellTree.Proofs.Arithmetic
import ShellTree.Proofs.NodeFields

/-!
# Arithmetic expressions in print

A binary operator is printed with blanks around it.  An operator with one
operand is printed right before or behind the operand, and may meet an operator
there.  The text has the tokens of the expression just where no two operators
that meet start another one.
-/

namespace ShellTree.Arithmetic

/-- A name or a number. -/
structure Name where
  text : String
  nonempty : text.toList ≠ []
  named : ∀ c ∈ text.toList, isNamed c = true

/-- A known operator. -/
structure Operator where
  text : String
  known : text.toList ∈ operators

/-- An arithmetic expression; an operator with one operand stands before or behind it. -/
inductive Expr where
  | name (value : Name)
  | unary (operator : Operator) (behind : Bool) (operand : Expr)
  | binary (operator : Operator) (left right : Expr)
  | parens (inner : Expr)

namespace Expr

/-- The tokens of an expression in order. -/
def tokens : Expr → List Token
  | .name value => [.name value.text.toList]
  | .unary operator false operand => .operator operator.text.toList :: operand.tokens
  | .unary operator true operand => operand.tokens ++ [.operator operator.text.toList]
  | .binary operator left right =>
      left.tokens ++ .operator operator.text.toList :: right.tokens
  | .parens inner => .opening :: inner.tokens ++ [.closing]

/-- The text that is printed for an expression. -/
def text : Expr → String
  | .name value => value.text
  | .unary operator false operand => operator.text ++ operand.text
  | .unary operator true operand => operand.text ++ operator.text
  | .binary operator left right => left.text ++ " " ++ operator.text ++ " " ++ right.text
  | .parens inner => "(" ++ inner.text ++ ")"

/-- The first token of an expression. -/
def first : Expr → Token
  | .name value => .name value.text.toList
  | .unary operator false _ => .operator operator.text.toList
  | .unary _ true operand => operand.first
  | .binary _ left _ => left.first
  | .parens _ => .opening

/-- The last token of an expression. -/
def last : Expr → Token
  | .name value => .name value.text.toList
  | .unary _ false operand => operand.last
  | .unary operator true _ => .operator operator.text.toList
  | .binary _ _ right => right.last
  | .parens _ => .closing

/-- No operator with one operand meets an operator with which it starts another one. -/
def Separate : Expr → Prop
  | .name _ => True
  | .unary operator false operand =>
      operand.Separate ∧ Apart (some (.operator operator.text.toList)) (some operand.first)
  | .unary operator true operand =>
      operand.Separate ∧ Apart (some operand.last) (some (.operator operator.text.toList))
  | .binary _ left right => left.Separate ∧ right.Separate
  | .parens inner => inner.Separate

/-- The tokens of an expression as they are printed, with gaps for the blanks. -/
def row : Expr → List (Option Token)
  | .name value => [some (.name value.text.toList)]
  | .unary operator false operand => some (.operator operator.text.toList) :: operand.row
  | .unary operator true operand => operand.row ++ [some (.operator operator.text.toList)]
  | .binary operator left right =>
      left.row ++ none :: some (.operator operator.text.toList) :: none :: right.row
  | .parens inner => some .opening :: inner.row ++ [some .closing]

theorem written_row (expr : Expr) : written expr.row = expr.text.toList := by
  have joins : ∀ first second : List (Option Token),
      written (first ++ second) = written first ++ written second := by
    intro first second
    exact List.flatMap_append
  induction expr with
  | name value => simp [row, written, text, Token.chars]
  | unary operator behind operand ih =>
      cases behind with
      | false =>
          change operator.text.toList ++ written operand.row = _
          rw [ih, text, String.toList_append]
      | true =>
          rw [row, joins, ih, text, String.toList_append]
          simp [written, Token.chars]
  | binary operator left right ihl ihr =>
      have middle : written (none :: some (.operator operator.text.toList) :: none :: right.row) =
          " ".toList ++ operator.text.toList ++ " ".toList ++ written right.row := by
        simp [written, Token.chars]
      rw [row, joins, middle, ihl, ihr, text]
      simp
  | parens inner ih =>
      have enclosed : written (some .opening :: inner.row) = '(' :: written inner.row := rfl
      rw [row, joins, enclosed, ih, text]
      simp [written, Token.chars]

theorem reduceOption_row (expr : Expr) : expr.row.reduceOption = expr.tokens := by
  induction expr with
  | name value => rfl
  | unary operator behind operand ih =>
      cases behind with
      | false => rw [row, List.reduceOption_cons_of_some, ih, tokens]
      | true => rw [row, List.reduceOption_append, ih, tokens]; rfl
  | binary operator left right ihl ihr =>
      rw [row, List.reduceOption_append, ihl, List.reduceOption_cons_of_none,
        List.reduceOption_cons_of_some, List.reduceOption_cons_of_none, ihr, tokens]
  | parens inner ih =>
      rw [row, List.reduceOption_append, List.reduceOption_cons_of_some, ih, tokens]
      rfl

theorem proper_of_mem_row {expr : Expr} {token : Token} (inside : some token ∈ expr.row) :
    token.Proper := by
  induction expr with
  | name value =>
      cases List.mem_singleton.mp inside
      exact ⟨value.nonempty, value.named⟩
  | unary operator behind operand ih =>
      cases behind with
      | false =>
          rcases List.mem_cons.mp inside with same | inside
          · cases same
            exact operator.known
          · exact ih inside
      | true =>
          rcases List.mem_append.mp inside with inside | same
          · exact ih inside
          · cases List.mem_singleton.mp same
            exact operator.known
  | binary operator left right ihl ihr =>
      simp only [row, List.mem_append, List.mem_cons, reduceCtorEq, Option.some.injEq,
        false_or] at inside
      rcases inside with inside | rfl | inside
      · exact ihl inside
      · exact operator.known
      · exact ihr inside
  | parens inner ih =>
      simp only [row, List.mem_append, List.mem_cons, Option.some.injEq, List.not_mem_nil,
        or_false] at inside
      rcases inside with (rfl | inside) | rfl
      · trivial
      · exact ih inside
      · trivial

theorem head?_row (expr : Expr) : expr.row.head? = some (some expr.first) := by
  induction expr with
  | name value => rfl
  | unary operator behind operand ih =>
      cases behind with
      | false => rfl
      | true => rw [row, List.head?_append, ih]; rfl
  | binary operator left right ihl ihr => rw [row, List.head?_append, ihl]; rfl
  | parens inner ih => rfl

theorem getLast?_row (expr : Expr) : expr.row.getLast? = some (some expr.last) := by
  induction expr with
  | name value => rfl
  | unary operator behind operand ih =>
      cases behind with
      | false => rw [row, List.getLast?_cons, ih]; rfl
      | true => rw [row, List.getLast?_append]; rfl
  | binary operator left right ihl ihr =>
      rw [row, List.getLast?_append, List.getLast?_cons, List.getLast?_cons, List.getLast?_cons,
        ihr]
      rfl
  | parens inner ih => rw [row, List.getLast?_append]; rfl

theorem proper_last (expr : Expr) : expr.last.Proper :=
  proper_of_mem_row (List.mem_of_getLast? expr.getLast?_row)

/-- Blanks and parentheses keep tokens apart, so only the operators with one operand matter. -/
theorem isChain_row_iff (expr : Expr) : expr.row.IsChain Apart ↔ expr.Separate := by
  induction expr with
  | name value => simp [row, Separate]
  | unary operator behind operand ih =>
      cases behind with
      | false =>
          rw [row, List.isChain_cons, head?_row, ih, Separate]
          simp [and_comm]
      | true =>
          rw [row, List.isChain_append, getLast?_row, ih, Separate]
          simp
  | binary operator left right ihl ihr =>
      rw [row, List.isChain_append, getLast?_row, ihl, Separate, List.isChain_cons,
        List.isChain_cons, List.isChain_cons, ihr]
      simp [Apart]
  | parens inner ih =>
      have opened : Apart (some .opening) (some inner.first) := fun _ _ => rfl
      have closed : Apart (some inner.last) (some .closing) := by
        intro c same
        cases same
        exact goesOn_mark inner.proper_last (.inr rfl)
      rw [row, List.cons_append, List.isChain_cons, List.isChain_append, ih, List.head?_append,
        head?_row, getLast?_row, Separate]
      simp [opened, closed]

/-- The printed text has the tokens of the expression just where no operators run together. -/
theorem tokens_text_iff (expr : Expr) :
    Arithmetic.tokens expr.text.toList = expr.tokens ↔ expr.Separate := by
  rw [← written_row, ← reduceOption_row, ← isChain_row_iff]
  exact tokens_written_iff fun token inside => proper_of_mem_row inside

end Expr

/-! ## Nodes -/

open Shfmt (Source Kind IsLiteral arithmOps arithmText)

/-- The node of an expression.  Its leaves are words of one literal. -/
inductive IsNode (source : Source) : Json → Expr → Prop where
  | name {node part : Json} {value : Name}
      (kind : node.get? "Type" = some (.str Kind.word.label))
      (parts : node.items? "Parts" = some [part])
      (literal : IsLiteral source part value.text) :
      IsNode source node (.name value)
  | unary {node number x : Json} {operator : Operator} {behind : Bool} {operand : Expr}
      (kind : node.get? "Type" = some (.str Kind.unaryArithm.label))
      (op : node.get? "Op" = some number)
      (known : Shfmt.operator arithmOps number = .ok (some operator.text))
      (post : ((node.get? "Post").getD .null).truthy = behind)
      (inside : node.get? "X" = some x) (reads : IsNode source x operand) :
      IsNode source node (.unary operator behind operand)
  | binary {node number x y : Json} {operator : Operator} {left right : Expr}
      (kind : node.get? "Type" = some (.str Kind.binaryArithm.label))
      (op : node.get? "Op" = some number)
      (known : Shfmt.operator arithmOps number = .ok (some operator.text))
      (first : node.get? "X" = some x) (readsLeft : IsNode source x left)
      (second : node.get? "Y" = some y) (readsRight : IsNode source y right) :
      IsNode source node (.binary operator left right)
  | parens {node x : Json} {inner : Expr}
      (kind : node.get? "Type" = some (.str Kind.parenArithm.label))
      (inside : node.get? "X" = some x) (reads : IsNode source x inner) :
      IsNode source node (.parens inner)

/-- The text of a node is that of its expression. -/
theorem IsNode.arithmText_eq {source : Source} {node : Json} {expr : Expr}
    (reads : IsNode source node expr) : arithmText source node = .ok expr.text := by
  induction reads with
  | name kind parts literal =>
      obtain ⟨_, fetched⟩ := Json.fetch_of_get? kind
      have leaf : Shfmt.PartShows source .unquoted _ _ := literal.shows
      obtain ⟨read, same, shows⟩ := Shfmt.word_shows parts (.cons leaf .nil)
      rw [arithmText]
      simp only [fetched, Shfmt.kindOf?_label, same, bind, Except.bind, Shfmt.textOf,
        Datum.renderWord, shows.renderParts_eq, String.join_cons, String.join_nil,
        String.append_empty]
      rfl
  | @unary _ _ _ _ behind _ kind op known post inside reads ih =>
      obtain ⟨_, fetched⟩ := Json.fetch_of_get? kind
      obtain ⟨_, numbered⟩ := Json.fetch_of_get? op
      obtain ⟨_, required⟩ := Json.require_of_get? inside
      obtain ⟨_, placed⟩ := Json.fetch_eq (Json.isObject_of_get? kind) "Post"
      rw [arithmText]
      simp only [fetched, Shfmt.kindOf?_label, numbered, known, required, ih, placed, post, bind,
        Except.bind]
      cases behind with
      | false => rfl
      | true => rfl
  | binary kind op known first readsLeft second readsRight ihl ihr =>
      obtain ⟨_, fetched⟩ := Json.fetch_of_get? kind
      obtain ⟨_, numbered⟩ := Json.fetch_of_get? op
      obtain ⟨_, requiredLeft⟩ := Json.require_of_get? first
      obtain ⟨_, requiredRight⟩ := Json.require_of_get? second
      rw [arithmText]
      simp only [fetched, Shfmt.kindOf?_label, numbered, known, requiredLeft, ihl, requiredRight,
        ihr, bind, Except.bind]
      rfl
  | parens kind inside reads ih =>
      obtain ⟨_, fetched⟩ := Json.fetch_of_get? kind
      obtain ⟨_, required⟩ := Json.require_of_get? inside
      rw [arithmText]
      simp only [fetched, Shfmt.kindOf?_label, required, ih, bind, Except.bind]
      rfl

/--
The text of a node is cut into the tokens of its expression, in order, just
where no operator with one operand meets an operator with which it starts
another one.
-/
theorem tokens_arithmText_iff {source : Source} {node : Json} {expr : Expr}
    (reads : IsNode source node expr) :
    ∃ text, arithmText source node = .ok text ∧
      (tokens text.toList = expr.tokens ↔ expr.Separate) :=
  ⟨expr.text, reads.arithmText_eq, expr.tokens_text_iff⟩

/-! ## Two signs -/

/-- The node of a name. -/
def nameNode (name : String) : Json :=
  .obj [("Type", .str "Word"),
    ("Parts", .arr [.obj [("Type", .str "Lit"), ("Value", .str name)]])]

/-- The node of an operator with one operand. -/
def unaryNode (number : Int) (behind : Bool) (operand : Json) : Json :=
  .obj [("Type", .str "UnaryArithm"), ("Op", .int number), ("Post", .bool behind), ("X", operand)]

theorem isNode_nameNode (value : Name) : IsNode none (nameNode value.text) (.name value) :=
  .name rfl rfl ⟨rfl, .inr ⟨rfl, rfl⟩⟩

theorem isNode_unaryNode {number : Int} {behind : Bool} {node : Json} {operator : Operator}
    {operand : Expr} (known : arithmOps.lookup number = some operator.text)
    (reads : IsNode none node operand) :
    IsNode none (unaryNode number behind node) (.unary operator behind operand) :=
  .unary rfl rfl (congrArg Except.ok known) rfl rfl reads

/-- The name, and the operators, of the expressions below. -/
def letter : Name :=
  ⟨"x", by decide, List.forall_mem_singleton.mpr (by decide)⟩

@[inherit_doc letter]
def minus : Operator :=
  ⟨"-", List.contains_iff_mem.mp (by decide)⟩

@[inherit_doc letter]
def increment : Operator :=
  ⟨"++", List.contains_iff_mem.mp (by decide)⟩

/-- A minus sign between two operands has blanks around it and meets no other sign. -/
theorem tokens_arithmText_iff_difference :
    let left := unaryNode 36 true (nameNode "x")
    let right := unaryNode 70 false (nameNode "x")
    let node : Json :=
      .obj [("Type", .str "BinaryArithm"), ("Op", .int 70), ("X", left), ("Y", right)]
    let expr : Expr :=
      .binary minus (.unary increment true (.name letter)) (.unary minus false (.name letter))
    IsNode none node expr ∧ expr.Separate ∧
      ∃ text, arithmText none node = .ok text ∧ tokens text.toList =
        [.name ['x'], .operator ['+', '+'], .operator ['-'], .operator ['-'], .name ['x']] := by
  intro left right node expr
  have reads : IsNode none node expr :=
    .binary rfl rfl rfl rfl (isNode_unaryNode rfl (isNode_nameNode letter)) rfl
      (isNode_unaryNode rfl (isNode_nameNode letter))
  have separate : expr.Separate := by
    refine ⟨⟨trivial, ?_⟩, trivial, ?_⟩
    · intro c same
      cases same
      decide
    · intro c same
      cases same
      decide
  obtain ⟨text, printed, same⟩ := tokens_arithmText_iff reads
  exact ⟨reads, separate, text, printed, same.mpr separate⟩

/-- A minus sign before a minus sign is printed as a decrement. -/
theorem tokens_two_signs :
    let node := unaryNode 70 false (unaryNode 70 false (nameNode "x"))
    let expr : Expr := .unary minus false (.unary minus false (.name letter))
    IsNode none node expr ∧ arithmText none node = .ok "--x" ∧
      tokens "--x".toList = [.operator ['-', '-'], .name ['x']] ∧
      expr.tokens = [.operator ['-'], .operator ['-'], .name ['x']] := by
  intro node expr
  have reads : IsNode none node expr :=
    isNode_unaryNode rfl (isNode_unaryNode rfl (isNode_nameNode letter))
  refine ⟨reads, reads.arithmText_eq, ?_, rfl⟩
  have decrement : longest? ['-', '-', 'x'] = some ['-', '-'] := by decide
  change tokens ['-', '-', 'x'] = _
  rw [tokens_of_longest? decrement]
  change _ :: tokens ['x'] = _
  rw [tokens_of_isNamed (by decide)]
  change _ :: _ :: tokens [] = _
  rw [tokens_nil]
  rfl

end ShellTree.Arithmetic
