import Mathlib.Data.List.Chain
import Mathlib.Data.List.Infix
import Mathlib.Data.List.ReduceOption
import ShellTree.Shfmt.Operator

/-!
# Tokens of arithmetic

The shell cuts an arithmetic text into names and numbers, operators and
parentheses, and takes the longest of them that it finds.  Tokens that are
written side by side are found again unless the first of them goes on into the
second: a name into a character of a name, an operator into a character with
which it is another operator.
-/

namespace ShellTree.Arithmetic

def operators : List (List Char) :=
  Shfmt.arithmOps.map fun entry => entry.2.toList

def isBlank (c : Char) : Bool :=
  c == ' ' || c == '\t' || c == '\n'

/-- Is a character one of a name or a number?  All are but blanks, parentheses and operators. -/
def isNamed (c : Char) : Bool :=
  !(isBlank c || c == '(' || c == ')' || operators.contains [c])

/-- The longest operator that a text starts with. -/
def longest? (text : List Char) : Option (List Char) :=
  text.inits.reverse.find? fun start => operators.contains start

/-- What an arithmetic text is cut into. -/
inductive Token where
  | name (chars : List Char)
  | operator (chars : List Char)
  | opening
  | closing
deriving DecidableEq

namespace Token

def chars : Token → List Char
  | .name chars => chars
  | .operator chars => chars
  | .opening => ['(']
  | .closing => [')']

/-- A name has characters of names only, and an operator is one of the known ones. -/
def Proper : Token → Prop
  | .name chars => chars ≠ [] ∧ ∀ c ∈ chars, isNamed c = true
  | .operator chars => chars ∈ operators
  | _ => True

/-- Does a token go on with a character? -/
def goesOn : Token → Char → Bool
  | .name _, c => isNamed c
  | .operator chars, c => operators.contains (chars ++ [c])
  | _, _ => false

end Token

/-! ## Operators -/

/-- What an operator starts with is an operator too. -/
theorem operators_closed {start rest : List Char} (known : start ++ rest ∈ operators)
    (nonempty : start ≠ []) : start ∈ operators := by
  have closed : operators.all (fun operator => operator.inits.tail.all operators.contains) =
      true := by decide
  have inside := List.all_eq_true.mp closed _ known
  have member : start ∈ (start ++ rest).inits.tail := by
    cases start with
    | nil => exact absurd rfl nonempty
    | cons c others => simp [List.mem_inits]
  exact List.contains_iff_mem.mp (List.all_eq_true.mp inside _ member)

theorem ne_nil_of_mem_operators {operator : List Char} (known : operator ∈ operators) :
    operator ≠ [] := by
  rintro rfl
  exact absurd (List.contains_iff_mem.mpr known) (by decide)

/-- The longest operator is one that the text starts with. -/
theorem longest?_spec {text operator : List Char} (found : longest? text = some operator) :
    operator ∈ operators ∧ operator <+: text := by
  constructor
  · exact List.contains_iff_mem.mp (List.find?_some found)
  · have member := List.mem_of_find?_eq_some found
    exact (List.mem_inits _ _).mp (List.mem_reverse.mp member)

/-- What an operator is followed by is looked at before the operator itself. -/
theorem longest?_append (operator rest : List Char) :
    longest? (operator ++ rest) =
      ((rest.inits.tail.map fun start => operator ++ start).reverse.find?
        fun start => operators.contains start).or (longest? operator) := by
  rw [longest?, List.inits_append, List.reverse_append, List.find?_append]
  rfl

theorem longest?_self {operator : List Char} (known : operator ∈ operators) :
    longest? operator = some operator := by
  obtain ⟨before, last, rfl⟩ :=
    (List.eq_nil_or_concat operator).resolve_left (ne_nil_of_mem_operators known)
  rw [List.concat_eq_append] at known ⊢
  rw [longest?, List.inits_append]
  simp [known]

/-- An operator is the longest one before a character with which it is no operator. -/
theorem longest?_of_apart {operator rest : List Char} (known : operator ∈ operators)
    (apart : ∀ c, rest.head? = some c → (Token.operator operator).goesOn c = false) :
    longest? (operator ++ rest) = some operator := by
  have shorter : ((rest.inits.tail.map fun start => operator ++ start).reverse.find?
      fun start => operators.contains start) = none := by
    rw [List.find?_eq_none]
    intro longer member longerKnown
    obtain ⟨start, inside, rfl⟩ := List.mem_map.mp (List.mem_reverse.mp member)
    cases rest with
    | nil => cases inside
    | cons c others =>
        rw [List.inits_cons, List.tail_cons] at inside
        obtain ⟨more, _, rfl⟩ := List.mem_map.mp inside
        -- the operator with this one character is what the longer one starts with
        have split : operator ++ c :: more = (operator ++ [c]) ++ more := by simp
        have closed := operators_closed (split ▸ List.contains_iff_mem.mp longerKnown) (by simp)
        have goes := apart c rfl
        rw [Token.goesOn, List.contains_iff_mem.mpr closed] at goes
        cases goes
  rw [longest?_append, shorter, longest?_self known]
  rfl

/-- An operator is not the longest one before a character with which it is another. -/
theorem longest?_of_goesOn {operator : List Char} {c : Char}
    (goesOn : (Token.operator operator).goesOn c = true) (rest : List Char) :
    ∃ longer, longest? (operator ++ c :: rest) = some longer ∧ longer ≠ operator := by
  have candidate : operator ++ [c] ∈
      ((c :: rest).inits.tail.map fun start => operator ++ start).reverse := by
    rw [List.mem_reverse]
    refine List.mem_map.mpr ⟨[c], ?_, rfl⟩
    rw [List.inits_cons, List.tail_cons]
    exact List.mem_map.mpr ⟨[], (List.mem_inits _ _).mpr List.nil_prefix, rfl⟩
  have found : (((c :: rest).inits.tail.map fun start => operator ++ start).reverse.find?
      fun start => operators.contains start).isSome = true :=
    List.find?_isSome.mpr ⟨_, candidate, goesOn⟩
  obtain ⟨longer, same⟩ := Option.isSome_iff_exists.mp found
  refine ⟨longer, by rw [longest?_append, same]; rfl, ?_⟩
  obtain ⟨start, inside, rfl⟩ :=
    List.mem_map.mp (List.mem_reverse.mp (List.mem_of_find?_eq_some same))
  rw [List.inits_cons, List.tail_cons] at inside
  obtain ⟨more, _, rfl⟩ := List.mem_map.mp inside
  intro equal
  have lengths := congrArg List.length equal
  rw [List.length_append, List.length_cons] at lengths
  omega

/-- A text that starts with a character of a name starts with no operator. -/
theorem longest?_of_isNamed {c : Char} (named : isNamed c = true) (rest : List Char) :
    longest? (c :: rest) = none := by
  cases found : longest? (c :: rest) with
  | none => rfl
  | some operator =>
      obtain ⟨known, begins⟩ := longest?_spec found
      cases operator with
      | nil => exact absurd rfl (ne_nil_of_mem_operators known)
      | cons d others =>
          obtain rfl : d = c := (List.cons_prefix_cons.mp begins).1
          have single : [d] ∈ operators := operators_closed known (List.cons_ne_nil d [])
          have unnamed : isNamed d = false := by simp [isNamed, single]
          rw [unnamed] at named
          cases named

/-- A character that starts no operator and is no other mark is one of a name. -/
theorem isNamed_of_longest? {c : Char} {rest : List Char} (blank : ¬ isBlank c = true)
    (opening : c ≠ '(') (closing : c ≠ ')') (none : longest? (c :: rest) = none) :
    isNamed c = true := by
  have unknown : [c] ∉ operators := by
    intro known
    have all := longest?_append [c] rest
    rw [List.singleton_append, none, longest?_self known, eq_comm, Option.or_eq_none_iff] at all
    cases all.2
  simp [isNamed, blank, opening, closing, unknown]

/-! ## Cutting -/

/-- The tokens of a text, each as long as it can be. -/
def tokens (text : List Char) : List Token :=
  match text with
  | [] => []
  | c :: rest =>
      if isBlank c then tokens rest
      else if c = '(' then .opening :: tokens rest
      else if c = ')' then .closing :: tokens rest
      else
        match _found : longest? (c :: rest) with
        | some operator => .operator operator :: tokens ((c :: rest).drop operator.length)
        | none =>
            .name ((c :: rest).takeWhile isNamed) :: tokens ((c :: rest).dropWhile isNamed)
termination_by text.length
decreasing_by
  · simp
  · simp
  · simp
  · have nonempty := List.length_pos_iff.mpr (ne_nil_of_mem_operators (longest?_spec _found).1)
    rw [List.length_drop, List.length_cons]
    omega
  · have named := isNamed_of_longest? ‹_› ‹_› ‹_› _found
    have shorter := (List.dropWhile_suffix (l := rest) isNamed).length_le
    rw [List.dropWhile_cons_of_pos named, List.length_cons]
    omega

/-- The marks that are cut off by themselves are no characters of names. -/
theorem ne_of_isNamed {c : Char} (named : isNamed c = true) :
    ¬ isBlank c = true ∧ c ≠ '(' ∧ c ≠ ')' := by
  simp only [isNamed, Bool.not_eq_true', Bool.or_eq_false_iff, beq_eq_false_iff_ne] at named
  exact ⟨by simp [named.1.1.1], named.1.1.2, named.1.2⟩

theorem tokens_nil : tokens [] = [] := by
  rw [tokens]

theorem tokens_blank (rest : List Char) : tokens (' ' :: rest) = tokens rest := by
  rw [tokens, if_pos (by decide)]

/-- A text that starts with an operator starts with no other mark. -/
theorem tokens_of_longest? {c : Char} {rest operator : List Char}
    (found : longest? (c :: rest) = some operator) :
    tokens (c :: rest) = .operator operator :: tokens ((c :: rest).drop operator.length) := by
  obtain ⟨known, begins⟩ := longest?_spec found
  have marks : ¬ isBlank c = true ∧ c ≠ '(' ∧ c ≠ ')' := by
    have unmarked : operators.all (fun operator => operator.head?.all fun c =>
        !(isBlank c || c == '(' || c == ')')) = true := by decide
    have first := List.all_eq_true.mp unmarked _ known
    cases operator with
    | nil => exact absurd rfl (ne_nil_of_mem_operators known)
    | cons d others =>
        obtain rfl : d = c := (List.cons_prefix_cons.mp begins).1
        simpa [and_assoc] using first
  rw [tokens, if_neg marks.1, if_neg marks.2.1, if_neg marks.2.2]
  split
  next other same =>
      cases same.symm.trans found
      rfl
  next same => cases same.symm.trans found

theorem tokens_of_isNamed {c : Char} (named : isNamed c = true) (rest : List Char) :
    tokens (c :: rest) =
      .name ((c :: rest).takeWhile isNamed) :: tokens ((c :: rest).dropWhile isNamed) := by
  obtain ⟨blank, opening, closing⟩ := ne_of_isNamed named
  rw [tokens, if_neg blank, if_neg opening, if_neg closing]
  split
  next other same => cases same.symm.trans (longest?_of_isNamed named rest)
  next => rfl

/-- A token that does not go on is cut off as it is. -/
theorem tokens_of_apart {token : Token} (proper : token.Proper) {rest : List Char}
    (apart : ∀ c, rest.head? = some c → token.goesOn c = false) :
    tokens (token.chars ++ rest) = token :: tokens rest := by
  cases token with
  | name chars =>
      obtain ⟨nonempty, named⟩ := proper
      obtain ⟨c, others, rfl⟩ := List.exists_cons_of_ne_nil nonempty
      have stops : rest.takeWhile isNamed = [] ∧ rest.dropWhile isNamed = rest := by
        cases rest with
        | nil => exact ⟨rfl, rfl⟩
        | cons d more =>
            have ends : ¬ isNamed d = true := by simpa [Token.goesOn] using apart d rfl
            exact ⟨List.takeWhile_cons_of_neg ends, List.dropWhile_cons_of_neg ends⟩
      rw [Token.chars, List.cons_append, tokens_of_isNamed (named c List.mem_cons_self),
        ← List.cons_append, List.takeWhile_append_of_pos named,
        List.dropWhile_append_of_pos named, stops.1, stops.2, List.append_nil]
  | operator chars =>
      have found := longest?_of_apart proper apart
      obtain ⟨c, others, rfl⟩ := List.exists_cons_of_ne_nil (ne_nil_of_mem_operators proper)
      rw [List.cons_append] at found
      rw [Token.chars, List.cons_append, tokens_of_longest? found, ← List.cons_append,
        List.drop_left]
  | opening =>
      rw [Token.chars, List.singleton_append, tokens, if_neg (by decide), if_pos rfl]
  | closing =>
      rw [Token.chars, List.singleton_append, tokens, if_neg (by decide), if_neg (by decide),
        if_pos rfl]

/-- A token that goes on is not cut off as it is. -/
theorem head?_tokens_of_goesOn {token : Token} (proper : token.Proper) {c : Char}
    (goesOn : token.goesOn c = true) (rest : List Char) :
    (tokens (token.chars ++ c :: rest)).head? ≠ some token := by
  cases token with
  | name chars =>
      obtain ⟨nonempty, named⟩ := proper
      obtain ⟨d, others, rfl⟩ := List.exists_cons_of_ne_nil nonempty
      rw [Token.chars, List.cons_append, tokens_of_isNamed (named d List.mem_cons_self),
        ← List.cons_append, List.takeWhile_append_of_pos named,
        List.takeWhile_cons_of_pos (show isNamed c = true from goesOn)]
      simp
  | operator chars =>
      obtain ⟨longer, found, different⟩ := longest?_of_goesOn goesOn rest
      obtain ⟨d, others, rfl⟩ := List.exists_cons_of_ne_nil (ne_nil_of_mem_operators proper)
      rw [List.cons_append] at found
      rw [Token.chars, List.cons_append, tokens_of_longest? found]
      simpa using different
  | opening => cases goesOn
  | closing => cases goesOn

/-! ## Tokens on a line -/

/-- How a row of tokens is written, in which a gap is a blank. -/
def written (row : List (Option Token)) : List Char :=
  row.flatMap fun item => (item.map Token.chars).getD [' ']

/-- The second token does not start with a character with which the first goes on. -/
def Apart : Option Token → Option Token → Prop
  | some first, some second => ∀ c, second.chars.head? = some c → first.goesOn c = false
  | _, _ => True

/-- No token goes on with a blank or with a closing parenthesis. -/
theorem goesOn_mark {token : Token} (proper : token.Proper) {mark : Char}
    (closes : mark = ' ' ∨ mark = ')') : token.goesOn mark = false := by
  cases token with
  | name chars =>
      change isNamed mark = false
      rcases closes with rfl | rfl
      · decide
      · decide
  | operator chars =>
      have ends : operators.all (fun operator => !operators.contains (operator ++ [' ']) &&
          !operators.contains (operator ++ [')'])) = true := by decide
      have unknown := List.all_eq_true.mp ends _ proper
      rw [Bool.and_eq_true] at unknown
      rcases closes with rfl | rfl
      · simpa [Token.goesOn] using unknown.1
      · simpa [Token.goesOn] using unknown.2
  | opening => rfl
  | closing => rfl

theorem chars_ne_nil {token : Token} (proper : token.Proper) : token.chars ≠ [] := by
  cases token with
  | name chars => exact proper.1
  | operator chars => exact ne_nil_of_mem_operators proper
  | opening => exact List.cons_ne_nil _ _
  | closing => exact List.cons_ne_nil _ _

/-- What a token is followed by on the line is the item after it. -/
theorem apart_iff {token : Token} (proper : token.Proper) {row : List (Option Token)}
    (each : ∀ other, some other ∈ row → other.Proper) :
    (∀ c, (written row).head? = some c → token.goesOn c = false) ↔
      ∀ item ∈ row.head?, Apart (some token) item := by
  cases row with
  | nil => simp [written]
  | cons item rest =>
      cases item with
      | none => simp [written, Apart, goesOn_mark proper (.inl rfl)]
      | some other =>
          have nonempty := chars_ne_nil (each other List.mem_cons_self)
          obtain ⟨c, more, same⟩ := List.exists_cons_of_ne_nil nonempty
          simp [written, Apart, same]

/-- A row of tokens is cut into these tokens just where no token goes on into the next. -/
theorem tokens_written_iff {row : List (Option Token)}
    (each : ∀ token, some token ∈ row → token.Proper) :
    tokens (written row) = row.reduceOption ↔ row.IsChain Apart := by
  induction row with
  | nil => simp [written, tokens_nil]
  | cons item rest ih =>
      have others := ih fun token inside => each token (List.mem_cons_of_mem item inside)
      cases item with
      | none =>
          have blank : written (none :: rest) = ' ' :: written rest := rfl
          rw [blank, tokens_blank, List.reduceOption_cons_of_none, others, List.isChain_cons]
          simp [Apart]
      | some token =>
          have proper := each token List.mem_cons_self
          have follows := apart_iff proper fun other inside =>
            each other (List.mem_cons_of_mem _ inside)
          have start : written (some token :: rest) = token.chars ++ written rest := rfl
          rw [start, List.reduceOption_cons_of_some, List.isChain_cons, ← follows]
          by_cases apart : ∀ c, (written rest).head? = some c → token.goesOn c = false
          · rw [tokens_of_apart proper apart, List.cons.injEq]
            simp only [true_and, others]
            exact ⟨fun chain => ⟨apart, chain⟩, And.right⟩
          · constructor
            · intro same
              obtain ⟨c, first, goesOn⟩ : ∃ c, (written rest).head? = some c ∧
                  ¬ token.goesOn c = false := by simpa using apart
              obtain ⟨more, behind⟩ := List.head?_eq_some_iff.mp first
              have head := head?_tokens_of_goesOn proper (by simpa using goesOn) more
              rw [← behind, same] at head
              exact absurd rfl head
            · rintro ⟨holds, _⟩
              exact absurd holds apart

end ShellTree.Arithmetic
