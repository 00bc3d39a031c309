/-!
# Tokens

A text of the shell language is cut into tokens one character at a time.  A
character goes on with the token before it where it can, ends it where it
cannot, and starts the next one unless it is a blank.  Quotes and the brackets
of expansions shelter the characters between them.

Comments, continued lines and the bodies of heredocs are not read: a text that
holds one has no tokens.
-/

namespace ShellTree.Grammar

/-- The operators that put commands together. -/
inductive Control where
  | semicolon
  | ampersand
  | bar
  | andIf
  | orIf
  | openParen
  | closeParen
deriving DecidableEq

/-- The operators that redirect to and from files. -/
inductive Arrow where
  | output
  | clobber
  | append
  | input
  | inputOutput
  | inputText
deriving DecidableEq

/-- The descriptor that an arrow is about where none is written. -/
def Arrow.descriptor : Arrow → Nat
  | .output | .clobber | .append => 1
  | .input | .inputOutput | .inputText => 0

/-- An operator as it is spelled. -/
inductive Operator where
  | control (mark : Control)
  | arrow (kind : Arrow)
  /-- An operator of a construct that is not read. -/
  | unread
deriving DecidableEq

/-- All operators. -/
def operators : List (List Char × Operator) :=
  [([';'], .control .semicolon), (['&'], .control .ampersand), (['|'], .control .bar),
    (['&', '&'], .control .andIf), (['|', '|'], .control .orIf),
    (['('], .control .openParen), ([')'], .control .closeParen),
    (['>'], .arrow .output), (['>', '|'], .arrow .clobber), (['>', '>'], .arrow .append),
    (['<'], .arrow .input), (['<', '>'], .arrow .inputOutput),
    (['<', '<', '<'], .arrow .inputText),
    ([';', ';'], .unread), (['<', '<'], .unread), (['<', '<', '-'], .unread),
    (['<', '&'], .unread), (['>', '&'], .unread)]

/-- Is there an operator that goes on with a character? -/
def goesOn (text : List Char) (c : Char) : Bool :=
  operators.any fun entry => (text ++ [c]).isPrefixOf entry.1

/-- What a text is cut into. -/
inductive Token where
  | word (text : String)
  | control (mark : Control)
  | arrow (descriptor : Nat) (kind : Arrow)
  | newline
deriving DecidableEq

/-- The token of an operator, with the number that stands right before it. -/
def operatorToken (number text : List Char) : Option Token :=
  match operators.lookup text with
  | some (.control mark) => some (.control mark)
  | some (.arrow kind) =>
      some (.arrow (if number.isEmpty then kind.descriptor else Nat.ofDigitChars 10 number 0) kind)
  | _ => none

/-- What surrounds a character inside a word. -/
inductive Shelter where
  | escape
  | single
  | double
  | back
  | dollar
  | paren
  | brace
deriving DecidableEq

/-- The shelters behind a character that may open a further one. -/
def opened (c : Char) (shelters : List Shelter) : List Shelter :=
  if c = '\\' then .escape :: shelters
  else if c = '\x27' then .single :: shelters
  else if c = '"' then .double :: shelters
  else if c = '\x60' then .back :: shelters
  else if c = '$' then .dollar :: shelters
  else shelters

/-- The shelters behind a character, innermost first. -/
def shelter : List Shelter → Char → Option (List Shelter)
  | [], c => some (opened c [])
  | .escape :: rest, c => if c = '\n' then none else some rest
  | .single :: rest, c => some (if c = '\x27' then rest else .single :: rest)
  | .double :: rest, c =>
      some (if c = '"' then rest
        else if c = '\x27' then .double :: rest
        else opened c (.double :: rest))
  | .back :: rest, c =>
      some (if c = '\x60' then rest
        else if c = '\\' then .escape :: .back :: rest
        else .back :: rest)
  | .dollar :: rest, c =>
      if c = '(' then some (.paren :: rest)
      else if c = '\x7b' then some (.brace :: rest)
      else shelter rest c
  | .paren :: rest, c =>
      some (if c = ')' then rest
        else if c = '(' then .paren :: .paren :: rest
        else opened c (.paren :: rest))
  | .brace :: rest, c => some (if c = '\x7d' then rest else opened c (.brace :: rest))

/-- Is a character kept from ending the word it stands in? -/
def sheltered : List Shelter → Char → Bool
  | [], _ => false
  | [.dollar], c => c == '(' || c == '\x7b'
  | _, _ => true

/-- Is nothing left open at the end of a word?  A last dollar sign stands for itself. -/
def settled : List Shelter → Bool
  | [] => true
  | [.dollar] => true
  | _ => false

/-- Does a character that nothing shelters end a word? -/
def endsWord (c : Char) : Bool :=
  c == ' ' || c == '\t' || c == '\n' || goesOn [] c

/-- The token that is being read. -/
inductive Pending where
  | nothing
  | word (shelters : List Shelter) (text : List Char)
  | operator (number text : List Char)
deriving DecidableEq

/-- Start with a character that no token goes on with. -/
def start (c : Char) : Option (List Token × Pending) :=
  if c == ' ' || c == '\t' then some ([], .nothing)
  else if c == '\n' then some ([.newline], .nothing)
  else if goesOn [] c then some ([], .operator [] [c])
  else if c == '#' then none
  else (shelter [] c).map fun shelters => ([], .word shelters [c])

/-- Start with a character after a token has ended. -/
def startAfter (token : Token) (c : Char) : Option (List Token × Pending) :=
  (start c).map fun next => (token :: next.1, next.2)

/-- Read one character: the tokens that end before it, and the one that is being read then. -/
def Pending.step : Pending → Char → Option (List Token × Pending)
  | .nothing, c => start c
  | .operator number text, c =>
      if goesOn text c then some ([], .operator number (text ++ [c]))
      else (operatorToken number text).bind fun token => startAfter token c
  | .word shelters text, c =>
      if sheltered shelters c || !endsWord c then
        (shelter shelters c).map fun next => ([], .word next (text ++ [c]))
      else if (c == '<' || c == '>') && text.all Char.isDigit then some ([], .operator text [c])
      else startAfter (.word (String.ofList text)) c

/-- The token that ends with the text. -/
def Pending.finish : Pending → Option (List Token)
  | .nothing => some []
  | .operator number text => (operatorToken number text).map fun token => [token]
  | .word shelters text => if settled shelters then some [.word (String.ofList text)] else none

/-- Read characters: the tokens that end among them, and the one that is being read then. -/
def feed : Pending → List Char → Option (List Token × Pending)
  | pending, [] => some ([], pending)
  | pending, c :: rest =>
      (pending.step c).bind fun first =>
        (feed first.2 rest).map fun others => (first.1 ++ others.1, others.2)

/-- The tokens of a text. -/
def tokens (text : List Char) : Option (List Token) :=
  (feed .nothing text).bind fun first =>
    first.2.finish.map fun others => first.1 ++ others

example : tokens "a 2>| 'b;c'\nd$(e (f)) &&".toList =
    some [.word "a", .arrow 2 .clobber, .word "'b;c'", .newline, .word "d$(e (f))",
      .control .andIf] := by decide

/-! ## Texts one after the other -/

theorem feed_append (pending : Pending) (left right : List Char) :
    feed pending (left ++ right) =
      (feed pending left).bind fun first =>
        (feed first.2 right).map fun others => (first.1 ++ others.1, others.2) := by
  induction left generalizing pending with
  | nil => cases h : feed pending right <;> simp [feed, h]
  | cons c rest ih =>
      simp only [List.cons_append, feed]
      cases hstep : pending.step c with
      | none => rfl
      | some first =>
          simp only [Option.bind_some, ih]
          cases hrest : feed first.2 rest with
          | none => rfl
          | some middle =>
              cases hright : feed middle.2 right <;> simp [hright]

/-- The characters that may follow a text without changing its tokens. -/
def separates (c : Char) : Bool :=
  c == ' ' || c == '\n' || c == ';'

/-- A token that ends with the text, and before a separator. -/
structure Pending.Ends (pending : Pending) (last : List Token) : Prop where
  finish : pending.finish = some last
  step : ∀ c, separates c = true →
    pending.step c = (start c).map fun next => (last ++ next.1, next.2)

theorem Pending.ends_nothing : Pending.nothing.Ends [] := by
  refine ⟨rfl, ?_⟩
  intro c _
  cases h : start c <;> simp [Pending.step, h]

theorem Pending.ends_word {shelters : List Shelter} (text : List Char)
    (closed : settled shelters = true) :
    (Pending.word shelters text).Ends [.word (String.ofList text)] := by
  refine ⟨by simp [Pending.finish, closed], ?_⟩
  intro c separator
  have cases : c = ' ' ∨ c = '\n' ∨ c = ';' := by
    simpa [separates, or_assoc] using separator
  have outside : sheltered shelters c = false := by
    match shelters, closed with
    | [], _ => rfl
    | [.dollar], _ => rcases cases with rfl | rfl | rfl <;> rfl
  have ending : endsWord c = true := by rcases cases with rfl | rfl | rfl <;> rfl
  have notArrow : (c == '<' || c == '>') = false := by rcases cases with rfl | rfl | rfl <;> rfl
  simp [Pending.step, outside, ending, notArrow, startAfter]

/-- The text has the given tokens, also where a separator follows it. -/
def Lexes (text : String) (read : List Token) : Prop :=
  ∃ first last pending, feed .nothing text.toList = some (first, pending) ∧
    pending.Ends last ∧ read = first ++ last

/-- The text has the given tokens, whatever follows it. -/
def Leads (text : String) (read : List Token) : Prop :=
  feed .nothing text.toList = some (read, .nothing)

instance (text : String) (read : List Token) : Decidable (Leads text read) :=
  inferInstanceAs (Decidable (_ = _))

/-- The text starts with a separator. -/
def Separated (text : String) : Prop :=
  ∃ c rest, text.toList = c :: rest ∧ separates c = true

theorem Leads.lexes {text : String} {read : List Token} (leads : Leads text read) :
    Lexes text read :=
  ⟨read, [], .nothing, leads, Pending.ends_nothing, by simp⟩

theorem Lexes.tokens_eq {text : String} {read : List Token} (lexes : Lexes text read) :
    tokens text.toList = some read := by
  obtain ⟨first, last, pending, hfeed, ends, rfl⟩ := lexes
  simp [tokens, hfeed, ends.finish]

/-- The token at the end of a text ends where a separated text follows. -/
theorem Pending.Ends.feed {pending : Pending} {last : List Token} (ends : pending.Ends last)
    {text : String} (separated : Separated text) :
    feed pending text.toList =
      (feed .nothing text.toList).map fun next => (last ++ next.1, next.2) := by
  obtain ⟨c, rest, htext, separator⟩ := separated
  have same : Pending.nothing.step c = start c := rfl
  rw [htext, Grammar.feed, Grammar.feed, ends.step c separator, same]
  cases hstart : start c with
  | none => rfl
  | some first =>
      cases hrest : Grammar.feed first.2 rest <;> simp [hrest]

theorem Leads.append {left right : String} {first second : List Token}
    (leads : Leads left first) (lexes : Lexes right second) :
    Lexes (left ++ right) (first ++ second) := by
  obtain ⟨front, last, pending, hfeed, ends, rfl⟩ := lexes
  refine ⟨first ++ front, last, pending, ?_, ends, by simp⟩
  have hleft : feed .nothing left.toList = some (first, .nothing) := leads
  simp [String.toList_append, feed_append, hleft, hfeed]

theorem Lexes.append {left right : String} {first second : List Token}
    (lexes : Lexes left first) (separated : Separated right) (follows : Lexes right second) :
    Lexes (left ++ right) (first ++ second) := by
  obtain ⟨front, last, pending, hfeed, ends, rfl⟩ := lexes
  obtain ⟨back, final, other, hother, closes, rfl⟩ := follows
  refine ⟨front ++ (last ++ back), final, other, ?_, closes, by simp⟩
  simp [String.toList_append, feed_append, hfeed, ends.feed separated, hother]

theorem Lexes.append_leads {left right : String} {first second : List Token}
    (lexes : Lexes left first) (separated : Separated right) (follows : Leads right second) :
    Leads (left ++ right) (first ++ second) := by
  obtain ⟨front, last, pending, hfeed, ends, rfl⟩ := lexes
  have hright : feed .nothing right.toList = some (second, .nothing) := follows
  simp [Leads, String.toList_append, feed_append, hfeed, ends.feed separated, hright]

/-! ## Words and arrows -/

/-- Is a text read as one word? -/
def isWord (text : String) : Bool :=
  match feed .nothing text.toList with
  | some ([], .word shelters read) => settled shelters && read == text.toList
  | _ => false

theorem lexes_of_isWord {text : String} (word : isWord text = true) :
    Lexes text [.word text] := by
  unfold isWord at word
  split at word
  · next shelters read hfeed =>
      obtain ⟨closed, same⟩ := (Bool.and_eq_true _ _).mp word
      have htext : String.ofList read = text := by
        rw [eq_of_beq same, String.ofList_toList]
      refine ⟨[], _, _, hfeed, Pending.ends_word read closed, ?_⟩
      rw [htext, List.nil_append]
  · cases word

/--
The characters that stand for themselves wherever they stand: the letters and
digits of any alphabet, and a few marks.
-/
def isPlain (c : Char) : Bool :=
  c.isAlphanum || c == '_' || c == '.' || c == '/' || c == '-' || decide (128 ≤ c.toNat)

theorem ne_of_isPlain {c other : Char} (plain : isPlain c = true)
    (odd : isPlain other = false) : c ≠ other := by
  rintro rfl
  rw [plain] at odd
  cases odd

theorem endsWord_of_isPlain {c : Char} (plain : isPlain c = true) : endsWord c = false := by
  have blanks : c ≠ ' ' ∧ c ≠ '\t' ∧ c ≠ '\n' :=
    ⟨ne_of_isPlain plain rfl, ne_of_isPlain plain rfl, ne_of_isPlain plain rfl⟩
  have marks : c ≠ ';' ∧ c ≠ '&' ∧ c ≠ '|' ∧ c ≠ '(' ∧ c ≠ ')' ∧ c ≠ '<' ∧ c ≠ '>' := by
    refine ⟨?_, ?_, ?_, ?_, ?_, ?_, ?_⟩ <;> exact ne_of_isPlain plain rfl
  simp [endsWord, goesOn, operators, List.isPrefixOf, blanks, marks]

theorem shelter_of_isPlain {c : Char} (plain : isPlain c = true) : shelter [] c = some [] := by
  have quotes : c ≠ '\\' ∧ c ≠ '\x27' ∧ c ≠ '"' ∧ c ≠ '\x60' ∧ c ≠ '$' := by
    refine ⟨?_, ?_, ?_, ?_, ?_⟩ <;> exact ne_of_isPlain plain rfl
  simp [shelter, opened, quotes]

theorem start_of_isPlain {c : Char} (plain : isPlain c = true) :
    start c = some ([], .word [] [c]) := by
  have inside := endsWord_of_isPlain plain
  simp only [endsWord, Bool.or_eq_false_iff, beq_eq_false_iff_ne] at inside
  have noComment : c ≠ '#' := ne_of_isPlain plain rfl
  simp [start, inside, noComment, shelter_of_isPlain plain]

theorem feed_plain (text more : List Char) (plain : ∀ c ∈ more, isPlain c = true) :
    feed (.word [] text) more = some ([], .word [] (text ++ more)) := by
  induction more generalizing text with
  | nil => simp [feed]
  | cons c rest ih =>
      have first := plain c List.mem_cons_self
      have others := fun d inside => plain d (List.mem_cons_of_mem c inside)
      have step : (Pending.word [] text).step c = some ([], .word [] (text ++ [c])) := by
        simp [Pending.step, endsWord_of_isPlain first, shelter_of_isPlain first]
      simp [feed, step, ih _ others]

theorem feed_nothing_plain {text : List Char} (nonempty : text ≠ [])
    (plain : ∀ c ∈ text, isPlain c = true) :
    feed .nothing text = some ([], .word [] text) := by
  cases text with
  | nil => exact absurd rfl nonempty
  | cons c rest =>
      have first := plain c List.mem_cons_self
      have others := fun d inside => plain d (List.mem_cons_of_mem c inside)
      simp [feed, Pending.step, start_of_isPlain first, feed_plain [c] rest others]

theorem isWord_of_isPlain {text : String} (nonempty : text ≠ "")
    (plain : ∀ c ∈ text.toList, isPlain c = true) : isWord text = true := by
  have chars : text.toList ≠ [] := by simpa using nonempty
  simp [isWord, feed_nothing_plain chars plain, settled]

/-- How an arrow is spelled. -/
def Arrow.spelling : Arrow → String
  | .output => ">"
  | .clobber => ">|"
  | .append => ">>"
  | .input => "<"
  | .inputOutput => "<>"
  | .inputText => "<<<"

/-- An arrow stands for its usual descriptor. -/
theorem leads_arrow (kind : Arrow) :
    Leads (" " ++ kind.spelling ++ " ") [.arrow kind.descriptor kind] := by
  cases kind <;> decide

theorem isPlain_of_isDigit {c : Char} (digit : c.isDigit = true) : isPlain c = true := by
  simp [isPlain, Char.isAlphanum, digit]

theorem feed_digits_arrow {number : List Char} (nonempty : number ≠ [])
    (digits : ∀ c ∈ number, c.isDigit = true) (kind : Arrow) :
    feed (.word [] number) (kind.spelling.toList ++ [' ']) =
      some ([.arrow (Nat.ofDigitChars 10 number 0) kind], .nothing) := by
  have all : number.all Char.isDigit = true := by simpa using digits
  -- the first character of an arrow turns the word before it into a number
  have turns : ∀ c, c = '<' ∨ c = '>' →
      (Pending.word [] number).step c = some ([], .operator number [c]) := by
    rintro c (rfl | rfl) <;> rw [Pending.step, if_neg (by decide), if_pos (by rw [all]; rfl)]
  have spelled : ∃ c rest, kind.spelling.toList ++ [' '] = c :: rest ∧ (c = '<' ∨ c = '>') ∧
      feed (.operator number [c]) rest =
        some ([.arrow (Nat.ofDigitChars 10 number 0) kind], .nothing) := by
    cases number with
    | nil => exact absurd rfl nonempty
    | cons digit others => cases kind <;> exact ⟨_, _, rfl, by decide, rfl⟩
  obtain ⟨c, rest, hspelling, first, others⟩ := spelled
  rw [hspelling, feed, turns c first]
  simp [others]

/-- An arrow after a number stands for that descriptor. -/
theorem leads_numbered_arrow (descriptor : Nat) (kind : Arrow) :
    Leads (" " ++ toString descriptor ++ kind.spelling ++ " ") [.arrow descriptor kind] := by
  have hdigits : (toString descriptor).toList = Nat.toDigits 10 descriptor := by
    rw [Nat.toString_eq_repr, Nat.toList_repr]
  have digits : ∀ c ∈ Nat.toDigits 10 descriptor, c.isDigit = true := fun c inside =>
    Nat.isDigit_of_mem_toDigits (by decide) (by decide) inside
  have nonempty : Nat.toDigits 10 descriptor ≠ [] := Nat.toDigits_ne_nil
  have word := feed_nothing_plain nonempty fun c inside => isPlain_of_isDigit (digits c inside)
  have arrow := feed_digits_arrow nonempty digits kind
  have blank : feed .nothing [' '] = some ([], .nothing) := rfl
  rw [Nat.ofDigitChars_ten_toDigits] at arrow
  simp only [Leads, String.toList_append, hdigits, List.append_assoc]
  rw [show " ".toList = [' '] from rfl, feed_append, blank]
  simp [feed_append (.nothing), word, arrow]

end ShellTree.Grammar
