import ShellTree.Proofs.Assignments
import ShellTree.Proofs.BlankSeparatedText

/-!
# Parameter expansions in print

An expansion is written as a name with a mark before it and an index behind it,
and with a slice, a replacement or an operator and its operand at the end.  The
text tells all of these apart, but not everything is written: an expansion that
asks for a length is written with its name only, and a replacement is written
the same whether it is made once or everywhere.
-/

namespace ShellTree

/-! ## Texts up to a character -/

/--
A character stands in a text only behind a backslash, and no backslash is left
open at the end.  The flag says whether a backslash is open at the beginning.
-/
def clearOf (stop : Char) : Bool → List Char → Bool
  | escaped, [] => !escaped
  | escaped, c :: rest =>
      (escaped || c != stop) && clearOf stop (!escaped && c == '\\') rest

theorem head_cons (stop : Char) (rest : List Char) : ∀ c ∈ (stop :: rest).head?, c = stop := by
  rintro c ⟨⟩
  rfl

/-- Texts that are clear of a character can be told from what that character begins. -/
theorem append_inj_of_clearOf {stop : Char} {escaped : Bool} {left right after others : List Char}
    (clear : clearOf stop escaped left = true) (free : clearOf stop escaped right = true)
    (begins : ∀ c ∈ after.head?, c = stop) (starts : ∀ c ∈ others.head?, c = stop)
    (same : left ++ after = right ++ others) : left = right ∧ after = others := by
  induction left generalizing escaped right with
  | nil =>
      cases right with
      | nil => exact ⟨rfl, same⟩
      | cons d more =>
          -- What stands for the end on the left is a character of the text on the right.
          have first : d = stop := begins d (by rw [List.nil_append] at same; rw [same]; rfl)
          have closed : escaped = false := by simpa [clearOf] using clear
          simp [clearOf, closed, first] at free
  | cons c rest ih =>
      cases right with
      | nil =>
          have first : c = stop := starts c (by rw [List.nil_append] at same; rw [← same]; rfl)
          have closed : escaped = false := by simpa [clearOf] using free
          simp [clearOf, closed, first] at clear
      | cons d more =>
          rw [List.cons_append, List.cons_append, List.cons.injEq] at same
          obtain ⟨rfl, tails⟩ := same
          rw [clearOf, Bool.and_eq_true] at clear free
          obtain ⟨rfl, following⟩ := ih clear.2 free.2 tails
          exact ⟨rfl, following⟩

/-! ## Expansions -/

/-- Is a character one of a name, or a parameter of its own that is no other sign as well? -/
def isNamed (c : Char) : Bool :=
  c.isAlphanum || ['_', '@', '*', '$'].contains c

/-- The characters that make an operator of a colon before them. -/
def colonMarks : List Char :=
  ['-', '=', '?', '+']

/-- The operators of one character that are other operators if it stands twice. -/
def doubledMarks : List Char :=
  ['%', '#']

/-- Does a sign go on into the word behind it? -/
def goesOn : List Char → List Char → Bool
  | [c], next :: _ => doubledMarks.contains c && c == next
  | _, _ => false

/-- A stretch of a value, from an offset and of a size, if there is one. -/
structure Slice where
  offset : String
  size : Option String
  opens : offset.toList.head?.any colonMarks.contains = false
  clear : clearOf ':' false offset.toList = true

/-- A pattern and what takes its place, once or everywhere. -/
structure Substitution where
  all : Bool
  pattern : String
  value : String
  clear : clearOf '/' false pattern.toList = true

/-- An operator, by its number and its sign, and its operand. -/
structure Operand where
  number : Int
  sign : String
  word : String
  known : (number, sign) ∈ Shfmt.expansionOps
  fits : goesOn sign.toList word.toList = false

/-- What stands at the end of an expansion. -/
inductive Suffix where
  | none
  | slice (range : Slice)
  | replacement (change : Substitution)
  | operand (applied : Operand)

/-- The text of an index, up to the bracket that closes it. -/
abbrev Index :=
  { text : String // clearOf ']' false text.toList = true }

/-- An expansion of a parameter with a plain name. -/
structure Expansion where
  name : String
  length : Bool
  excl : Bool
  index : Option Index
  suffix : Suffix
  named : name ≠ "" ∧ name.toList.all isNamed = true

/-! ## What is written at the end -/

/-- Cut a text behind the sign that it begins with. -/
def cutSign : List Char → List Char × List Char
  | c :: next :: rest =>
      if c = ':' ∨ (c = next ∧ c ∈ doubledMarks) then ([c, next], rest) else ([c], next :: rest)
  | short => (short, [])

/-- Are characters a sign: one of them, a colon and a mark, or one that stands twice? -/
def isSign : List Char → Bool
  | [c] => c != '/' && c != ':'
  | [c, next] => (c == ':' && colonMarks.contains next) || (c == next && doubledMarks.contains c)
  | _ => false

theorem sign_cases {sign : List Char} (signed : isSign sign = true) :
    (∃ c, c ≠ '/' ∧ c ≠ ':' ∧ sign = [c]) ∨ (∃ c ∈ colonMarks, sign = [':', c]) ∨
      ∃ c ∈ doubledMarks, sign = [c, c] := by
  match sign, signed with
  | [c], signed =>
      simp only [isSign, Bool.and_eq_true, bne_iff_ne] at signed
      exact .inl ⟨c, signed.1, signed.2, rfl⟩
  | [c, next], signed =>
      simp only [isSign, Bool.or_eq_true, Bool.and_eq_true, beq_iff_eq, List.contains_iff_mem]
        at signed
      rcases signed with ⟨rfl, mark⟩ | ⟨rfl, mark⟩
      · exact .inr (.inl ⟨next, mark, rfl⟩)
      · exact .inr (.inr ⟨c, mark, rfl⟩)

theorem isSign_of_known : ∀ op ∈ Shfmt.expansionOps, isSign op.2.toList = true := by
  decide

theorem number_eq_of_sign : ∀ op ∈ Shfmt.expansionOps, ∀ other ∈ Shfmt.expansionOps,
    op.2 = other.2 → op.1 = other.1 := by
  decide

theorem Operand.cutSign_append (operand : Operand) :
    cutSign (operand.sign.toList ++ operand.word.toList) =
      (operand.sign.toList, operand.word.toList) := by
  have fits := operand.fits
  have signed := isSign_of_known _ operand.known
  generalize operand.sign.toList = sign at signed fits ⊢
  rcases sign_cases signed with ⟨c, _, colon, rfl⟩ | ⟨c, _, rfl⟩ | ⟨c, mark, rfl⟩
  · cases chars : operand.word.toList with
    | nil => rfl
    | cons next rest =>
        rw [List.singleton_append, cutSign, if_neg]
        rintro (isColon | ⟨rfl, doubled⟩)
        · exact colon isColon
        · simp [goesOn, chars, doubled] at fits
  · rw [List.cons_append, List.singleton_append, cutSign, if_pos (.inl rfl)]
  · rw [List.cons_append, List.singleton_append, cutSign, if_pos (.inr ⟨rfl, mark⟩)]

/-- Operands print alike only if they are the same. -/
theorem Operand.eq_of_text {operand other : Operand}
    (same : operand.sign ++ operand.word = other.sign ++ other.word) : operand = other := by
  have cut := congrArg (fun text : String => cutSign text.toList) same
  simp only [String.toList_append, Operand.cutSign_append, Prod.mk.injEq] at cut
  obtain ⟨number, sign, word, known, fits⟩ := operand
  obtain ⟨others, mark, value, listed, suits⟩ := other
  obtain rfl : sign = mark := String.toList_injective cut.1
  obtain rfl : word = value := String.toList_injective cut.2
  obtain rfl : number = others := number_eq_of_sign _ known _ listed rfl
  rfl

/-- The size of a slice, if it has one, with a colon before it. -/
def sizeText : Option String → String
  | none => ""
  | some size => ":" ++ size

theorem head_sizeText (size : Option String) : ∀ c ∈ (sizeText size).toList.head?, c = ':' := by
  cases size with
  | none => rintro c ⟨⟩
  | some size =>
      rw [sizeText, String.toList_append]
      rintro c ⟨⟩
      rfl

theorem sizeText_injective : Function.Injective sizeText := by
  intro size other same
  have chars := congrArg String.toList same
  cases size <;> cases other <;> simp_all [sizeText]

namespace Suffix

/-- What is written at the end of an expansion. -/
def text : Suffix → String
  | .none => ""
  | .slice range => ":" ++ range.offset ++ sizeText range.size
  | .replacement change => "/" ++ change.pattern ++ "/" ++ change.value
  | .operand applied => applied.sign ++ applied.word

/-- What is written of a suffix: whether a replacement is made everywhere is not. -/
def kept : Suffix → Suffix
  | .replacement change => .replacement { change with all := false }
  | other => other

/-- The kinds of what stands at the end of an expansion. -/
inductive Kind where
  | none
  | slice
  | replacement
  | operand

def kind : Suffix → Kind
  | .none => .none
  | .slice _ => .slice
  | .replacement _ => .replacement
  | .operand _ => .operand

/-- The kind that a text is of, by its first two characters. -/
def kindOf : List Char → Kind
  | [] => .none
  | c :: rest =>
      if c = '/' then .replacement
      else if c = ':' ∧ rest.head?.any colonMarks.contains = false then .slice
      else .operand

theorem kindOf_text (suffix : Suffix) : kindOf suffix.text.toList = suffix.kind := by
  cases suffix with
  | none => rfl
  | slice range =>
      obtain ⟨offset, size, opens, clear⟩ := range
      have chars : (slice ⟨offset, size, opens, clear⟩).text.toList =
          ':' :: (offset.toList ++ (sizeText size).toList) := by
        simp [text]
      have literal : (offset.toList ++ (sizeText size).toList).head?.any colonMarks.contains =
          false := by
        cases first : offset.toList with
        | nil =>
            cases size with
            | none => rfl
            | some size =>
                rw [sizeText, String.toList_append]
                rfl
        | cons c rest =>
            rw [first] at opens
            exact opens
      rw [chars, kindOf, if_neg (by decide), if_pos ⟨rfl, literal⟩]
      rfl
  | replacement change =>
      have chars : (replacement change).text.toList =
          '/' :: (change.pattern.toList ++ '/' :: change.value.toList) := by
        simp [text]
      rw [chars, kindOf, if_pos rfl]
      rfl
  | operand applied =>
      have signed := isSign_of_known _ applied.known
      rw [text, String.toList_append]
      generalize applied.sign.toList = sign at signed ⊢
      rcases sign_cases signed with ⟨c, slash, colon, rfl⟩ | ⟨c, mark, rfl⟩ | ⟨c, mark, rfl⟩
      · rw [List.singleton_append, kindOf, if_neg slash, if_neg fun range => colon range.1]
        rfl
      · rw [List.cons_append, kindOf, if_neg (by decide), if_neg]
        · rfl
        · simp [mark]
      · rw [List.cons_append, kindOf, if_neg, if_neg]
        · rfl
        · rintro ⟨rfl, _⟩
          exact absurd mark (by decide)
        · rintro rfl
          exact absurd mark (by decide)

/-- Suffixes print alike only if what is kept of them is the same. -/
theorem kept_eq_of_text {left right : Suffix} (same : left.text = right.text) :
    left.kept = right.kept := by
  have kinds : left.kind = right.kind := by
    rw [← kindOf_text, ← kindOf_text, same]
  cases left with
  | none =>
      cases right with
      | none => rfl
      | _ => cases kinds
  | slice range =>
      cases right with
      | slice other =>
          obtain ⟨offset, size, opens, clear⟩ := range
          obtain ⟨start, length, starts, free⟩ := other
          have chars : offset.toList ++ (sizeText size).toList =
              start.toList ++ (sizeText length).toList := by
            simpa [text] using congrArg String.toList same
          obtain ⟨offsets, sizes⟩ :=
            append_inj_of_clearOf clear free (head_sizeText size) (head_sizeText length) chars
          obtain rfl := String.toList_injective offsets
          obtain rfl := sizeText_injective (String.toList_injective sizes)
          rfl
      | _ => cases kinds
  | replacement change =>
      cases right with
      | replacement other =>
          obtain ⟨all, pattern, value, clear⟩ := change
          obtain ⟨every, old, new, free⟩ := other
          have chars : pattern.toList ++ '/' :: value.toList = old.toList ++ '/' :: new.toList := by
            simpa [text] using congrArg String.toList same
          obtain ⟨patterns, values⟩ :=
            append_inj_of_clearOf clear free (head_cons '/' _) (head_cons '/' _) chars
          obtain rfl := String.toList_injective patterns
          obtain rfl := String.toList_injective (List.cons_injective values)
          rfl
      | _ => cases kinds
  | operand applied =>
      cases right with
      | operand other => exact congrArg operand (Operand.eq_of_text same)
      | _ => cases kinds

/-- What begins at the end of an expansion goes on with no name and is no index. -/
theorem head_text (suffix : Suffix) {c : Char} (first : suffix.text.toList.head? = some c) :
    isNamed c = false ∧ c ≠ '[' := by
  cases suffix with
  | none => cases first
  | slice range =>
      rw [text, String.append_assoc, String.toList_append] at first
      cases first
      decide
  | replacement change =>
      rw [text, String.append_assoc, String.append_assoc, String.toList_append] at first
      cases first
      decide
  | operand applied =>
      have heads : ∀ op ∈ Shfmt.expansionOps, op.2.toList ≠ [] ∧
          op.2.toList.head?.any (fun c => isNamed c || c == '[') = false := by
        decide
      obtain ⟨filled, head⟩ := heads _ applied.known
      rw [text, String.toList_append, List.head?_append_of_ne_nil _ filled] at first
      rw [first, Option.any_some, Bool.or_eq_false_iff] at head
      exact ⟨head.1, by simpa using head.2⟩

end Suffix

/-! ## Expansions in print -/

namespace Expansion

/-- The mark before the name. -/
def lead (expansion : Expansion) : String :=
  if expansion.length then "#" else if expansion.excl then "!" else ""

/-- The index of a name, if it has one, between brackets. -/
def indexText : Option Index → String
  | none => ""
  | some index => "[" ++ index.1 ++ "]"

/-- What stands behind the name. -/
def tail (expansion : Expansion) : String :=
  if expansion.length then ""
  else indexText expansion.index ++ expansion.suffix.text

/-- An expansion as it is written. -/
def text (expansion : Expansion) : String :=
  "$\x7b" ++ expansion.lead ++ expansion.name ++ expansion.tail ++ "\x7d"

/-- What is written of an expansion: one that asks for a length keeps only its name. -/
def kept (expansion : Expansion) : Expansion :=
  if expansion.length then { expansion with excl := false, index := none, suffix := .none }
  else { expansion with suffix := expansion.suffix.kept }

theorem indexText_append_inj {index place : Option Index} {suffix other : Suffix}
    (same : indexText index ++ suffix.text = indexText place ++ other.text) :
    index = place ∧ suffix.text = other.text := by
  -- No suffix begins with a bracket, so a text has an index on both sides or on none.
  have unindexed : ∀ (index : Index) (suffix other : Suffix),
      suffix.text ≠ indexText (some index) ++ other.text := by
    intro index suffix other same
    refine (suffix.head_text ?_).2 rfl
    rw [same, indexText, String.append_assoc, String.append_assoc, String.toList_append]
    rfl
  cases index with
  | none =>
      cases place with
      | none => exact ⟨rfl, by simpa [indexText] using same⟩
      | some place =>
          rw [indexText, String.empty_append] at same
          exact absurd same (unindexed place suffix other)
  | some index =>
      cases place with
      | none =>
          rw [indexText.eq_1, String.empty_append] at same
          exact absurd same.symm (unindexed index other suffix)
      | some place =>
          obtain ⟨inner, clear⟩ := index
          obtain ⟨text, free⟩ := place
          have chars : inner.toList ++ ']' :: suffix.text.toList =
              text.toList ++ ']' :: other.text.toList := by
            simpa [indexText] using congrArg String.toList same
          obtain ⟨indices, rest⟩ :=
            append_inj_of_clearOf clear free (head_cons ']' _) (head_cons ']' _) chars
          obtain rfl := String.toList_injective indices
          exact ⟨rfl, String.toList_injective (List.cons_injective rest)⟩

/-- What stands behind the name does not go on with it. -/
theorem stops_tail (expansion : Expansion) : Stops isNamed expansion.tail.toList := by
  rw [tail]
  split
  · rintro c ⟨⟩
  · cases expansion.index with
    | none =>
        rw [indexText, String.empty_append]
        exact fun c first => (expansion.suffix.head_text first).1
    | some index =>
        rw [indexText, String.append_assoc, String.append_assoc, String.toList_append]
        rintro c ⟨⟩
        rfl

theorem lead_not_named (expansion : Expansion) :
    ∀ c ∈ expansion.lead.toList, (!isNamed c) = true := by
  have marks : expansion.lead.toList.all (fun c => !isNamed c) = true := by
    rw [lead]
    split
    · decide
    · split
      · decide
      · decide
  exact List.all_eq_true.mp marks

theorem stops_name (expansion : Expansion) (rest : List Char) :
    Stops (fun c => !isNamed c) (expansion.name.toList ++ rest) := by
  have each := List.all_eq_true.mp expansion.named.2
  cases chars : expansion.name.toList with
  | nil => exact absurd (String.toList_eq_nil_iff.mp chars) expansion.named.1
  | cons first others =>
      rw [chars] at each
      rintro c ⟨⟩
      exact congrArg not (each first List.mem_cons_self)

theorem eq_of_lead {left right : Expansion} (same : left.lead = right.lead) :
    left.length = right.length ∧ (left.length = false → left.excl = right.excl) := by
  have flags : ∀ length excl size mark : Bool,
      (if length then "#" else if excl then "!" else "") =
        (if size then "#" else if mark then "!" else "") →
      length = size ∧ (length = false → excl = mark) := by
    decide
  exact flags _ _ _ _ same

theorem kept_eq_of_text {left right : Expansion} (same : left.text = right.text) :
    left.kept = right.kept := by
  have chars : left.lead.toList ++ (left.name.toList ++ left.tail.toList) =
      right.lead.toList ++ (right.name.toList ++ right.tail.toList) := by
    have whole : left.lead.toList ++ (left.name.toList ++ left.tail.toList) ++ ['\x7d'] =
        right.lead.toList ++ (right.name.toList ++ right.tail.toList) ++ ['\x7d'] := by
      simpa [text] using congrArg String.toList same
    exact List.append_cancel_right whole
  obtain ⟨leads, behind⟩ := append_inj_of_stops left.lead_not_named right.lead_not_named
    (left.stops_name _) (right.stops_name _) chars
  obtain ⟨names, tails⟩ := append_inj_of_stops (List.all_eq_true.mp left.named.2)
    (List.all_eq_true.mp right.named.2) left.stops_tail right.stops_tail behind
  obtain ⟨lengths, excls⟩ := eq_of_lead (String.toList_injective leads)
  obtain ⟨name, length, excl, index, suffix, named⟩ := left
  obtain ⟨other, size, mark, place, rest, alnum⟩ := right
  obtain rfl : name = other := String.toList_injective names
  obtain rfl : length = size := lengths
  cases length with
  | true => rfl
  | false =>
      obtain rfl : excl = mark := excls rfl
      obtain ⟨rfl, texts⟩ := indexText_append_inj (String.toList_injective tails)
      have suffixes : suffix.kept = rest.kept := Suffix.kept_eq_of_text texts
      simp only [kept, Bool.false_eq_true, if_false, suffixes]

theorem text_kept (expansion : Expansion) : expansion.kept.text = expansion.text := by
  obtain ⟨name, length, excl, index, suffix, named⟩ := expansion
  cases length with
  | true => rfl
  | false => cases suffix <;> rfl

/-- Expansions print alike just where what is kept of them is the same. -/
theorem text_eq_iff (left right : Expansion) : left.text = right.text ↔ left.kept = right.kept := by
  refine ⟨kept_eq_of_text, fun same => ?_⟩
  rw [← left.text_kept, same, right.text_kept]

end Expansion

/-! ## Nodes of expansions -/

namespace Shfmt

variable {source : Source} {node word : Json} {key text : String}

theorem get?_of_field (there : field node key ≠ .null) : node.get? key = some (field node key) := by
  cases found : node.get? key with
  | none => exact absurd (by rw [field, found]; rfl) there
  | some inner => rw [field, found, Option.getD_some]

theorem ne_null_of_field (there : field node key ≠ .null) : node ≠ .null := by
  rintro rfl
  exact there rfl

theorem isObject_of_field (there : field node key ≠ .null) : node.isObject = true :=
  Json.isObject_of_get? (get?_of_field there)

theorem truthy_of_field (there : field node key ≠ .null) : node.truthy = true :=
  Json.truthy_of_get? (get?_of_field there)

theorem fetch_field (object : node.isObject = true) (key : String) :
    ∃ smaller, node.fetch key = .ok ⟨field node key, smaller⟩ :=
  Json.fetch_eq object key

theorem items?_of_get? {items : List Json} (found : node.get? key = some (.arr items)) :
    node.items? key = some items := by
  rw [Json.items?, found]

/-- A word of literals, and its text. -/
inductive IsPlainWord (source : Source) (word : Json) : String → Prop where
  | intro {parts : List Json} {texts : List String} (listed : word.get? "Parts" = some (.arr parts))
      (each : List.Forall₂ (IsLiteral source) parts texts) :
      IsPlainWord source word (String.join texts)

theorem IsPlainWord.reads (plain : IsPlainWord source word text) :
    ∃ read, readWord source word = .ok read ∧ textOf read = .ok text := by
  obtain ⟨listed, each⟩ := plain
  have parts : List.Forall₂ (PartShows source .unquoted) _ _ :=
    each.imp fun _ _ literal => literal.shows
  obtain ⟨read, same, shows⟩ := word_shows (items?_of_get? listed) parts
  exact ⟨read, same, shows.renderParts_eq⟩

theorem IsPlainWord.ne_null (plain : IsPlainWord source word text) : word ≠ .null := by
  rintro rfl
  obtain ⟨listed, _⟩ := plain
  cases listed

theorem IsPlainWord.truthy (plain : IsPlainWord source word text) : word.truthy = true := by
  obtain ⟨listed, _⟩ := plain
  exact Json.truthy_of_get? listed

/-- A word that may be left out. -/
def IsOptionalWord (source : Source) (word : Json) (text : String) : Prop :=
  word = .null ∧ text = "" ∨ IsPlainWord source word text

/-- A plain word that is an arithmetic expression. -/
structure IsArithmWord (source : Source) (word : Json) (text : String) : Prop where
  typed : word.get? "Type" = some (.str Kind.word.label)
  plain : IsPlainWord source word text

/-- The size of a slice, which may be left out. -/
def IsSize (source : Source) (word : Json) : Option String → Prop
  | none => word = .null
  | some size => IsArithmWord source word size

/-- What stands at the end of the expansion of a node. -/
inductive HasSuffix (source : Source) (node : Json) : Suffix → Prop where
  | none (whole : (field node "Slice").truthy = false)
      (unchanged : (field node "Repl").truthy = false)
      (bare : (field node "Exp").truthy = false) : HasSuffix source node .none
  | slice {range : Slice}
      (offset : IsArithmWord source (field (field node "Slice") "Offset") range.offset)
      (size : IsSize source (field (field node "Slice") "Length") range.size)
      (unchanged : (field node "Repl").truthy = false)
      (bare : (field node "Exp").truthy = false) : HasSuffix source node (.slice range)
  | replacement {change : Substitution} (whole : (field node "Slice").truthy = false)
      (all : (field (field node "Repl") "All").truthy = change.all)
      (pattern : IsPlainWord source (field (field node "Repl") "Orig") change.pattern)
      (value : IsOptionalWord source (field (field node "Repl") "With") change.value)
      (bare : (field node "Exp").truthy = false) : HasSuffix source node (.replacement change)
  | operand {applied : Operand} (whole : (field node "Slice").truthy = false)
      (unchanged : (field node "Repl").truthy = false)
      (number : field (field node "Exp") "Op" = .int applied.number)
      (word : IsOptionalWord source (field (field node "Exp") "Word") applied.word) :
      HasSuffix source node (.operand applied)

/-- The index of the expansion of a node. -/
def HasIndex (source : Source) (node : Json) : Option Index → Prop
  | none => (field node "Index").truthy = false
  | some index => IsArithmWord source (field node "Index") index.1

/-- A node of an expansion, which names its parameter and is not in the short form. -/
structure IsExpansion (source : Source) (node : Json) (expansion : Expansion) : Prop where
  named : field (field node "Param") "Value" = .str expansion.name
  long : (field node "Short").truthy = false
  length : (field node "Length").truthy = expansion.length
  excl : (field node "Excl").truthy = expansion.excl
  unflagged : (field node "Flags").truthy = false
  alone : (field node "Names").truthy = false
  index : HasIndex source node expansion.index
  suffix : HasSuffix source node expansion.suffix

/-! ## Reading an expansion -/

/-- What may be left out is read before what follows it. -/
theorem optional_bind {α β : Type} {present : Bool} {part other : Except Fault α} {value : α}
    (read : (if present then part else other) = .ok value) (next : α → Except Fault β) :
    (if present then part >>= next else other >>= next) = next value := by
  cases present with
  | true => exact congrArg (· >>= next) read
  | false => exact congrArg (· >>= next) read

theorem IsOptionalWord.reads (optional : IsOptionalWord source word text) :
    ∃ read, readWord source word = .ok read ∧ textOf read = .ok text := by
  rcases optional with ⟨rfl, rfl⟩ | plain
  · refine ⟨[], ?_, rfl⟩
    rw [readWord]
    rfl
  · exact plain.reads

theorem IsArithmWord.reads (arithm : IsArithmWord source word text) :
    arithmText source word = .ok text := by
  obtain ⟨_, kind⟩ := Json.fetch_of_get? arithm.typed
  obtain ⟨read, same, printed⟩ := arithm.plain.reads
  rw [arithmText, kind, ok_bind]
  simp only [kindOf?_label]
  rw [same, ok_bind, printed]

theorem sliceRange_eq {range : Slice}
    (offset : IsArithmWord source (field node "Offset") range.offset)
    (size : IsSize source (field node "Length") range.size) :
    sliceRange source node = .ok (Suffix.slice range).text := by
  have object := isObject_of_field offset.plain.ne_null
  obtain ⟨_, fetchedOffset⟩ := fetch_field object "Offset"
  obtain ⟨_, fetchedLength⟩ := fetch_field object "Length"
  rw [sliceRange, fetchedOffset, ok_bind]
  simp only [offset.reads, ok_bind, fetchedLength]
  obtain ⟨start, length, opens, clear⟩ := range
  cases length with
  | none =>
      have absent : field node "Length" = .null := size
      rw [absent]
      simp [Suffix.text, sizeText, Json.isNull, pure, Except.pure]
  | some length =>
      have given : IsArithmWord source (field node "Length") length := size
      have present : (field node "Length").isNull = false := by
        cases found : field node "Length" with
        | null => exact absurd found given.plain.ne_null
        | _ => rfl
      rw [present, given.reads]
      simp [Suffix.text, sizeText, String.append_assoc, pure, Except.pure, ok_bind]

theorem replacementText_eq {change : Substitution}
    (pattern : IsPlainWord source (field node "Orig") change.pattern)
    (value : IsOptionalWord source (field node "With") change.value) :
    replacementText source node = .ok (Suffix.replacement change).text := by
  have object := isObject_of_field pattern.ne_null
  obtain ⟨_, fetchedOrig⟩ := fetch_field object "Orig"
  obtain ⟨_, fetchedWith⟩ := fetch_field object "With"
  obtain ⟨read, same, printed⟩ := pattern.reads
  obtain ⟨others, following, shown⟩ : ∃ others,
      (if (field node "With").truthy then readWord source (field node "With") else pure []) =
        .ok others ∧ textOf others = .ok change.value := by
    rcases value with ⟨absent, empty⟩ | given
    · exact ⟨[], by rw [absent]; rfl, by rw [empty]; rfl⟩
    · rw [if_pos given.truthy]
      exact given.reads
  rw [replacementText, fetchedOrig, ok_bind]
  simp only [same, printed, ok_bind, fetchedWith]
  rw [optional_bind following, shown]
  rfl

theorem operandText_eq {applied : Operand}
    (number : field node "Op" = .int applied.number)
    (word : IsOptionalWord source (field node "Word") applied.word) :
    operandText source node = .ok (Suffix.operand applied).text := by
  have object : node.isObject = true := isObject_of_field (by rw [number]; rintro ⟨⟩)
  obtain ⟨_, fetchedOp⟩ := fetch_field object "Op"
  obtain ⟨_, fetchedWord⟩ := fetch_field object "Word"
  obtain ⟨read, same, printed⟩ := word.reads
  have signed : operator expansionOps (.int applied.number) = .ok (some applied.sign) := by
    have looked : ∀ op ∈ expansionOps, expansionOps.lookup op.1 = some op.2 := by decide
    exact congrArg Except.ok (looked _ applied.known)
  rw [operandText, fetchedOp, ok_bind]
  simp only [number, signed, ok_bind, fetchedWord, same, printed]
  rfl

/-- What a node has at its end is read as one of three texts, or none, and printed. -/
theorem HasSuffix.reads {suffix : Suffix} (ends : HasSuffix source node suffix) :
    ∃ cut changed applied,
      (if (field node "Slice").truthy then sliceRange source (field node "Slice") else pure "") =
        .ok cut ∧
      (if (field node "Repl").truthy then replacementText source (field node "Repl")
        else pure "") = .ok changed ∧
      (if (field node "Exp").truthy then operandText source (field node "Exp") else pure "") =
        .ok applied ∧
      cut ++ changed ++ applied = suffix.text := by
  have absent : ∀ {present : Bool} {part : Except Fault String}, present = false →
      (if present then part else pure "") = .ok "" := by
    rintro _ part rfl
    rfl
  have given : ∀ {present : Bool} {part : Except Fault String} {text : String},
      present = true → part = .ok text → (if present then part else pure "") = .ok text := by
    rintro _ part text rfl same
    exact same
  cases ends with
  | none whole unchanged bare =>
      exact ⟨"", "", "", absent whole, absent unchanged, absent bare, rfl⟩
  | slice offset size unchanged bare =>
      have there := truthy_of_field offset.plain.ne_null
      refine ⟨_, "", "", given there (sliceRange_eq offset size), absent unchanged, absent bare, ?_⟩
      rw [String.append_empty, String.append_empty]
  | replacement whole all pattern value bare =>
      have there := truthy_of_field pattern.ne_null
      refine ⟨"", _, "", absent whole, given there (replacementText_eq pattern value),
        absent bare, ?_⟩
      rw [String.append_empty, String.empty_append]
  | operand whole unchanged number word =>
      have there : (field node "Exp").truthy = true :=
        truthy_of_field (by rw [number]; rintro ⟨⟩)
      refine ⟨"", "", _, absent whole, absent unchanged,
        given there (operandText_eq number word), ?_⟩
      rw [String.append_empty, String.empty_append]

theorem HasIndex.reads {index : Option Index} (placed : HasIndex source node index)
    (next : String → Except Fault String) :
    (if (field node "Index").truthy then do
        let inner ← arithmText source (field node "Index")
        let text ← pure ("[" ++ inner ++ "]")
        next text
      else do
        let text ← pure ""
        next text) = next (Expansion.indexText index) := by
  cases index with
  | none =>
      have absent : (field node "Index").truthy = false := placed
      rw [absent]
      rfl
  | some index =>
      have given : IsArithmWord source (field node "Index") index.1 := placed
      rw [given.plain.truthy, given.reads]
      rfl

theorem field_ne_null {name : String} (named : field node key = .str name) :
    field node key ≠ .null := by
  rw [named]
  rintro ⟨⟩

theorem paramName_eq {name : String} (named : field (field node "Param") "Value" = .str name) :
    paramName source node = .ok (.str name) := by
  have valued := field_ne_null named
  have object := isObject_of_field (ne_null_of_field valued)
  obtain ⟨_, fetchedParam⟩ := fetch_field object "Param"
  obtain ⟨_, fetchedNested⟩ := fetch_field object "NestedParam"
  rw [paramName, fetchedParam, ok_bind, fetchedNested, ok_bind]
  refine (if_pos (truthy_of_field valued)).trans ?_
  rw [Json.textField_of_get? (get?_of_field valued), named]

/-- The node of an expansion is read as the text of the expansion. -/
theorem paramText_eq {expansion : Expansion} (described : IsExpansion source node expansion) :
    paramText source node = .ok expansion.text := by
  have object := isObject_of_field (ne_null_of_field (field_ne_null described.named))
  obtain ⟨_, fetchedShort⟩ := fetch_field object "Short"
  obtain ⟨_, fetchedIndex⟩ := fetch_field object "Index"
  obtain ⟨_, fetchedLength⟩ := fetch_field object "Length"
  obtain ⟨_, fetchedExcl⟩ := fetch_field object "Excl"
  obtain ⟨_, fetchedFlags⟩ := fetch_field object "Flags"
  obtain ⟨_, fetchedSlice⟩ := fetch_field object "Slice"
  obtain ⟨_, fetchedRepl⟩ := fetch_field object "Repl"
  obtain ⟨_, fetchedNames⟩ := fetch_field object "Names"
  obtain ⟨_, fetchedExp⟩ := fetch_field object "Exp"
  obtain ⟨cut, changed, applied, slice, repl, exp, suffix⟩ := described.suffix.reads
  have long : ¬((field node "Short").truthy && !(field node "Index").truthy) = true := by
    rw [described.long]
    rintro ⟨⟩
  have unflagged : ¬(field node "Flags").truthy = true := by
    rw [described.unflagged]
    rintro ⟨⟩
  have alone : ¬(field node "Names").truthy = true := by
    rw [described.alone]
    rintro ⟨⟩
  rw [paramText, paramName_eq described.named, ok_bind, fetchedShort, ok_bind, fetchedIndex,
    ok_bind]
  refine (if_neg long).trans ?_
  rw [fetchedLength, ok_bind, described.length]
  cases asked : expansion.length with
  | true =>
      rw [if_pos rfl, Expansion.text, Expansion.lead, Expansion.tail, asked, if_pos rfl,
        if_pos rfl, String.append_empty]
      rfl
  | false =>
      rw [if_neg Bool.false_ne_true, fetchedExcl, ok_bind, fetchedFlags, ok_bind]
      -- The parts are read in the order of the text, and each is handed to what follows it.
      refine (if_neg unflagged).trans ?_
      refine (described.index.reads _).trans ?_
      rw [fetchedSlice, ok_bind]
      refine (optional_bind slice _).trans ?_
      beta_reduce
      rw [fetchedRepl, ok_bind]
      refine (optional_bind repl _).trans ?_
      beta_reduce
      rw [fetchedNames, ok_bind, fetchedExp]
      refine (optional_bind exp _).trans ?_
      beta_reduce
      rw [if_neg alone, described.excl, Expansion.text, Expansion.lead, Expansion.tail, asked,
        if_neg Bool.false_ne_true, if_neg Bool.false_ne_true, ← suffix]
      simp only [String.append_assoc, String.empty_append]
      rfl

/-! ## A node for each expansion -/

/-- The node of a word of one literal. -/
def literalNode (text : String) : Json :=
  .obj [("Type", .str Kind.word.label), ("Parts", .arr [valueNode .literal text])]

theorem isPlainWord_literalNode (source : Source) (text : String) :
    IsPlainWord source (literalNode text) text := by
  have plain : IsPlainWord source (literalNode text) (String.join [text]) :=
    .intro rfl (.cons (isLiteral_valueNode source text) .nil)
  rwa [String.join_cons, String.join_nil, String.append_empty] at plain

theorem isArithmWord_literalNode (source : Source) (text : String) :
    IsArithmWord source (literalNode text) text :=
  ⟨rfl, isPlainWord_literalNode source text⟩

/-- The fields of what stands at the end of an expansion. -/
def suffixFields : Suffix → List (String × Json)
  | .none => []
  | .slice range =>
      [("Slice", .obj [("Offset", literalNode range.offset),
        ("Length", range.size.elim .null literalNode)])]
  | .replacement change =>
      [("Repl", .obj [("All", .bool change.all), ("Orig", literalNode change.pattern),
        ("With", literalNode change.value)])]
  | .operand applied =>
      [("Exp", .obj [("Op", .int applied.number), ("Word", literalNode applied.word)])]

/-- The node of an expansion. -/
def expansionNode (expansion : Expansion) : Json :=
  .obj ([("Type", .str Kind.param.label), ("Param", .obj [("Value", .str expansion.name)]),
    ("Length", .bool expansion.length), ("Excl", .bool expansion.excl),
    ("Index", expansion.index.elim .null fun index => literalNode index.1)] ++
    suffixFields expansion.suffix)

theorem isExpansion_expansionNode (source : Source) (expansion : Expansion) :
    IsExpansion source (expansionNode expansion) expansion := by
  obtain ⟨name, length, excl, index, suffix, named⟩ := expansion
  have placed :
      HasIndex source (expansionNode ⟨name, length, excl, index, suffix, named⟩) index := by
    cases index with
    | none => rfl
    | some index => exact isArithmWord_literalNode source index.1
  cases suffix with
  | none => exact ⟨rfl, rfl, rfl, rfl, rfl, rfl, placed, .none rfl rfl rfl⟩
  | slice range =>
      refine ⟨rfl, rfl, rfl, rfl, rfl, rfl, placed, ?_⟩
      obtain ⟨offset, size, opens, clear⟩ := range
      refine .slice (isArithmWord_literalNode source offset) ?_ rfl rfl
      cases size with
      | none => rfl
      | some size => exact isArithmWord_literalNode source size
  | replacement change =>
      refine ⟨rfl, rfl, rfl, rfl, rfl, rfl, placed, ?_⟩
      exact .replacement rfl rfl (isPlainWord_literalNode source change.pattern)
        (.inr (isPlainWord_literalNode source change.value)) rfl
  | operand applied =>
      refine ⟨rfl, rfl, rfl, rfl, rfl, rfl, placed, ?_⟩
      exact .operand rfl rfl rfl (.inr (isPlainWord_literalNode source applied.word))

/-! ## Expansions that print alike -/

/--
Two expansions are both read, and their texts are the same just where what is
kept of the expansions is: the name alone, if a length is asked for, and else
everything but whether a replacement is made everywhere.
-/
theorem paramText_eq_iff {other : Json} {first second : Expansion}
    (left : IsExpansion source node first) (right : IsExpansion source other second) :
    ∃ text shown, paramText source node = .ok text ∧ paramText source other = .ok shown ∧
      (text = shown ↔ first.kept = second.kept) :=
  ⟨_, _, paramText_eq left, paramText_eq right, Expansion.text_eq_iff first second⟩

/-- The expansion of a variable with something at its end. -/
def endedExpansion (suffix : Suffix) : Expansion :=
  ⟨"x", false, false, none, suffix, by decide⟩

/-- A slice and a default, which both begin with a colon, print apart. -/
theorem paramText_slice_ne_default :
    ∃ text shown,
      paramText none (expansionNode (endedExpansion
        (.slice ⟨"1", none, by decide, by decide⟩))) = .ok text ∧
      paramText none (expansionNode (endedExpansion
        (.operand ⟨71, ":-", "1", by decide, by decide⟩))) = .ok shown ∧ text ≠ shown := by
  obtain ⟨text, shown, read, other, same⟩ := paramText_eq_iff
    (isExpansion_expansionNode none (endedExpansion (.slice ⟨"1", none, by decide, by decide⟩)))
    (isExpansion_expansionNode none
      (endedExpansion (.operand ⟨71, ":-", "1", by decide, by decide⟩)))
  refine ⟨text, shown, read, other, fun alike => ?_⟩
  have suffixes := congrArg Expansion.suffix (same.mp alike)
  cases suffixes

/-- The length of an array prints as that of a variable, and every replacement as the first. -/
theorem paramText_forgets :
    paramText none (expansionNode ⟨"a", true, false, some ⟨"@", by decide⟩, .none, by decide⟩) =
      .ok "$\x7b#a\x7d" ∧
    paramText none (expansionNode ⟨"a", true, false, none, .none, by decide⟩) =
      .ok "$\x7b#a\x7d" ∧
    ∀ all, paramText none (expansionNode (endedExpansion
      (.replacement ⟨all, "a", "b", by decide⟩))) = .ok "$\x7bx/a/b\x7d" := by
  refine ⟨?_, ?_, fun all => ?_⟩
  · exact (paramText_eq (isExpansion_expansionNode none _)).trans (congrArg _ (by decide))
  · exact (paramText_eq (isExpansion_expansionNode none _)).trans (congrArg _ (by decide))
  · exact (paramText_eq (isExpansion_expansionNode none _)).trans (congrArg _ rfl)

end Shfmt

end ShellTree
