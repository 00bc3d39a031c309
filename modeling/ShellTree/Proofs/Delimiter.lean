import ShellTree.Proofs.Encoding
import ShellTree.Proofs.Marker
import ShellTree.Proofs.NodeFields

/-!
# The marker that a header announces

The shell takes the quotes off the word behind `<<`, and ends the heredoc at
the line that is left.  The marker that is printed below the body is the word
as it was read, with all its quotes, and the header holds the same word once
more between single quotes if a part of it was quoted.

Taking quotes off never makes a text longer, and makes it shorter as soon as a
quote is met.  So the two agree only where there is nothing to take off but the
quotes that the header adds.
-/

namespace ShellTree

/-! ## Taking quotes off -/

/-- Where a character stands with regard to quotes; a backslash shelters the next one. -/
inductive Quoting where
  | bare
  | bareEscape
  | single
  | double
  | doubleEscape
deriving DecidableEq

namespace Quoting

/-- The place of the next character, and what is left of this one. -/
def step : Quoting → Char → Quoting × List Char
  | .bare, c =>
      if c = '\x27' then (.single, [])
      else if c = '"' then (.double, [])
      else if c = '\\' then (.bareEscape, [])
      else (.bare, [c])
  | .bareEscape, c => (.bare, if c = '\n' then [] else [c])
  | .single, c => if c = '\x27' then (.bare, []) else (.single, [c])
  | .double, c =>
      if c = '"' then (.bare, [])
      else if c = '\\' then (.doubleEscape, [])
      else (.double, [c])
  | .doubleEscape, c =>
      (.double,
        if c = '\n' then []
        else if c = '$' ∨ c = '\x60' ∨ c = '"' ∨ c = '\\' then [c]
        else ['\\', c])

/-- A text without its quotes; nothing if a quote stays open at its end. -/
def unquote : Quoting → List Char → Option (List Char)
  | place, [] => if place = .bare then some [] else none
  | place, c :: rest => (unquote (place.step c).1 rest).map fun left => (place.step c).2 ++ left

/-- A backslash that may still be kept. -/
def pending (place : Quoting) : Nat :=
  if place = .doubleEscape then 1 else 0

/-- Is a character one that quotes others? -/
def quotes (c : Char) : Bool :=
  c == '\x27' || c == '"' || c == '\\'

theorem length_step (place : Quoting) (c : Char) :
    (place.step c).2.length + (place.step c).1.pending ≤ 1 + place.pending := by
  cases place with
  | bare =>
      rw [step]
      split
      · exact Nat.zero_le _
      · split
        · exact Nat.zero_le _
        · split
          · exact Nat.zero_le _
          · exact Nat.le_refl 1
  | bareEscape =>
      rw [step]
      split
      · exact Nat.zero_le _
      · exact Nat.le_refl 1
  | single =>
      rw [step]
      split
      · exact Nat.zero_le _
      · exact Nat.le_refl 1
  | double =>
      rw [step]
      split
      · exact Nat.zero_le _
      · split
        · exact Nat.le_refl 1
        · exact Nat.le_refl 1
  | doubleEscape =>
      rw [step]
      split
      · exact Nat.zero_le _
      · split
        · exact Nat.le_succ 1
        · exact Nat.le_refl 2

/-- A text without its quotes is no longer than it was. -/
theorem length_unquote {place : Quoting} {text left : List Char}
    (unquoted : unquote place text = some left) : left.length ≤ text.length + place.pending := by
  induction text generalizing place left with
  | nil =>
      rw [unquote] at unquoted
      split at unquoted
      · cases unquoted
        exact Nat.zero_le _
      · cases unquoted
  | cons c rest ih =>
      obtain ⟨others, following, rfl⟩ := Option.map_eq_some_iff.mp unquoted
      have shorter := ih following
      have one := place.length_step c
      rw [List.length_append, List.length_cons]
      omega

/-- A text without its quotes is shorter than it was if there was a quote. -/
theorem length_unquote_lt {text left : List Char} (unquoted : unquote .bare text = some left)
    {mark : Char} (inside : mark ∈ text) (quoting : quotes mark = true) :
    left.length < text.length := by
  induction text generalizing left with
  | nil => cases inside
  | cons c rest ih =>
      obtain ⟨others, following, rfl⟩ := Option.map_eq_some_iff.mp unquoted
      by_cases first : quotes c = true
      -- nothing is left of this character, and no more than the rest is left of the rest
      · have shorter := length_unquote following
        have gone : (Quoting.bare.step c).2 = [] ∧ (Quoting.bare.step c).1.pending = 0 := by
          simp only [quotes, Bool.or_eq_true, beq_iff_eq] at first
          rcases first with (rfl | rfl) | rfl
          · exact ⟨rfl, rfl⟩
          · exact ⟨rfl, rfl⟩
          · exact ⟨rfl, rfl⟩
        rw [gone.2] at shorter
        rw [gone.1, List.nil_append, List.length_cons]
        omega
      · have kept : Quoting.bare.step c = (.bare, [c]) := by
          simp only [quotes, Bool.or_eq_true, beq_iff_eq, not_or] at first
          rw [step, if_neg first.1.1, if_neg first.1.2, if_neg first.2]
        rw [kept] at following ⊢
        have later : mark ∈ rest := by
          rcases List.mem_cons.mp inside with rfl | later
          · exact absurd quoting first
          · exact later
        have shorter := ih following later
        rw [List.singleton_append, List.length_cons, List.length_cons]
        omega

theorem unquote_of_plain {text : List Char} (plain : ∀ c ∈ text, quotes c = false) :
    unquote .bare text = some text := by
  induction text with
  | nil => rfl
  | cons c rest ih =>
      have first : quotes c = false := plain c List.mem_cons_self
      have others := ih fun d inside => plain d (List.mem_cons_of_mem c inside)
      simp only [quotes, Bool.or_eq_false_iff, beq_eq_false_iff_ne] at first
      have kept : Quoting.bare.step c = (.bare, [c]) := by
        rw [step, if_neg first.1.1, if_neg first.1.2, if_neg first.2]
      rw [unquote, kept, others]
      rfl

theorem unquote_single {text : List Char} (inside : '\x27' ∉ text) (rest : List Char) :
    unquote .single (text ++ '\x27' :: rest) =
      (unquote .bare rest).map fun left => text ++ left := by
  induction text with
  | nil => rfl
  | cons c others ih =>
      have different : c ≠ '\x27' := fun same => inside (same ▸ List.mem_cons_self)
      have kept : Quoting.single.step c = (.single, [c]) := by
        rw [step, if_neg different]
      rw [List.cons_append, unquote, kept, ih fun later => inside (List.mem_cons_of_mem c later)]
      rw [Option.map_map]
      rfl

/-- Nothing is taken off a text just where there is no quote in it. -/
theorem unquote_bare_iff (text : List Char) :
    unquote .bare text = some text ↔ ∀ c ∈ text, quotes c = false := by
  constructor
  · intro unquoted c inside
    rw [← Bool.not_eq_true]
    intro quoting
    exact Nat.lt_irrefl _ (length_unquote_lt unquoted inside quoting)
  · exact unquote_of_plain

theorem unquote_quote (text : List Char) :
    unquote .bare ('\x27' :: text) = unquote .single text := by
  change (unquote .single text).map (fun left => left) = _
  exact Option.map_id_apply

/-- A text between single quotes is what is left of it just where it holds none of its own. -/
theorem unquote_between_iff (text : List Char) :
    unquote .bare ('\x27' :: (text ++ ['\x27'])) = some text ↔ '\x27' ∉ text := by
  rw [unquote_quote]
  constructor
  · intro unquoted inside
    obtain ⟨before, rest, rfl, clean⟩ := List.eq_append_cons_of_mem inside
    rw [List.append_assoc, List.cons_append, unquote_single clean] at unquoted
    obtain ⟨left, following, same⟩ := Option.map_eq_some_iff.mp unquoted
    obtain rfl : left = '\x27' :: rest := List.append_cancel_left same
    -- behind the first quote of its own, the closing quote is one more to be taken off
    have shorter := length_unquote_lt following (List.mem_append_right rest List.mem_cons_self) rfl
    rw [List.length_append, List.length_cons, List.length_singleton] at shorter
    exact Nat.lt_irrefl _ shorter
  · intro clean
    rw [unquote_single clean, unquote, if_pos rfl, Option.map_some, List.append_nil]

/-- A marker as a header announces it: between single quotes, or as it is. -/
def announced (quoted : Bool) (marker : List Char) : List Char :=
  if quoted then '\x27' :: (marker ++ ['\x27']) else marker

/--
The marker that is announced is left just where it holds no single quote, and no
other quote either unless it is announced between single quotes.
-/
theorem unquote_announced_iff (quoted : Bool) (marker : List Char) :
    unquote .bare (announced quoted marker) = some marker ↔
      ∀ c ∈ marker, quotes c = true → c ≠ '\x27' ∧ quoted = true := by
  cases quoted with
  | false =>
      apply (unquote_bare_iff marker).trans
      constructor
      · intro plain c inside quoting
        cases (plain c inside).symm.trans quoting
      · intro sheltered c inside
        rw [← Bool.not_eq_true]
        intro quoting
        cases (sheltered c inside quoting).2
  | true =>
      apply (unquote_between_iff marker).trans
      constructor
      · intro clean c inside _
        exact ⟨fun same => clean (same ▸ inside), rfl⟩
      · intro sheltered inside
        exact (sheltered _ inside rfl).1 rfl

end Quoting

/-! ## The word behind the operator -/

namespace Shfmt

variable {source : Source}

/--
A part of the word that announces a marker, whether it is quoted, and how it
prints.  What points into the script is taken from there with its quotes, and
all other quotes become double quotes.
-/
inductive IsMarkerPart (source : Source) : Json → Bool → String → Prop where
  | pointed {part : Json} {kind : Kind} {text : String}
      (known : kind = .literal ∨ kind = .singleQuoted ∨ kind = .doubleQuoted)
      (typed : part.get? "Type" = some (.str kind.label))
      (found : literal? source part = .ok (some text)) :
      IsMarkerPart source part (kind != .literal) text
  | literal {part : Json} {text : String}
      (typed : part.get? "Type" = some (.str Kind.literal.label))
      (absent : literal? source part = .ok none)
      (value : part.get? "Value" = some (.str text)) :
      IsMarkerPart source part false text
  | single {part : Json} {text : String}
      (typed : part.get? "Type" = some (.str Kind.singleQuoted.label))
      (absent : literal? source part = .ok none)
      (value : part.get? "Value" = some (.str text)) :
      IsMarkerPart source part true ("\"" ++ inMode .quoted text ++ "\"")
  | double {part : Json} {parts : List Json} {texts : List String}
      (typed : part.get? "Type" = some (.str Kind.doubleQuoted.label))
      (absent : literal? source part = .ok none)
      (listed : part.items? "Parts" = some parts)
      (each : List.Forall₂ (PartShows source .quoted) parts texts) :
      IsMarkerPart source part true ("\"" ++ String.join texts ++ "\"")

theorem IsMarkerPart.shows {part : Json} {quoted : Bool} {text : String}
    (marked : IsMarkerPart source part quoted text) : PartShows source .unquoted part text := by
  cases marked with
  | pointed known typed found =>
      refine ⟨cells text, ?_, .cells text⟩
      rw [readPart, found]
      rfl
  | literal typed absent value =>
      have literal : IsLiteral source part text := ⟨typed, .inr ⟨absent, value⟩⟩
      exact literal.shows
  | single typed absent value =>
      obtain ⟨_, kind⟩ := Json.fetch_of_get? typed
      refine ⟨_, ?_, .quoted (.cells _)⟩
      rw [readPart]
      simp only [absent, kind, kindOf?_label, Json.textField_of_get? value, bind, Except.bind]
      rfl
  | double typed absent listed each =>
      obtain ⟨_, kind⟩ := Json.fetch_of_get? typed
      obtain ⟨read, same, shows⟩ := parts_show each
      obtain ⟨inside, fetched, items⟩ := Json.children_of_items? listed
      have whole := Json.mapM_inside items (readPart source)
      refine ⟨_, ?_, .quoted shows⟩
      rw [readPart]
      simp only [absent, kind, kindOf?_label, fetched, bind, Except.bind]
      change (inside.mapM (fun item => readPart source item.1) >>= fun parts => _) = _
      rw [whole, same]
      rfl

/-- A part is quoted just where it is of a kind that has quotes. -/
theorem IsMarkerPart.exists_kind {part : Json} {quoted : Bool} {text : String}
    (marked : IsMarkerPart source part quoted text) :
    ∃ kind : Kind, part.get? "Type" = some (.str kind.label) ∧
      (kind = .literal ∧ quoted = false ∨ kind = .singleQuoted ∧ quoted = true ∨
        kind = .doubleQuoted ∧ quoted = true) := by
  cases marked with
  | pointed known typed found =>
      refine ⟨_, typed, ?_⟩
      rcases known with rfl | rfl | rfl
      · exact .inl ⟨rfl, rfl⟩
      · exact .inr (.inl ⟨rfl, rfl⟩)
      · exact .inr (.inr ⟨rfl, rfl⟩)
  | literal typed absent value => exact ⟨_, typed, .inl ⟨rfl, rfl⟩⟩
  | single typed absent value => exact ⟨_, typed, .inr (.inl ⟨rfl, rfl⟩)⟩
  | double typed absent listed each => exact ⟨_, typed, .inr (.inr ⟨rfl, rfl⟩)⟩

/-- A part of the word that announces a marker. -/
structure MarkerPart (source : Source) where
  node : Json
  quoted : Bool
  text : String
  marked : IsMarkerPart source node quoted text

theorem anyQuoted_parts (parts : List (MarkerPart source)) :
    anyQuoted (parts.map MarkerPart.node) = .ok (parts.any MarkerPart.quoted) := by
  induction parts with
  | nil => rfl
  | cons part rest ih =>
      obtain ⟨kind, typed, known⟩ := part.marked.exists_kind
      obtain ⟨_, fetched⟩ := Json.fetch_of_get? typed
      rw [List.map_cons, anyQuoted, List.any_cons]
      simp only [fetched, kindOf?_label, bind, Except.bind]
      rcases known with ⟨rfl, same⟩ | ⟨rfl, same⟩ | ⟨rfl, same⟩
      · rw [same]
        exact ih
      · rw [same]
        rfl
      · rw [same]
        rfl

/-- The word is read, and prints as its parts do; it is known whether one of them is quoted. -/
theorem marker_shows {word : Json} {parts : List (MarkerPart source)}
    (listed : word.items? "Parts" = some (parts.map MarkerPart.node)) :
    (∃ read, readWord source word = .ok read ∧
      textOf read = .ok (String.join (parts.map MarkerPart.text))) ∧
      wordHasQuotes word = .ok (parts.any MarkerPart.quoted) := by
  constructor
  · have each : List.Forall₂ (PartShows source .unquoted) (parts.map MarkerPart.node)
        (parts.map MarkerPart.text) := by
      rw [List.forall₂_map_left_iff, List.forall₂_map_right_iff, List.forall₂_same]
      exact fun part _ => part.marked.shows
    obtain ⟨read, same, shows⟩ := word_shows listed each
    exact ⟨read, same, shows.renderParts_eq⟩
  · obtain ⟨inside, fetched, items⟩ := Json.children_of_items? listed
    rw [wordHasQuotes]
    by_cases filled : word.truthy = true
    · rw [if_pos filled, fetched]
      change anyQuoted (inside.map Subtype.val) = _
      rw [items]
      exact anyQuoted_parts parts
    · rw [if_neg filled]
      obtain rfl : parts = [] := by
        cases word with
        | obj fields =>
            cases fields with
            | nil => exact List.map_eq_nil_iff.mp (Option.some.inj listed).symm
            | cons field rest => exact absurd rfl filled
        | _ => cases listed
      rfl

/-! ## Headers and markers -/

/-- The marker of a heredoc: the word that was read, or one that suits the body if it is empty. -/
def markerOf (word body : String) : String :=
  if word.isEmpty then Marker.fresh body else word

/-- A marker that is made up holds no quote. -/
theorem mem_markerOf {mark : Char} (quoting : Quoting.quotes mark = true) (word body : String) :
    mark ∈ (markerOf word body).toList ↔ mark ∈ word.toList := by
  rw [markerOf]
  split
  next empty =>
      obtain rfl : word = "" := String.isEmpty_iff.mp empty
      constructor
      · intro inside
        rw [Marker.fresh, Marker.toList_ofCount] at inside
        rcases List.mem_cons.mp inside with rfl | inside
        · cases quoting
        · rcases List.mem_cons.mp inside with rfl | inside
          · cases quoting
          · cases List.eq_of_mem_replicate inside
            cases quoting
      · intro inside
        cases inside
  next => exact Iff.rfl

/-- A heredoc as it is read. -/
def heredocOf (quoted tabs : Bool) (fd : Datum) (inside : List Datum) (word : String) :
    Redirection :=
  .heredoc (.text (if quoted then "Here" else "XHere")) fd (.list inside) (.bool tabs) (.text word)

section

variable {fd : Datum} {inside : List Datum} {body : String}

theorem eof_eq (word body : String) :
    (if (Datum.text word).truthy then Datum.text word else .text (Marker.fresh body)) =
      .text (markerOf word body) := by
  rw [markerOf, Datum.truthy]
  cases word.isEmpty <;> rfl

theorem header_heredocOf {descriptor : String} (described : fd.renderFd (.int 0) = .ok descriptor)
    (printed : renderParts .heredoc inside = .ok body) (quoted tabs : Bool) (word : String) :
    (heredocOf quoted tabs fd inside word).header =
      .ok (descriptor ++ "<<" ++ (if tabs then "-" else "") ++
        String.ofList (Quoting.announced quoted (markerOf word body).toList)) := by
  rw [heredocOf, Redirection.header, Datum.renderWord, printed]
  simp only [described, eof_eq, bind, Except.bind]
  cases quoted with
  | false =>
      have bare : String.ofList (Quoting.announced false (markerOf word body).toList) =
          markerOf word body := String.ofList_toList
      rw [bare]
      rfl
  | true =>
      have between : String.ofList (Quoting.announced true (markerOf word body).toList) =
          "'" ++ (markerOf word body ++ "'") :=
        String.toList_injective (by simp [Quoting.announced])
      rw [between, ← String.append_assoc, ← String.append_assoc]
      rfl

theorem body_heredocOf (printed : renderParts .heredoc inside = .ok body) (quoted tabs : Bool)
    (word : String) :
    (heredocOf quoted tabs fd inside word).body =
      .ok (body ++ markerOf word body ++ "\n") := by
  rw [heredocOf, Redirection.body, Datum.renderWord, printed]
  simp only [eof_eq, bind, Except.bind]
  rfl

end

/-- A descriptor that was read can be printed. -/
theorem renderFd_of_readFd {named : Json} {number : Int} {fd : Datum}
    (read : readFd named (.int number) = .ok fd) :
    ∃ descriptor, fd.renderFd (.int 0) = .ok descriptor := by
  rw [readFd] at read
  split at read
  · obtain ⟨value, _, read⟩ := bind_eq_ok_iff.mp read
    obtain ⟨digital, asked, read⟩ := bind_eq_ok_iff.mp read
    cases value with
    | str text =>
        cases digital with
        | true =>
            obtain ⟨number, _, read⟩ := bind_eq_ok_iff.mp read
            cases read
            exact ⟨_, rfl⟩
        | false =>
            cases read
            have named : renderParts .unquoted (cells text) = .ok text :=
              (Shows.cells text).renderParts_eq
            refine ⟨"\x7b" ++ text ++ "\x7d", ?_⟩
            rw [Datum.tuple, Datum.renderFd, Datum.renderWord, named]
            rfl
    | _ => cases asked
  · cases read
    exact ⟨_, rfl⟩

/--
A heredoc, how its operator treats tabs, its descriptor, the parts of the word
that announces its marker, and its body.
-/
structure IsHeredoc (source : Source) (node : Json) (tabs : Bool) (fd : Datum)
    (parts : List (MarkerPart source)) (body : String) : Prop where
  announced : ∃ number op, node.get? "Op" = some number ∧
    operator redirOps number = .ok (some op) ∧ op.form = .heredoc tabs
  described : readFd ((node.get? "N").getD .null) (.int 0) = .ok fd
  listed : ∃ word, node.get? "Word" = some word ∧
    word.items? "Parts" = some (parts.map MarkerPart.node)
  inside : ∃ read, readWord source ((node.get? "Hdoc").getD .null) = .ok read ∧
    renderParts .heredoc read = .ok body

variable {node : Json} {tabs : Bool} {fd : Datum} {parts : List (MarkerPart source)} {body : String}

theorem IsHeredoc.readRedir_eq (heredoc : IsHeredoc source node tabs fd parts body) :
    ∃ inside, renderParts .heredoc inside = .ok body ∧
      readRedir source node = .ok (.redir (heredocOf (parts.any MarkerPart.quoted) tabs fd inside
        (String.join (parts.map MarkerPart.text)))) := by
  obtain ⟨number, op, numbered, known, form⟩ := heredoc.announced
  obtain ⟨word, found, listed⟩ := heredoc.listed
  obtain ⟨inside, bodyRead, printed⟩ := heredoc.inside
  obtain ⟨⟨marker, markerRead, shown⟩, quoted⟩ := marker_shows listed
  have object := Json.isObject_of_get? numbered
  obtain ⟨_, fetchedOp⟩ := Json.fetch_of_get? numbered
  obtain ⟨_, fetchedWord⟩ := Json.fetch_of_get? found
  obtain ⟨_, fetchedNumber⟩ := Json.fetch_eq object "N"
  obtain ⟨_, fetchedBody⟩ := Json.fetch_eq object "Hdoc"
  have reads : op.reads = true := by
    cases op with
    | heredoc => rfl
    | heredocTabs => rfl
    | _ => cases form
  refine ⟨inside, printed, ?_⟩
  have described := heredoc.described
  have read : readHeredoc source tabs fd node = .ok (.redir (heredocOf
      (parts.any MarkerPart.quoted) tabs fd inside (String.join (parts.map MarkerPart.text)))) := by
    rw [readHeredoc]
    simp only [fetchedWord, fetchedBody, markerRead, shown, quoted, bodyRead, bind, Except.bind]
    rfl
  rw [readRedir]
  simp only [fetchedOp, known, fetchedNumber, reads, if_true, described, fetchedWord, form, bind,
    Except.bind]
  exact read

/--
The shell takes from the header of a heredoc the line that ends its body just
where the word that was read holds no single quote, and no other quote either
unless a part of it is quoted.
-/
theorem unquote_header_iff (heredoc : IsHeredoc source node tabs fd parts body) :
    ∃ value descriptor written marker,
      readRedir source node = .ok (.redir value) ∧
      fd.renderFd (.int 0) = .ok descriptor ∧
      value.header = .ok (descriptor ++ "<<" ++ (if tabs then "-" else "") ++ written) ∧
      value.body = .ok (body ++ marker ++ "\n") ∧
      (Quoting.unquote .bare written.toList = some marker.toList ↔
        ∀ c ∈ (String.join (parts.map MarkerPart.text)).toList, Quoting.quotes c = true →
          c ≠ '\x27' ∧ parts.any MarkerPart.quoted = true) := by
  obtain ⟨inside, printed, read⟩ := heredoc.readRedir_eq
  obtain ⟨descriptor, described⟩ := renderFd_of_readFd heredoc.described
  refine ⟨_, descriptor, _, _, read, described, header_heredocOf described printed _ tabs _,
    body_heredocOf printed _ tabs _, ?_⟩
  rw [String.toList_ofList, Quoting.unquote_announced_iff]
  constructor
  · intro sheltered c inside quoting
    exact sheltered c ((mem_markerOf quoting _ _).mpr inside) quoting
  · intro sheltered c inside quoting
    exact sheltered c ((mem_markerOf quoting _ _).mp inside) quoting

/-! ## Markers with quotes -/

/-- The node of a part of a word that only points into the script. -/
def placedNode (kind : Kind) (start finish : Int) : Json :=
  .obj [("Type", .str kind.label), ("Pos", .obj [("Offset", .int start)]),
    ("End", .obj [("Offset", .int finish)])]

/-- The node of a heredoc. -/
def heredocNode (number : Int) (parts : List Json) (body : String) : Json :=
  .obj [("Op", .int number), ("Word", .obj [("Parts", .arr parts)]),
    ("Hdoc", wordNode (valueNode .literal body))]

theorem literal?_placedNode {bytes : List UInt8} {start finish : Int} {text : String}
    (same : slice bytes start finish = Utf8.encode text) (kind : Kind) :
    literal? (some bytes) (placedNode kind start finish) = .ok (some text) := by
  change Except.ok (some (Utf8.decodeReplacing (slice bytes start finish))) = _
  rw [same, Utf8.decodeReplacing_encode]

theorem isHeredoc_heredocNode {number : Int} {op : RedirOp}
    (known : redirOps.lookup number = some op) (form : op.form = .heredoc tabs)
    (parts : List (MarkerPart source)) (body : String) :
    IsHeredoc source (heredocNode number (parts.map MarkerPart.node) body) tabs
      (.tuple [.text "fixed", .int 0]) parts body := by
  constructor
  · exact ⟨.int number, op, rfl, congrArg Except.ok known, form⟩
  · rfl
  · exact ⟨_, rfl, rfl⟩
  · exact wordNode_shows (isLiteral_valueNode source body).shows

/-- A word with a literal, a text between single quotes and one between double quotes. -/
def mixedWord : List (MarkerPart none) :=
  [⟨valueNode .literal "E", _, _, .literal rfl rfl rfl⟩,
    ⟨valueNode .singleQuoted "O F", _, _, .single rfl rfl rfl⟩,
    ⟨.obj [("Type", .str Kind.doubleQuoted.label), ("Parts", .arr [valueNode .literal "a\"b"])],
      _, _, .double rfl rfl rfl (.cons (isLiteral_valueNode none "a\"b").shows .nil)⟩]

/-- Quotes that are written anew are double quotes, which single quotes shelter. -/
theorem unquote_header_iff_mixed :
    let node := heredocNode 65 (mixedWord.map MarkerPart.node) "\tx\n"
    IsHeredoc none node true (.tuple [.text "fixed", .int 0]) mixedWord "\tx\n" ∧
      ∃ value descriptor written marker, readRedir none node = .ok (.redir value) ∧
        value.header = .ok (descriptor ++ "<<" ++ "-" ++ written) ∧
        value.body = .ok ("\tx\n" ++ marker ++ "\n") ∧
        Quoting.unquote .bare written.toList = some marker.toList := by
  intro node
  have known : redirOps.lookup 65 = some .heredocTabs := by decide
  have heredoc := isHeredoc_heredocNode known rfl mixedWord "\tx\n"
  obtain ⟨value, descriptor, written, marker, read, _, header, below, same⟩ :=
    unquote_header_iff heredoc
  refine ⟨heredoc, value, descriptor, written, marker, read, header, below, same.mpr ?_⟩
  have single : (String.join (mixedWord.map MarkerPart.text)).toList.contains '\x27' = false := by
    decide
  intro c inside _
  refine ⟨?_, rfl⟩
  rintro rfl
  exact Bool.false_ne_true (single.symm.trans (List.contains_iff_mem.mpr inside))

/--
The quotes of the script stay in the word, and the quotes that the header adds
only cancel them: the shell waits for another line than the one that is printed.
-/
theorem unquote_header_ne_quoted :
    let source : Source := some (Utf8.encode "cat <<'EOF'\nx\nEOF\n")
    ∃ value, readRedir source (heredocNode 64 [placedNode .singleQuoted 6 11] "x\n") =
        .ok (.redir value) ∧
      value.header = .ok "0<<''EOF''" ∧ value.body = .ok "x\n'EOF'\n" ∧
      Quoting.unquote .bare "''EOF''".toList = some "EOF".toList := by
  intro source
  have found : literal? source (placedNode .singleQuoted 6 11) = .ok (some "'EOF'") :=
    literal?_placedNode (by decide) .singleQuoted
  let part : MarkerPart source := ⟨_, _, _, .pointed (.inr (.inl rfl)) rfl found⟩
  have known : redirOps.lookup 64 = some .heredoc := by decide
  have heredoc := isHeredoc_heredocNode known rfl [part] "x\n"
  obtain ⟨inside, printed, read⟩ := heredoc.readRedir_eq
  have quoted : [part].any MarkerPart.quoted = true := rfl
  have word : String.join ([part].map MarkerPart.text) = "'EOF'" := String.empty_append
  rw [quoted, word] at read
  have described : (Datum.tuple [.text "fixed", .int 0]).renderFd (.int 0) = .ok "0" := rfl
  refine ⟨_, read, ?_, ?_, by decide⟩
  · exact (header_heredocOf described printed _ _ _).trans (congrArg Except.ok (by decide))
  · exact (body_heredocOf printed _ _ _).trans (congrArg Except.ok (by decide))

end Shfmt

end ShellTree
