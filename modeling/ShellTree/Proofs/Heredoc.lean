import ShellTree.Print.Render
import ShellTree.Proofs.Marker

/-!
# Heredocs are read back

Redirections stand on one line, and the bodies of the heredocs among them stand
below that line.  The shell takes the bodies from there in order, and what it
takes for each heredoc is the body that was printed.
-/

namespace ShellTree

/--
A heredoc in a tree: its descriptor is on one line, its body is made of whole
lines, and the marker, if it has one of its own, is none of these lines.
-/
structure Heredoc where
  kind : Datum
  fd : Datum
  arg : Datum
  killLeading : Datum
  eof : Datum
  descriptor : String
  marker : String
  body : String
  kept : killLeading.truthy = false
  descriptor_printed : fd.renderFd (.int 0) = .ok descriptor
  descriptor_clean : '\n' ∉ descriptor.toList
  body_printed : arg.renderWord .heredoc = .ok body
  body_whole : body.toList = [] ∨ body.toList.getLast? = some '\n'
  marked : eof.truthy = false ∧ marker = Marker.fresh body ∨
    eof = .text marker ∧ marker ≠ "" ∧ '\n' ∉ marker.toList ∧
      marker.toList ∉ Marker.lines body.toList

namespace Heredoc

/-- The redirection that a heredoc is. -/
def value (heredoc : Heredoc) : Redirection :=
  .heredoc heredoc.kind heredoc.fd heredoc.arg heredoc.killLeading heredoc.eof

/-- What stands on the line of the command: the marker is quoted unless the body is expanded. -/
def header (heredoc : Heredoc) : String :=
  heredoc.descriptor ++ "<<" ++
    if heredoc.kind.isText "XHere" then heredoc.marker else "'" ++ heredoc.marker ++ "'"

/-- What stands below the line. -/
def below (heredoc : Heredoc) : String :=
  heredoc.body ++ heredoc.marker ++ "\n"

theorem newline_not_mem_marker (heredoc : Heredoc) : '\n' ∉ heredoc.marker.toList := by
  rcases heredoc.marked with ⟨_, chosen⟩ | ⟨_, _, clean, _⟩
  · rw [chosen]
    exact Marker.newline_not_mem_fresh heredoc.body
  · exact clean

theorem marker_not_mem_lines (heredoc : Heredoc) :
    heredoc.marker.toList ∉ Marker.lines heredoc.body.toList := by
  rcases heredoc.marked with ⟨_, chosen⟩ | ⟨_, _, _, absent⟩
  · rw [chosen]
    exact Marker.fresh_not_mem_lines heredoc.body
  · exact absent

theorem marker_eq (heredoc : Heredoc) :
    (if heredoc.eof.truthy then heredoc.eof else .text (Marker.fresh heredoc.body)) =
      Datum.text heredoc.marker := by
  rcases heredoc.marked with ⟨unset, chosen⟩ | ⟨own, nonempty, _, _⟩
  · rw [unset, chosen]
    rfl
  · have set : heredoc.eof.truthy = true := by
      rw [own]
      simpa [Datum.truthy] using nonempty
    rw [if_pos set, own]

theorem header_value (heredoc : Heredoc) : heredoc.value.header = .ok heredoc.header := by
  simp only [value, Redirection.header, heredoc.body_printed, heredoc.descriptor_printed,
    bind, Except.bind, heredoc.marker_eq, heredoc.kept, header, Bool.false_eq_true, if_false,
    String.append_empty, String.append_assoc]
  split <;> rfl

theorem body_value (heredoc : Heredoc) : heredoc.value.body = .ok heredoc.below := by
  simp only [value, Redirection.body, heredoc.body_printed, bind, Except.bind, heredoc.marker_eq]
  rfl

theorem newline_not_mem_header (heredoc : Heredoc) : '\n' ∉ heredoc.header.toList := by
  have descriptor := heredoc.descriptor_clean
  have marker := heredoc.newline_not_mem_marker
  rw [header]
  split <;> simp [descriptor, marker]

/-- The bodies of heredocs below one another are read back in order. -/
theorem readBodies_below (heredocs : List Heredoc) :
    Marker.readBodies (heredocs.map marker) (String.join (heredocs.map below)).toList =
      some (heredocs.map body, []) := by
  induction heredocs with
  | nil => rfl
  | cons heredoc others ih =>
      have first := Marker.readBody_body heredoc.newline_not_mem_marker heredoc.body_whole
        heredoc.marker_not_mem_lines (String.join (others.map below)).toList
      have text : (String.join ((heredoc :: others).map below)).toList =
          heredoc.body.toList ++ (heredoc.marker.toList ++ '\n' ::
            (String.join (others.map below)).toList) := by
        simp [below]
      rw [text, List.map_cons, Marker.readBodies, first, Option.bind_some]
      simp only [ih, Option.map_some, String.ofList_toList, List.map_cons]

end Heredoc

/-! ## Lists of redirections -/

section Simple

variable {value : Redirection} (other : (value.tag == .heredoc) = false) {rest : List Datum}

include other

theorem redirectionLine_cons {omitted : Bool} {text line : String}
    (printed : value.render = .ok (some text))
    (following : redirectionLine omitted rest = .ok line) :
    redirectionLine omitted (.redir value :: rest) = .ok (" " ++ text ++ line) := by
  have tagged : (Datum.redir value).tag = .ok value.tag := rfl
  have rendered : (Datum.redir value).render .plain = .ok (some text) := by
    rw [Datum.render, printed]
    rfl
  simp only [redirectionLine, tagged, rendered, following, bind, Except.bind, other,
    Bool.false_eq_true, if_false]
  rfl

theorem bodyItems_cons : bodyItems (.redir value :: rest) = bodyItems rest := by
  have tagged : (Datum.redir value).tag = .ok value.tag := rfl
  simp only [bodyItems, tagged, bind, Except.bind, other, Bool.false_eq_true, if_false]

end Simple

/-- A heredoc, or another redirection that prints on one line. -/
inductive Placed where
  | heredoc (value : Heredoc)
  | simple (value : Redirection) (text : String) (other : (value.tag == .heredoc) = false)
      (printed : value.render = .ok (some text)) (clean : '\n' ∉ text.toList)

namespace Placed

/-- The tree of a redirection. -/
def tree : Placed → Datum
  | .heredoc value => .redir value.value
  | .simple value .. => .redir value

/-- The text of a redirection on the line. -/
def text : Placed → String
  | .heredoc value => value.header
  | .simple _ text .. => text

/-- The heredoc that a redirection is, if it is one. -/
def heredoc? : Placed → Option Heredoc
  | .heredoc value => some value
  | .simple .. => none

/-- The line of redirections. -/
def line (items : List Placed) : String :=
  String.join (items.map fun item => " " ++ item.text)

theorem newline_not_mem_line (items : List Placed) : '\n' ∉ (line items).toList := by
  have clean : ∀ item : Placed, '\n' ∉ item.text.toList := by
    intro item
    cases item with
    | heredoc value => exact value.newline_not_mem_header
    | simple value text other printed clean => exact clean
  simp [line, clean]

theorem line_cons (item : Placed) (rest : List Placed) :
    line (item :: rest) = " " ++ item.text ++ line rest := by
  simp [line, String.join_cons]

theorem redirectionLine_tree (items : List Placed) :
    redirectionLine false (items.map tree) = .ok (line items) := by
  induction items with
  | nil => rfl
  | cons item rest ih =>
      rw [line_cons]
      cases item with
      | heredoc value =>
          have tagged : (Datum.redir value.value).tag = .ok .heredoc := rfl
          have header : (Datum.redir value.value).header = .ok value.header := value.header_value
          simp only [List.map_cons, tree, redirectionLine, tagged, header, ih]
          rfl
      | simple value text other printed clean => exact redirectionLine_cons other printed ih

theorem bodyItems_tree (items : List Placed) :
    bodyItems (items.map tree) = .ok ((items.filterMap heredoc?).map Heredoc.below) := by
  induction items with
  | nil => rfl
  | cons item rest ih =>
      cases item with
      | heredoc value =>
          have tagged : (Datum.redir value.value).tag = .ok .heredoc := rfl
          have body : (Datum.redir value.value).body = .ok value.below := value.body_value
          simp only [List.map_cons, tree, bodyItems, tagged, body, ih]
          rfl
      | simple value text other printed clean => exact (bodyItems_cons other).trans ih

theorem renderRedirs_tree (kind : SeqKind) (items : List Placed) :
    (Datum.seq kind (items.map tree)).renderRedirs false =
      .ok (withBodies (line items) ((items.filterMap heredoc?).map Heredoc.below)) := by
  simp only [Datum.renderRedirs, redirectionLine_tree, bodyItems_tree]
  rfl

end Placed

/-! ## Bodies below a line -/

theorem Heredoc.getLast?_below (heredoc : Heredoc) (before : String) :
    (before ++ heredoc.below).toList.getLast? = some '\n' := by
  simp [Heredoc.below]

theorem withBodies_cons (text body : String) (rest : List String) :
    withBodies text (body :: rest) =
      withBodies
        (if text.toList.getLast? == some '\n' then text ++ body else text ++ "\n" ++ body) rest :=
  rfl

/-- After a line feed nothing is put between bodies. -/
theorem withBodies_of_newline {text : String} (ends : text.toList.getLast? = some '\n')
    (heredocs : List Heredoc) :
    withBodies text (heredocs.map Heredoc.below) =
      text ++ String.join (heredocs.map Heredoc.below) := by
  induction heredocs generalizing text with
  | nil => simp [withBodies]
  | cons heredoc others ih =>
      rw [List.map_cons, withBodies_cons, ends, beq_self_eq_true, if_pos rfl,
        ih (heredoc.getLast?_below text), String.join_cons, String.append_assoc]

/-- The first body starts a line of its own. -/
theorem withBodies_of_clean {line : String} (clean : '\n' ∉ line.toList) (first : Heredoc)
    (rest : List Heredoc) :
    withBodies line ((first :: rest).map Heredoc.below) =
      line ++ "\n" ++ String.join ((first :: rest).map Heredoc.below) := by
  have unfinished : (line.toList.getLast? == some '\n') = false := by
    rw [beq_eq_false_iff_ne]
    exact fun last => clean (List.mem_of_getLast? last)
  rw [List.map_cons, withBodies_cons, unfinished, if_neg Bool.false_ne_true,
    withBodies_of_newline (first.getLast?_below (line ++ "\n")), String.join_cons]
  exact String.append_assoc

namespace Placed

/--
Redirections print as one line with their texts in order and, if there are
heredocs among them, a line feed and a text from which the shell reads all
bodies back in order, with nothing left over.
-/
theorem readBodies_renderRedirs (kind : SeqKind) (items : List Placed) :
    ∃ rest, (Datum.seq kind (items.map tree)).renderRedirs false =
        .ok (line items ++ if (items.filterMap heredoc?).isEmpty then rest else "\n" ++ rest) ∧
      '\n' ∉ (line items).toList ∧
      (∀ heredoc ∈ items.filterMap heredoc?, heredoc.value.header = .ok heredoc.header) ∧
      Marker.readBodies ((items.filterMap heredoc?).map Heredoc.marker) rest.toList =
        some ((items.filterMap heredoc?).map Heredoc.body, []) := by
  have clean := newline_not_mem_line items
  refine ⟨String.join ((items.filterMap heredoc?).map Heredoc.below), ?_, clean,
    fun heredoc _ => heredoc.header_value, Heredoc.readBodies_below _⟩
  rw [renderRedirs_tree]
  cases items.filterMap heredoc? with
  | nil => simp [withBodies]
  | cons first others =>
      rw [withBodies_of_clean clean, String.append_assoc]
      rfl

/-- Two heredocs around another redirection, one of them with a marker of its own. -/
theorem readBodies_renderRedirs_interleaved :
    ∃ items : List Placed, (Datum.seq .list (items.map tree)).renderRedirs false =
        .ok " 0<<'EOFF' > f 3<<END\nEOF\nEOFF\nx\nEND\n" ∧
      ∃ rest, (Datum.seq .list (items.map tree)).renderRedirs false =
          .ok (line items ++ ("\n" ++ rest)) ∧ '\n' ∉ (line items).toList ∧
        Marker.readBodies ["EOFF", "END"] rest.toList = some (["EOF\n", "x\n"], []) := by
  let chosen : Heredoc := ⟨.text "Here", .tuple [.text "fixed", .int 0],
    wordOf false "EOF\n".toList, .bool false, .null, "0", "EOFF", "EOF\n", rfl, rfl, by decide,
    by rfl, .inr rfl, .inl ⟨rfl, by decide⟩⟩
  let own : Heredoc := ⟨.text "XHere", .tuple [.text "fixed", .int 3],
    wordOf false "x\n".toList, .bool false, .text "END", "3", "END", "x\n", rfl, rfl, by decide,
    by rfl, .inr rfl, .inr ⟨rfl, by decide, by decide, by decide⟩⟩
  let between : Placed := .simple (.file (.text "To") (.tuple [.text "fixed", .int 1])
    (wordOf false ['f'])) "> f" rfl (by rfl) (by decide)
  refine ⟨[.heredoc chosen, between, .heredoc own], ?_, ?_⟩
  · rw [renderRedirs_tree]
    exact congrArg Except.ok (by decide)
  · obtain ⟨rest, printed, clean, _, read⟩ :=
      readBodies_renderRedirs .list [.heredoc chosen, between, .heredoc own]
    exact ⟨rest, printed, clean, read⟩

end Placed

end ShellTree
