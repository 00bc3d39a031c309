import ShellTree.Print.Render
import ShellTree.Tagged

/-!
# The bodies of quoted heredocs

The shell takes the body of a heredoc with a quoted marker as it stands.  The
printer writes the body as it writes any word: a plain dollar sign gets a
backslash unless it comes last.  So a body is written as it stands just where
its only dollar sign, if it has one, is its last character.
-/

namespace ShellTree

/-- The characters of a plain word in print: a dollar sign before another character is escaped. -/
def guardDollars : List Char → List Char
  | [] => []
  | c :: rest =>
      if c = '$' ∧ rest ≠ [] then '\\' :: c :: guardDollars rest else c :: guardDollars rest

theorem length_guardDollars (chars : List Char) :
    (guardDollars chars).length = chars.length + chars.dropLast.count '$' := by
  induction chars with
  | nil => rfl
  | cons c rest ih =>
      cases rest with
      | nil => simp [guardDollars]
      | cons next others =>
          by_cases dollar : c = '$'
          · rw [guardDollars, if_pos ⟨dollar, List.cons_ne_nil next others⟩,
              List.dropLast_cons_of_ne_nil (List.cons_ne_nil next others), dollar,
              List.count_cons_self]
            simp only [List.length_cons, ih]
            omega
          · rw [guardDollars, if_neg fun both => dollar both.1,
              List.dropLast_cons_of_ne_nil (List.cons_ne_nil next others),
              List.count_cons_of_ne dollar]
            simp only [List.length_cons, ih]
            omega

theorem guardDollars_eq_self_iff (chars : List Char) :
    guardDollars chars = chars ↔ '$' ∉ chars.dropLast := by
  constructor
  · intro same
    have length := length_guardDollars chars
    rw [same] at length
    exact List.count_eq_zero.mp (by omega)
  · intro clean
    induction chars with
    | nil => rfl
    | cons c rest ih =>
        cases rest with
        | nil => simp [guardDollars]
        | cons next others =>
            rw [List.dropLast_cons_of_ne_nil (List.cons_ne_nil next others)] at clean
            have different : c ≠ '$' := fun same => clean (same ▸ List.mem_cons_self)
            rw [guardDollars, if_neg fun both => different both.1,
              ih fun inside => clean (List.mem_cons_of_mem c inside)]

/-- A code point of Unicode. -/
abbrev CodePoint := Fin 0x110000

namespace CodePoint

/-- The character of a code point. -/
def char (code : CodePoint) : Char :=
  codeChar code.val

/-- The plain part of a word with a code point. -/
def part (code : CodePoint) : Datum :=
  .part (.char (.int code.val) (.bool false))

/-- The tagged form of that part. -/
def cell (code : CodePoint) : Json :=
  .arr [.str Tag.char.label, .int code.val]

theorem render_part {mode : QuoteMode} (outside : (mode == .quoted) = false) (code : CodePoint) :
    code.part.render (.quoting mode) = .ok (some (String.singleton code.char)) := by
  simp only [part, Datum.render, WordPart.render, Datum.char, charOfCode_of_lt code.isLt, bind,
    Except.bind, Style.quoteMode, outside, Bool.false_and, Bool.false_eq_true, if_false]
  rfl

/-- Outside quotes, only dollar signs are not printed as they are. -/
theorem renderParts_part {mode : QuoteMode} (outside : (mode == .quoted) = false)
    (codes : List CodePoint) :
    renderParts mode (codes.map part) = .ok (String.ofList (guardDollars (codes.map char))) := by
  induction codes with
  | nil => rfl
  | cons code rest ih =>
      have last : (rest.map part).isEmpty = rest.isEmpty := List.isEmpty_map
      have dollar : (String.singleton code.char == "$") = (code.char == '$') := by
        rw [Bool.eq_iff_iff, beq_iff_eq, beq_iff_eq, ← String.toList_inj]
        simp
      rw [List.map_cons, renderParts, render_part outside, ih]
      simp only [part, bind, Except.bind, required, pure, Except.pure, Datum.truthy, last, dollar,
        Except.ok.injEq, ← String.toList_inj]
      cases rest with
      | nil => simp [guardDollars]
      | cons next others =>
          by_cases same : code.char = '$'
          · simp [guardDollars, same]
          · simp [guardDollars, same]

theorem readPartItems_cell (codes : List CodePoint) :
    Tagged.readPartItems (codes.map cell) = .ok (codes.map part) := by
  induction codes with
  | nil => rfl
  | cons code rest ih =>
      have first : Tagged.readPart code.cell = .ok code.part := rfl
      rw [List.map_cons, Tagged.readPartItems, first, ih]
      rfl

end CodePoint

namespace Tagged

/-- The tagged form of a heredoc with a quoted marker. -/
def quotedHeredoc (fd : Int) (codes : List CodePoint) : Json :=
  .arr [.str Tag.heredoc.label, .arr [.str "Here", .int fd, .arr (codes.map CodePoint.cell)]]

theorem readRedir_quotedHeredoc (fd : Int) (codes : List CodePoint) :
    readRedir (quotedHeredoc fd codes) =
      .ok (.redir (.heredoc (.text "Here") (fixedFd (.int fd)) (.list (codes.map CodePoint.part))
        (.bool false) .null)) := by
  have word : readWord (.arr (codes.map CodePoint.cell)) =
      .ok (.list (codes.map CodePoint.part)) := by
    rw [readWord, CodePoint.readPartItems_cell]
    rfl
  rw [quotedHeredoc, readRedir, Tag.ofLabel?_label]
  simp only [word]
  rfl

/--
The body of a quoted heredoc is printed with its dollar signs escaped, all but
one in the last place.  It is printed as it stands just where it has no other.
-/
theorem body_quotedHeredoc_eq_iff (fd : Int) (codes : List CodePoint) :
    ∃ heredoc marker, readRedir (quotedHeredoc fd codes) = .ok (.redir heredoc) ∧
      heredoc.header = .ok (toString fd ++ "<<'" ++ marker ++ "'") ∧
      heredoc.body =
        .ok (String.ofList (guardDollars (codes.map CodePoint.char)) ++ marker ++ "\n") ∧
      (heredoc.body = .ok (String.ofList (codes.map CodePoint.char) ++ marker ++ "\n") ↔
        '$' ∉ (codes.map CodePoint.char).dropLast) := by
  have rendered : (Datum.list (codes.map CodePoint.part)).renderWord .heredoc =
      .ok (String.ofList (guardDollars (codes.map CodePoint.char))) := by
    rw [Datum.renderWord, CodePoint.renderParts_part rfl]
  let marker := Marker.fresh (String.ofList (guardDollars (codes.map CodePoint.char)))
  refine ⟨_, marker, readRedir_quotedHeredoc fd codes, ?_, ?_, ?_⟩
  · have descriptor : (fixedFd (.int fd)).renderFd (.int 0) = .ok (toString fd) := rfl
    simp only [Redirection.header, rendered, descriptor]
    simp [bind, Except.bind, pure, Except.pure, Datum.truthy, Datum.isText, String.append_assoc,
      marker]
  · simp only [Redirection.body, rendered]
    rfl
  · rw [← guardDollars_eq_self_iff]
    simp only [Redirection.body, rendered]
    simp [bind, Except.bind, pure, Except.pure, Datum.truthy, ← String.toList_inj, marker]

/-- A variable in a quoted heredoc gets a backslash, which the shell does not take away. -/
theorem body_quotedHeredoc_variable :
    ∃ heredoc, readRedir (quotedHeredoc 0 [36, 120, 10]) = .ok (.redir heredoc) ∧
      heredoc.header = .ok "0<<'EOF'" ∧ heredoc.body = .ok "\\$x\nEOF\n" ∧
      heredoc.body ≠ .ok "$x\nEOF\n" := by
  refine ⟨_, rfl, by rfl, by rfl, ?_⟩
  have printed : Redirection.body (.heredoc (.text "Here") (fixedFd (.int 0))
      (.list ([36, 120, 10].map CodePoint.part)) (.bool false) .null) = .ok "\\$x\nEOF\n" := by rfl
  intro verbatim
  have same := Except.ok.inj (printed.symm.trans verbatim)
  exact absurd same (by decide)

end Tagged

end ShellTree
