import ShellTree.Print.Marker

/-!
# Markers and lines

A text is made of its lines, and the marker that is chosen for a text starts
none of them: what a line has behind the first two letters of a marker has its
last `F` at a position that counts towards the length of the marker.  A line that
is a marker counts for exactly its own length, so the least count that is free
gives a marker that is no line either.

The shell reads bodies by their markers.  Each goes up to the first line that
is its marker, so a body of whole lines is read back if none of them is.
-/

namespace ShellTree.Marker

/-- A text of whole lines, each with its line feed. -/
def ofLines (lines : List (List Char)) : List Char :=
  lines.flatMap fun line => line ++ ['\n']

theorem lines_ne_nil (text : List Char) : lines text ≠ [] := by
  cases text with
  | nil => exact List.cons_ne_nil [] []
  | cons c rest =>
      rw [lines]
      split
      · exact List.cons_ne_nil _ _
      · split <;> exact List.cons_ne_nil _ _

theorem lines_newline (rest : List Char) : lines ('\n' :: rest) = [] :: lines rest := by
  obtain ⟨first, others, same⟩ := List.exists_cons_of_ne_nil (lines_ne_nil rest)
  simp [lines, same]

theorem lines_cons {c : Char} (inside : c ≠ '\n') {rest first : List Char}
    {others : List (List Char)} (same : lines rest = first :: others) :
    lines (c :: rest) = (c :: first) :: others := by
  simp [lines, same, inside]

theorem ofLines_lines (text : List Char) : ofLines (lines text) = text ++ ['\n'] := by
  induction text with
  | nil => rfl
  | cons c rest ih =>
      by_cases newline : c = '\n'
      · subst newline
        rw [lines_newline]
        exact congrArg (List.cons '\n') ih
      · obtain ⟨first, others, same⟩ := List.exists_cons_of_ne_nil (lines_ne_nil rest)
        rw [same] at ih
        rw [lines_cons newline same]
        exact congrArg (List.cons c) ih

theorem newline_not_mem_of_mem_lines {text line : List Char} (inside : line ∈ lines text) :
    '\n' ∉ line := by
  induction text generalizing line with
  | nil =>
      rw [List.mem_singleton.mp inside]
      exact List.not_mem_nil
  | cons c rest ih =>
      by_cases newline : c = '\n'
      · subst newline
        rw [lines_newline] at inside
        rcases List.mem_cons.mp inside with rfl | later
        · exact List.not_mem_nil
        · exact ih later
      · obtain ⟨first, others, same⟩ := List.exists_cons_of_ne_nil (lines_ne_nil rest)
        rw [lines_cons newline same] at inside
        rcases List.mem_cons.mp inside with rfl | later
        · have clean := ih (same ▸ List.mem_cons_self)
          simp [Ne.symm newline, clean]
        · exact ih (same ▸ List.mem_cons_of_mem first later)

/-- The lines of a text are what its line feeds separate. -/
theorem lines_eq_splitOn (text : List Char) : lines text = text.splitOn '\n' := by
  induction text with
  | nil => rfl
  | cons c rest ih =>
      rw [List.splitOn_cons_eq_if_modifyHead, ← ih]
      by_cases newline : c = '\n'
      · subst newline
        rw [lines_newline]
        rfl
      · obtain ⟨first, others, same⟩ := List.exists_cons_of_ne_nil (lines_ne_nil rest)
        rw [lines_cons newline same, same, if_neg (by simpa using newline)]
        rfl

/-- A line feed ends a line. -/
theorem lines_append_newline_cons (before behind : List Char) :
    lines (before ++ '\n' :: behind) = lines before ++ lines behind := by
  induction before with
  | nil => exact lines_newline behind
  | cons c rest ih =>
      by_cases newline : c = '\n'
      · subst newline
        rw [List.cons_append, lines_newline, lines_newline, ih, List.cons_append]
      · obtain ⟨first, others, same⟩ := List.exists_cons_of_ne_nil (lines_ne_nil rest)
        rw [same, List.cons_append] at ih
        rw [List.cons_append, lines_cons newline ih, lines_cons newline same, List.cons_append]

/-- A text that ends in a line feed has an empty line behind it. -/
theorem lines_append_newline (text : List Char) :
    lines (text ++ ['\n']) = lines text ++ [[]] :=
  lines_append_newline_cons text []

/-- A text without a line feed is one line. -/
theorem lines_of_clean {line : List Char} (clean : '\n' ∉ line) : lines line = [line] := by
  induction line with
  | nil => rfl
  | cons c rest ih =>
      have different : c ≠ '\n' := fun same => clean (same ▸ List.mem_cons_self)
      exact lines_cons different (ih fun inside => clean (List.mem_cons_of_mem c inside))

/-- A text that is empty or ends in a line feed is made of the lines before its end. -/
theorem exists_ofLines {text : List Char} (ends : text = [] ∨ text.getLast? = some '\n') :
    ∃ whole, text = ofLines whole ∧ lines text = whole ++ [[]] := by
  rcases ends with rfl | last
  · exact ⟨[], rfl, rfl⟩
  · obtain ⟨before, rfl⟩ := List.getLast?_eq_some_iff.mp last
    exact ⟨lines before, (ofLines_lines before).symm, lines_append_newline before⟩

/-! ## Markers -/

theorem lastMark_replicate (count : Nat) (rest : List Char) :
    count ≤ lastMark (List.replicate count 'F' ++ rest) := by
  induction count with
  | zero => exact Nat.zero_le _
  | succ count ih =>
      rw [List.replicate_succ, List.cons_append, lastMark]
      split
      next none => simp; omega
      next => omega

theorem toList_ofCount (count : Nat) :
    (ofCount count).toList = 'E' :: 'O' :: List.replicate (count + 1) 'F' := by
  simp [ofCount, List.replicate_succ]

/-- No line of a text starts with the marker that is chosen for it. -/
theorem not_prefix_of_mem_lines {text : String} {line : List Char}
    (inside : line ∈ lines text.toList) : ¬ (fresh text).toList <+: line := by
  rintro ⟨rest, rfl⟩
  let counts := (lines text.toList).filterMap fun line => (tail? line).map lastMark
  let count := counts.foldl max 0
  -- the marked line itself counts for more than the marker is long
  let tail := List.replicate (count + 1) 'F' ++ rest
  have start : (fresh text).toList ++ rest = 'E' :: 'O' :: tail := by
    rw [fresh, toList_ofCount]
    rfl
  have found : tail? ((fresh text).toList ++ rest) = some tail := by
    rw [start]
    rfl
  have counted : lastMark tail ∈ counts :=
    List.mem_filterMap.mpr ⟨_, inside, by rw [found]; rfl⟩
  have bounded : lastMark tail ≤ count := by
    have greatest := List.foldl_max_eq_max (a := 0) (List.ne_nil_of_mem counted)
    have member := List.le_max_of_mem counted
    omega
  have long : count + 1 ≤ lastMark tail := lastMark_replicate (count + 1) rest
  omega

theorem fresh_not_mem_lines (text : String) : (fresh text).toList ∉ lines text.toList :=
  fun inside => not_prefix_of_mem_lines inside List.prefix_rfl

/-- The search passes over taken counts only, and stops at the first free one. -/
theorem leastFree_spec (taken : List Nat) (count : Nat) :
    leastFree taken count ∉ taken ∧
      ∀ other, count ≤ other → other < leastFree taken count → other ∈ taken := by
  fun_induction leastFree taken count with
  | case1 count found ih =>
      refine ⟨ih.1, fun other above below => ?_⟩
      rcases Nat.eq_or_lt_of_le above with rfl | beyond
      · exact found
      · exact ih.2 other beyond below
  | case2 count free => exact ⟨free, fun other above below => by omega⟩

theorem lastMark_all (count : Nat) : lastMark (List.replicate count 'F') = count := by
  induction count with
  | zero => rfl
  | succ count ih =>
      rw [List.replicate_succ, lastMark, ih]
      cases count <;> rfl

/-- A line that is a marker is counted for that marker. -/
theorem mem_marks_of_mem_lines {text : String} {count : Nat}
    (inside : (ofCount count).toList ∈ lines text.toList) : count ∈ marks text := by
  refine List.mem_filterMap.mpr ⟨_, inside, ?_⟩
  have tail : tail? (ofCount count).toList = some (List.replicate (count + 1) 'F') := by
    rw [toList_ofCount]
    rfl
  rw [tail, Option.map_some, lastMark_all, Nat.add_sub_cancel]

/--
Markers are fresh.  The search for the least one ends: some count is free, and
every count before it is one that the search has to pass over.  Neither marker is a
line of the text, and the longer one does not even start a line.
-/
theorem markers_are_fresh (text : String) :
    (∃ turns, (∀ count < turns, count ∈ marks text) ∧ turns ∉ marks text ∧
      least text = ofCount turns) ∧
    (least text).toList ∉ text.toList.splitOn '\n' ∧
    (fresh text).toList ∉ text.toList.splitOn '\n' ∧
    ∀ line ∈ text.toList.splitOn '\n', ¬ (fresh text).toList <+: line := by
  obtain ⟨free, passed⟩ := leastFree_spec (marks text) 0
  rw [← lines_eq_splitOn]
  refine ⟨⟨_, fun count below => passed count (Nat.zero_le count) below, free, rfl⟩, ?_,
    fresh_not_mem_lines text, fun line inside => not_prefix_of_mem_lines inside⟩
  exact fun inside => free (mem_marks_of_mem_lines inside)

/-- `F`s that do not stand together count up to the last of them. -/
theorem markers_are_fresh_interrupted :
    "EOFxF".toList ∈ "EOF\nEO\nEOFxF\n".toList.splitOn '\n' ∧
      ¬ (fresh "EOF\nEO\nEOFxF\n").toList <+: "EOFxF".toList :=
  ⟨by decide, (markers_are_fresh "EOF\nEO\nEOFxF\n").2.2.2 _ (by decide)⟩

theorem newline_not_mem_fresh (text : String) : '\n' ∉ (fresh text).toList := by
  simp [fresh, toList_ofCount]

/-! ## Bodies -/

/--
Read a body, given what is already known of it and of the line at hand.  It
ends at the first line that is the marker.
-/
def readBody (marker : List Char) : List Char → List Char → List Char →
    Option (List Char × List Char)
  | _, _, [] => none
  | body, line, c :: rest =>
      if c = '\n' then
        if line = marker then some (body, rest)
        else readBody marker (body ++ line ++ ['\n']) [] rest
      else readBody marker body (line ++ [c]) rest

/-- Read a body for each marker in order, and return what is left of the text. -/
def readBodies : List String → List Char → Option (List String × List Char)
  | [], text => some ([], text)
  | marker :: others, text =>
      (readBody marker.toList [] [] text).bind fun (body, left) =>
        (readBodies others left).map fun (bodies, rest) => (String.ofList body :: bodies, rest)

/-- The marker of another body is a line like any other. -/
example : readBodies ["A", "B"] "x\nB\nA\nA\nB\ny".toList =
    some (["x\nB\n", "A\n"], ['y']) := by decide

theorem readBody_line {line : List Char} (clean : '\n' ∉ line)
    (marker body before rest : List Char) :
    readBody marker body before (line ++ '\n' :: rest) =
      if before ++ line = marker then some (body, rest)
      else readBody marker (body ++ (before ++ line) ++ ['\n']) [] rest := by
  induction line generalizing before with
  | nil => simp [readBody]
  | cons c others ih =>
      have different : c ≠ '\n' := fun same => clean (same ▸ List.mem_cons_self)
      have next := ih (fun inside => clean (List.mem_cons_of_mem c inside)) (before ++ [c])
      rw [List.cons_append, readBody, if_neg different, next]
      simp

theorem readBody_ofLines {marker : List Char} (clean : '\n' ∉ marker) {lines : List (List Char)}
    (cleanLines : ∀ line ∈ lines, '\n' ∉ line) (absent : marker ∉ lines)
    (body rest : List Char) :
    readBody marker body [] (ofLines lines ++ (marker ++ '\n' :: rest)) =
      some (body ++ ofLines lines, rest) := by
  induction lines generalizing body with
  | nil => simp [ofLines, readBody_line clean]
  | cons line others ih =>
      have different : line ≠ marker := fun same => absent (same ▸ List.mem_cons_self)
      have next := ih (fun other inside => cleanLines other (List.mem_cons_of_mem line inside))
        (fun inside => absent (List.mem_cons_of_mem line inside)) (body ++ line ++ ['\n'])
      have start := readBody_line (cleanLines line List.mem_cons_self) marker body []
        (ofLines others ++ (marker ++ '\n' :: rest))
      simp only [ofLines, List.flatMap_cons, List.append_assoc, List.cons_append,
        List.nil_append, if_neg different] at start next ⊢
      rw [start, next]

/-- A body of whole lines, none of which is the marker, is read back. -/
theorem readBody_body {marker body : List Char} (clean : '\n' ∉ marker)
    (whole : body = [] ∨ body.getLast? = some '\n') (absent : marker ∉ lines body)
    (rest : List Char) :
    readBody marker [] [] (body ++ (marker ++ '\n' :: rest)) = some (body, rest) := by
  obtain ⟨before, same, split⟩ := exists_ofLines whole
  have cleanLines : ∀ line ∈ before, '\n' ∉ line := fun line inside =>
    newline_not_mem_of_mem_lines (split ▸ List.mem_append_left [[]] inside)
  have absentLines : marker ∉ before := fun inside =>
    absent (split ▸ List.mem_append_left [[]] inside)
  have read := readBody_ofLines clean cleanLines absentLines [] rest
  rwa [← same, List.nil_append] at read

end ShellTree.Marker
