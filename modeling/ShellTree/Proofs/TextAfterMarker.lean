import ShellTree.Print.Escape
import ShellTree.Proofs.Marker
import ShellTree.Proofs.Token

/-!
# Text after the last marker

What the shell reads after a heredoc starts on the line after its marker.  In a
text that holds several markers this is what stands after the last line that is
one of them.

A text *hangs* if each of its lines but the first starts with a character that
is not plain.  No such line is a marker that starts with a plain character, so
whatever hangs behind a marker is all that stands after it.
-/

namespace ShellTree

open Grammar (isPlain)

namespace Marker

/-- What stands after the last line that is one of the markers. -/
def afterLast (markers : List (List Char)) : List (List Char) → Option (List (List Char))
  | [] => none
  | line :: rest => (afterLast markers rest).or (if line ∈ markers then some rest else none)

/-- Is a character seen? -/
def isVisible (c : Char) : Bool :=
  c != ' ' && c != '\t' && c != '\n'

/-- Is a character one that an operator starts with? -/
def isOperator (c : Char) : Bool :=
  c == ';' || c == '&' || c == '|'

/-- Does an operator stand first in some lines? -/
def startWithOperator (lines : List (List Char)) : Bool :=
  (lines.flatten.find? isVisible).any isOperator

theorem afterLast_of_absent {markers lines : List (List Char)}
    (absent : ∀ line ∈ lines, line ∉ markers) : afterLast markers lines = none := by
  induction lines with
  | nil => rfl
  | cons line rest ih =>
      obtain ⟨first, others⟩ := List.forall_mem_cons.mp absent
      rw [afterLast, ih others, if_neg first]
      rfl

theorem afterLast_append {markers lines after : List (List Char)}
    (found : afterLast markers lines = some after) (before : List (List Char)) :
    afterLast markers (before ++ lines) = some after := by
  induction before with
  | nil => exact found
  | cons line rest ih =>
      rw [List.cons_append, afterLast, ih]
      rfl

/-- A marker on a line of its own is the last one if no line after it is a marker. -/
theorem afterLast_lines {markers : List (List Char)} {marker behind : List Char}
    (member : marker ∈ markers) (clean : '\n' ∉ marker)
    (absent : ∀ line ∈ lines behind, line ∉ markers) (before : List Char) :
    afterLast markers (lines (before ++ '\n' :: (marker ++ '\n' :: behind))) =
      some (lines behind) := by
  rw [lines_append_newline_cons, lines_append_newline_cons, lines_of_clean clean]
  apply afterLast_append
  rw [List.singleton_append, afterLast, afterLast_of_absent absent, if_pos member]
  rfl

theorem flatten_lines (text : List Char) : (lines text).flatten = text.filter (· ≠ '\n') := by
  induction text with
  | nil => rfl
  | cons c rest ih =>
      by_cases newline : c = '\n'
      · subst newline
        rw [lines_newline, List.flatten_cons, List.nil_append, ih]
        rfl
      · obtain ⟨first, others, same⟩ := List.exists_cons_of_ne_nil (lines_ne_nil rest)
        rw [same] at ih
        rw [lines_cons newline same, List.flatten_cons, List.cons_append, ← List.flatten_cons, ih]
        simp [newline]

/-- Line feeds are not seen, so the first character that is seen does not hang on them. -/
theorem startWithOperator_lines (text : List Char) :
    startWithOperator (lines text) = (text.find? isVisible).any isOperator := by
  rw [startWithOperator, flatten_lines, List.find?_filter]
  congr 2
  funext c
  by_cases newline : c = '\n'
  · subst newline
    rfl
  · simp [newline]

/-! ## Lines that do not look like markers -/

/-- Does a text start with a plain character? -/
def startsPlain (text : List Char) : Bool :=
  text.head?.any isPlain

/-- Does a text start with a character that is not plain? -/
def startsOdd (text : List Char) : Bool :=
  text.head?.any fun c => !isPlain c

/-- Does every line after the first start with a character that is not plain? -/
def hangs : List Char → Bool
  | [] => true
  | c :: rest => (c != '\n' || startsOdd rest) && hangs rest

theorem startsPlain_append {first : List Char} (odd : startsOdd first = true)
    (second : List Char) : startsPlain (first ++ second) = false := by
  cases first with
  | nil => cases odd
  | cons c rest => simpa [startsOdd, startsPlain] using odd

theorem hangs_append {first second : List Char} (hfirst : hangs first = true)
    (hsecond : hangs second = true) : hangs (first ++ second) = true := by
  induction first with
  | nil => exact hsecond
  | cons c rest ih =>
      rw [hangs, Bool.and_eq_true] at hfirst
      rw [List.cons_append, hangs, Bool.and_eq_true]
      refine ⟨?_, ih hfirst.2⟩
      cases rest with
      | nil => exact Bool.or_eq_true_iff.mpr (.inl (by simpa [startsOdd] using hfirst.1))
      | cons d others => exact hfirst.1

theorem hangs_of_clean {text : List Char} (clean : '\n' ∉ text) : hangs text = true := by
  induction text with
  | nil => rfl
  | cons c rest ih =>
      have different : c ≠ '\n' := fun same => clean (same ▸ List.mem_cons_self)
      have others := ih fun inside => clean (List.mem_cons_of_mem c inside)
      rw [hangs, others, bne_iff_ne.mpr different]
      rfl

/-- The first line starts as the text does, and no other starts with a plain character. -/
theorem lines_of_hangs {text : List Char} (hanging : hangs text = true) :
    ∃ first others, lines text = first :: others ∧
      (startsPlain first = true → startsPlain text = true) ∧
      ∀ line ∈ others, startsPlain line = false := by
  induction text with
  | nil => exact ⟨[], [], rfl, id, List.forall_mem_nil _⟩
  | cons c rest ih =>
      rw [hangs, Bool.and_eq_true] at hanging
      obtain ⟨first, others, same, start, hung⟩ := ih hanging.2
      by_cases newline : c = '\n'
      · subst newline
        refine ⟨[], first :: others, by rw [lines_newline, same], ?_, ?_⟩
        · intro plain
          cases plain
        · have unlike : startsPlain rest = false := by
            cases rest with
            | nil => rfl
            | cons d _ => simpa [startsOdd, startsPlain] using hanging.1
          refine List.forall_mem_cons.mpr ⟨?_, hung⟩
          exact Bool.eq_false_iff.mpr fun plain => Bool.false_ne_true (unlike ▸ start plain)
      · exact ⟨c :: first, others, lines_cons newline same, id, hung⟩

theorem startsPlain_of_mem_lines {text line : List Char} (hanging : hangs text = true)
    (start : startsPlain text = false) (inside : line ∈ lines text) :
    startsPlain line = false := by
  obtain ⟨first, others, same, begins, hung⟩ := lines_of_hangs hanging
  rw [same] at inside
  rcases List.mem_cons.mp inside with rfl | later
  · exact Bool.eq_false_iff.mpr fun plain => Bool.false_ne_true (start ▸ begins plain)
  · exact hung line later

end Marker

/-! ## Texts that hang, and how they open -/

/-- Every line of a text but the first starts with a character that is not plain. -/
abbrev Hangs (text : String) : Prop :=
  Marker.hangs text.toList = true

namespace Hangs

theorem append {first second : String} (hfirst : Hangs first) (hsecond : Hangs second) :
    Hangs (first ++ second) := by
  rw [Hangs, String.toList_append]
  exact Marker.hangs_append hfirst hsecond

theorem inBraces {body : String} (inside : Hangs body) : Hangs (inBraces body) :=
  (Hangs.append (by decide) inside).append (by decide)

/-- A text in braces can stand on a line of its own. -/
theorem newline_inBraces {body : String} (inside : Hangs body) :
    Hangs ("\n" ++ ShellTree.inBraces body) := by
  have whole : "\n" ++ ShellTree.inBraces body = "\n\x7b " ++ body ++ " ; \x7d" := by
    rw [ShellTree.inBraces, ← String.append_assoc, ← String.append_assoc]
    rfl
  rw [whole]
  exact (Hangs.append (by decide) inside).append (by decide)

theorem intercalate {separator : String} {texts : List String} (between : Hangs separator)
    (each : ∀ text ∈ texts, Hangs text) : Hangs (separator.intercalate texts) := by
  induction texts with
  | nil => rfl
  | cons text rest ih =>
      obtain ⟨first, others⟩ := List.forall_mem_cons.mp each
      cases rest with
      | nil =>
          rw [String.intercalate_singleton]
          exact first
      | cons next more =>
          rw [String.intercalate_cons_cons]
          exact (first.append between).append (ih others)

end Hangs

/-- The first character of a text that is seen is an operator, or it is none. -/
abbrev Opens (operator : Bool) (text : String) : Prop :=
  (text.toList.find? Marker.isVisible).map Marker.isOperator = some operator

namespace Opens

variable {operator : Bool} {first second : String}

theorem append (opens : Opens operator first) : Opens operator (first ++ second) := by
  obtain ⟨c, seen, same⟩ := Option.map_eq_some_iff.mp opens
  rw [Opens, String.toList_append, List.find?_append, seen]
  exact congrArg some same

theorem append_blank (blank : first.toList.find? Marker.isVisible = none)
    (opens : Opens operator second) : Opens operator (first ++ second) := by
  rw [Opens, String.toList_append, List.find?_append, blank]
  exact opens

theorem startWithOperator_eq {text : String} (opens : Opens operator text) :
    Marker.startWithOperator (Marker.lines text.toList) = operator := by
  obtain ⟨c, seen, same⟩ := Option.map_eq_some_iff.mp opens
  rw [Marker.startWithOperator_lines, seen]
  exact same

end Opens

end ShellTree
