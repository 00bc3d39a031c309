import ShellTree.Proofs.Script
import ShellTree.Proofs.TextReaders

/-!
# Scripts are read back

The text of a script is a phrase of the shell language, and that phrase is the
script itself, up to the brace groups that the printer puts in and to the way
sequences are chained.
-/

namespace ShellTree

open Grammar

/-- Plain words with blanks between them are a call. -/
theorem PlainWord.readsAs_call (name : PlainWord) (arguments : List PlainWord) :
    ReadsAs (String.intercalate " " ((name :: arguments).map PlainWord.text))
      (Reader.put (.call ((name :: arguments).map PlainWord.text))) := by
  refine Grammar.readsAs_call name.text (arguments.map PlainWord.text) name.unreserved ?_
  intro word inside
  obtain ⟨plainWord, _, rfl⟩ : ∃ plainWord, plainWord ∈ name :: arguments ∧
      PlainWord.text plainWord = word := List.mem_map.mp inside
  exact isWord_of_isPlain plainWord.nonempty plainWord.isPlain_of_mem

namespace Script

/-- The phrase of the text of a script, in a place where braces are left out or are not. -/
def printed (bare : Bool) : Script → Phrase
  | .call _ name arguments => .call ((name :: arguments).map PlainWord.text)
  | .and left right => .and (.braces (left.printed false)) (.braces (right.printed false))
  | .or left right => .or (.braces (left.printed false)) (.braces (right.printed false))
  | .semi left right =>
      if bare then (left.printed true).andThen (right.printed true)
      else .sequence (.braces (left.printed false)) (.braces (right.printed false))
  | .not body => .not (.braces (body.printed false))
  | .subshell _ body => .parens (body.printed true)
  | .ifThen test body _ => .ifThen (test.printed true) (body.printed true)
  | .ifElse test body other =>
      .ifElse (test.printed true) (body.printed true) (other.printed true)
  | .whileLoop (.not test) body => .whileLoop (.not (test.printed true)) (body.printed true)
  | .whileLoop test body => .whileLoop (test.printed true) (body.printed true)

/-- What the text of a script makes of the line that it is read in. -/
def reader (bare : Bool) : Script → Reader
  | .and left right =>
      .link (Line.joined .and) (.put (.braces (left.printed false)))
        (.put (.braces (right.printed false)))
  | .or left right =>
      .link (Line.joined .or) (.put (.braces (left.printed false)))
        (.put (.braces (right.printed false)))
  | .semi left right =>
      if bare then .link (Line.ended false) (left.reader true) (right.reader true)
      else
        .link (Line.ended false) (.put (.braces (left.printed false)))
          (.put (.braces (right.printed false)))
  | .not body => Reader.negated (.put (.braces (body.printed false)))
  | single => .put (single.printed bare)

theorem complete_reader (bare : Bool) (script : Script) : (script.reader bare).Complete := by
  induction script generalizing bare with
  | and left right => exact (Reader.complete_put _).link operates_and.awaits _
  | or left right => exact (Reader.complete_put _).link operates_or.awaits _
  | semi left right _ ih =>
      cases bare with
      | false => exact (Reader.complete_put _).link (fun _ _ => Line.awaits_of_ended) _
      | true => exact (ih true).link (fun _ _ => Line.awaits_of_ended) _
  | not body => exact (Reader.complete_put _).negated
  | _ => exact Reader.complete_put _

theorem yields_reader (bare : Bool) (script : Script) :
    (script.reader bare).Yields (script.printed bare) := by
  induction script generalizing bare with
  | and left right => exact fun done => ⟨_, rfl, rfl⟩
  | or left right => exact fun done => ⟨_, rfl, rfl⟩
  | semi left right ihl ihr =>
      cases bare with
      | false => exact (Reader.yields_put _).link (Reader.yields_put _)
      | true => exact (ihl true).link (ihr true)
  | not body => exact fun done => ⟨_, rfl, rfl⟩
  | _ => exact Reader.yields_put _

/-- The brace groups of the text and the way its sequences are chained are all that is added. -/
theorem normal_printed (bare : Bool) (script : Script) :
    (script.printed bare).normal = script.phrase.normal := by
  fun_induction printed bare script <;>
    simp_all [phrase, Phrase.normal, Phrase.normal_andThen]

/-! ## Texts of scripts -/

/-- The text of a script is read as it should be. -/
structure ReadsBack (bare : Bool) (script : Script) : Prop where
  whole : ReadsAs (script.text bare) (script.reader bare)
  /-- The first word of a conditional can be replaced by the one that goes on with another. -/
  continues : script.isConditional = true →
    ∃ rest, script.text bare = "if " ++ rest ∧ Continues rest (script.printed bare)

theorem ReadsBack.of_simple {bare : Bool} {script : Script}
    (simple : script.isConditional = false)
    (whole : ReadsAs (script.text bare) (script.reader bare)) : script.ReadsBack bare :=
  ⟨whole, fun conditional => absurd (simple.symm.trans conditional) Bool.false_ne_true⟩

theorem ReadsBack.of_continues {bare : Bool} {script : Script}
    (conditional : script.isConditional = true) {rest : String}
    (text : script.text bare = "if " ++ rest)
    (continues : Continues rest (script.printed bare)) : script.ReadsBack bare := by
  have put : script.reader bare = Reader.put (script.printed bare) := by
    cases script <;> first | rfl | cases conditional
  refine ⟨?_, fun _ => ⟨rest, text, continues⟩⟩
  rw [text, put]
  exact continues.readsAs

/-- Conditionals print in one way only. -/
theorem printed_of_isConditional {script : Script} (conditional : script.isConditional = true)
    (bare : Bool) : script.printed bare = script.printed false := by
  cases script <;> first | rfl | cases conditional

/-- The text of every script is read as what it is. -/
theorem readsBack (bare : Bool) (script : Script) : script.ReadsBack bare := by
  fun_induction text bare script with
  | case1 bare line name arguments => exact .of_simple rfl (name.readsAs_call arguments)
  | case2 bare left right ihl ihr =>
      refine .of_simple rfl ?_
      exact .link operates_and (ihl.whole.inBraces (left.yields_reader false))
        (Reader.complete_put _) (ihr.whole.inBraces (right.yields_reader false))
  | case3 bare left right ihl ihr =>
      refine .of_simple rfl ?_
      exact .link operates_or (ihl.whole.inBraces (left.yields_reader false))
        (Reader.complete_put _) (ihr.whole.inBraces (right.yields_reader false))
  | case4 left right ihl ihr =>
      have indented : Operates sequenceBreak (Line.ended false) :=
        operates_newline (by decide) ⟨_, _, rfl, rfl⟩
      refine .of_simple rfl ?_
      exact .link indented ihl.whole (left.complete_reader true) ihr.whole
  | case5 bare left right plain ihl ihr =>
      have newline : Operates "\n" (Line.ended false) :=
        operates_newline (by decide) ⟨_, _, rfl, rfl⟩
      rw [Bool.eq_false_iff.mpr plain]
      refine .of_simple rfl ?_
      exact .link newline (ihl.whole.inBraces (left.yields_reader false))
        (Reader.complete_put _) (ihr.whole.inBraces (right.yields_reader false))
  | case6 bare body ih =>
      refine .of_simple rfl ?_
      exact (ih.whole.inBraces (body.yields_reader false)).negated
  | case7 bare line body ih =>
      refine .of_simple rfl ?_
      exact ih.whole.inParens (body.yields_reader true)
  | case8 bare test body absent iht ihb =>
      refine .of_continues rfl ?_ (continues_ifThen iht.whole (test.yields_reader true) ihb.whole
        (body.yields_reader true))
      simp only [text, String.append_assoc]
  | case9 bare test body other conditional iht ihb iho =>
      obtain ⟨rest, hrest, continues⟩ := iho.continues conditional
      -- the two halves of `elif` are glued together
      have glued : "; el" ++ ("if " ++ rest) = "; elif " ++ rest := by
        rw [← String.append_assoc]
        rfl
      rw [← printed_of_isConditional conditional true] at continues
      refine .of_continues rfl ?_ (continues_elif iht.whole (test.yields_reader true) ihb.whole
        (body.yields_reader true) continues)
      simp only [text, conditional, if_true, hrest, String.append_assoc, glued]
  | case10 bare test body other simple iht ihb iho =>
      refine .of_continues rfl ?_ (continues_ifElse iht.whole (test.yields_reader true) ihb.whole
        (body.yields_reader true) iho.whole (other.yields_reader true))
      simp only [text, simple, Bool.false_eq_true, if_false, String.append_assoc]
  | case11 bare test body iht ihb =>
      refine .of_simple rfl ?_
      exact readsAs_loop true iht.whole (test.yields_reader true) ihb.whole
        (body.yields_reader true)
  | case12 bare test body positive iht ihb =>
      have reads := readsAs_loop false iht.whole (test.yields_reader true) ihb.whole
        (body.yields_reader true)
      refine .of_simple rfl ?_
      cases test with
      | not inner => exact absurd rfl (positive inner)
      | _ => exact reads

/-- The text of a script is read as the script, up to brace groups and the chaining of sequences. -/
theorem parse_shellText (script : Script) :
    ∃ text phrase, script.tree.shellText = .ok (some text) ∧ parse text = some phrase ∧
      phrase.normal = script.phrase.normal := by
  refine ⟨script.text false, script.printed false, script.render_tree false, ?_,
    script.normal_printed false⟩
  exact (script.readsBack false).whole.parse_eq (script.yields_reader false)

end Script

end ShellTree
