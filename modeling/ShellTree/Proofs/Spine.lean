import ShellTree.Proofs.Script
import ShellTree.Proofs.WalkClearing

/-!
# Spines of sequences

The commands of a list are chained to the right: each sequence has one command
on the left and the chain of the later ones on the right.  A tree is spined by
lists if every sequence in it stands on the chain of one of the lists, from the
first command to the last, and no command of a list is itself a sequence.

A chain prints its commands one after the other, a line break and an indentation
between them.
-/

namespace ShellTree

namespace Datum

/-- The datum at a position, which may lie in the substitution of a process. -/
def reach? : Datum → List Nat → Option Datum
  | datum, [] => some datum
  | datum, index :: rest => datum.contents[index]?.bind fun inner => inner.reach? rest

theorem reach?_append (datum : Datum) (first second : List Nat) :
    datum.reach? (first ++ second) =
      (datum.reach? first).bind fun inner => inner.reach? second := by
  induction first generalizing datum with
  | nil => rfl
  | cons index rest ih =>
      rw [List.cons_append, reach?, reach?]
      cases datum.contents[index]? with
      | none => rfl
      | some inner => exact ih inner

/-- Every sequence in the tree stands on the spine of a list. -/
inductive Spined (lists : List Datum → Prop) : Datum → Prop where
  | spine {first : Datum} {rest : List Datum} (listed : lists (first :: rest))
      (single : ∀ command ∈ first :: rest, command.isTag .semi = false)
      (inside : ∀ command ∈ first :: rest, Spined lists command) : Spined lists (chain first rest)
  | other {datum : Datum} (single : datum.isTag .semi = false)
      (inside : ∀ inner ∈ datum.contents, Spined lists inner) : Spined lists datum

/--
A sequence with two sides stands at a position of the tree on the spine of a
list.  The spine begins further up, with the first command of the list; from
there the position goes to the right past the earlier commands, and the later
ones are chained on the right side.
-/
def OnSpine (lists : List Datum → Prop) (tree : Datum) (position : List Nat)
    (left right : Datum) : Prop :=
  ∃ start spine earlier next later, lists (earlier ++ left :: next :: later) ∧
    tree.reach? start = some spine ∧ chainAll (earlier ++ left :: next :: later) = .ok spine ∧
    position = start ++ List.replicate earlier.length 1 ∧ right = chain next later ∧
    left.isTag .semi = false

theorem OnSpine.below {lists : List Datum → Prop} {tree inner left right : Datum}
    {above position : List Nat} (found : tree.reach? above = some inner)
    (onSpine : OnSpine lists inner position left right) :
    OnSpine lists tree (above ++ position) left right := by
  obtain ⟨start, spine, earlier, next, later, listed, reached, whole, rfl, same, single⟩ := onSpine
  refine ⟨above ++ start, spine, earlier, next, later, listed, ?_, whole, ?_, same, single⟩
  · rw [reach?_append, found, Option.bind_some, reached]
  · rw [List.append_assoc]

/-- A sequence in a chain is one of the chain, or stands in one of the chained commands. -/
theorem cases_of_reach?_chain {first left right mark : Datum} {rest : List Datum}
    {position : List Nat}
    (found : (chain first rest).reach? position = some (.command (.semi left right mark))) :
    (∃ earlier next later, first :: rest = earlier ++ left :: next :: later ∧
      position = List.replicate earlier.length 1 ∧ right = chain next later) ∨
    ∃ command ∈ first :: rest, ∃ above below, (chain first rest).reach? above = some command ∧
      position = above ++ below ∧
      command.reach? below = some (.command (.semi left right mark)) := by
  induction rest generalizing first position with
  | nil => exact .inr ⟨first, List.mem_cons_self, [], position, rfl, rfl, found⟩
  | cons second rest ih =>
      match position with
      | [] =>
          cases found
          exact .inl ⟨[], second, rest, rfl, rfl, rfl⟩
      | 0 :: below => exact .inr ⟨first, List.mem_cons_self, [0], below, rfl, rfl, found⟩
      | 1 :: below =>
          have onRight : (chain second rest).reach? below = some (.command (.semi left right mark))
            := found
          rcases ih onRight with ⟨earlier, next, later, same, rfl, chained⟩ |
            ⟨command, member, above, below, reached, rfl, inner⟩
          · refine .inl ⟨first :: earlier, next, later, ?_, rfl, chained⟩
            rw [same, List.cons_append]
          · exact .inr ⟨command, List.mem_cons_of_mem _ member, 1 :: above, below, reached, rfl,
              inner⟩
      | 2 :: below =>
          -- what is marked there is no sequence
          cases below with
          | nil => cases found
          | cons index rest => simp [chain, reach?, contents, inside, Command.fields] at found
      | (index + 3) :: below => simp [chain, reach?, contents, inside, Command.fields] at found

/-- In a spined tree, every sequence is on the spine of a list. -/
theorem Spined.onSpine {lists : List Datum → Prop} {tree : Datum} (spined : Spined lists tree)
    {position : List Nat} {left right mark : Datum}
    (found : tree.reach? position = some (.command (.semi left right mark))) :
    OnSpine lists tree position left right := by
  induction spined generalizing position with
  | @spine first rest listed single inside ih =>
      rcases cases_of_reach?_chain found with ⟨earlier, next, later, same, rfl, chained⟩ |
        ⟨command, member, above, below, reached, rfl, inner⟩
      · rw [same] at listed single
        refine ⟨[], chain first rest, earlier, next, later, listed, rfl, ?_, rfl, chained, ?_⟩
        · rw [← same, chainAll]
        · exact single left (by simp)
      · exact (ih command member inner).below reached
  | @other datum single inside ih =>
      cases position with
      | nil =>
          cases found
          cases single
      | cons index rest =>
          obtain ⟨inner, here, found⟩ := Option.bind_eq_some_iff.mp found
          have reached : datum.reach? [index] = some inner := by
            rw [reach?, here]
            rfl
          exact (ih inner (List.mem_of_getElem? here) found).below reached

/-! ## Chains in print -/

theorem bareStyle_of_single {datum : Datum} (single : datum.isTag .semi = false) :
    datum.bareStyle = .plain := by
  rw [bareStyle, single]
  rfl

/-- A chain of commands that are no sequences prints them one below the other. -/
theorem render_chain {first : Datum} {rest : List Datum} {texts : List String}
    (single : ∀ command ∈ first :: rest, command.isTag .semi = false)
    (printed : (first :: rest).map shellText = texts.map fun text => .ok (some text)) :
    (chain first rest).render (chain first rest).bareStyle =
      .ok (some (String.intercalate sequenceBreak texts)) := by
  induction rest generalizing first texts with
  | nil =>
      obtain ⟨text, rfl⟩ : ∃ text, texts = [text] := by
        simpa [List.length_eq_one_iff] using (congrArg List.length printed).symm
      have shown : first.shellText = .ok (some text) := by simpa using printed
      rw [chain, bareStyle_of_single (single first List.mem_cons_self),
        String.intercalate_singleton]
      exact shown
  | cons second rest ih =>
      obtain _ | ⟨shown, _ | ⟨other, others⟩⟩ := texts
      · simp at printed
      · simp at printed
      obtain ⟨plain, printedRest⟩ := List.cons.inj printed
      have following := ih (fun command member => single command (List.mem_cons_of_mem _ member))
        printedRest
      have style := bareStyle_of_single (single first List.mem_cons_self)
      change (Datum.command (.semi first (chain second rest) (.bool false))).render (.braces true)
        = _
      have start : first.render .plain = .ok (some shown) := plain
      rw [String.intercalate_cons_cons, Datum.render, Command.render, style, start, following]
      rfl

end Datum

/-- A spined command that is no sequence. -/
structure SpinedCommand (lists : List Datum → Prop) (node : Datum) : Prop where
  single : node.isTag .semi = false
  spined : node.Spined lists

end ShellTree
