import ShellTree.Proofs.AlikeCommands
import ShellTree.Proofs.TaggedNormalForm

/-!
# What the tagged form determines

The tagged form leaves out what follows a job, whether the tabs of a heredoc are
cut off, and some flags.  In a tree that has been read those flags are always the
same or are told by the session.  So two commands that are read in the same
session and have the same tagged form print alike, if they agree on the other two.
-/

namespace ShellTree

/-- What the text of a construct shows although its tagged form leaves it out. -/
def Datum.leftOut : Datum → Option Datum
  | .command (.background _ _ _ after _) => some after.untyped
  | .redir (.heredoc _ _ _ killLeading _) => some killLeading
  | _ => none

/-- Wherever there is something in both trees, their tagged forms leave out the same. -/
def Agree (tree other : Datum) : Prop :=
  ∀ position inner twin, tree.at? position = some inner → other.at? position = some twin →
    inner.leftOut = twin.leftOut

/-- The trees agree, one by one. -/
def AgreeAll (trees others : List Datum) : Prop :=
  ∀ (index : Nat) tree other, trees[index]? = some tree → others[index]? = some other →
    Agree tree other

namespace AgreeAll

variable {tree other : Datum} {trees others : List Datum}

theorem nil : AgreeAll [] [] := by
  intro index tree other isTree
  cases isTree

theorem cons (agree : Agree tree other) (rest : AgreeAll trees others) :
    AgreeAll (tree :: trees) (other :: others) := by
  intro index first second isFirst isSecond
  cases index with
  | zero =>
      cases isFirst
      cases isSecond
      exact agree
  | succ index => exact rest index first second isFirst isSecond

theorem tail (agree : AgreeAll (tree :: trees) (other :: others)) : AgreeAll trees others :=
  fun index => agree (index + 1)

end AgreeAll

namespace Agree

variable {tree other : Datum}

theorem refl (tree : Datum) : Agree tree tree := by
  intro position inner twin found foundToo
  cases found.symm.trans foundToo
  rfl

theorem leftOut (agree : Agree tree other) : tree.leftOut = other.leftOut :=
  agree [] tree other rfl rfl

theorem inside (agree : Agree tree other) : AgreeAll tree.inside other.inside := by
  intro index inner twin isInner isTwin position node counterpart found foundToo
  refine agree (index :: position) node counterpart ?_ ?_
  · rw [Datum.at?_cons_of_getElem? isInner, found]
  · rw [Datum.at?_cons_of_getElem? isTwin, foundToo]

theorem of_inside (leftOut : tree.leftOut = other.leftOut)
    (inside : AgreeAll tree.inside other.inside) : Agree tree other := by
  intro position node counterpart found foundToo
  cases position with
  | nil =>
      cases found
      cases foundToo
      exact leftOut
  | cons index rest =>
      obtain ⟨inner, isInner, found⟩ := Option.bind_eq_some_iff.mp found
      obtain ⟨twin, isTwin, foundToo⟩ := Option.bind_eq_some_iff.mp foundToo
      exact inside index inner twin isInner isTwin rest node counterpart found foundToo

end Agree

namespace Bash

/-! ## Words, descriptors and assignments -/

section Spelled

variable {tree other : Datum}

theorem IsWord.eq_of_untyped (isWord : IsWord tree) (isOther : IsWord other)
    (same : tree.untyped = other.untyped) : tree = other := by
  obtain ⟨codes, rfl⟩ := isWord
  obtain ⟨others, rfl⟩ := isOther
  have injective : Function.Injective fun code => (cell code).untyped := by
    intro code twin same
    cases same
    rfl
  simp only [Datum.untyped, untypedItems_eq_map, List.map_map, Datum.seq.injEq, true_and] at same
  rw [List.map_injective_iff.mpr injective same]

theorem IsName.eq_of_untyped (isName : IsName tree) (isOther : IsName other)
    (same : tree.untyped = other.untyped) : tree = other := by
  rcases isName with rfl | isWord
  · rcases isOther with rfl | ⟨codes, rfl⟩
    · rfl
    · cases same
  · rcases isOther with rfl | isOther
    · obtain ⟨codes, rfl⟩ := isWord
      cases same
    · exact isWord.eq_of_untyped isOther same

theorem IsDescriptor.eq_of_untyped (isFd : IsDescriptor tree) (isOther : IsDescriptor other)
    (same : tree.untyped = other.untyped) : tree = other := by
  cases isFd with
  | named isName =>
      cases isOther with
      | named isOther =>
          simp only [Datum.untyped, untypedItems, Datum.seq.injEq, List.cons.injEq] at same
          rw [isName.eq_of_untyped isOther same.2.2.1]
      | fixed => simp [Datum.untyped, untypedItems] at same
  | fixed dest =>
      cases isOther with
      | named => simp [Datum.untyped, untypedItems] at same
      | fixed twin =>
          simp only [Datum.untyped, untypedItems, untyped_datum, Datum.seq.injEq,
            List.cons.injEq] at same
          rw [same.2.2.1]

theorem IsAssign.eq_of_untyped (isAssign : IsAssign tree) (isOther : IsAssign other)
    (same : tree.untyped = other.untyped) : tree = other := by
  obtain ⟨name, word, isWord, rfl⟩ := isAssign
  obtain ⟨twin, value, isValue, rfl⟩ := isOther
  simp only [Datum.untyped, Datum.seq.injEq, List.cons.injEq] at same
  rw [same.2.1, isWord.eq_of_untyped isValue same.2.2.1]

end Spelled

/-! ## One slot -/

namespace Slot

/-- The tagged form shows the same of two data in a slot. -/
def Shown : Slot → Datum → Datum → Prop
  | .fixed => fun _ _ => True
  | .loose => fun _ _ => True
  | .mark => fun _ _ => True
  | _ => fun tree other => tree.untyped = other.untyped

variable {slot : Slot} {inner twin : List Slot} {tree other : Datum}

theorem Leaf.same {session : Session} (isLeaf : slot.Leaf session tree)
    (isOther : slot.Leaf session other) (shown : slot.Shown tree other) :
    slot.Same tree other := by
  cases slot with
  | plain => exact isLeaf.symm.trans <| shown.trans isOther
  | fixed => exact isLeaf.trans isOther.symm
  | loose => trivial
  | mark => exact isLeaf.trans isOther.symm
  | word => exact IsWord.eq_of_untyped isLeaf isOther shown
  | name => exact IsName.eq_of_untyped isLeaf isOther shown
  | descriptor => exact IsDescriptor.eq_of_untyped isLeaf isOther shown
  | assign => exact IsAssign.eq_of_untyped isLeaf isOther shown
  | optional =>
      cases isLeaf
      cases isOther
      exact .refl _
  | redir => exact isLeaf.elim
  | command => exact isLeaf.elim
  | test => exact isLeaf.elim
  | clause => exact isLeaf.elim
  | each => exact isLeaf.elim

/-- What fills a slot by itself has not the tagged form of what has slots inside. -/
theorem Leaf.untyped_ne {session : Session} (isLeaf : slot.Leaf session tree)
    (known : slot.inner? other = some inner) : tree.untyped ≠ other.untyped := by
  cases slot with
  | optional =>
      cases isLeaf
      cases other with
      | command value =>
          intro same
          cases same
      | _ => cases known
  | redir => exact isLeaf.elim
  | command => exact isLeaf.elim
  | test => exact isLeaf.elim
  | clause => exact isLeaf.elim
  | each => exact isLeaf.elim
  | _ => cases known

theorem clause_of_inner? (known : clause.inner? tree = some inner) :
    ∃ words body falls, inner = [.each .word, .optional, .plain] ∧
      tree = .dict [("cpattern", words), ("cbody", body), ("fallthrough", falls)] := by
  unfold inner? at known
  split at known
  case h_6 words body falls _ =>
    cases known
    exact ⟨words, body, falls, rfl, rfl⟩
  all_goals contradiction

theorem list_of_inner? (known : (each slot).inner? tree = some inner) :
    ∃ items, inner = List.replicate items.length slot ∧ tree = .list items := by
  cases tree with
  | seq kind items =>
      cases kind with
      | list =>
          cases known
          exact ⟨items, rfl, rfl⟩
      | tuple => cases known
  | _ => cases known

theorem shown_of_untyped (same : tree.untyped = other.untyped) : slot.Shown tree other := by
  cases slot with
  | fixed => trivial
  | loose => trivial
  | mark => trivial
  | _ => exact same

theorem Shown.untyped_eq {datum : Datum} (shown : slot.Shown tree other)
    (known : slot.inner? datum = some inner) : tree.untyped = other.untyped := by
  cases slot with
  | fixed => cases known
  | loose => cases known
  | mark => cases known
  | _ => exact shown

end Slot

/-! ## What is inside -/

theorem shown_of_command {value other : Command} (tag : value.tag = other.tag)
    (same : value.untyped = other.untyped)
    (left : (Datum.command value).leftOut = (Datum.command other).leftOut) :
    Slot.All Slot.Shown (slotsOf value.tag) value.fields other.fields := by
  cases value <;> cases other <;> cases tag
  -- Only a job has a field that is printed and not shown in the tagged form.
  case background.background.refl =>
    simp only [Command.untyped, Datum.seq.injEq, List.cons.injEq] at same
    obtain ⟨_, line, node, redirs, _⟩ := same
    exact ⟨line, node, redirs, Option.some.inj left, trivial, trivial⟩
  all_goals
    simpa only [Command.tag, Command.fields, slotsOf, Slot.All, Slot.Shown, Command.untyped,
      Datum.seq.injEq, List.cons.injEq, true_and, and_true] using same

theorem tag_eq_of_command {value other : Command}
    (same : (Datum.command value).untyped = (Datum.command other).untyped) :
    value.tag = other.tag ∧ value.untyped = other.untyped := by
  have exported (value : Command) : value.tag.exported = value.tag.label := by
    cases value <;> rfl
  simp only [Datum.untyped, exported, Datum.seq.injEq, List.cons.injEq, Datum.text.injEq] at same
  exact ⟨Tag.label_injective same.2.1, same.2.2.1⟩

/-- The forms of files and of single descriptors have the same tag, but not as many fields. -/
theorem tag_eq_of_redirection {value other : Redirection}
    (same : (Datum.redir value).untyped = (Datum.redir other).untyped) :
    value.tag = other.tag ∧ value.untyped = other.untyped := by
  simp only [Datum.untyped, Datum.seq.injEq, List.cons.injEq, Datum.text.injEq] at same
  obtain ⟨_, label, fields, _⟩ := same
  refine ⟨?_, fields⟩
  cases value <;> cases other <;>
    simp [Redirection.tag, Tag.exported, Tag.label, Redirection.untyped] at label fields ⊢

theorem shown_of_redirection {value other : Redirection} (tag : value.tag = other.tag)
    (same : value.untyped = other.untyped)
    (left : (Datum.redir value).leftOut = (Datum.redir other).leftOut) :
    Slot.All Slot.Shown (slotsOf value.tag) value.fields other.fields := by
  cases value <;> cases other <;> cases tag
  case heredoc.heredoc.refl =>
    simp only [Redirection.untyped, Datum.seq.injEq, List.cons.injEq] at same
    obtain ⟨_, kind, fd, argument, eof, _⟩ := same
    exact ⟨kind, fd, argument, congrArg Datum.untyped (Option.some.inj left), eof, trivial⟩
  all_goals
    simpa only [Redirection.tag, Redirection.fields, slotsOf, Slot.All, Slot.Shown,
      Redirection.untyped, Datum.seq.injEq, List.cons.injEq, true_and, and_true] using same

theorem redirection_eq_of_slots {value other : Redirection} (tag : value.tag = other.tag)
    (same : Slot.All Slot.Same (slotsOf value.tag) value.fields other.fields) : value = other := by
  cases value <;> cases other <;> cases tag
  case file.file.refl =>
    obtain ⟨rfl, rfl, rfl, _⟩ := same
    rfl
  case dup.dup.refl =>
    obtain ⟨rfl, rfl, rfl, rfl, _⟩ := same
    rfl
  case heredoc.heredoc.refl =>
    obtain ⟨rfl, rfl, rfl, rfl, rfl, _⟩ := same
    rfl
  case single.single.refl =>
    obtain ⟨rfl, rfl, _⟩ := same
    rfl

/-- The items of lists are related, one by one. -/
theorem all_replicate_iff {related : Slot → Datum → Datum → Prop} {slot : Slot}
    {items others : List Datum} :
    Slot.All related (List.replicate items.length slot) items others ↔
      List.Forall₂ (related slot) items others := by
  induction items generalizing others with
  | nil => cases others <;> simp [Slot.All]
  | cons item rest ih =>
      cases others <;> simp [List.replicate_succ, Slot.All, ih]

/--
Two data in a slot have the same slots inside, show the same there, and print
alike if what is inside does.
-/
structure Corresponds (slot : Slot) (inner : List Slot) (tree other : Datum) : Prop where
  tag : tree.tag? = other.tag?
  known : slot.inner? other = some inner
  shown : Slot.All Slot.Shown inner tree.inside other.inside
  same : Slot.All Slot.Same inner tree.inside other.inside → slot.Same tree other

namespace Corresponds

variable {inner twin : List Slot} {tree other : Datum}

theorem command {value other : Command}
    (same : (Datum.command value).untyped = (Datum.command other).untyped)
    (left : (Datum.command value).leftOut = (Datum.command other).leftOut) :
    Corresponds .command (slotsOf value.tag) (.command value) (.command other) := by
  obtain ⟨tag, fields⟩ := tag_eq_of_command same
  exact ⟨congrArg some tag, congrArg (some ∘ slotsOf) tag.symm, shown_of_command tag fields left,
    alike_of_slots tag⟩

theorem test {value other : Command} (known : Slot.test.inner? (.command value) = some inner)
    (same : (Datum.command value).untyped = (Datum.command other).untyped)
    (left : (Datum.command value).leftOut = (Datum.command other).leftOut) :
    Corresponds .test inner (.command value) (.command other) := by
  have corresponds := command same left
  -- The flag of an inverted test is loose: it is set for `while !` and not for `until`.
  by_cases inverted : value.tag = .not
  · cases value <;> cases inverted
    cases other <;> cases corresponds.tag
    cases known
    obtain ⟨shown, _⟩ := corresponds.shown
    exact ⟨rfl, rfl, ⟨shown, trivial, trivial⟩, fun same => .inr ⟨_, _, _, _, rfl, rfl, same.1⟩⟩
  · have plain {value : Command} (notInverted : value.tag ≠ .not) :
        Slot.test.inner? (.command value) = some (slotsOf value.tag) := by
      cases value with
      | not => exact absurd rfl notInverted
      | _ => rfl
    cases (plain inverted).symm.trans known
    have tag := Option.some.inj corresponds.tag
    refine ⟨corresponds.tag, ?_, corresponds.shown, fun same => .inl ⟨?_, corresponds.same same⟩⟩
    · rw [plain (tag ▸ inverted), tag]
    · exact fun isNot => inverted (Option.some.inj isNot)

theorem redir {value other : Redirection}
    (same : (Datum.redir value).untyped = (Datum.redir other).untyped)
    (left : (Datum.redir value).leftOut = (Datum.redir other).leftOut) :
    Corresponds .redir (slotsOf value.tag) (.redir value) (.redir other) := by
  obtain ⟨tag, fields⟩ := tag_eq_of_redirection same
  exact ⟨congrArg some tag, congrArg (some ∘ slotsOf) tag.symm,
    shown_of_redirection tag fields left,
    fun same => congrArg Datum.redir (redirection_eq_of_slots tag same)⟩

theorem clause {words body falls patterns action passes : Datum}
    (same : (Datum.dict [("cpattern", words), ("cbody", body), ("fallthrough", falls)]).untyped =
      (Datum.dict [("cpattern", patterns), ("cbody", action), ("fallthrough", passes)]).untyped) :
    Corresponds .clause [.each .word, .optional, .plain]
      (.dict [("cpattern", words), ("cbody", body), ("fallthrough", falls)])
      (.dict [("cpattern", patterns), ("cbody", action), ("fallthrough", passes)]) := by
  simp only [Datum.untyped, untypedFields, Datum.dict.injEq, List.cons.injEq, Prod.mk.injEq,
    true_and, and_true] at same
  obtain ⟨first, second, third⟩ := same
  refine ⟨rfl, rfl, ⟨first, second, third, trivial⟩, ?_⟩
  rintro ⟨areWords, alike, rfl, _⟩
  cases Slot.eq_of_each rfl areWords
  exact ⟨_, _, _, _, rfl, rfl, alike⟩

theorem each {slot : Slot} {items others : List Datum}
    (same : (Datum.list items).untyped = (Datum.list others).untyped) :
    Corresponds (.each slot) (List.replicate items.length slot) (.list items) (.list others) := by
  simp only [Datum.untyped, untypedItems_eq_map, Datum.seq.injEq, true_and] at same
  have length : items.length = others.length := by simpa using congrArg List.length same
  refine ⟨rfl, ?_, all_replicate_iff.mpr ?_, fun same => ?_⟩
  · rw [length]
    rfl
  · have paired : List.Forall₂ Eq (items.map Datum.untyped) (others.map Datum.untyped) := by
      rw [same, List.forall₂_eq_eq_eq]
    rw [List.forall₂_map_left_iff, List.forall₂_map_right_iff] at paired
    exact paired.imp fun _ _ => Slot.shown_of_untyped
  · exact ⟨items, others, rfl, rfl, all_replicate_iff.mp same⟩

theorem of_untyped {slot : Slot} (known : slot.inner? tree = some inner)
    (isTwin : slot.inner? other = some twin) (same : tree.untyped = other.untyped)
    (left : tree.leftOut = other.leftOut) : Corresponds slot inner tree other := by
  cases slot with
  | command =>
      cases tree <;> cases known
      cases other <;> cases isTwin
      exact command same left
  | optional =>
      cases tree <;> cases known
      cases other <;> cases isTwin
      obtain ⟨tag, known, shown, alike⟩ := command same left
      exact ⟨tag, known, shown, alike⟩
  | test =>
      cases tree with
      | command value =>
          cases other with
          | command twin => exact test known same left
          | _ => cases isTwin
      | _ => cases known
  | redir =>
      cases tree <;> cases known
      cases other <;> cases isTwin
      exact redir same left
  | clause =>
      obtain ⟨words, body, falls, rfl, rfl⟩ := Slot.clause_of_inner? known
      obtain ⟨patterns, action, passes, rfl, rfl⟩ := Slot.clause_of_inner? isTwin
      exact clause same
  | each slot =>
      obtain ⟨items, rfl, rfl⟩ := Slot.list_of_inner? known
      obtain ⟨others, rfl, rfl⟩ := Slot.list_of_inner? isTwin
      exact each same
  | _ => cases known

end Corresponds

/-! ## All slots -/

theorem Session.within_congr (session : Session) {tree other : Datum}
    (tag : tree.tag? = other.tag?) : session.within tree = session.within other := by
  rw [within, within, Datum.isTag, Datum.isTag, tag]

theorem Session.beyond_congr (session : Session) {tree other : Datum}
    (tag : tree.tag? = other.tag?) : session.beyond tree = session.beyond other := by
  rw [beyond, beyond, Datum.isTag, Datum.isTag, tag]

/--
Slots that are filled from the same session, and of which the tagged form shows
the same, are filled alike if the data agree on what is left out.
-/
theorem Fills.same {session after ended : Session} {slots : List Slot} {trees others : List Datum}
    (fills : Fills session slots trees after) (fillsToo : Fills session slots others ended)
    (shown : Slot.All Slot.Shown slots trees others) (agree : AgreeAll trees others) :
    after = ended ∧ Slot.All Slot.Same slots trees others := by
  -- The second filling takes the constructors of the first, since the tagged forms tell them
  -- apart; so both come to the same session, which the marks behind them depend on.
  induction fills generalizing others ended with
  | nil =>
      cases fillsToo
      exact ⟨rfl, trivial⟩
  | leaf isLeaf following ih =>
      cases fillsToo with
      | leaf isOther followingToo =>
          obtain ⟨ends, same⟩ := ih followingToo shown.2 agree.tail
          exact ⟨ends, isLeaf.same isOther shown.1, same⟩
      | node known => exact absurd (shown.1.untyped_eq known) (isLeaf.untyped_ne known)
  | node known inside following ihInside ih =>
      cases fillsToo with
      | leaf isOther followingToo =>
          exact absurd (shown.1.untyped_eq known).symm (isOther.untyped_ne known)
      | node knownToo insideToo followingToo =>
          have here := agree 0 _ _ rfl rfl
          have corresponds := Corresponds.of_untyped known knownToo (shown.1.untyped_eq known)
            here.leftOut
          cases corresponds.known.symm.trans knownToo
          rw [← Session.within_congr _ corresponds.tag] at insideToo
          obtain ⟨rfl, same⟩ := ihInside insideToo corresponds.shown here.inside
          rw [← Session.beyond_congr _ corresponds.tag] at followingToo
          obtain ⟨ends, rest⟩ := ih followingToo shown.2 agree.tail
          exact ⟨ends, corresponds.same same, rest⟩

/--
Two commands that are read in the same session to trees with the same tagged form
have the same text, if the trees agree on what follows their jobs and on the tabs
of their heredocs.
-/
theorem shellText_eq_of_untyped_eq {session after ended : Session} {node twin : Record}
    {tree other : Datum} (came : session.read node = (.ok tree, after))
    (cameToo : session.read twin = (.ok other, ended)) (same : tree.untyped = other.untyped)
    (agree : Agree tree other) : tree.shellText = other.shellText := by
  obtain ⟨_, alike, _⟩ := (Session.fills_of_read came).same (Session.fills_of_read cameToo)
    ⟨same, trivial⟩ (.cons agree .nil)
  exact alike.text .plain

/-! ## Commands of letters -/

/-- The tree of a command that is one letter. -/
def letterTree (letter : Char) : Datum :=
  .command (.simple (.int 1) (.list []) (.list [wordOf true [letter]]) (.list []))

/-- The record of a command that is one letter, with flags. -/
def flaggedLetter (flags : List Int) (letter : Char) : Record :=
  .object [("type", .int CommandType.simple.number), ("flags", .list (flags.map .int)),
    ("redirects", .list []), ("value", .object [("simple_com", .object [("line", .int 1),
      ("words", .list [letterRecord letter]), ("redirects", .list [])])])]

theorem read_flaggedLetter (session : Session) (flags : List Int) (letter : Char) :
    session.read (flaggedLetter flags letter) =
      (withFlags (letterTree letter) (.list (flags.map .int)), session) := by
  have simple : readSimple (.object [("line", .int 1), ("words", .list [letterRecord letter]),
      ("redirects", .list [])]) = .ok (letterTree letter) := by
    change ((readWord (letterRecord letter) >>= _) >>= _) = _
    rw [readWord_letterRecord]
    rfl
  rw [Session.read, readCommand]
  change ((liftM (readSimple _) : Reading Datum) >>= _).run.run session = _
  rw [simple, liftM_ok_bind]
  change (liftM (withFlags (letterTree letter) (.list (flags.map .int))) :
    Reading Datum).run.run session = _
  cases withFlags (letterTree letter) (.list (flags.map .int)) <;> rfl

theorem read_letterCommand (session : Session) (letter : Char) :
    session.read (letterCommand letter) = (.ok (letterTree letter), session) :=
  read_flaggedLetter session [] letter

/-- A command without redirections and flags is what is put together for its type. -/
theorem Session.assembled_of_follow {session after : Session} {kind : CommandType} {com : Record}
    {trees : List Datum}
    (followed : session.follow (commandRecord kind com).steps = (.ok trees, after)) :
    ∃ tree, session.read (commandRecord kind com) = (.ok tree, after) ∧
      Assembled (commandRecord kind com) com kind trees after tree := by
  obtain ⟨tree, read, isKind, about, assembled, finished⟩ :=
    (takes_readCommand _).value followed
  cases (kind?_commandRecord kind com).symm.trans isKind
  have same : (commandRecord kind com).about? kind = some com := by cases kind <;> rfl
  cases same.symm.trans about
  cases finished
  exact ⟨_, read, assembled⟩

/-- The record of two commands with an ampersand between them. -/
def ampersandRecord (first second : Record) : Record :=
  commandRecord .connection (.object [("connector", .int Connector.ampersand.number),
    ("first", first), ("second", second)])

/-- The record of a loop. -/
def loopRecord (kind : CommandType) (test body : Record) : Record :=
  commandRecord kind (.object [("test", test), ("action", body)])

section Pairs

variable {session between after : Session} {first second : Record} {left right : Datum}

theorem Session.follow_pair (readFirst : session.read first = (.ok left, between))
    (readSecond : between.read second = (.ok right, after)) :
    session.follow [.command first, .command second] = (.ok [left, right], after) :=
  follow_command_eq_ok.mpr ⟨left, [right], between, readFirst,
    follow_command_eq_ok.mpr ⟨right, [], after, readSecond, rfl, rfl⟩, rfl⟩

theorem read_ampersandRecord (readFirst : session.read first = (.ok left, after)) (letter : Char) :
    session.read (ampersandRecord first (letterCommand letter)) =
      (.ok (.command (.background .null left (.list []) (letterTree letter) (.bool true))),
        after) := by
  have steps : (ampersandRecord first (letterCommand letter)).steps =
      [.command first, .command (letterCommand letter)] :=
    (steps_commandRecord .connection _).trans rfl
  obtain ⟨tree, read, assembled⟩ := Session.assembled_of_follow
    (steps ▸ Session.follow_pair readFirst (read_letterCommand after letter))
  cases assembled with
  | job joint redirected =>
      cases redirected
      exact read
  | semi joint => cases joint
  | pipe joint => cases joint
  | and joint => cases joint
  | or joint => cases joint

theorem read_loopRecord_while (readFirst : session.read first = (.ok left, between))
    (readSecond : between.read second = (.ok right, after)) :
    session.read (loopRecord .whileLoop first second) =
      (.ok (.command (.whileLoop left right)), after) := by
  have steps : (loopRecord .whileLoop first second).steps = [.command first, .command second] :=
    (steps_commandRecord .whileLoop _).trans rfl
  obtain ⟨tree, read, assembled⟩ :=
    Session.assembled_of_follow (steps ▸ Session.follow_pair readFirst readSecond)
  cases assembled
  exact read

theorem read_loopRecord_until (readFirst : session.read first = (.ok left, between))
    (readSecond : between.read second = (.ok right, after)) :
    session.read (loopRecord .untilLoop first second) =
      (.ok (.command (.whileLoop (.command (.not left (.bool false))) right)), after) := by
  have steps : (loopRecord .untilLoop first second).steps = [.command first, .command second] :=
    (steps_commandRecord .untilLoop _).trans rfl
  obtain ⟨tree, read, assembled⟩ :=
    Session.assembled_of_follow (steps ▸ Session.follow_pair readFirst readSecond)
  cases assembled
  exact read

end Pairs

/-- A loop until a letter, and one while the inverted letter: two trees with one tagged form. -/
theorem shellText_eq_of_untyped_eq_until :
    ∃ tree other,
      Session.start.read (loopRecord .untilLoop (letterCommand 'a')
        (ampersandRecord (letterCommand 'b') (letterCommand 'c'))) = (.ok tree, .start) ∧
      Session.start.read (loopRecord .whileLoop (flaggedLetter [invertReturn] 'a')
        (ampersandRecord (letterCommand 'b') (letterCommand 'c'))) = (.ok other, .start) ∧
      tree ≠ other ∧ tree.untyped = other.untyped ∧ Agree tree other ∧
      tree.shellText = other.shellText := by
  have body := read_ampersandRecord (read_letterCommand .start 'b') 'c'
  have came := read_loopRecord_until (read_letterCommand .start 'a') body
  have cameToo := read_loopRecord_while (read_flaggedLetter .start [invertReturn] 'a') body
  have inverted : Agree (.command (.not (letterTree 'a') (.bool false)))
      (.command (.not (letterTree 'a') (.bool true))) :=
    .of_inside rfl (.cons (.refl _) <| .cons (.of_inside rfl .nil) .nil)
  have agree (body : Datum) :
      Agree (.command (.whileLoop (.command (.not (letterTree 'a') (.bool false))) body))
        (.command (.whileLoop (.command (.not (letterTree 'a') (.bool true))) body)) :=
    .of_inside rfl (.cons inverted <| .cons (.refl _) .nil)
  refine ⟨_, _, came, cameToo, ?_, rfl, agree _,
    shellText_eq_of_untyped_eq came cameToo rfl (agree _)⟩
  intro same
  cases same

/--
The tagged form of a job does not show what follows it: the same job before one
letter and before another.
-/
theorem shellText_ne_of_untyped_eq :
    ∃ tree other,
      Session.start.read (ampersandRecord (letterCommand 'a') (letterCommand 'b')) =
        (.ok tree, .start) ∧
      Session.start.read (ampersandRecord (letterCommand 'a') (letterCommand 'c')) =
        (.ok other, .start) ∧
      tree.untyped = other.untyped ∧ tree.shellText = .ok (some "a  &b") ∧
      other.shellText = .ok (some "a  &c") :=
  have read := read_letterCommand .start 'a'
  ⟨_, _, read_ampersandRecord read 'b', read_ampersandRecord read 'c', rfl, rfl, rfl⟩

end Bash

end ShellTree
