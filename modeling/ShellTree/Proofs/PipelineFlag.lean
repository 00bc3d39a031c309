import ShellTree.Proofs.DeferredHeredocs
import ShellTree.Proofs.Outcome

/-!
# The flag of a pipeline

A pipeline with its flag set prints between braces, with an ampersand behind it.
If heredocs of its first command wait for the bar, its text is put together
before the flag is looked at, and shows nothing of it.
-/

namespace ShellTree

/-- Redirections with a heredoc among them. -/
def Datum.HoldsHeredoc (redirs : Datum) : Prop :=
  ∃ kind items, redirs = .seq kind items ∧ ∃ redir ∈ items, redir.isTag .heredoc = true

/-- A simple command with a heredoc among its redirections. -/
def Datum.HasHeredoc (datum : Datum) : Prop :=
  ∃ line assignments arguments redirs,
    datum = .command (.simple line assignments arguments redirs) ∧ redirs.HoldsHeredoc

theorem contains_of_mapM_tag {items : List Datum} {tags : List Tag} {wanted : Tag}
    (named : items.mapM Datum.tag = .ok tags) :
    tags.contains wanted = true ↔ ∃ item ∈ items, item.isTag wanted = true := by
  induction items generalizing tags with
  | nil =>
      cases named
      simp
  | cons item rest ih =>
      rw [List.mapM_cons] at named
      simp only [bind_eq_ok_iff] at named
      obtain ⟨tag, first, others, following, named⟩ := named
      cases named
      have here : item.tag? = some tag := by
        unfold Datum.tag at first
        split at first
        next found =>
          cases first
          exact found
        next => cases first
      have self : wanted = tag ↔ item.isTag wanted = true := by
        rw [Datum.isTag, here, beq_iff_eq, Option.some_inj]
        exact eq_comm
      rw [List.contains_cons, Bool.or_eq_true, ih following, beq_iff_eq, self]
      simp only [List.mem_cons, exists_eq_or_imp]

/-- What can be gone through is a sequence, or texts come up. -/
theorem Datum.items_cases {datum : Datum} {items : List Datum} (listed : datum.items = .ok items) :
    (∃ kind, datum = .seq kind items) ∨
      (∃ entries : List String, items = entries.map .text) ∧
        ∀ kind others, datum ≠ .seq kind others := by
  cases datum with
  | seq kind inner =>
      cases listed
      exact .inl ⟨kind, rfl⟩
  | text value =>
      cases listed
      exact .inr ⟨⟨_, rfl⟩, fun kind others same => by cases same⟩
  | dict fields =>
      cases listed
      exact .inr ⟨⟨_, rfl⟩, fun kind others same => by cases same⟩
  | _ => cases listed

theorem Datum.holdsHeredoc_iff {redirs : Datum} {waits : Bool}
    (holds : redirs.holdsHeredoc = .ok waits) : waits = true ↔ redirs.HoldsHeredoc := by
  simp only [Datum.holdsHeredoc, bind_eq_ok_iff] at holds
  obtain ⟨items, listed, tags, named, holds⟩ := holds
  cases holds
  rw [contains_of_mapM_tag named]
  rcases items_cases listed with ⟨kind, rfl⟩ | ⟨⟨entries, rfl⟩, other⟩
  · constructor
    · exact fun held => ⟨kind, items, rfl, held⟩
    · rintro ⟨_, _, same, held⟩
      cases same
      exact held
  · constructor
    · rintro ⟨redir, inside, heredoc⟩
      obtain ⟨entry, _, rfl⟩ := List.mem_map.mp inside
      cases heredoc
    · rintro ⟨kind, others, same, _⟩
      exact absurd same (other kind others)

/-- Heredocs wait just where a simple command has some. -/
theorem Datum.defersHeredocs_iff {datum : Datum} {waits : Bool}
    (defers : datum.defersHeredocs = .ok waits) : waits = true ↔ datum.HasHeredoc := by
  unfold Datum.defersHeredocs at defers
  split at defers
  next line assignments arguments redirs =>
    rw [holdsHeredoc_iff defers]
    constructor
    · exact fun holds => ⟨line, assignments, arguments, redirs, rfl, holds⟩
    · rintro ⟨_, _, _, _, same, holds⟩
      cases same
      exact holds
  next other =>
    obtain ⟨_, _, defers⟩ := bind_eq_ok_iff.mp defers
    cases defers
    constructor
    · intro never
      cases never
    · rintro ⟨line, assignments, arguments, redirs, same, _⟩
      exact absurd same (other line assignments arguments redirs)

/-- A pipeline that prints without its flag prints with it, and only what waits hides the flag. -/
theorem shellText_pipe_flagged {before behind : Datum} {kind : SeqKind} {first : Datum}
    {rest : List Datum} {line : String} (off : before.truthy = false) (on : behind.truthy = true)
    (printed : (Datum.command (.pipe before (.seq kind (first :: rest)))).shellText =
      .ok (some line)) :
    ∃ waits, first.defersHeredocs = .ok waits ∧
      (Datum.command (.pipe behind (.seq kind (first :: rest)))).shellText =
        .ok (some (if waits then line else inBackground false line)) := by
  simp only [Datum.shellText, Datum.render, Command.render, bind_eq_ok_iff] at printed ⊢
  obtain ⟨_, asked, waits, defers, printed⟩ := printed
  refine ⟨waits, defers, (), asked, waits, defers, ?_⟩
  cases waits with
  -- the text is put together from the headers and the bodies, and the flag is not asked for
  | true => exact printed
  | false =>
      simp only [Bool.false_eq_true, if_false, bind_eq_ok_iff, on, off, if_true] at printed ⊢
      obtain ⟨start, started, others, listed, texts, all, printed⟩ := printed
      cases printed
      exact ⟨start, started, others, listed, texts, all, rfl⟩

theorem count_inBackground (line : String) :
    (inBackground false line).toList.count '&' = line.toList.count '&' + 1 := by
  simp [inBackground]

/--
The flag of a pipeline shows just where its first command has no heredoc.  A
pipeline of whatever items that prints without its flag prints with it, too.  If
its first item is a simple command with a heredoc, both texts are the same; else
the flagged one is the other between braces, with an ampersand behind it, which is
then one more than the pipeline has by itself.
-/
theorem background_flag_iff {before behind : Datum} {kind : SeqKind} {first : Datum}
    {rest : List Datum} {line : String} (off : before.truthy = false) (on : behind.truthy = true)
    (printed : (Datum.command (.pipe before (.seq kind (first :: rest)))).shellText =
      .ok (some line)) :
    ∃ text, (Datum.command (.pipe behind (.seq kind (first :: rest)))).shellText =
        .ok (some text) ∧
      (text = inBackground false line ↔ ¬ first.HasHeredoc) ∧
      (line.toList.count '&' < text.toList.count '&' ↔ ¬ first.HasHeredoc) ∧
      (text = line ↔ first.HasHeredoc) := by
  obtain ⟨waits, defers, flagged⟩ := shellText_pipe_flagged off on printed
  have counted := count_inBackground line
  have different : line ≠ inBackground false line := by
    intro same
    rw [← same] at counted
    omega
  refine ⟨_, flagged, ?_⟩
  rw [← Datum.defersHeredocs_iff defers]
  cases waits with
  | true => simp [different]
  | false => simp [different.symm, counted]

open Link (lineHeredoc letterCall)

/-- A command with a heredoc of one line. -/
def heredocCall : Datum :=
  .command (.simple (.int 1) (.list []) (.list [wordOf false "cat".toList])
    (.list [.redir (lineHeredoc 0 'x')]))

/-- A heredoc on a later item does not hide the flag. -/
theorem background_flag_iff_later :
    let line := "r | cat 0<<'EOF'\nx\nEOF\n"
    (Datum.command (.pipe (.bool false) (.list [letterCall, heredocCall]))).shellText =
        .ok (some line) ∧
      ¬ letterCall.HasHeredoc ∧
      (Datum.command (.pipe (.bool true) (.list [letterCall, heredocCall]))).shellText =
        .ok (some (inBackground false line)) := by
  intro line
  have printed : (Datum.command (.pipe (.bool false)
      (.list [letterCall, heredocCall]))).shellText = .ok (some line) := by rfl
  have absent : ¬ letterCall.HasHeredoc := by
    rintro ⟨_, _, _, _, same, _, _, listed, _, inside, _⟩
    cases same
    cases listed
    cases inside
  have on : (Datum.bool true).truthy = true := rfl
  obtain ⟨text, flagged, honoured, _⟩ := background_flag_iff rfl on printed
  refine ⟨printed, absent, ?_⟩
  rw [flagged, honoured.mpr absent]

/-- A flagged pipeline whose first command has a heredoc has no ampersand. -/
theorem background_flag_lost :
    let line := "cat 0<<'EOF' |             r\nx\nEOF\n"
    (Datum.command (.pipe (.bool false) (.list [heredocCall, letterCall]))).shellText =
        .ok (some line) ∧
      (Datum.command (.pipe (.bool true) (.list [heredocCall, letterCall]))).shellText =
        .ok (some line) ∧ '&' ∉ line.toList :=
  ⟨by rfl, by rfl, by decide⟩

end ShellTree
