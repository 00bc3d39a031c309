import ShellTree.Proofs.VaryingCommands

/-!
# Statements joined by an operator

Two statements are joined by an operator between them.  A pipe takes over the
items of a pipeline on either side of it, but what is printed is the text of the
one statement, the mark of the operator and the text of the other all the same.
So if one of the statements varies, or if the operator is another one, what is
joined varies.
-/

namespace ShellTree

/-! ## Commands in a row -/

/-- A command that is asked for its text without a wish shows one, if it prints at all. -/
theorem always_text (value : Command) :
    Always (value.render .plain) fun shown => ∃ text, shown = some text := by
  cases value with
  | group body =>
      unfold Command.render
      refine Always.self.bind fun omitted asked => ?_
      cases asked
      exact .skip fun _ => .skip fun _ => .skip fun _ => .pure ⟨_, rfl⟩
  | whileLoop test body =>
      by_cases inverted : ∃ inner flag, test = .command (.not inner flag)
      · obtain ⟨inner, flag, rfl⟩ := inverted
        rw [Command.render]
        exact .skip fun _ => .skip fun _ => .skip fun _ => .pure ⟨_, rfl⟩
      · rw [Command.render]
        · exact .skip fun _ => .skip fun _ => .skip fun _ => .pure ⟨_, rfl⟩
        · exact fun inner flag same => inverted ⟨inner, flag, same⟩
  | _ =>
      unfold Command.render
      repeat' first
        | exact .pure ⟨_, rfl⟩
        | exact .fault _
        | refine .ite (fun _ => ?_) fun _ => ?_
        | refine .skip fun _ => ?_
        | split

theorem requiredAll_eq_ok_iff {shown : List (Option String)} {texts : List String} :
    requiredAll shown = .ok texts ↔ shown = texts.map some := by
  constructor
  · intro all
    induction shown generalizing texts with
    | nil =>
        cases all
        rfl
    | cons first rest ih =>
        simp only [requiredAll, bind_eq_ok_iff, required_eq_ok_iff] at all
        obtain ⟨text, rfl, others, following, all⟩ := all
        cases all
        rw [ih following, List.map_cons]
  · rintro rfl
    exact requiredAll_some texts

theorem renderItems_eq_mapM (items : List Datum) :
    renderItems items = items.mapM (Datum.render .plain) := by
  induction items with
  | nil => rfl
  | cons item rest ih => rw [renderItems, List.mapM_cons, ih]

/-- Commands in a row print as a text, with bars between them. -/
def Piped (items : List Datum) (text : String) : Prop :=
  ∃ texts, renderItems items = .ok (texts.map some) ∧ text = String.intercalate " | " texts

theorem piped_singleton {item : Datum} {text : String} :
    Piped [item] text ↔ item.render .plain = .ok (some text) := by
  constructor
  · rintro ⟨texts, rendered, rfl⟩
    obtain ⟨shown, first, rendered⟩ := bind_eq_ok_iff.mp rendered
    cases texts with
    | nil => cases rendered
    | cons text rest =>
        cases rest with
        | nil =>
            cases rendered
            rw [String.intercalate_singleton]
            exact first
        | cons => cases rendered
  · intro rendered
    refine ⟨[text], ?_, by rw [String.intercalate_singleton]⟩
    rw [renderItems, rendered]
    rfl

/-- Two rows are one row with a bar between them. -/
theorem piped_append {first second : List Datum} (some : first ≠ []) (more : second ≠ [])
    {text : String} :
    Piped (first ++ second) text ↔ ∃ left right, Piped first left ∧ Piped second right ∧
      text = left ++ " | " ++ right := by
  have texts_ne {items : List Datum} {texts : List String} (present : items ≠ [])
      (rendered : renderItems items = .ok (texts.map Option.some)) : texts ≠ [] := by
    rintro rfl
    cases items with
    | nil => exact present rfl
    | cons item rest =>
        obtain ⟨_, _, rendered⟩ := bind_eq_ok_iff.mp rendered
        obtain ⟨_, _, rendered⟩ := bind_eq_ok_iff.mp rendered
        cases rendered
  have split : renderItems (first ++ second) = (do
      let start ← renderItems first
      let rest ← renderItems second
      return start ++ rest) := by
    simp only [renderItems_eq_mapM, List.mapM_append]
  constructor
  · rintro ⟨texts, rendered, rfl⟩
    rw [split] at rendered
    simp only [bind_eq_ok_iff] at rendered
    obtain ⟨start, before, rest, behind, rendered⟩ := rendered
    have same : start ++ rest = texts.map Option.some := Except.ok.inj rendered
    obtain ⟨lefts, rights, rfl, rfl, rfl⟩ := List.append_eq_map_iff.mp same
    refine ⟨_, _, ⟨lefts, before, rfl⟩, ⟨rights, behind, rfl⟩, ?_⟩
    exact String.intercalate_append_of_ne_nil (texts_ne some before) (texts_ne more behind)
  · rintro ⟨_, _, ⟨lefts, before, rfl⟩, ⟨rights, behind, rfl⟩, rfl⟩
    refine ⟨lefts ++ rights, ?_, ?_⟩
    · rw [split, before, behind, List.map_append]
      rfl
    · exact (String.intercalate_append_of_ne_nil (texts_ne some before)
        (texts_ne more behind)).symm

/-- A pipeline whose first command has no heredocs prints as a row. -/
theorem render_pipe_iff {first : Datum} {rest : List Datum}
    (ready : first.defersHeredocs = .ok false) {style : Style} {shown : Option String} :
    (Command.pipe (.bool false) (.list (first :: rest))).render style = .ok shown ↔
      style = .plain ∧ ∃ text, shown = some text ∧ Piped (first :: rest) text := by
  have plain : style.none? = .ok () ↔ style = .plain := by
    cases style <;> simp [Style.none?]
  rw [Command.render]
  simp only [bind_eq_ok_iff, ready]
  constructor
  · rintro ⟨_, asked, _, same, rendered⟩
    cases same
    simp only [Bool.false_eq_true, if_false, bind_eq_ok_iff, requiredAll_eq_ok_iff] at rendered
    obtain ⟨start, before, others, behind, texts, all, rendered⟩ := rendered
    cases rendered
    refine ⟨plain.mp asked, _, rfl, texts, ?_, rfl⟩
    rw [renderItems, before, behind, ← all]
    rfl
  · rintro ⟨rfl, _, rfl, texts, rendered, rfl⟩
    rw [renderItems] at rendered
    simp only [bind_eq_ok_iff] at rendered
    obtain ⟨start, before, others, behind, rendered⟩ := rendered
    refine ⟨(), rfl, false, rfl, ?_⟩
    simp only [Bool.false_eq_true, if_false, bind_eq_ok_iff, requiredAll_eq_ok_iff]
    exact ⟨start, before, others, behind, texts, Except.ok.inj rendered, rfl⟩

namespace Shfmt

variable {lists : List Datum → Prop} {left right : Datum}

/-- An arranged command has no heredocs that wait for the operator behind it. -/
theorem ready_of_arranged {value : Command} (arranged : (Datum.command value).Arranged lists) :
    (Datum.command value).defersHeredocs = .ok false := by
  have tidy : value.Tidy := arranged.tidy_of_reach? (show Datum.reach? _ [] = _ from rfl)
  cases value with
  | simple =>
      cases tidy
      rfl
  | _ => rfl

/-- The items that a pipe takes over from a command print as the command does. -/
theorem exists_piped_items (good : ArrangedCommand lists left) :
    ∃ items, pipeItems left = .ok items ∧ items ≠ [] ∧
      (∀ item ∈ items, item.defersHeredocs = .ok false) ∧
      ∀ shown, left.render .plain = .ok shown ↔ ∃ text, shown = some text ∧ Piped items text := by
  obtain ⟨value, rfl⟩ := good.command
  by_cases isPipe : ∃ behind items, value = .pipe behind items
  · obtain ⟨behind, items, rfl⟩ := isPipe
    have tidy : (Command.pipe behind items).Tidy :=
      good.arranged.tidy_of_reach? (show Datum.reach? _ [] = _ from rfl)
    obtain ⟨rfl, stages, rfl, several, each⟩ := tidy
    have inside : (Datum.list stages).Arranged lists :=
      good.arranged.inside good.single _ (by simp [Datum.contents, Datum.inside, Command.fields])
    have ready : ∀ item ∈ stages, item.defersHeredocs = .ok false := by
      intro item member
      obtain ⟨stage, rfl, _⟩ := each item member
      exact ready_of_arranged (inside.inside rfl _ member)
    obtain _ | ⟨first, rest⟩ := stages
    · cases several
    · refine ⟨first :: rest, rfl, List.cons_ne_nil _ _, ready, fun shown => ?_⟩
      rw [Datum.render, render_pipe_iff (ready first List.mem_cons_self)]
      simp
  · refine ⟨[.command value], ?_, List.cons_ne_nil _ _, ?_, fun shown => ?_⟩
    · cases value with
      | pipe behind items => exact absurd ⟨behind, items, rfl⟩ isPipe
      | _ => rfl
    · exact List.forall_mem_singleton.mpr (ready_of_arranged good.arranged)
    · simp only [piped_singleton]
      constructor
      · intro rendered
        rw [Datum.render] at rendered
        obtain ⟨text, rfl⟩ := always_text value shown rendered
        exact ⟨text, rfl, by rw [Datum.render]; exact rendered⟩
      · rintro ⟨text, rfl, rendered⟩
        exact rendered

/-- What is printed between two statements. -/
def BinaryOp.mark : BinaryOp → String
  | .and => " && "
  | .or => " || "
  | .pipe => " | "
  | .pipeAll => " | "

/-- What two statements become that have an operator between them. -/
def BinaryOp.join (op : BinaryOp) (left right : Datum) : Except Fault Datum :=
  match op with
  | .and => return .command (.and left right (.bool true))
  | .or => return .command (.or left right (.bool true))
  | _ => do
      let first ← pipeItems left
      let second ← pipeItems right
      return .command (.pipe (.bool false) (.list (first ++ second)))

/-- A command prints as two others do, with a mark between them. -/
structure Joins (mark : String) (left right : Datum) (value : Command) : Prop where
  tag : value.tag ∈ [Tag.and, .or, .pipe]
  prints (style : Style) (shown : Option String) : value.render style = .ok shown ↔
    style = .plain ∧ ∃ first second, left.render .plain = .ok (some first) ∧
      right.render .plain = .ok (some second) ∧
      shown = some (first ++ mark ++ second)

/-- A command that prints as two others, with what is inserted between them. -/
theorem joins_of_inserted {value : Command} {mark : String} (isLeft : left.IsCommand)
    (isRight : right.IsCommand) (tag : value.tag ∈ [Tag.and, .or, .pipe])
    (prints : ∀ style, value.render style = (do
      style.none?
      let first ← left.render .plain
      let second ← right.render .plain
      return some (inserted first ++ mark ++ inserted second))) :
    Joins mark left right value := by
  obtain ⟨before, rfl⟩ := isLeft
  obtain ⟨behind, rfl⟩ := isRight
  refine ⟨tag, fun style shown => ?_⟩
  rw [prints]
  simp only [bind_eq_ok_iff]
  constructor
  · rintro ⟨_, asked, first, onLeft, second, onRight, rendered⟩
    cases rendered
    rw [Datum.render] at onLeft onRight
    obtain ⟨text, rfl⟩ := always_text before first onLeft
    obtain ⟨next, rfl⟩ := always_text behind second onRight
    refine ⟨?_, text, next, ?_, ?_, rfl⟩
    · cases style <;> cases asked
      rfl
    · rwa [Datum.render]
    · rwa [Datum.render]
  · rintro ⟨rfl, text, next, onLeft, onRight, rfl⟩
    exact ⟨(), rfl, _, onLeft, _, onRight, rfl⟩

/-- Two statements are joined to what prints as they do, with the mark of the operator between. -/
theorem exists_joins (op : BinaryOp) (first : ArrangedCommand lists left)
    (second : ArrangedCommand lists right) :
    ∃ value, op.join left right = .ok (.command value) ∧ Joins op.mark left right value := by
  obtain ⟨items, taken, present, ready, asLeft⟩ := exists_piped_items first
  obtain ⟨others, takenToo, presentToo, _, asRight⟩ := exists_piped_items second
  have piped : ∃ value, (do
      let first ← pipeItems left
      let second ← pipeItems right
      return Datum.command (.pipe (.bool false) (.list (first ++ second)))) =
        .ok (.command value) ∧ Joins " | " left right value := by
    rw [taken, takenToo]
    refine ⟨_, rfl, by simp [Command.tag], fun style shown => ?_⟩
    obtain ⟨start, rest, rfl⟩ := List.exists_cons_of_ne_nil present
    rw [List.cons_append, render_pipe_iff (ready start List.mem_cons_self), ← List.cons_append]
    simp only [piped_append present presentToo, asLeft, asRight]
    grind
  cases op with
  | and =>
      refine ⟨_, rfl, joins_of_inserted first.command second.command (by simp [Command.tag]) ?_⟩
      intro style
      obtain ⟨before, rfl⟩ := first.command
      rw [Command.render, ready_of_arranged first.arranged]
      rfl
  | or =>
      refine ⟨_, rfl, joins_of_inserted first.command second.command (by simp [Command.tag]) ?_⟩
      intro style
      rw [Command.render]
      rfl
  | pipe => exact piped
  | pipeAll => exact piped

/-! ## What is joined varies -/

section

variable {old new mark : String} {value other : Command}

/-- What prints as two commands with a mark between them varies if this text does. -/
theorem Joins.varies {first second : Datum} {sign : String} (joins : Joins mark left right value)
    (others : Joins sign first second other)
    (swapped : ∀ before behind, left.render .plain = .ok (some before) →
      right.render .plain = .ok (some behind) → ∃ start rest,
        first.render .plain = .ok (some start) ∧ second.render .plain = .ok (some rest) ∧
        Swapped old new (before ++ mark ++ behind) (start ++ sign ++ rest)) :
    (Datum.command value).Varies old new (.command other) := by
  have apart {command : Command} (known : command.tag ∈ [Tag.and, .or, .pipe]) {tag : Tag}
      (unknown : tag ∉ [Tag.and, .or, .pipe]) : (command.tag == tag) = false := by
    rw [beq_eq_false_iff_ne]
    rintro rfl
    exact unknown known
  have compound {command : Command} (known : command.tag ∈ [Tag.and, .or, .pipe]) :
      command.tag ∉ [Tag.simple, .background, .not] := by
    simp only [List.mem_cons, List.not_mem_nil, or_false] at known
    rcases known with same | same | same <;> rw [same] <;> decide
  refine ⟨value, other, rfl, rfl, .of_prints ?_ (compound joins.tag) (compound others.tag) ?_⟩
  · intro tag unknown
    rw [apart joins.tag unknown, apart others.tag unknown]
  · intro style shown rendered
    obtain ⟨rfl, before, behind, onLeft, onRight, rfl⟩ := (joins.prints style shown).mp rendered
    obtain ⟨start, rest, onFirst, onSecond, same⟩ := swapped before behind onLeft onRight
    refine ⟨_, (others.prints _ _).mpr ⟨rfl, start, rest, onFirst, onSecond, rfl⟩, ?_⟩
    exact ⟨_, _, rfl, rfl, same⟩

theorem Joins.varies_left {first : Datum} (joins : Joins mark left right value)
    (others : Joins mark first right other) (within : left.Varies old new first) :
    (Datum.command value).Varies old new (.command other) := by
  refine joins.varies others fun before behind onLeft onRight => ?_
  obtain ⟨_, onFirst, _, start, same, rfl, swapped⟩ := within.prints .plain _ onLeft
  cases same
  exact ⟨start, behind, onFirst, onRight, (swapped.append _).append _⟩

theorem Joins.varies_right {second : Datum} (joins : Joins mark left right value)
    (others : Joins mark left second other) (within : right.Varies old new second) :
    (Datum.command value).Varies old new (.command other) := by
  refine joins.varies others fun before behind onLeft onRight => ?_
  obtain ⟨_, onSecond, _, rest, same, rfl, swapped⟩ := within.prints .plain _ onRight
  cases same
  exact ⟨before, rest, onLeft, onSecond, swapped.prepend _⟩

/-- Joined by another operator, the same statements vary in its mark. -/
theorem Joins.varies_mark {sign : String} (joins : Joins mark left right value)
    (others : Joins sign left right other) :
    (Datum.command value).Varies mark sign (.command other) :=
  joins.varies others fun before behind onLeft onRight =>
    ⟨before, behind, onLeft, onRight, ((Swapped.self mark sign).prepend before).append behind⟩

end

end Shfmt

end ShellTree
