import ShellTree.Proofs.ArrangedTrees
import ShellTree.Proofs.Outcome
import ShellTree.Shfmt.Reader

/-!
# Readings of statements

The functions of the reader are followed one by one.  Whatever a function reads
from a value is arranged along the lists of statements in the value, provided
that this holds for the values inside it.  Words, redirections and clauses come
first, since commands are read with their help.
-/

namespace ShellTree

/-! ## Lists of statements -/

/-- The second value is the first or stands inside it. -/
inductive Json.Encloses : Json → Json → Prop where
  | self (value : Json) : Encloses value value
  | item {items : List Json} {item inner : Json} (member : item ∈ items)
      (encloses : Encloses item inner) : Encloses (.arr items) inner
  | field {fields : List (String × Json)} {key : String} {value inner : Json}
      (member : (key, value) ∈ fields) (encloses : Encloses value inner) :
      Encloses (.obj fields) inner

theorem Json.Encloses.trans {outer value inner : Json} (first : outer.Encloses value)
    (second : value.Encloses inner) : outer.Encloses inner := by
  induction first with
  | self => exact second
  | item member _ ih => exact .item member (ih second)
  | field member _ ih => exact .field member (ih second)

theorem Json.encloses_of_lookup {fields : List (String × Json)} {key : String} {value : Json}
    (found : fields.lookup key = some value) : (Json.obj fields).Encloses value := by
  obtain ⟨before, after, rfl, _⟩ := List.lookup_eq_some_iff.mp found
  exact .field (List.mem_append_right before List.mem_cons_self) (.self value)

namespace Shfmt

/-- The fields that hold statements. -/
def statementKeys : List String :=
  ["Stmts", "Cond", "Then", "Do"]

/-- The commands that the statements of one list in a value become. -/
def Lists (source : Source) (value : Json) (commands : List Datum) : Prop :=
  ∃ object key stmts, value.Encloses object ∧ key ∈ statementKeys ∧
    object.get? key = some (.arr stmts) ∧ stmts.mapM (readStatement source) = .ok commands

/-- All lists of statements in a value are known ones. -/
def Covers (source : Source) (lists : List Datum → Prop) (value : Json) : Prop :=
  ∀ commands, Lists source value commands → lists commands

variable {source : Source} {lists : List Datum → Prop} {value : Json}

namespace Covers

theorem of_encloses {inner : Json} (covers : Covers source lists value)
    (encloses : value.Encloses inner) : Covers source lists inner := by
  rintro commands ⟨object, key, stmts, within, known, found, read⟩
  exact covers commands ⟨object, key, stmts, encloses.trans within, known, found, read⟩

theorem null : Covers source lists .null := by
  rintro commands ⟨object, key, stmts, within, _, found, _⟩
  cases within
  cases found

/-- A field that is not there is null, and holds no statements. -/
theorem fetch (covers : Covers source lists value) (key : String) :
    Always (value.fetch key) fun inner => Covers source lists inner.1 := by
  intro inner fetched
  unfold Json.fetch at fetched
  split at fetched
  next fields =>
      split at fetched
      next found =>
          cases fetched
          exact covers.of_encloses (Json.encloses_of_lookup found)
      next =>
          cases fetched
          exact null
  next => cases fetched

theorem require (covers : Covers source lists value) (key : String) :
    Always (value.require key) fun inner => Covers source lists inner.1 := by
  intro inner fetched
  unfold Json.require at fetched
  split at fetched
  next fields =>
      split at fetched
      next found =>
          cases fetched
          exact covers.of_encloses (Json.encloses_of_lookup found)
      next => cases fetched
  next => cases fetched

end Covers

/-- The items of a field are those of an array, or there are none. -/
theorem children_cases {key : String} {items : List (Json.Inside value)}
    (fetched : value.children key = .ok items) :
    items = [] ∨ ∃ values, value.get? key = some (.arr values) ∧
      items.map Subtype.val = values := by
  unfold Json.children at fetched
  split at fetched
  next fields =>
      split at fetched
      next inner found =>
          cases inner with
          | arr values =>
              cases fetched
              exact .inr ⟨values, found, by simp [Function.comp_def]⟩
          | str text =>
              unfold Json.elements at fetched
              dsimp only at fetched
              split at fetched
              · cases fetched
                exact .inl rfl
              · cases fetched
          | obj inner =>
              unfold Json.elements at fetched
              dsimp only at fetched
              split at fetched
              · cases fetched
                exact .inl rfl
              · cases fetched
          | _ => cases fetched
      next =>
          cases fetched
          exact .inl rfl
  next => cases fetched

theorem Covers.children (covers : Covers source lists value) (key : String) :
    Always (value.children key) fun items => ∀ item ∈ items, Covers source lists item.1 := by
  intro items fetched item member
  rcases children_cases fetched with rfl | ⟨values, found, same⟩
  · cases member
  · have inside : item.1 ∈ values := same ▸ List.mem_map_of_mem member
    refine covers.of_encloses ?_
    cases value with
    | obj fields => exact (Json.encloses_of_lookup found).trans (.item inside (.self item.1))
    | _ => cases found

/-! ## Words of characters -/

theorem arrangedCommand_wordsCommand (line : Int) {words : List (List Datum)}
    (each : ∀ word ∈ words, EachArranged lists word) :
    ArrangedCommand lists (wordsCommand line words) :=
  .of_fields rfl rfl (by simp [Command.fields, eachArranged_lists each])

theorem eachArranged_cells (text : String) : EachArranged lists (cells text) :=
  List.forall_mem_map.mpr fun _ _ => arranged_part (by simp [WordPart.fields])

theorem always_cellOf (text : String) : Always (cellOf text) (Datum.Arranged lists) := by
  intro cell read
  unfold cellOf at read
  split at read
  · cases read
    exact arranged_part (by simp [WordPart.fields])
  · cases read

theorem always_cellsOf (lists : List Datum → Prop) (value : Json) :
    Always (cellsOf value) (EachArranged lists) := by
  unfold cellsOf
  split
  next text => exact .pure (eachArranged_cells text)
  next items =>
      refine .mapM fun item _ => ?_
      split
      · exact always_cellOf _
      · exact .fault _
  next fields => exact .mapM fun field _ => always_cellOf field.1
  next => exact .fault _

theorem always_literalCells (lists : List Datum → Prop) (literal : Json) :
    Always (literalCells literal) (EachArranged lists) := by
  unfold literalCells
  exact .ite (fun _ => .skip fun value => always_cellsOf lists value) fun _ => .pure eachArranged_nil

theorem always_readFd (lists : List Datum → Prop) (named : Json) (standard : Int) :
    Always (readFd named (.int standard)) (Datum.Arranged lists) := by
  unfold readFd
  refine .ite (fun _ => .skip fun text => .skip fun number => .ite (fun _ => ?_) fun _ => ?_)
    fun _ => .pure (by simp)
  · exact .skip fun value => .pure (by simp)
  · exact (always_cellsOf lists text).bind fun name each => .pure (by simp [each])

theorem always_lineOrNone (lists : List Datum → Prop) (pos : Json) :
    Always (lineOrNone pos) (Datum.Arranged lists) :=
  .skip fun _ => .pure (arranged_int _)

theorem always_lineDatum (lists : List Datum → Prop) (pos : Json) :
    Always (lineDatum pos) (Datum.Arranged lists) := by
  refine .skip fun line => ?_
  split
  · exact .pure (arranged_int _)
  · exact .pure arranged_null

theorem always_readArithmWords (lists : List Datum → Prop) (expr : Json) :
    Always (readArithmWords source expr) (Datum.Arranged lists) := by
  rw [readArithmWords]
  refine .ite (fun _ => .skip fun text => .pure ?_) fun _ => .pure ?_
  · simp [eachArranged_cells]
  · simp

/-- The items of a command in a pipeline are arranged commands that are no pipelines. -/
theorem always_pipeItems {node : Datum} (good : ArrangedCommand lists node) :
    Always (pipeItems node) fun items => EachArranged lists items ∧ items ≠ [] ∧
      ∀ item ∈ items, item.IsStage := by
  unfold pipeItems
  split
  next behind items =>
      have tidy : (Datum.command (.pipe behind items)).Tidy :=
        good.arranged.tidy_of_reach? (show Datum.reach? _ [] = _ from rfl)
      obtain ⟨_, stages, rfl, several, each⟩ := tidy
      have inner : (Datum.list stages).Arranged lists :=
        good.arranged.inside rfl _ (List.mem_cons_of_mem _ List.mem_cons_self)
      refine .pure ⟨inner.inside rfl, ?_, each⟩
      rintro rfl
      cases several
  next compound =>
      obtain ⟨value, rfl⟩ := good.command
      refine .pure ⟨by simp [good.arranged], by simp, ?_⟩
      refine List.forall_mem_singleton.mpr ⟨value, rfl, fun isPipe => ?_⟩
      cases value <;> cases isPipe
      exact compound _ _ rfl

theorem always_refuse {α : Type} {good : α → Prop} (construct : Construct) (value : Json) :
    Always (refuse construct value) good :=
  .skip fun _ => .fault _

/-! ## Readings -/

/-- What an assignment has become is arranged. -/
def Assigned.Arranged (lists : List Datum → Prop) : Assigned → Prop
  | .assignment node => node.Arranged lists
  | .argument parts => EachArranged lists parts

theorem eachArranged_assigned {results : List Assigned}
    (each : ∀ result ∈ results, result.Arranged lists) :
    EachArranged lists (Assigned.assignments results) ∧
      EachArranged lists (Assigned.arguments results) := by
  constructor
  · intro node member
    obtain ⟨result, inside, same⟩ := List.mem_filterMap.mp member
    cases result with
    | assignment other =>
        cases same
        exact each _ inside
    | argument parts => cases same
  · intro node member
    obtain ⟨result, inside, same⟩ := List.mem_filterMap.mp member
    cases result with
    | assignment other => cases same
    | argument parts =>
        have arranged : EachArranged lists parts := each _ inside
        dsimp only at same
        split at same
        · cases same
        · cases same
          exact arranged_seq arranged

/-- Whatever a value is read as is arranged. -/
structure Sound (source : Source) (lists : List Datum → Prop) (value : Json) : Prop where
  statement : Always (readStatement source value) (ArrangedCommand lists)
  command : Always (readCommand source value) (ArrangedCommand lists)
  conditional : Always (readIf source value) (ArrangedCommand lists)
  clause : Always (readClause source value) (Datum.Arranged lists)
  redirection : Always (readRedir source value) (Datum.Arranged lists)
  assignment : Always (readAssign source value) (Assigned.Arranged lists)
  word : Always (readWord source value) (EachArranged lists)
  part : Always (readPart source value) (EachArranged lists)
  test : Always (readTestWords source value) fun words => ∀ word ∈ words, EachArranged lists word

/-- Whatever is smaller than a value is read soundly. -/
def Below (source : Source) (lists : List Datum → Prop) (value : Json) : Prop :=
  ∀ inner, sizeOf inner < sizeOf value → Covers source lists inner → Sound source lists inner

section

variable (below : Below source lists value) (covers : Covers source lists value)

include below covers

theorem always_readStatement : Always (readStatement source value) (ArrangedCommand lists) := by
  rw [readStatement]
  refine (covers.fetch "Cmd").bind ?_
  rintro ⟨cmd, smaller⟩ known
  refine .either (below cmd smaller known).command (.pure arrangedCommand_empty) ?_
  intro command good
  refine (covers.children "Redirs").bind fun _ inside => ?_
  refine (Always.mapM fun redir member =>
    (below redir.1 redir.2 (inside redir member)).redirection).bind fun redirs each => ?_
  have redirected : EachArranged lists redirs := each
  refine .skip fun negated => .skip fun background => ?_
  have node : ArrangedCommand lists
      (if negated.1.truthy then .command (.not command (.bool true)) else command) := by
    split
    · exact .of_fields rfl trivial (by simp [Command.fields, good.arranged])
    · exact good
  refine .ite (fun _ => .pure ?_) fun _ => .ite (fun _ => .pure node) fun _ => .pure ?_
  · exact .of_fields rfl rfl (by simp [Command.fields, node.arranged, redirected])
  · exact .of_fields rfl trivial (by simp [Command.fields, node.arranged, redirected])

/-- The statements of a field are chained, and there is no other way to make a sequence. -/
theorem always_readStatements (key : String) (known : key ∈ statementKeys) :
    Always (readStatements source value key) (ArrangedBody lists) := by
  rw [readStatements]
  refine Always.self.bind fun items fetched => Always.self.bind fun nodes read => ?_
  have each : ∀ node ∈ nodes, ArrangedCommand lists node :=
    Always.mapM (fun stmt member =>
      (below stmt.1 stmt.2 (covers.children key items fetched stmt member)).statement) nodes read
  cases nodes with
  | nil => exact .pure arrangedCommand_empty.toArrangedBody
  | cons first rest =>
      refine .pure (arrangedBody_chain ?_ each)
      rcases children_cases fetched with rfl | ⟨values, found, same⟩
      · cases read
      · refine covers _ ⟨value, key, values, .self value, known, found, ?_⟩
        rw [← same, List.mapM_map]
        exact read

theorem always_readWord : Always (readWord source value) (EachArranged lists) := by
  unfold readWord
  split
  · exact .pure eachArranged_nil
  · refine (covers.children "Parts").bind fun _ inside => ?_
    refine (Always.mapM fun part member =>
      (below part.1 part.2 (inside part member)).part).bind fun parts each => .pure ?_
    exact eachArranged_flatten each

theorem always_readPart : Always (readPart source value) (EachArranged lists) := by
  have statements := always_readStatements below covers "Stmts" (by decide)
  rw [readPart]
  refine .skip fun literal => ?_
  split
  · exact .pure (eachArranged_cells _)
  refine .skip fun kind => ?_
  split
  · exact .skip fun text => always_cellsOf lists text
  · refine .skip fun text => (always_cellsOf lists text).bind fun inner each => .pure ?_
    exact eachArranged_part (by simp [WordPart.fields, each])
  · refine (covers.children "Parts").bind fun _ inside => ?_
    refine (Always.mapM fun part member =>
      (below part.1 part.2 (inside part member)).part).bind fun parts each => .pure ?_
    exact eachArranged_part (by simp [WordPart.fields, eachArranged_flatten each])
  · exact .skip fun text => .pure (eachArranged_cells text)
  · refine statements.bind fun command body => .pure ?_
    exact eachArranged_part (by simp [WordPart.fields, body.arranged])
  · refine .skip fun _ => .skip fun text => .pure ?_
    exact eachArranged_part (by simp [WordPart.fields, eachArranged_cells])
  · refine .skip fun _ => .skip fun op => statements.bind fun command body => .pure ?_
    exact eachArranged_part (by simp [WordPart.fields, body.arranged])
  · exact .skip fun text => .pure (eachArranged_cells text)
  · exact .skip fun text => .pure (eachArranged_cells text)
  · exact always_refuse _ _

theorem always_readTestWords :
    Always (readTestWords source value) fun words => ∀ word ∈ words, EachArranged lists word := by
  rw [readTestWords]
  refine .skip fun kind => ?_
  split
  · refine (always_readWord below covers).bind fun parts each => .pure ?_
    exact List.forall_mem_singleton.mpr each
  · refine .skip fun _ => .skip fun op => (covers.fetch "X").bind ?_
    rintro ⟨inner, smaller⟩ known
    refine (below inner smaller known).test.bind fun words each => .pure ?_
    exact List.forall_mem_cons.mpr ⟨eachArranged_cells _, each⟩
  · refine .skip fun _ => .skip fun op => (covers.fetch "X").bind ?_
    rintro ⟨left, smaller⟩ known
    refine (below left smaller known).test.bind fun first each => ?_
    refine (covers.fetch "Y").bind ?_
    rintro ⟨right, smaller⟩ known
    refine (below right smaller known).test.bind fun second others => .pure ?_
    exact List.forall_mem_append.mpr ⟨List.forall_mem_append.mpr
      ⟨each, List.forall_mem_singleton.mpr (eachArranged_cells _)⟩, others⟩
  · refine (covers.fetch "X").bind ?_
    rintro ⟨inner, smaller⟩ known
    refine (below inner smaller known).test.bind fun words each => .pure ?_
    exact List.forall_mem_append.mpr ⟨List.forall_mem_append.mpr
      ⟨List.forall_mem_singleton.mpr (eachArranged_cells _), each⟩,
      List.forall_mem_singleton.mpr (eachArranged_cells _)⟩
  · exact always_refuse _ _

theorem always_readAssign : Always (readAssign source value) (Assigned.Arranged lists) := by
  rw [readAssign]
  refine .skip fun _ => .skip fun _ => .skip fun _ => .skip fun _ => .ite (fun _ => ?_) fun _ => ?_
  · exact .skip fun text => (always_cellsOf lists text).bind fun parts each => .pure each
  · refine .skip fun name => (covers.fetch "Value").bind ?_
    rintro ⟨word, smaller⟩ known
    refine .either (below word smaller known).word (.pure eachArranged_nil) fun parts each => .pure ?_
    exact .other rfl trivial (eachArranged_cons.mpr ⟨arranged_ofJson _, by simp [each]⟩)

omit covers in
/-- The target of a duplicated descriptor is a number or a word. -/
theorem always_readDup {word : Json} (smaller : sizeOf word < sizeOf value)
    (known : Covers source lists word) (kind : String) {fd : Datum} (plain : fd.Arranged lists) :
    Always (readDup source kind fd word) (Datum.Arranged lists) := by
  have target : Always (readTarget source word) (Datum.Arranged lists) := by
    rw [readTarget]
    refine .skip fun number => .ite (fun _ => .skip fun _ => .skip fun _ => ?_) fun _ => ?_
    · exact .pure (by simp)
    · exact (below word smaller known).word.bind fun parts each => .pure (by simp [each])
  rw [readDup]
  refine .skip fun literal => .ite (fun _ => .pure ?_) fun _ => ?_
  · exact arranged_redir (by simp [Redirection.fields, plain])
  · refine target.bind fun target arranged => .pure ?_
    exact arranged_redir (by simp [Redirection.fields, plain, arranged])

theorem always_readHeredoc (tabs : Bool) {fd : Datum} (plain : fd.Arranged lists) :
    Always (readHeredoc source tabs fd value) (Datum.Arranged lists) := by
  rw [readHeredoc]
  refine .skip fun word => .skip fun marker => .skip fun delimiter => .skip fun literal => ?_
  refine (covers.fetch "Hdoc").bind ?_
  rintro ⟨heredoc, smaller⟩ known
  refine (below heredoc smaller known).word.bind fun body each => .pure ?_
  exact arranged_redir (by simp [Redirection.fields, plain, each])

theorem always_readRedir : Always (readRedir source value) (Datum.Arranged lists) := by
  rw [readRedir]
  refine .skip fun number => .skip fun op => ?_
  split
  · exact always_refuse _ _
  refine .skip fun named => (always_readFd lists named.1 _).bind fun fd plain => ?_
  refine (covers.fetch "Word").bind ?_
  rintro ⟨word, smaller⟩ known
  have target := (below word smaller known).word
  dsimp only
  split
  · rw [readFileRedir]
    exact target.bind fun parts each =>
      .pure (arranged_redir (by simp [Redirection.fields, plain, each]))
  · exact always_readHeredoc below covers _ plain
  · exact always_readDup below smaller known _ plain
  · rw [readSingle]
    exact target.bind fun parts each => .pure (arranged_redir (by simp [Redirection.fields, each]))

theorem always_readClause : Always (readClause source value) (Datum.Arranged lists) := by
  rw [readClause]
  refine .skip fun _ => .skip fun op => (covers.children "Patterns").bind fun _ inside => ?_
  refine (Always.mapM fun word member =>
    (below word.1 word.2 (inside word member)).word).bind fun patterns each => ?_
  refine (always_readStatements below covers "Stmts" (by decide)).bind fun body good => .pure ?_
  exact .other rfl trivial
    (eachArranged_cons.mpr ⟨arranged_seq (eachArranged_lists each), by simp [good.arranged]⟩)

end

end Shfmt

end ShellTree
