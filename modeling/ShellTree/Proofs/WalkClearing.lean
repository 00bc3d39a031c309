import ShellTree.Proofs.WalkTrees

/-!
# What remains of a kind of construct

A walk can put something else in the place of every construct of a kind.  It
reaches every construct of a tree except those in the substitution of a process,
so what remains of the kind is exactly what stands there.

What one step of a walk brings about is said for any way in which a datum and
what it becomes can go together, and holds for whole trees by induction on the
ways in which a datum suits its role.
-/

namespace ShellTree

namespace Datum

/-- Something holds of all lists of a length, told item by item. -/
def AllOfLength (holds : List Datum → Prop) : Nat → Prop
  | 0 => holds []
  | count + 1 => ∀ first, AllOfLength (fun rest => holds (first :: rest)) count

theorem AllOfLength.holds_of_length {holds : List Datum → Prop} {values : List Datum} {count : Nat}
    (all : AllOfLength holds count) (full : values.length = count) : holds values := by
  induction count generalizing holds values with
  | zero =>
      rw [List.length_eq_zero_iff.mp full]
      exact all
  | succ count ih =>
      obtain ⟨first, rest, rfl⟩ := List.exists_cons_of_length_eq_add_one full
      have following : AllOfLength (fun rest => holds (first :: rest)) count := all first
      have shorter : rest.length = count := by simpa using full
      exact (ih following shorter :)

/-- The datum takes in the values and stays what it is. -/
def TakesIn (datum : Datum) (values : List Datum) : Prop :=
  (datum.withInside values).inside = values ∧ (datum.withInside values).tag? = datum.tag?

/-- A datum takes in as many data as stand inside. -/
theorem takesIn_of_length {datum : Datum} {values : List Datum}
    (full : values.length = datum.inside.length) : datum.TakesIn values := by
  cases datum with
  | seq kind items => exact ⟨rfl, rfl⟩
  | dict fields =>
      have short : values.length ≤ (fields.map Prod.fst).length := by
        simpa [inside] using Nat.le_of_eq full
      exact ⟨List.map_snd_zip short, rfl⟩
  | command value =>
      refine AllOfLength.holds_of_length ?_ full
      cases value <;> repeat intro _
      all_goals exact ⟨rfl, rfl⟩
  | part value =>
      refine AllOfLength.holds_of_length ?_ full
      cases value <;> repeat intro _
      all_goals exact ⟨rfl, rfl⟩
  | redir value =>
      refine AllOfLength.holds_of_length ?_ full
      cases value <;> repeat intro _
      all_goals exact ⟨rfl, rfl⟩
  | assign var val =>
      have all : AllOfLength (assign var val).TakesIn 2 := fun _ _ => ⟨rfl, rfl⟩
      exact all.holds_of_length full
  | _ =>
      rw [List.length_eq_zero_iff.mp full]
      exact ⟨rfl, rfl⟩

end Datum

/-! ## What every step keeps up -/

/-- What a step of a walk has to keep up between data and what they become. -/
structure KeptUp (replace : Datum → Option Datum) (good : Datum → Datum → Prop) : Prop where
  plain {datum : Datum} (plain : datum.Plain) : good datum datum
  /-- An empty word is taken for one that is left out. -/
  dropped : good (.list []) .null
  answered {datum other : Datum} (answer : replace datum = some other) : good datum other
  entered {datum : Datum} {pairs : List (Datum × Datum)} (unanswered : replace datum = none)
    (same : pairs.map Prod.fst = datum.inside) (each : ∀ pair ∈ pairs, good pair.1 pair.2) :
    good datum (datum.withInside (pairs.map Prod.snd))

variable {replace : Datum → Option Datum} {good : Datum → Datum → Prop}

theorem walkParts_of_becomes {parts : List (Role × Datum)}
    (becomes : ∀ part ∈ parts, Becomes replace good part.1 part.2) :
    ∃ pairs : List (Datum × Datum), pairs.map Prod.fst = parts.map Prod.snd ∧
      (walkParts (answering replace) parts).outcome = .ok (pairs.map Prod.snd) ∧
      ∀ pair ∈ pairs, good pair.1 pair.2 := by
  induction parts with
  | nil => exact ⟨[], rfl, rfl, by simp⟩
  | cons part rest ih =>
      obtain ⟨value, came, fits⟩ := becomes part List.mem_cons_self
      obtain ⟨pairs, same, walked, each⟩ :=
        ih fun part held => becomes part (List.mem_cons_of_mem _ held)
      refine ⟨(part.2, value) :: pairs, ?_, ?_, List.forall_mem_cons.mpr ⟨fits, each⟩⟩
      · rw [List.map_cons, List.map_cons, same]
      · rw [walkParts, Walked.bind_of_ok came, Walked.bind_of_ok walked]
        rfl

namespace KeptUp

variable {role : Role} {datum : Datum} {parts : List (Role × Datum)}

theorem walkInside (kept : KeptUp replace good) (unanswered : replace datum = none)
    (same : parts.map Prod.snd = datum.inside)
    (becomes : ∀ part ∈ parts, Becomes replace good part.1 part.2) :
    ∃ value, (walkInside (answering replace) datum parts).outcome = .ok value ∧
      good datum value := by
  obtain ⟨pairs, firsts, walked, each⟩ := walkParts_of_becomes fun part held =>
    becomes part ((datum.inWalkOrder_perm parts).mem_iff.mp held)
  refine ⟨datum.withInside ((datum.inWalkOrder pairs).map Prod.snd), ?_, ?_⟩
  · rw [ShellTree.walkInside, Walked.bind_of_ok walked, Datum.inWalkOrder_map]
    rfl
  · refine kept.entered unanswered ?_ fun pair held =>
      each pair ((datum.inWalkOrder_perm pairs).mem_iff.mp held)
    rw [← Datum.inWalkOrder_map, firsts, ← Datum.inWalkOrder_map, Datum.inWalkOrder_inWalkOrder,
      same]

theorem becomes_of_enter (kept : KeptUp replace good)
    (walked : role.walk (answering replace) datum =
      enter (answering replace) datum (ShellTree.walkInside (answering replace) datum parts))
    (same : parts.map Prod.snd = datum.inside)
    (becomes : ∀ part ∈ parts, Becomes replace good part.1 part.2) :
    Becomes replace good role datum := by
  unfold Becomes
  rw [walked]
  cases answer : replace datum with
  | some other =>
      rw [enter_of_answered answer]
      exact ⟨other, rfl, kept.answered answer⟩
  | none =>
      rw [enter_of_unanswered answer]
      exact kept.walkInside answer same becomes

theorem becomes_of_plain (kept : KeptUp replace good) (plain : datum.Plain)
    (outcome : (role.walk (answering replace) datum).outcome = .ok datum) :
    Becomes replace good role datum :=
  ⟨datum, outcome, kept.plain plain⟩

/-- What every step keeps up, a whole walk keeps up; the cases are the ways to suit a role. -/
theorem becomes_of_admits (kept : KeptUp replace good)
    (only : ∀ datum : Datum, datum.tag? = none → replace datum = none)
    (admits : role.Admits datum) : Becomes replace good role datum := by
  induction admits with
  | scalar plain => exact kept.becomes_of_plain plain rfl
  | @construct datum construct inside ih =>
      exact kept.becomes_of_enter (walk_construct _ construct) (Datum.map_snd_parts construct) ih
  | @leaf datum plain single =>
      refine kept.becomes_of_plain plain ?_
      rw [Role.walk, walk_leaf plain.tag?_eq single, enterLeaf,
        enter_of_unanswered (only datum plain.tag?_eq)]
      rfl
  | @sequence kind items inside ih =>
      exact kept.becomes_of_enter (walk_seq _ kind items) (map_snd_items _ items)
        (List.forall_mem_map.mpr ih)
  | @each items inside ih =>
      unfold Becomes
      rw [Role.walk_each]
      exact kept.walkInside (only _ rfl) (map_snd_items _ items) (List.forall_mem_map.mpr ih)
  | absent => exact kept.becomes_of_plain (Datum.plain_of_inside_nil rfl rfl) rfl
  | @present datum construct inside ih =>
      unfold Becomes
      rw [Role.walk, if_pos (Datum.truthy_of_construct construct)]
      exact ih
  | noWord => exact kept.becomes_of_plain (Datum.plain_of_inside_nil rfl rfl) rfl
  | @word items inside ih =>
      cases items with
      | nil => exact ⟨.null, rfl, kept.dropped⟩
      | cons item rest => exact ih
  | @named word inside ih =>
      have name : Becomes replace good .scalar (.text "var") :=
        kept.becomes_of_plain (Datum.plain_of_inside_nil rfl rfl) rfl
      unfold Becomes
      rw [Role.walk, walkFd_named]
      exact kept.walkInside (only _ rfl) rfl (by simpa using ⟨name, ih⟩)
  | @fixed datum plain apart =>
      refine kept.becomes_of_plain plain ?_
      rw [Role.walk, walkFd_of_ne apart]
      rfl
  | @clauses items inside ih =>
      unfold Becomes
      rw [Role.walk_clauses]
      exact kept.walkInside (only _ rfl) (map_snd_items _ items) (List.forall_mem_map.mpr ih)
  | @clause fields distinct inside ih =>
      obtain ⟨became, walked, each⟩ := walk_clause distinct ih
        fun value held => (inside _ held).eq_null_of_falsy
      let pairs := fields.map fun field => (field.2, became field)
      have entered : good (.dict fields) ((Datum.dict fields).withInside (pairs.map Prod.snd)) :=
        kept.entered (only _ rfl) (by simp [pairs, Datum.inside, Function.comp_def])
          (List.forall_mem_map.mpr each)
      unfold Becomes
      rw [walked]
      refine ⟨_, rfl, ?_⟩
      simpa [pairs, Datum.withInside, Function.comp_def, List.zip_map'] using entered

end KeptUp

/-! ## Kinds of constructs -/

namespace Datum

/-- A construct of the kind stands somewhere in the datum. -/
inductive Holds (kind : Tag) : Datum → Prop where
  | self {datum : Datum} (tagged : datum.tag? = some kind) : Holds kind datum
  | inside {datum inner : Datum} (held : inner ∈ datum.contents) (holds : Holds kind inner) :
      Holds kind datum

variable {kind : Tag} {datum : Datum}

theorem holds_iff :
    datum.Holds kind ↔ datum.tag? = some kind ∨ ∃ inner ∈ datum.contents, inner.Holds kind := by
  constructor
  · intro holds
    cases holds with
    | self tagged => exact .inl tagged
    | inside held holds => exact .inr ⟨_, held, holds⟩
  · rintro (tagged | ⟨inner, held, holds⟩)
    · exact .self tagged
    · exact .inside held holds

theorem contents_eq_inside (notProcess : datum.tag? ≠ some .process) :
    datum.contents = datum.inside := by
  cases datum with
  | part value =>
      cases value with
      | process op node => exact absurd rfl notProcess
      | _ => rfl
  | _ => rfl

theorem exists_process (isProcess : datum.tag? = some .process) :
    ∃ op node, datum = .part (.process op node) := by
  cases datum with
  | part value =>
      cases value with
      | process op node => exact ⟨op, node, rfl⟩
      | _ => cases isProcess
  | command value => cases value <;> cases isProcess
  | redir value => cases value <;> cases isProcess
  | _ => cases isProcess

theorem Plain.not_holds (plain : datum.Plain) : ¬ datum.Holds kind := by
  intro holds
  induction holds with
  | self tagged => cases plain.tag?_eq.symm.trans tagged
  | inside held _ ih =>
      rw [contents_eq_inside (by simp [plain.tag?_eq])] at held
      exact ih ((throughout_iff.mp plain).2 _ held)

/--
A construct of the kind stands in the substitution of a process, and neither the
substitution nor anything around it is of the kind.
-/
def Hides (kind : Tag) (tree : Datum) : Prop :=
  ∃ position op node, tree.at? position = some (.part (.process op node)) ∧
    (∀ above around, above <+: position → tree.at? above = some around →
      around.tag? ≠ some kind) ∧
    (op.Holds kind ∨ node.Holds kind)

theorem Plain.not_hides (plain : datum.Plain) : ¬ datum.Hides kind := by
  rintro ⟨position, op, node, found, _⟩
  cases plain position _ found

theorem not_hides_of_tagged (tagged : datum.tag? = some kind) : ¬ datum.Hides kind := by
  rintro ⟨position, op, node, _, around, _⟩
  exact around [] datum List.nil_prefix rfl tagged

theorem hides_process {op node : Datum} (different : (part (.process op node)).tag? ≠ some kind) :
    (part (.process op node)).Hides kind ↔ op.Holds kind ∨ node.Holds kind := by
  constructor
  · rintro ⟨position, _, _, found, _, holds⟩
    cases position with
    | nil =>
        cases found
        exact holds
    | cons index rest => simp [at?, inside] at found
  · intro holds
    refine ⟨[], op, node, rfl, fun above around isPrefix found => ?_, holds⟩
    obtain rfl := List.prefix_nil.mp isPrefix
    cases found
    exact different

/-- What is hidden in a datum that is no process is hidden in something inside it. -/
theorem hides_iff (notProcess : datum.tag? ≠ some .process) (different : datum.tag? ≠ some kind) :
    datum.Hides kind ↔ ∃ inner ∈ datum.inside, inner.Hides kind := by
  constructor
  · rintro ⟨position, op, node, found, around, holds⟩
    cases position with
    | nil =>
        cases found
        exact absurd rfl notProcess
    | cons index rest =>
        obtain ⟨inner, here, found⟩ := Option.bind_eq_some_iff.mp found
        refine ⟨inner, List.mem_of_getElem? here, rest, op, node, found, ?_, holds⟩
        intro above upper isPrefix reached
        refine around (index :: above) upper (List.cons_prefix_cons.mpr ⟨rfl, isPrefix⟩) ?_
        rw [at?_cons_of_getElem? here, reached]
  · rintro ⟨inner, held, position, op, node, found, around, holds⟩
    obtain ⟨index, here⟩ := List.getElem?_of_mem held
    refine ⟨index :: position, op, node, by rw [at?_cons_of_getElem? here, found], ?_, holds⟩
    intro above upper isPrefix reached
    cases above with
    | nil =>
        cases reached
        exact different
    | cons first others =>
        obtain ⟨rfl, shorter⟩ := List.cons_prefix_cons.mp isPrefix
        rw [at?_cons_of_getElem? here] at reached
        exact around others upper shorter reached

end Datum

/-! ## Replacing a kind -/

/-- The replacement that puts something in the place of every construct of a kind. -/
def clearing (kind : Tag) (other datum : Datum) : Option Datum :=
  if datum.isTag kind then some other else none

variable {kind : Tag} {other : Datum}

theorem tag?_of_clearing_some {datum answer : Datum}
    (answered : clearing kind other datum = some answer) :
    datum.tag? = some kind ∧ answer = other := by
  unfold clearing Datum.isTag at answered
  split at answered
  · next same => exact ⟨eq_of_beq same, (Option.some.inj answered).symm⟩
  · cases answered

theorem tag?_of_clearing_none {datum : Datum} (unanswered : clearing kind other datum = none) :
    datum.tag? ≠ some kind := by
  intro tagged
  simp [clearing, Datum.isTag, tagged] at unanswered

/-- One step leaves something of the kind exactly where it stands in a process. -/
theorem keptUp_clearing (free : ¬ other.Holds kind) :
    KeptUp (clearing kind other) fun datum value => value.Holds kind ↔ datum.Hides kind where
  plain plain := iff_of_false plain.not_holds plain.not_hides
  dropped := iff_of_false (Datum.plain_of_inside_nil rfl rfl).not_holds
    (Datum.plain_of_inside_nil rfl rfl).not_hides
  answered answer := by
    obtain ⟨tagged, rfl⟩ := tag?_of_clearing_some answer
    exact iff_of_false free (Datum.not_hides_of_tagged tagged)
  entered {datum pairs} unanswered same each := by
    have different := tag?_of_clearing_none unanswered
    by_cases isProcess : datum.tag? = some .process
    · obtain ⟨op, node, rfl⟩ := Datum.exists_process isProcess
      obtain rfl := List.map_eq_nil_iff.mp same
      change (Datum.part (.process op node)).Holds kind ↔ _
      rw [Datum.hides_process different, Datum.holds_iff, or_iff_right different]
      simp [Datum.contents]
    · have full : (pairs.map Prod.snd).length = datum.inside.length := by
        rw [← same, List.length_map, List.length_map]
      obtain ⟨inside, tagged⟩ := Datum.takesIn_of_length full
      rw [Datum.hides_iff isProcess different, Datum.holds_iff, tagged, or_iff_right different,
        Datum.contents_eq_inside (tagged ▸ isProcess), inside, ← same]
      constructor
      · rintro ⟨value, among, holds⟩
        obtain ⟨pair, held, rfl⟩ := List.mem_map.mp among
        exact ⟨pair.1, List.mem_map_of_mem held, (each pair held).mp holds⟩
      · rintro ⟨inner, among, hides⟩
        obtain ⟨pair, held, rfl⟩ := List.mem_map.mp among
        exact ⟨pair.2, List.mem_map_of_mem held, (each pair held).mpr hides⟩

theorem clearing_eq_none (datum : Datum) (plain : datum.tag? = none) :
    clearing kind other datum = none := by
  simp [clearing, Datum.isTag, plain]

/--
A walk that puts something without constructs of a kind in the place of each of
them comes to an end, and what it gives holds a construct of the kind exactly if
one stands in the substitution of a process, with none of the kind around it.
-/
theorem walk_clearing_holds_iff (kind : Tag) (other tree : Datum) (free : ¬ other.Holds kind)
    (admits : Role.whole.Admits tree) :
    ∃ result, (tree.walk (answering (clearing kind other))).outcome = .ok result ∧
      (result.Holds kind ↔ tree.Hides kind) :=
  (keptUp_clearing free).becomes_of_admits clearing_eq_none admits

theorem not_holds_empty : ¬ (Datum.command .empty).Holds .group := by
  rw [Datum.holds_iff]
  rintro (tagged | ⟨inner, held, holds⟩)
  · cases tagged
  · have plain : inner.Plain := by
      change inner ∈ [Datum.int (-1), .list [], .list [], .list []] at held
      simp only [List.mem_cons, List.not_mem_nil, or_false] at held
      rcases held with rfl | rfl | rfl | rfl <;> exact Datum.plain_of_inside_nil rfl rfl
    exact plain.not_holds holds

/-- Of two groups in a clause nothing remains. -/
theorem walk_clearing_holds_iff_groups :
    ∃ result, ((caseOf groups).walk (answering (clearing .group (.command .empty)))).outcome =
        .ok result ∧ ¬ result.Holds .group := by
  obtain ⟨result, came, remains⟩ := walk_clearing_holds_iff .group (.command .empty)
    (caseOf groups) not_holds_empty admits_caseOf_groups
  refine ⟨result, came, fun holds => ?_⟩
  have nothing : (Datum.list []).Plain := Datum.plain_of_inside_nil rfl rfl
  have patterns : (Datum.list [.list []]).Plain :=
    Datum.throughout_iff.mpr ⟨rfl, List.forall_mem_singleton.mpr nothing⟩
  obtain ⟨field, held, hides⟩ := (Datum.hides_iff (by decide) (by decide)).mp (remains.mp holds)
  change field ∈ [Datum.int 1, .list [], .list [_]] at held
  simp only [List.mem_cons, List.not_mem_nil, or_false] at held
  rcases held with rfl | rfl | rfl
  · exact (Datum.plain_of_inside_nil rfl rfl).not_hides hides
  · exact nothing.not_hides hides
  · obtain ⟨clause, held, hides⟩ := (Datum.hides_iff (by decide) (by decide)).mp hides
    obtain rfl := List.mem_singleton.mp held
    obtain ⟨value, held, hides⟩ := (Datum.hides_iff (by decide) (by decide)).mp hides
    change value ∈ [Datum.list [.list []], groups] at held
    simp only [List.mem_cons, List.not_mem_nil, or_false] at held
    rcases held with rfl | rfl
    · exact patterns.not_hides hides
    · exact Datum.not_hides_of_tagged rfl hides

/-- A call with one argument, in which a command and a process are substituted. -/
def substituting (command process : Datum) : Datum :=
  .command (.simple (.int 1) (.list [])
    (.list [.list [.part (.command command), .part (.process (.text "<(") process)]]) (.list []))

theorem admits_substituting {command : Datum} (inside : Role.whole.Admits command)
    (process : Datum) : Role.whole.Admits (substituting command process) := by
  have first : Role.whole.Admits (.part (.command command)) :=
    .construct rfl (List.forall_mem_singleton.mpr inside)
  have second : Role.whole.Admits (.part (.process (.text "<(") process)) :=
    .construct rfl (by simp [Datum.parts, Datum.tag?, WordPart.tag, Tag.roles])
  have word : Role.whole.Admits
      (.list [.part (.command command), .part (.process (.text "<(") process)]) :=
    .sequence (by simpa using ⟨first, second⟩)
  have words : Role.each.Admits
      (.list [.list [.part (.command command), .part (.process (.text "<(") process)]]) :=
    .each (List.forall_mem_singleton.mpr word)
  refine .construct rfl ?_
  change ∀ part ∈ [(Role.scalar, Datum.int 1), (.each, .list []), (.each, .list [_]),
    (.each, .list [])], part.1.Admits part.2
  simpa using ⟨admits_int 1, admits_nothing, words, admits_nothing⟩

/-- Of a group that is substituted as a command and as a process, the second one remains. -/
theorem group_in_process_remains :
    ¬ (Datum.command .empty).Holds .group ∧
      Role.whole.Admits (substituting groups groups) ∧
      ((substituting groups groups).walk
        (answering (clearing .group (.command .empty)))).outcome =
          .ok (substituting (.command .empty) groups) ∧
      (substituting (.command .empty) groups).Holds .group := by
  refine ⟨not_holds_empty, admits_substituting admits_groups groups, rfl, ?_⟩
  have process : (Datum.part (.process (.text "<(") groups)).Holds .group :=
    .inside (List.mem_cons_of_mem _ List.mem_cons_self) (.self rfl)
  have word : (Datum.list [.part (.command (.command .empty)),
      .part (.process (.text "<(") groups)]).Holds .group :=
    .inside (List.mem_cons_of_mem _ List.mem_cons_self) process
  have words : (Datum.list [Datum.list [.part (.command (.command .empty)),
      .part (.process (.text "<(") groups)]]).Holds .group :=
    .inside List.mem_cons_self word
  exact .inside (List.mem_cons_of_mem _ (List.mem_cons_of_mem _ List.mem_cons_self)) words

end ShellTree
