import ShellTree.Proofs.Preorder
import ShellTree.Proofs.WalkRoles

/-!
# What a walk comes to

A walk in a role comes to the datum with its outermost answers in place, unless
an empty word stands where a word may be left out, and visits the exposed
constructs in preorder.  What the walk of a datum comes to follows from what the
walks inside it come to: for the fields of a construct and the items of a
sequence in one way, and for a clause, whose values are found by their keys, in
another.
-/

namespace ShellTree

/-- The replacement that gives the answers of a function, and never fails. -/
def answering (replace : Datum → Option Datum) : Replacement :=
  fun datum => .ok (replace datum)

theorem enter_of_answered {replace : Datum → Option Datum} {datum other : Datum}
    (answered : replace datum = some other) (inside : Walked Datum) :
    enter (answering replace) datum inside = ⟨[datum], .ok other⟩ := by
  simp [enter, answering, answered, Walked.visit, Walked.of, bind, Walked.next, pure]

theorem enter_of_unanswered {replace : Datum → Option Datum} {datum : Datum}
    (unanswered : replace datum = none) (inside : Walked Datum) :
    enter (answering replace) datum inside = ⟨datum :: inside.visits, inside.outcome⟩ := by
  simp [enter, answering, unanswered, Walked.visit, Walked.of, bind, Walked.next]

/-- Is a datum a redirection to a file or a condition with an empty word in it? -/
def Datum.hasEmptyWord : Datum → Bool
  | .redir (.file _ _ (.seq .list [])) => true
  | .command (.cond _ _ (.seq .list []) _ _ _) => true
  | _ => false

/-- No redirection and no condition in the datum has an empty word in it. -/
def Datum.Worded (datum : Datum) : Prop :=
  datum.Throughout fun node => node.hasEmptyWord = false

/-- No word that would be taken for one that is left out stands in the datum, nor is it one. -/
structure Role.Keeps (role : Role) (datum : Datum) : Prop where
  self : role = .optionalWord → datum ≠ .list []
  inside : datum.Worded

/-- What a walk of a datum in a role comes to. -/
structure Runs (replace : Datum → Option Datum) (role : Role) (datum : Datum) : Prop where
  outcome : ∃ value, (role.walk (answering replace) datum).outcome = .ok value ∧
    (role.Keeps datum → value = datum.outermost replace)
  visits : VisitsExposed replace datum (role.walk (answering replace) datum).visits

variable {replace : Datum → Option Datum}

/-! ## Walking what is inside -/

/-- Several data are walked one after the other. -/
theorem walkParts_of_runs {parts : List (Role × Datum)}
    (runs : ∀ part ∈ parts, Runs replace part.1 part.2) :
    ∃ values, walkParts (answering replace) parts =
        ⟨parts.flatMap fun part => (part.1.walk (answering replace) part.2).visits, .ok values⟩ ∧
      ((∀ part ∈ parts, part.1.Keeps part.2) →
        values = parts.map fun part => part.2.outermost replace) := by
  induction parts with
  | nil => exact ⟨[], rfl, fun _ => rfl⟩
  | cons part rest ih =>
      obtain ⟨value, came, same⟩ := (runs part List.mem_cons_self).outcome
      obtain ⟨values, walked, others⟩ := ih fun part held => runs part (List.mem_cons_of_mem _ held)
      refine ⟨value :: values, ?_, fun keeps => ?_⟩
      · rw [walkParts, Walked.bind_of_ok came, walked]
        simp [bind, Walked.next, pure]
      · rw [List.map_cons, same (keeps part List.mem_cons_self),
          others fun part held => keeps part (List.mem_cons_of_mem _ held)]

/-- What a walk of an unanswered datum comes to, from what the walks inside it come to. -/
theorem walkInside_of_runs {datum : Datum} {parts : List (Role × Datum)} {keeps : Prop}
    (unanswered : replace datum = none) (same : parts.map Prod.snd = datum.inside)
    (runs : ∀ part ∈ parts, Runs replace part.1 part.2)
    (kept : keeps → ∀ part ∈ parts, part.1.Keeps part.2) :
    (∃ value, (walkInside (answering replace) datum parts).outcome = .ok value ∧
      (keeps → value = datum.outermost replace)) ∧
    VisitsExposed replace datum
      (datum :: (walkInside (answering replace) datum parts).visits) := by
  have perm := datum.inWalkOrder_perm parts
  obtain ⟨values, walked, outermost⟩ :=
    walkParts_of_runs fun part held => runs part (perm.mem_iff.mp held)
  have opened : walkInside (answering replace) datum parts =
      ⟨(datum.inWalkOrder parts).flatMap fun part =>
          (part.1.walk (answering replace) part.2).visits,
        .ok (datum.withInside (datum.inWalkOrder values))⟩ := by
    rw [walkInside, walked]
    simp [bind, Walked.next, pure]
  rw [opened]
  refine ⟨⟨_, rfl, fun keeps => ?_⟩, ?_⟩
  · rw [outermost fun part held => kept keeps part (perm.mem_iff.mp held),
      ← Datum.inWalkOrder_map, Datum.inWalkOrder_inWalkOrder,
      Datum.outermost_of_unanswered unanswered, ← same, List.map_map]
    rfl
  · let visited (part : Role × Datum) : Datum × List Datum :=
      (part.2, (part.1.walk (answering replace) part.2).visits)
    have each : ∀ inner ∈ parts.map visited, VisitsExposed replace inner.1 inner.2 := by
      intro inner held
      obtain ⟨part, inParts, rfl⟩ := List.mem_map.mp held
      exact (runs part inParts).visits
    have listed := VisitsExposed.entered unanswered (by rw [List.map_map, ← same]; rfl) each
      (perm.map visited)
    rwa [List.flatMap_map] at listed

/-- Nothing is left out inside a datum in which no word would be left out. -/
theorem Role.Keeps.inner {role other : Role} {datum inner : Datum} (keeps : role.Keeps datum)
    (held : inner ∈ datum.inside) (self : other = .optionalWord → inner ≠ .list []) :
    other.Keeps inner :=
  ⟨self, (Datum.throughout_iff.mp keeps.inside).2 inner held⟩

/-- The words that may be left out are those of redirections to files and of conditions. -/
theorem ne_of_optionalWord {datum inner : Datum} (held : (.optionalWord, inner) ∈ datum.parts)
    (full : datum.hasEmptyWord = false) : inner ≠ .list [] := by
  rintro rfl
  cases datum with
  | command value =>
      cases value <;>
        simp [Datum.parts, Datum.tag?, Command.tag, Tag.roles, Datum.inside, Command.fields] at held
      subst held
      cases full
  | part value =>
      cases value <;>
        simp [Datum.parts, Datum.tag?, WordPart.tag, Tag.roles, Datum.inside,
          WordPart.fields] at held
  | redir value =>
      cases value <;>
        simp [Datum.parts, Datum.tag?, Redirection.tag, Tag.roles, Datum.inside,
          Redirection.fields] at held
      subst held
      cases full
  | assign var val => simp [Datum.parts, Datum.tag?, Tag.roles, Datum.inside] at held
  | _ => cases held

theorem Role.Keeps.part {role : Role} {datum : Datum} (keeps : role.Keeps datum)
    (construct : datum.tag?.isSome = true) {part : Role × Datum} (held : part ∈ datum.parts) :
    part.1.Keeps part.2 := by
  obtain ⟨other, inner⟩ := part
  refine keeps.inner ?_ ?_
  · rw [← Datum.map_snd_parts construct]
    exact List.mem_map_of_mem held
  · rintro rfl
    exact ne_of_optionalWord held (Datum.throughout_iff.mp keeps.inside).1

/-! ## Clauses -/

/--
What stands under a key was walked in its role, and what came of it is found,
unless it counts as nothing.
-/
def Finds (replace : Datum → Option Datum) (good : Datum → Datum → Prop) (key : String)
    (fields : List (String × Datum)) (walked : Walked (Option Datum)) : Prop :=
  ∃ found, walked =
      ⟨(fields.filter (·.1 = key)).flatMap fun field =>
        ((clauseRole field.1).walk (answering replace) field.2).visits, .ok found⟩ ∧
    ∀ value, (key, value) ∈ fields → good value (found.getD value)

/--
What looks for the value under a key and walks it finds all there is, since no
key stands twice.
-/
theorem finds_search (search : List (String × Datum) → Walked (Option Datum))
    {good : Datum → Datum → Prop} {key : String}
    {take : Datum → Walked (Option Datum)} (nil : search [] = pure none)
    (cons : ∀ other value rest,
      search ((other, value) :: rest) = if other = key then take value else search rest)
    {fields : List (String × Datum)} (distinct : (fields.map Prod.fst).Nodup)
    (takes : ∀ value, (key, value) ∈ fields → ∃ found, take value =
        ⟨((clauseRole key).walk (answering replace) value).visits, .ok found⟩ ∧
      good value (found.getD value)) :
    Finds replace good key fields (search fields) := by
  unfold Finds
  induction fields with
  | nil => exact ⟨none, nil, by simp⟩
  | cons field rest ih =>
      obtain ⟨other, value⟩ := field
      obtain ⟨fresh, distinct⟩ := List.nodup_cons.mp distinct
      rw [cons]
      by_cases same : other = key
      · subst same
        have absent {inner : Datum} : (other, inner) ∉ rest := fun held =>
          fresh (List.mem_map.mpr ⟨_, held, rfl⟩)
        have filtered : rest.filter (·.1 = other) = [] := by
          simp only [List.filter_eq_nil_iff, decide_eq_true_eq]
          rintro field held rfl
          exact absent held
        obtain ⟨found, taken, fits⟩ := takes value List.mem_cons_self
        refine ⟨found, by simp [taken, filtered], fun inner held => ?_⟩
        rcases List.mem_cons.mp held with here | later
        · cases here
          exact fits
        · exact absurd later absent
      · obtain ⟨found, searched, fits⟩ :=
          ih distinct fun value held => takes value (List.mem_cons_of_mem _ held)
        refine ⟨found, by simp [same, searched], fun inner held => ?_⟩
        rcases List.mem_cons.mp held with here | later
        · cases here
          exact absurd rfl same
        · exact fits inner later

/-- The walk of a datum in a role comes to something that goes with it. -/
def Becomes (replace : Datum → Option Datum) (good : Datum → Datum → Prop) (role : Role)
    (datum : Datum) : Prop :=
  ∃ value, (role.walk (answering replace) datum).outcome = .ok value ∧ good datum value

theorem Becomes.exists_some {good : Datum → Datum → Prop} {role : Role} {datum : Datum}
    (becomes : Becomes replace good role datum) :
    ∃ found : Option Datum, (do return some (← role.walk (answering replace) datum)) =
        (⟨(role.walk (answering replace) datum).visits, .ok found⟩ : Walked (Option Datum)) ∧
      good datum (found.getD datum) := by
  obtain ⟨value, came, fits⟩ := becomes
  refine ⟨some value, ?_, fits⟩
  rw [Walked.bind_of_ok came]
  simp [pure]

theorem finds_walkPatterns {good : Datum → Datum → Prop} {fields : List (String × Datum)}
    (distinct : (fields.map Prod.fst).Nodup)
    (becomes : ∀ field ∈ fields, Becomes replace good (clauseRole field.1) field.2) :
    Finds replace good "cpattern" fields (walkPatterns (answering replace) fields) :=
  finds_search _ rfl (fun _ _ _ => walkPatterns.eq_2 ..) distinct fun _ held =>
    (becomes _ held).exists_some

theorem finds_walkBody {good : Datum → Datum → Prop} {fields : List (String × Datum)}
    (distinct : (fields.map Prod.fst).Nodup)
    (becomes : ∀ field ∈ fields, Becomes replace good (clauseRole field.1) field.2)
    (nothing : ∀ value, ("cbody", value) ∈ fields → value.truthy = false → value = .null) :
    Finds replace good "cbody" fields (walkBody (answering replace) fields) := by
  refine finds_search _ rfl (fun _ _ _ => walkBody.eq_2 ..) distinct fun value held => ?_
  have body : (clauseRole "cbody").walk (answering replace) value =
      if value.truthy then value.walk (answering replace) else pure .null := rfl
  by_cases counts : value.truthy = true
  · have found := (becomes _ held).exists_some
    rw [body, if_pos counts] at found
    rwa [body, if_pos counts, if_pos counts]
  · obtain rfl := nothing value held (by simpa using counts)
    obtain ⟨_, came, fits⟩ := becomes _ held
    cases came
    exact ⟨none, rfl, fits⟩

/-- Putting a value that was found in place changes what stands under the key. -/
theorem setField_found (key : String) (found : Option Datum) (fields : List (String × Datum)) :
    (found.map fun value => setField key value fields).getD fields =
      fields.map fun field => if field.1 = key then (key, found.getD field.2) else field := by
  cases found with
  | none =>
      refine (List.map_id fields).symm.trans (List.map_congr_left fun field _ => ?_)
      split
      · next here => rw [← here]; rfl
      · rfl
  | some value => rfl

theorem clauseRole_eq_scalar {key : String} (notPattern : key ≠ "cpattern")
    (notBody : key ≠ "cbody") : clauseRole key = .scalar := by
  rw [clauseRole, if_neg notPattern, if_neg notBody]

theorem clauseRole_ne_optionalWord (key : String) : clauseRole key ≠ .optionalWord := by
  unfold clauseRole
  split
  · simp
  · split <;> simp

/-- The fields of a clause with what was found put under the keys. -/
def putFound (patterns body : Option Datum) (fields : List (String × Datum)) :
    List (String × Datum) :=
  let patterned := (patterns.map fun value => setField "cpattern" value fields).getD fields
  (body.map fun value => setField "cbody" value patterned).getD patterned

/-- What stands in a field of a clause when what was found has been put under the keys. -/
def foundIn (patterns body : Option Datum) (field : String × Datum) : Datum :=
  if field.1 = "cpattern" then patterns.getD field.2
  else if field.1 = "cbody" then body.getD field.2
  else field.2

theorem putFound_eq_map (patterns body : Option Datum) (fields : List (String × Datum)) :
    putFound patterns body fields =
      fields.map fun field => (field.1, foundIn patterns body field) := by
  rw [putFound, setField_found "cbody", setField_found "cpattern", List.map_map]
  refine List.map_congr_left fun field _ => ?_
  by_cases isPattern : field.1 = "cpattern"
  · simp [foundIn, isPattern]
  · by_cases isBody : field.1 = "cbody"
    · simp [foundIn, isBody]
    · simp [foundIn, isPattern, isBody]

/-- What stands in a field is what came of it, if nothing but the patterns and the body changes. -/
theorem good_foundIn {good : Datum → Datum → Prop} {patterns body : Option Datum}
    {fields : List (String × Datum)}
    (patternsFit : ∀ value, ("cpattern", value) ∈ fields → good value (patterns.getD value))
    (bodyFits : ∀ value, ("cbody", value) ∈ fields → good value (body.getD value))
    (becomes : ∀ field ∈ fields, Becomes replace good (clauseRole field.1) field.2) :
    ∀ field ∈ fields, good field.2 (foundIn patterns body field) := by
  rintro ⟨key, value⟩ held
  unfold foundIn
  split
  · next isPattern => exact patternsFit value (isPattern ▸ held)
  · next notPattern =>
      split
      · next isBody => exact bodyFits value (isBody ▸ held)
      · next notBody =>
          obtain ⟨_, came, fits⟩ := becomes _ held
          rw [clauseRole_eq_scalar notPattern notBody] at came
          cases came
          exact fits

/-- Fields sorted by what they are for, the patterns first and then the body. -/
theorem filter_patterns_body_perm (fields : List (String × Datum)) :
    (fields.filter (·.1 = "cpattern") ++ (fields.filter (·.1 = "cbody") ++
      fields.filter fun field => field.1 ≠ "cpattern" ∧ field.1 ≠ "cbody")).Perm fields := by
  let unpatterned := fields.filter fun field => !decide (field.1 = "cpattern")
  have others : (fields.filter fun field => field.1 ≠ "cpattern" ∧ field.1 ≠ "cbody") =
      unpatterned.filter fun field => !decide (field.1 = "cbody") := by
    rw [List.filter_filter]
    exact List.filter_congr fun field _ => by simp [and_comm]
  have body : fields.filter (·.1 = "cbody") = unpatterned.filter (·.1 = "cbody") := by
    rw [List.filter_filter]
    exact List.filter_congr fun field _ => by grind
  rw [others, body]
  exact .trans (.append_left _ (List.filter_append_perm ..)) (List.filter_append_perm ..)

/-- What comes of the walk of a clause. -/
theorem walk_clause {good : Datum → Datum → Prop} {fields : List (String × Datum)}
    (distinct : (fields.map Prod.fst).Nodup)
    (becomes : ∀ field ∈ fields, Becomes replace good (clauseRole field.1) field.2)
    (nothing : ∀ value, ("cbody", value) ∈ fields → value.truthy = false → value = .null) :
    ∃ became : String × Datum → Datum,
      Role.clause.walk (answering replace) (.dict fields) =
        ⟨(fields.filter (·.1 = "cpattern") ++ fields.filter (·.1 = "cbody")).flatMap fun field =>
            ((clauseRole field.1).walk (answering replace) field.2).visits,
          .ok (.dict (fields.map fun field => (field.1, became field)))⟩ ∧
      ∀ field ∈ fields, good field.2 (became field) := by
  obtain ⟨patterns, patternsWalked, patternsFit⟩ := finds_walkPatterns distinct becomes
  obtain ⟨body, bodyWalked, bodyFits⟩ := finds_walkBody distinct becomes nothing
  refine ⟨foundIn patterns body, ?_, good_foundIn patternsFit bodyFits becomes⟩
  rw [← putFound_eq_map, Role.walk, Datum.walkClause, patternsWalked, bodyWalked,
    List.flatMap_append]
  simp [bind, Walked.next, pure, putFound]

theorem runs_clause {fields : List (String × Datum)}
    (only : ∀ datum : Datum, datum.tag? = none → replace datum = none)
    (distinct : (fields.map Prod.fst).Nodup)
    (runs : ∀ field ∈ fields, Runs replace (clauseRole field.1) field.2)
    (nothing : ∀ value, ("cbody", value) ∈ fields → value.truthy = false → value = .null) :
    Runs replace .clause (.dict fields) := by
  have unanswered : replace (.dict fields) = none := only _ rfl
  -- a field under whatever key is no word that may be left out
  have becomes : ∀ field ∈ fields, Becomes replace
      (fun datum value => datum.Worded → value = datum.outermost replace)
      (clauseRole field.1) field.2 := by
    intro field held
    obtain ⟨value, came, same⟩ := (runs field held).outcome
    exact ⟨value, came, fun worded =>
      same ⟨fun isWord => absurd isWord (clauseRole_ne_optionalWord _), worded⟩⟩
  obtain ⟨became, walked, outermost⟩ := walk_clause distinct becomes nothing
  constructor
  · refine ⟨_, by rw [walked], fun keeps => ?_⟩
    have same : ∀ field ∈ fields, (field.1, became field) =
        (field.1, field.2.outermost replace) := fun field held =>
      congrArg _ (outermost field held ((Datum.throughout_iff.mp keeps.inside).2 field.2
        (List.mem_map.mpr ⟨_, held, rfl⟩)))
    rw [List.map_congr_left same, Datum.outermost_of_unanswered unanswered]
    simp [Datum.inside, Datum.withInside, List.zip_map']
  · let visited (field : String × Datum) : Datum × List Datum :=
      (field.2, ((clauseRole field.1).walk (answering replace) field.2).visits)
    have each : ∀ inner ∈ fields.map visited, VisitsExposed replace inner.1 inner.2 := by
      intro inner held
      obtain ⟨field, inFields, rfl⟩ := List.mem_map.mp held
      exact (runs field inFields).visits
    have listed := VisitsExposed.entered unanswered (by rw [List.map_map]; rfl) each
      ((filter_patterns_body_perm fields).map visited)
    have nowhere : (fields.filter fun field => field.1 ≠ "cpattern" ∧ field.1 ≠ "cbody").flatMap
        (fun field => (visited field).2) = [] := by
      rw [List.flatMap_eq_nil_iff]
      intro field held
      obtain ⟨notPattern, notBody⟩ := by simpa using (List.mem_filter.mp held).2
      simp only [visited, clauseRole_eq_scalar notPattern notBody]
      rfl
    rw [List.flatMap_map, List.flatMap_append, List.flatMap_append, nowhere, List.append_nil,
      ← List.flatMap_append] at listed
    rw [walked]
    exact listed.of_cons rfl

end ShellTree
