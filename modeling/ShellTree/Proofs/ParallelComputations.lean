import ShellTree.Proofs.NodeFields

/-!
# Parallel computations

Two computations run in parallel if the second one comes to a result whenever
the first one does, and the two results are related.  Reading a node again after
one of its fields has been replaced runs in parallel to reading it before: the
other fields are found as they were.
-/

namespace ShellTree

/-- If the first computation comes to a result, so does the second one, to a related result. -/
def Parallel {α β : Type} (related : α → β → Prop) (result : Except Fault α)
    (other : Except Fault β) : Prop :=
  ∀ value, result = .ok value → ∃ following, other = .ok following ∧ related value following

namespace Parallel

variable {α β γ δ : Type} {related : α → β → Prop} {closer : γ → δ → Prop}
  {result : Except Fault α} {other : Except Fault β}

theorem pure {value : α} {following : β} (holds : related value following) :
    Parallel related (Pure.pure value) (Pure.pure following) := by
  intro found same
  cases same
  exact ⟨following, rfl, holds⟩

theorem fault (fault : Fault) : Parallel related (.error fault) other := by
  intro value same
  cases same

/-- Two results are related, and they are the results of the two computations. -/
theorem known (parallel : Parallel related result other) :
    Parallel (fun value following => result = .ok value ∧ other = .ok following ∧
      related value following) result other := by
  intro value same
  obtain ⟨following, found, holds⟩ := parallel value same
  exact ⟨following, found, same, found, holds⟩

theorem bind {next : α → Except Fault γ} {going : β → Except Fault δ}
    (parallel : Parallel related result other)
    (after : ∀ value following, related value following →
      Parallel closer (next value) (going following)) :
    Parallel closer (result >>= next) (other >>= going) := by
  intro value same
  obtain ⟨first, found, same⟩ := bind_eq_ok_iff.mp same
  obtain ⟨following, there, holds⟩ := parallel first found
  rw [there]
  exact after first following holds value same

/-- The same step on both sides. -/
theorem step {next : α → Except Fault γ} {going : α → Except Fault δ}
    (after : ∀ value, result = .ok value → Parallel closer (next value) (going value)) :
    Parallel closer (result >>= next) (result >>= going) := by
  intro value same
  obtain ⟨first, found, same⟩ := bind_eq_ok_iff.mp same
  rw [found]
  exact after first found value same

/-- The same choice on both sides. -/
theorem ite {condition : Prop} [Decidable condition] {first second : Except Fault α}
    {third fourth : Except Fault β} (yes : condition → Parallel related first third)
    (no : ¬ condition → Parallel related second fourth) :
    Parallel related (if condition then first else second)
      (if condition then third else fourth) := by
  split
  next holds => exact yes holds
  next fails => exact no fails

/-- Two lists are gone through that differ at one place only. -/
theorem mapM {read : γ → Except Fault α} {earlier later : List γ} {item changed : γ}
    {related : α → α → Prop} (parallel : Parallel related (read item) (read changed)) :
    Parallel (fun values others => ∃ before behind value following, related value following ∧
        values = before ++ value :: behind ∧ others = before ++ following :: behind)
      ((earlier ++ item :: later).mapM read) ((earlier ++ changed :: later).mapM read) := by
  have from_here : Parallel (fun values others => ∃ behind value following,
        related value following ∧ values = value :: behind ∧ others = following :: behind)
      ((item :: later).mapM read) ((changed :: later).mapM read) := by
    rw [List.mapM_cons, List.mapM_cons]
    exact parallel.bind fun value following holds => step fun behind _ =>
      pure ⟨behind, value, following, holds, rfl, rfl⟩
  rw [List.mapM_append, List.mapM_append]
  refine step fun before _ => from_here.bind fun values others tail => pure ?_
  obtain ⟨behind, value, following, holds, rfl, rfl⟩ := tail
  exact ⟨before, behind, value, following, holds, rfl, rfl⟩

end Parallel

/-! ## Nodes with a replaced field -/

namespace Json

variable {node : Json} {key changed : String} {value : Json}

/-- A node after one of its fields has been replaced. -/
def withField (node : Json) (key : String) (value : Json) : Json :=
  match node with
  | .obj fields => .obj (insertField key value fields)
  | other => other

theorem lookup_insertField_of_ne (apart : key ≠ changed) (value : Json)
    (fields : List (String × Json)) :
    (insertField changed value fields).lookup key = fields.lookup key := by
  have differs : (key == changed) = false := by simpa using apart
  induction fields with
  | nil => simp [insertField, List.lookup_cons, differs]
  | cons field rest ih =>
      obtain ⟨other, old⟩ := field
      by_cases same : other = changed
      · subst same
        simp [insertField, List.lookup_cons, differs]
      · simp only [insertField, if_neg same, List.lookup_cons, ih]

theorem get?_withField (object : node.isObject = true) (key : String) (value : Json) :
    (node.withField key value).get? key = some value := by
  cases node with
  | obj fields => exact lookup_insertField key value fields
  | _ => cases object

theorem get?_withField_of_ne (apart : key ≠ changed) (node value : Json) :
    (node.withField changed value).get? key = node.get? key := by
  cases node with
  | obj fields => exact lookup_insertField_of_ne apart value fields
  | _ => rfl

theorem isObject_withField (node : Json) (key : String) (value : Json) :
    (node.withField key value).isObject = node.isObject := by
  cases node <;> rfl

section

variable {γ δ : Type} {closer : γ → δ → Prop} {next : node.Inside → Except Fault γ}
  {going : (node.withField changed value).Inside → Except Fault δ}

/-- Another field is fetched as before. -/
theorem parallel_fetch (apart : key ≠ changed)
    (after : ∀ inner smaller still,
      Parallel closer (next ⟨inner, smaller⟩) (going ⟨inner, still⟩)) :
    Parallel closer (node.fetch key >>= next)
      ((node.withField changed value).fetch key >>= going) := by
  cases node with
  | obj fields =>
      obtain ⟨smaller, fetched⟩ := fetch_eq (show (obj fields).isObject = true from rfl) key
      obtain ⟨still, found⟩ :=
        fetch_eq (show ((obj fields).withField changed value).isObject = true from rfl) key
      have same := get?_withField_of_ne apart (obj fields) value
      rw [fetched, found]
      simp only [same]
      exact after _ _ _
  | _ => exact .fault _

/-- The field that was replaced is fetched as it is now. -/
theorem parallel_fetch_changed {old : Json} (found : node.get? changed = some old)
    (after : ∀ smaller still, Parallel closer (next ⟨old, smaller⟩) (going ⟨value, still⟩)) :
    Parallel closer (node.fetch changed >>= next)
      ((node.withField changed value).fetch changed >>= going) := by
  obtain ⟨smaller, fetched⟩ := fetch_of_get? found
  obtain ⟨still, there⟩ := fetch_of_get? (get?_withField (isObject_of_get? found) changed value)
  rw [fetched, there]
  exact after smaller still

theorem parallel_require (apart : key ≠ changed)
    (after : ∀ inner smaller still,
      Parallel closer (next ⟨inner, smaller⟩) (going ⟨inner, still⟩)) :
    Parallel closer (node.require key >>= next)
      ((node.withField changed value).require key >>= going) := by
  intro outcome same
  obtain ⟨inner, required, same⟩ := bind_eq_ok_iff.mp same
  have found := get?_of_require required
  rw [← get?_withField_of_ne apart node value] at found
  obtain ⟨still, there⟩ := require_of_get? found
  rw [there]
  exact after inner.1 inner.2 still outcome same

theorem parallel_require_changed {old : Json} (found : node.get? changed = some old)
    (after : ∀ smaller still, Parallel closer (next ⟨old, smaller⟩) (going ⟨value, still⟩)) :
    Parallel closer (node.require changed >>= next)
      ((node.withField changed value).require changed >>= going) := by
  obtain ⟨smaller, required⟩ := require_of_get? found
  obtain ⟨still, there⟩ := require_of_get? (get?_withField (isObject_of_get? found) changed value)
  rw [required, there]
  exact after smaller still

end

/-- The items of a field depend on the field only. -/
theorem children_val (object : node.isObject = true) :
    (node.children key).map (List.map Subtype.val) =
      match node.get? key with
      | none => .ok []
      | some inner => inner.elements.map (List.map Subtype.val) := by
  cases node with
  | obj fields =>
      simp only [children, get?]
      split
      next inner found =>
          simp only [found]
          cases inner.elements with
          | error => rfl
          | ok items => simp [Except.map, bind, Except.bind, pure, Except.pure, Function.comp_def]
      next absent =>
          rw [absent]
          rfl
  | _ => cases object

/-- What is read from the items of a field depends on the values of the items only. -/
theorem children_bind_mapM {α : Type} (node : Json) (key : String)
    (read : Json → Except Fault α) :
    (node.children key >>= fun items => items.mapM fun item => read item.1) =
      (node.children key).map (List.map Subtype.val) >>= List.mapM read := by
  cases node.children key with
  | error => rfl
  | ok items => exact mapM_inside rfl read

/-- The items of another field are read as before. -/
theorem children_withField {α : Type} (apart : key ≠ changed) (node value : Json)
    (read : Json → Except Fault α) :
    ((node.withField changed value).children key >>= fun items =>
        items.mapM fun item => read item.1) =
      node.children key >>= fun items => items.mapM fun item => read item.1 := by
  cases object : node.isObject with
  | true =>
      have still : (node.withField changed value).isObject = true := by
        rw [isObject_withField, object]
      rw [children_bind_mapM, children_bind_mapM, children_val object, children_val still,
        get?_withField_of_ne apart]
  | false =>
      cases node with
      | obj => cases object
      | _ => rfl

section

variable {α γ δ : Type} {closer : γ → δ → Prop} {read : Json → Except Fault α}
  {next : List α → Except Fault γ} {going : List α → Except Fault δ}

theorem parallel_each (apart : key ≠ changed)
    (after : ∀ values, Parallel closer (next values) (going values)) :
    Parallel closer
      (node.children key >>= fun items => (items.mapM fun item => read item.1) >>= next)
      ((node.withField changed value).children key >>= fun items =>
        (items.mapM fun item => read item.1) >>= going) := by
  rw [← bind_assoc, ← bind_assoc, children_withField apart]
  exact .step fun values _ => after values

/-- One item of a field is replaced, and the others are read as before. -/
theorem parallel_each_changed {related : α → α → Prop} {earlier later : List Json}
    {item other : Json} (found : node.get? changed = some (.arr (earlier ++ item :: later)))
    (parallel : Parallel related (read item) (read other))
    (after : ∀ before behind value following, related value following →
      Parallel closer (next (before ++ value :: behind)) (going (before ++ following :: behind))) :
    Parallel closer
      (node.children changed >>= fun items => (items.mapM fun item => read item.1) >>= next)
      ((node.withField changed (.arr (earlier ++ other :: later))).children changed >>=
        fun items => (items.mapM fun item => read item.1) >>= going) := by
  have object := isObject_of_get? found
  have still : (node.withField changed (.arr (earlier ++ other :: later))).isObject = true := by
    rw [isObject_withField, object]
  have elements_arr (items : List Json) :
      (arr items).elements.map (List.map Subtype.val) = .ok items := by
    simp [elements, Except.map, Function.comp_def]
  rw [← bind_assoc, ← bind_assoc, children_bind_mapM, children_bind_mapM, children_val object,
    children_val still, found, get?_withField object]
  simp only [elements_arr, ok_bind]
  refine (Parallel.mapM parallel).bind ?_
  rintro _ _ ⟨before, behind, value, following, holds, rfl, rfl⟩
  exact after before behind value following holds

end

end Json

end ShellTree
