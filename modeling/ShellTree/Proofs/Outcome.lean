import ShellTree.Fault

/-!
# Outcomes

What a computation that may end with a fault comes to.  A computation that goes
on comes to a result only if its first part does, and what holds of every result
is found by going through the parts one by one.
-/

namespace ShellTree

/-- What goes on after a result gives a value only if the result was one. -/
theorem bind_eq_ok_iff {α β : Type} {result : Except Fault α} {next : α → Except Fault β}
    {value : β} :
    result >>= next = .ok value ↔ ∃ first, result = .ok first ∧ next first = .ok value := by
  cases result with
  | error fault => simp [bind, Except.bind]
  | ok first => simp [bind, Except.bind]

/-- If there is a result, it is a good one. -/
def Always {α : Type} (result : Except Fault α) (good : α → Prop) : Prop :=
  ∀ value, result = .ok value → good value

namespace Always

variable {α β : Type} {good : α → Prop} {better : β → Prop}

theorem pure {value : α} (holds : good value) : Always (Pure.pure value) good := by
  intro other same
  cases same
  exact holds

theorem fault (fault : Fault) : Always (.error fault) good := by
  intro value same
  cases same

theorem bind {result : Except Fault α} {next : α → Except Fault β} (always : Always result good)
    (after : ∀ value, good value → Always (next value) better) :
    Always (result >>= next) better := by
  intro value same
  cases result with
  | error fault => cases same
  | ok first => exact after first (always first rfl) value same

theorem self {result : Except Fault α} : Always result fun value => result = .ok value :=
  fun _ same => same

theorem mono {result : Except Fault α} {worse : α → Prop} (always : Always result good)
    (imply : ∀ value, good value → worse value) : Always result worse :=
  fun value same => imply value (always value same)

/-- A step whose result does not matter. -/
theorem skip {result : Except Fault α} {next : α → Except Fault β}
    (after : ∀ value, Always (next value) better) : Always (result >>= next) better :=
  bind (show Always result fun _ => True from fun _ _ => trivial) fun value _ => after value

theorem mapM {γ : Type} {items : List γ} {read : γ → Except Fault α}
    (each : ∀ item ∈ items, Always (read item) good) :
    Always (items.mapM read) fun values => ∀ value ∈ values, good value := by
  induction items with
  | nil => exact pure (by simp)
  | cons item rest ih =>
      rw [List.mapM_cons]
      refine bind (each item List.mem_cons_self) fun first held => ?_
      refine bind (ih fun other member => each other (List.mem_cons_of_mem _ member)) ?_
      exact fun others following => pure (List.forall_mem_cons.mpr ⟨held, following⟩)

theorem ite {condition : Prop} [Decidable condition] {first second : Except Fault α}
    (yes : condition → Always first good) (no : ¬ condition → Always second good) :
    Always (if condition then first else second) good := by
  split
  next holds => exact yes holds
  next fails => exact no fails

/-- Two branches that go on in the same way. -/
theorem either {condition : Prop} [Decidable condition] {first second : Except Fault α}
    {next : α → Except Fault β} (yes : Always first good) (no : Always second good)
    (after : ∀ value, good value → Always (next value) better) :
    Always (if condition then first >>= next else second >>= next) better :=
  ite (fun _ => bind yes after) fun _ => bind no after

end Always

end ShellTree
