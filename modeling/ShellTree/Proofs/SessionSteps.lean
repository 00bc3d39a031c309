import ShellTree.Proofs.CommandSteps

/-!
# The reader takes its steps

A session follows the steps of a command: it stops at the first fault, begins
and ends functions, and reads the commands inside.  A reading takes steps if it
does just that, and puts together what the commands inside have become.
-/

namespace ShellTree

namespace Bash

/-! ## Following steps -/

/-- What a session comes to by steps: what the commands have become, or a fault. -/
def Session.follow (session : Session) : List Step → Except Fault (List Datum) × Session
  | [] => (.ok [], session)
  | .fault cause :: _ => (.error cause, session)
  | .enter :: rest => Session.follow ⟨true⟩ rest
  | .leave :: rest => Session.follow ⟨false⟩ rest
  | .command inner :: rest =>
      match session.read inner with
      | (.error cause, after) => (.error cause, after)
      | (.ok tree, after) => ((after.follow rest).1.map (tree :: ·), (after.follow rest).2)

theorem Session.follow_command_eq_ok {session after : Session} {inner : Record}
    {steps : List Step} {trees : List Datum} :
    session.follow (.command inner :: steps) = (.ok trees, after) ↔
      ∃ tree others between, session.read inner = (.ok tree, between) ∧
        between.follow steps = (.ok others, after) ∧ trees = tree :: others := by
  rw [follow]
  rcases session.read inner with ⟨cause | tree, between⟩
  · simp
  · dsimp only
    constructor
    · intro came
      rcases rest : between.follow steps with ⟨cause | others, last⟩ <;> rw [rest] at came <;>
        cases came
      exact ⟨tree, others, between, rfl, rest, rfl⟩
    · rintro ⟨_, others, _, ⟨⟩, rest, rfl⟩
      rw [rest]
      rfl

theorem Session.follow_append (session : Session) (steps others : List Step) :
    session.follow (steps ++ others) =
      match session.follow steps with
      | (.error cause, after) => (.error cause, after)
      | (.ok trees, after) =>
          ((after.follow others).1.map (trees ++ ·), (after.follow others).2) := by
  induction steps generalizing session with
  | nil =>
      rcases rest : session.follow others with ⟨_ | _, _⟩ <;> simp [follow, rest, Except.map]
  | cons step steps ih =>
      cases step with
      | fault cause => rfl
      | enter => exact ih ⟨true⟩
      | leave => exact ih ⟨false⟩
      | command inner =>
          rw [List.cons_append, follow, follow]
          split
          · rfl
          · next tree after _ =>
              rw [ih after]
              rcases after.follow steps with ⟨cause | trees, last⟩
              · rfl
              · rcases rest : last.follow others with ⟨_ | _, _⟩ <;> simp [rest, Except.map]

/--
A reading takes steps: it has the fault of the steps, it leaves the session as
they do, and what it gives is made of what the commands have become.
-/
structure Takes {α : Type} (reading : Reading α) (steps : List Step)
    (made : List Datum → Session → α → Prop) : Prop where
  fault {session after : Session} {cause : Fault}
    (followed : session.follow steps = (.error cause, after)) :
    reading.run.run session = (.error cause, after)
  value {session after : Session} {trees : List Datum}
    (followed : session.follow steps = (.ok trees, after)) :
    ∃ value, reading.run.run session = (.ok value, after) ∧ made trees after value

theorem run_bind_of_ok {α β : Type} {reading : Reading α} {session after : Session} {value : α}
    (came : reading.run.run session = (.ok value, after)) (next : α → Reading β) :
    (reading >>= next).run.run session = (next value).run.run after := by
  rw [ExceptT.run_bind, StateT.run_bind, came]
  rfl

theorem run_bind_of_error {α β : Type} {reading : Reading α} {session after : Session}
    {cause : Fault} (failed : reading.run.run session = (.error cause, after))
    (next : α → Reading β) : (reading >>= next).run.run session = (.error cause, after) := by
  rw [ExceptT.run_bind, StateT.run_bind, failed]
  rfl

namespace Takes

variable {α β : Type} {made : List Datum → Session → β → Prop}

theorem done {value : β} (made_nil : ∀ session, made [] session value) :
    Takes (pure value) [] made where
  fault followed := by cases followed
  value followed := by
    cases followed
    exact ⟨value, rfl, made_nil _⟩

/-- The last thing a reading does may be to look at the session. -/
theorem ask {value : Session → β} (made_nil : ∀ session, made [] session (value session)) :
    Takes (do return value (← getThe Session)) [] made where
  fault followed := by cases followed
  value followed := by
    cases followed
    exact ⟨value _, rfl, made_nil _⟩

theorem fail {cause : Fault} : Takes (throw cause) [.fault cause] made where
  fault followed := by
    cases followed
    rfl
  value followed := by cases followed

theorem fail_bind {cause : Fault} {next : α → Reading β} :
    Takes (throw cause >>= next) [.fault cause] made where
  fault followed := by
    cases followed
    rfl
  value followed := by cases followed

theorem given {outcome : Except Fault α} {next : α → Reading β} {steps : α → List Step}
    (takes : ∀ value, outcome = .ok value → Takes (next value) (steps value) made) :
    Takes (liftM outcome >>= next) (given outcome steps) made := by
  cases outcome with
  | error cause => exact fail_bind
  | ok value => exact takes value rfl

theorem enter {next : PUnit → Reading β} {steps : List Step} (takes : Takes (next ⟨⟩) steps made) :
    Takes (set (Session.mk true) >>= next) (.enter :: steps) made where
  fault followed := takes.fault followed
  value followed := takes.value followed

theorem leave {next : PUnit → Reading β} {steps : List Step} (takes : Takes (next ⟨⟩) steps made) :
    Takes (set (Session.mk false) >>= next) (.leave :: steps) made where
  fault followed := takes.fault followed
  value followed := takes.value followed

theorem command {inner : Record} {next : Datum → Reading β} {steps : List Step}
    (takes : ∀ tree, Takes (next tree) steps fun trees => made (tree :: trees)) :
    Takes (readCommand inner >>= next) (.command inner :: steps) made := by
  constructor
  · intro session after cause followed
    rw [Session.follow] at followed
    split at followed
    · next failed =>
        cases followed
        exact run_bind_of_error failed next
    · next tree last read =>
        rw [run_bind_of_ok read next]
        refine (takes tree).fault ?_
        rcases rest : last.follow steps with ⟨_ | _, _⟩ <;> rw [rest] at followed <;> cases followed
        rfl
  · intro session after trees followed
    obtain ⟨tree, others, between, read, goesOn, rfl⟩ := Session.follow_command_eq_ok.mp followed
    rw [run_bind_of_ok read next]
    exact (takes tree).value goesOn

theorem whenPresent {inner : Record} {next : Datum → Reading β} {steps : List Step}
    (absent : Takes (next .null) steps made)
    (present : ∀ tree, Takes (next tree) steps fun trees => made (tree :: trees)) :
    Takes (if inner.truthy then readCommand inner >>= next else pure .null >>= next)
      (whenPresent inner steps) made := by
  unfold Bash.whenPresent
  split
  · exact .command present
  · rwa [pure_bind]

theorem append {reading : Reading α} {next : α → Reading β} {steps others : List Step}
    {part : List Datum → Session → α → Prop} {rest : α → List Datum → Session → β → Prop}
    (takes : Takes reading steps part) (goesOn : ∀ value, Takes (next value) others (rest value))
    (whole : ∀ {first second value result between last}, part first between value →
      rest value second last result → made (first ++ second) last result) :
    Takes (reading >>= next) (steps ++ others) made := by
  constructor
  · intro session after cause followed
    rw [Session.follow_append] at followed
    split at followed
    · next failed =>
        cases followed
        exact run_bind_of_error (takes.fault failed) next
    · next trees between came =>
        obtain ⟨value, read, _⟩ := takes.value came
        rw [run_bind_of_ok read next]
        refine (goesOn value).fault ?_
        rcases rest : between.follow others with ⟨_ | _, _⟩ <;> rw [rest] at followed <;>
          cases followed
        rfl
  · intro session after trees followed
    rw [Session.follow_append] at followed
    split at followed
    · cases followed
    · next first between came =>
        obtain ⟨value, read, made_first⟩ := takes.value came
        rw [run_bind_of_ok read next]
        rcases came_second : between.follow others with ⟨_ | second, _⟩ <;>
          rw [came_second] at followed <;> cases followed
        obtain ⟨result, read, made_second⟩ := (goesOn value).value came_second
        exact ⟨result, read, whole made_first made_second⟩

theorem mono {reading : Reading β} {steps : List Step} {part : List Datum → Session → β → Prop}
    (takes : Takes reading steps part)
    (implies : ∀ {trees session value}, part trees session value → made trees session value) :
    Takes reading steps made := by
  refine ⟨takes.fault, fun followed => ?_⟩
  obtain ⟨value, read, made_value⟩ := takes.value followed
  exact ⟨value, read, implies made_value⟩

theorem map {reading : Reading α} {steps : List Step} {build : α → β}
    {part : List Datum → Session → α → Prop} (takes : Takes reading steps part)
    (builds : ∀ {trees session value}, part trees session value →
      made trees session (build value)) :
    Takes (do return build (← reading)) steps made := by
  constructor
  · intro session after cause followed
    exact run_bind_of_error (takes.fault followed) _
  · intro session after trees followed
    obtain ⟨value, read, made_value⟩ := takes.value followed
    exact ⟨build value, run_bind_of_ok read _, builds made_value⟩

end Takes

end Bash

end ShellTree
