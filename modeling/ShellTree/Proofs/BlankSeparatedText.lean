import ShellTree.Print.Render

/-!
# Texts cut at blanks

A text that is written as tokens with a blank before each of them can be cut
into these tokens again, if none of them holds a blank.  What is used is that a
stretch of a list can be told from what follows it if all of the stretch, and
not the first item behind it, is of a certain kind.
-/

namespace ShellTree

section Stretches

variable {α : Type} {inside : α → Bool} {left right after others : List α}

/-- What follows a stretch does not go on with it. -/
def Stops (inside : α → Bool) (after : List α) : Prop :=
  ∀ item ∈ after.head?, inside item = false

theorem takeWhile_append_of_stops (all : ∀ item ∈ left, inside item = true)
    (stops : Stops inside after) : (left ++ after).takeWhile inside = left := by
  have nothing : after.takeWhile inside = [] := by
    cases after with
    | nil => rfl
    | cons item rest =>
        have ends : inside item = false := stops item rfl
        rw [List.takeWhile_cons, ends]
        rfl
  rw [List.takeWhile_append_of_pos all, nothing, List.append_nil]

/-- Stretches of one kind with something of another kind behind them are told apart. -/
theorem append_inj_of_stops (all : ∀ item ∈ left, inside item = true)
    (each : ∀ item ∈ right, inside item = true) (stops : Stops inside after)
    (ends : Stops inside others) (same : left ++ after = right ++ others) :
    left = right ∧ after = others := by
  have stretch : left = right := by
    rw [← takeWhile_append_of_stops all stops, same, takeWhile_append_of_stops each ends]
  subst stretch
  exact ⟨rfl, List.append_cancel_left same⟩

end Stretches

/-- A word whose text holds no blank. -/
structure SolidWord where
  datum : Datum
  text : String
  printed : datum.renderWord .unquoted = .ok text
  unbroken : ' ' ∉ text.toList

/-- Tokens with a blank before each of them. -/
def spaced : List String → String
  | [] => ""
  | token :: rest => " " ++ token ++ spaced rest

theorem spaced_append (tokens others : List String) :
    spaced (tokens ++ others) = spaced tokens ++ spaced others := by
  induction tokens with
  | nil => rw [List.nil_append, spaced, String.empty_append]
  | cons token rest ih => simp only [List.cons_append, spaced, ih, String.append_assoc]

theorem spaced_cons_ne_empty (token : String) (rest : List String) : spaced (token :: rest) ≠ "" := by
  intro same
  have chars := congrArg String.toList same
  simp [spaced] at chars

/-- Is a character none that tokens are cut at? -/
def isSolid (c : Char) : Bool :=
  c != ' '

theorem stops_spaced (tokens : List String) : Stops isSolid (spaced tokens).toList := by
  cases tokens with
  | nil => rintro c ⟨⟩
  | cons token rest =>
      rw [spaced, String.toList_append, String.toList_append]
      rintro c ⟨⟩
      rfl

/-- A text cut at its blanks has the tokens that it is written from. -/
theorem spaced_inj {tokens others : List String}
    (unbroken : ∀ token ∈ tokens, ' ' ∉ token.toList)
    (whole : ∀ token ∈ others, ' ' ∉ token.toList) (same : spaced tokens = spaced others) :
    tokens = others := by
  have solid : ∀ {token : String}, ' ' ∉ token.toList → ∀ c ∈ token.toList, isSolid c = true := by
    intro token clean c inside
    refine bne_iff_ne.mpr ?_
    rintro rfl
    exact clean inside
  induction tokens generalizing others with
  | nil =>
      cases others with
      | nil => rfl
      | cons next more => exact absurd same.symm (spaced_cons_ne_empty next more)
  | cons token rest ih =>
      cases others with
      | nil => exact absurd same (spaced_cons_ne_empty token rest)
      | cons next more =>
          have chars : token.toList ++ (spaced rest).toList =
              next.toList ++ (spaced more).toList := by
            have whole := congrArg String.toList same
            simpa [spaced] using whole
          obtain ⟨first, following⟩ := append_inj_of_stops
            (solid (unbroken token List.mem_cons_self)) (solid (whole next List.mem_cons_self))
            (stops_spaced rest) (stops_spaced more) chars
          rw [String.toList_injective first, ih (List.forall_mem_cons.mp unbroken).2
            (List.forall_mem_cons.mp whole).2 (String.toList_injective following)]

end ShellTree
