/-!
# Two passes over a list

Items that are gone through twice, once for those without a mark and once for
those with it.  Each pass keeps the order of what it takes, so the order of all
of them is kept just where no item without a mark stands behind one with it.
-/

namespace ShellTree

variable {α : Type}

/-- The items without a mark, and then those with it. -/
def inTwoPasses (marked : α → Bool) (items : List α) : List α :=
  items.filter (fun item => !marked item) ++ items.filter marked

theorem pairwise_inTwoPasses (marked : α → Bool) (items : List α) :
    (inTwoPasses marked items).Pairwise fun first second =>
      marked first = true → marked second = true := by
  apply List.pairwise_append.mpr
  refine ⟨?_, ?_, ?_⟩
  · apply List.pairwise_of_forall_mem_list
    intro first inside second _ mark
    rw [List.mem_filter, mark] at inside
    cases inside.2
  · apply List.pairwise_of_forall_mem_list
    intro first _ second inside _
    exact (List.mem_filter.mp inside).2
  · intro first _ second inside _
    exact (List.mem_filter.mp inside).2

theorem inTwoPasses_eq_self_iff (marked : α → Bool) (items : List α) :
    inTwoPasses marked items = items ↔
      items.Pairwise fun first second => marked first = true → marked second = true := by
  constructor
  · intro same
    have ordered := pairwise_inTwoPasses marked items
    rwa [same] at ordered
  · intro ordered
    induction ordered with
    | nil => rfl
    | @cons item rest later _ ih =>
        by_cases mark : marked item = true
        · have none : rest.filter (fun other => !marked other) = [] := by
            apply List.filter_eq_nil_iff.mpr
            intro other inside
            rw [later other inside mark]
            exact Bool.false_ne_true
          have all : rest.filter marked = rest :=
            List.filter_eq_self.mpr fun other inside => later other inside mark
          rw [inTwoPasses, List.filter_cons_of_neg (by simp [mark]), List.filter_cons_of_pos mark,
            none, all, List.nil_append]
        · rw [inTwoPasses, List.filter_cons_of_pos (by simpa using mark),
            List.filter_cons_of_neg mark, List.cons_append]
          exact congrArg (List.cons item) ih

end ShellTree
