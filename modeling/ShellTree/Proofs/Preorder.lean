import ShellTree.Proofs.DatumInside

/-!
# Preorders

A position of a tree is exposed if a construct stands there and nothing answered
stands above it.  A list of positions is a preorder of the exposed ones if it
holds each of them once, before all those below it, and these without a gap.
The preorders of a tree are put together from those of the data inside it, in
any order.
-/

namespace ShellTree

open Datum (Uncovered uncovered_nil uncovered_cons)

/-- A construct stands at the position, and no answered datum stands above it. -/
def Exposed (replace : Datum → Option Datum) (tree : Datum) (position : List Nat) : Prop :=
  (∃ node, tree.at? position = some node ∧ node.tag?.isSome = true) ∧
    Uncovered replace tree position

theorem exposed_nil {replace : Datum → Option Datum} {tree : Datum} :
    Exposed replace tree [] ↔ tree.tag?.isSome = true := by
  constructor
  · rintro ⟨⟨node, found, construct⟩, _⟩
    cases found
    exact construct
  · intro construct
    exact ⟨⟨tree, rfl, construct⟩, uncovered_nil⟩

theorem exposed_cons {replace : Datum → Option Datum} {tree : Datum} {index : Nat}
    {rest : List Nat} :
    Exposed replace tree (index :: rest) ↔
      replace tree = none ∧
        ∃ inner, tree.inside[index]? = some inner ∧ Exposed replace inner rest := by
  constructor
  · rintro ⟨⟨node, found, construct⟩, uncovered⟩
    obtain ⟨inner, here, below⟩ := Option.bind_eq_some_iff.mp found
    obtain ⟨unanswered, uncovered⟩ := (uncovered_cons here).mp uncovered
    exact ⟨unanswered, inner, here, ⟨node, below, construct⟩, uncovered⟩
  · rintro ⟨unanswered, inner, here, ⟨node, below, construct⟩, uncovered⟩
    refine ⟨⟨node, ?_, construct⟩, (uncovered_cons here).mpr ⟨unanswered, uncovered⟩⟩
    rw [Datum.at?_cons_of_getElem? here, below]

/--
The positions list the exposed constructs of a tree in preorder: each of them
once, before all those below it, and these without a gap.
-/
structure Preordered (replace : Datum → Option Datum) (tree : Datum)
    (positions : List (List Nat)) : Prop where
  nodup : positions.Nodup
  mem_iff : ∀ position, position ∈ positions ↔ Exposed replace tree position
  contiguous : ∀ position ∈ positions, ∃ before below after,
    positions = before ++ position :: (below ++ after) ∧
      (∀ other ∈ below, position <+: other) ∧
      ∀ other ∈ before ++ after, ¬ position <+: other

namespace Preordered

variable {replace : Datum → Option Datum} {tree : Datum}

/-- Nothing below an answered construct is exposed. -/
theorem answered {other : Datum} (construct : tree.tag?.isSome = true)
    (answer : replace tree = some other) : Preordered replace tree [[]] where
  nodup := by simp
  mem_iff position := by
    cases position with
    | nil => simp [exposed_nil, construct]
    | cons index rest => simp [exposed_cons, answer]
  contiguous position held := by
    cases List.mem_singleton.mp held
    exact ⟨[], [], [], rfl, by simp, by simp⟩

/-- The position of the datum itself, if it is a construct. -/
def top (tree : Datum) : List (List Nat) :=
  if tree.tag?.isSome then [[]] else []

theorem mem_top {position : List Nat} :
    position ∈ top tree ↔ position = [] ∧ tree.tag?.isSome = true := by
  unfold top
  split <;> simp_all

/-- The positions below those with the given indexes, taken in the given order. -/
def under (order : List Nat) (below : Nat → List (List Nat)) : List (List Nat) :=
  order.flatMap fun index => (below index).map (index :: ·)

theorem nil_not_mem_under {order : List Nat} {below : Nat → List (List Nat)} :
    [] ∉ under order below := by
  simp [under]

theorem cons_mem_under {order : List Nat} {below : Nat → List (List Nat)} {index : Nat}
    {rest : List Nat} : index :: rest ∈ under order below ↔ index ∈ order ∧ rest ∈ below index := by
  simp only [under, List.mem_flatMap, List.mem_map, List.cons.injEq]
  constructor
  · rintro ⟨first, listed, others, held, rfl, rfl⟩
    exact ⟨listed, held⟩
  · rintro ⟨listed, held⟩
    exact ⟨index, listed, rest, held, rfl, rfl⟩

theorem nodup_under {order : List Nat} {below : Nat → List (List Nat)} (distinct : order.Nodup)
    (each : ∀ index ∈ order, (below index).Nodup) : (under order below).Nodup := by
  refine List.pairwise_flatMap.mpr ⟨fun index listed => ?_, distinct.imp ?_⟩
  · exact List.pairwise_map.mpr ((each index listed).imp fun different same =>
      different (List.cons.inj same).2)
  · intro first second different one inFirst two inSecond same
    obtain ⟨_, _, rfl⟩ := List.mem_map.mp inFirst
    obtain ⟨_, _, rfl⟩ := List.mem_map.mp inSecond
    exact different (List.cons.inj same).1

/-- What follows from a position under one index does not stand under another. -/
theorem contiguous_under {order : List Nat} {below : Nat → List (List Nat)} {index : Nat}
    {rest : List Nat} {before within after : List (List Nat)} (distinct : order.Nodup)
    (listed : index ∈ order) (split : below index = before ++ rest :: (within ++ after))
    (deeper : ∀ other ∈ within, rest <+: other)
    (apart : ∀ other ∈ before ++ after, ¬ rest <+: other) :
    ∃ earlier inner later,
      under order below = earlier ++ (index :: rest) :: (inner ++ later) ∧
        (∀ other ∈ inner, index :: rest <+: other) ∧
        ∀ other ∈ earlier ++ later, ¬ index :: rest <+: other := by
  obtain ⟨first, last, rfl⟩ := List.append_of_mem listed
  have once : index ∉ first ∧ index ∉ last := by grind [List.nodup_append]
  refine ⟨under first below ++ before.map (index :: ·), within.map (index :: ·),
    after.map (index :: ·) ++ under last below, by simp [under, split], ?_, ?_⟩
  · intro other held
    obtain ⟨tail, inWithin, rfl⟩ := List.mem_map.mp held
    exact List.cons_prefix_cons.mpr ⟨rfl, deeper tail inWithin⟩
  · rintro other elsewhere ⟨tail, rfl⟩
    -- it starts with the same index, so it can only come from the same list below
    have only : rest ++ tail ∈ before ++ after := by
      simpa [cons_mem_under, once] using elsewhere
    exact apart (rest ++ tail) only (List.prefix_append rest tail)

/--
The exposed positions of an unanswered datum are its own and those of what is
inside it, in any order.
-/
theorem entered {order : List Nat} {below : Nat → List (List Nat)}
    (unanswered : replace tree = none) (complete : order.Perm (List.range tree.inside.length))
    (inside : ∀ index inner, tree.inside[index]? = some inner →
      Preordered replace inner (below index)) :
    Preordered replace tree (top tree ++ under order below) := by
  have distinct : order.Nodup := complete.nodup_iff.mpr List.nodup_range
  have mem_order {index : Nat} : index ∈ order ↔ ∃ inner, tree.inside[index]? = some inner := by
    rw [complete.mem_iff, List.mem_range]
    exact ⟨fun bound => ⟨_, List.getElem?_eq_getElem bound⟩,
      fun ⟨_, found⟩ => (List.getElem?_eq_some_iff.mp found).1⟩
  refine ⟨List.nodup_append.mpr ⟨?_, nodup_under distinct fun index listed => ?_, ?_⟩,
    fun position => ?_, fun position held => ?_⟩
  · unfold top
    split <;> simp
  · obtain ⟨inner, found⟩ := mem_order.mp listed
    exact (inside index inner found).nodup
  · rintro _ inTop _ inUnder rfl
    exact nil_not_mem_under ((mem_top.mp inTop).1 ▸ inUnder)
  · rw [List.mem_append, mem_top]
    cases position with
    | nil => simp [nil_not_mem_under, exposed_nil]
    | cons index rest =>
        simp only [reduceCtorEq, false_and, false_or, cons_mem_under, exposed_cons, unanswered,
          true_and, mem_order]
        constructor
        · rintro ⟨⟨inner, found⟩, held⟩
          exact ⟨inner, found, ((inside index inner found).mem_iff rest).mp held⟩
        · rintro ⟨inner, found, exposed⟩
          exact ⟨⟨inner, found⟩, ((inside index inner found).mem_iff rest).mpr exposed⟩
  · cases position with
    | nil =>
        have construct : tree.tag?.isSome = true := by
          simpa [mem_top, nil_not_mem_under] using held
        exact ⟨[], under order below, [], by simp [top, construct], by simp, by simp⟩
    | cons index rest =>
        obtain ⟨listed, heldBelow⟩ : index ∈ order ∧ rest ∈ below index := by
          simpa [mem_top, cons_mem_under] using held
        obtain ⟨inner, found⟩ := mem_order.mp listed
        obtain ⟨_, _, _, split, deeper, apart⟩ :=
          (inside index inner found).contiguous rest heldBelow
        obtain ⟨earlier, within, later, whole, deeper, apart⟩ :=
          contiguous_under distinct listed split deeper apart
        refine ⟨top tree ++ earlier, within, later, by simp [whole], deeper, ?_⟩
        intro other elsewhere
        rw [List.append_assoc, List.mem_append, mem_top] at elsewhere
        rcases elsewhere with ⟨rfl, _⟩ | elsewhere
        · simp
        · exact apart other elsewhere

end Preordered

/-! ## Visits -/

/-- The constructs among some data. -/
def constructs (data : List Datum) : List Datum :=
  data.filter fun datum => datum.tag?.isSome

theorem constructs_append (first second : List Datum) :
    constructs (first ++ second) = constructs first ++ constructs second :=
  List.filter_append ..

/-- The constructs among the visited data are the exposed ones of a tree in preorder. -/
def VisitsExposed (replace : Datum → Option Datum) (tree : Datum) (visits : List Datum) : Prop :=
  ∃ positions, Preordered replace tree positions ∧
    (constructs visits).map some = positions.map tree.at?

/-- A permuted list takes its items from the other by their indexes, each index once. -/
theorem exists_order {α : Type} {first second : List α} (perm : first.Perm second) :
    ∃ order : List Nat, order.Perm (List.range second.length) ∧
      first.map some = order.map (second[·]?) := by
  induction perm with
  | nil => exact ⟨[], .refl _, rfl⟩
  | cons value _ ih =>
      obtain ⟨order, complete, same⟩ := ih
      refine ⟨0 :: order.map Nat.succ, ?_, by simp [same]⟩
      rw [List.length_cons, List.range_succ_eq_map]
      exact (complete.map Nat.succ).cons 0
  | swap one two rest =>
      refine ⟨1 :: 0 :: ((List.range rest.length).map Nat.succ).map Nat.succ, ?_, ?_⟩
      · rw [List.length_cons, List.length_cons, List.range_succ_eq_map, List.range_succ_eq_map]
        exact .swap ..
      · apply List.ext_getElem?
        intro index
        rcases index with _ | _ | index
        · rfl
        · rfl
        · by_cases bound : index < rest.length <;> simp [bound]
  | @trans first second third _ _ ih₁ ih₂ =>
      obtain ⟨order₁, complete₁, same₁⟩ := ih₁
      obtain ⟨order₂, complete₂, same₂⟩ := ih₂
      have length : order₂.length = second.length := by
        simpa using (congrArg List.length same₂).symm
      refine ⟨order₁.map fun index => order₂[index]?.getD 0, ?_, ?_⟩
      · refine (complete₁.map _).trans (.trans (.of_eq ?_) complete₂)
        apply List.ext_getElem?
        intro index
        by_cases bound : index < order₂.length <;> simp_all
      · rw [same₁, List.map_map]
        refine List.map_congr_left fun index listed => ?_
        have bound : index < second.length := by simpa using complete₁.mem_iff.mp listed
        have found : (second.map some)[index]? = (order₂.map (third[·]?))[index]? := by rw [same₂]
        have inOrder : index < order₂.length := length ▸ bound
        simpa [bound, inOrder] using found

namespace VisitsExposed

variable {replace : Datum → Option Datum} {tree : Datum}

theorem answered {other : Datum} (construct : tree.tag?.isSome = true)
    (answer : replace tree = some other) : VisitsExposed replace tree [tree] :=
  ⟨[[]], .answered construct answer, by simp [constructs, construct, Datum.at?]⟩

/-- In a plain datum nothing is exposed. -/
theorem of_plain (plain : tree.Plain) {visits : List Datum} (none : constructs visits = []) :
    VisitsExposed replace tree visits := by
  refine ⟨[], ⟨.nil, fun position => ⟨by simp, ?_⟩, by simp⟩, by simp [none]⟩
  rintro ⟨⟨node, found, construct⟩, _⟩
  rw [plain position node found] at construct
  cases construct

/-- A visit to something other than a construct does not count. -/
theorem of_cons {first : Datum} {visits : List Datum}
    (listed : VisitsExposed replace tree (first :: visits)) (plain : first.tag? = none) :
    VisitsExposed replace tree visits := by
  simpa [VisitsExposed, constructs, plain] using listed

theorem constructs_top (tree : Datum) :
    (constructs [tree]).map some = (Preordered.top tree).map tree.at? := by
  by_cases construct : tree.tag?.isSome = true <;>
    simp [constructs, Preordered.top, construct, Datum.at?]

/-- Visits inside a datum in some order are at the positions below it in the same order. -/
theorem constructs_under {inside walked : List (Datum × List Datum)} {order : List Nat}
    {below : Nat → List (List Nat)} (same : inside.map Prod.fst = tree.inside)
    (complete : order.Perm (List.range inside.length))
    (ordered : walked.map some = order.map (inside[·]?))
    (listed : ∀ (index : Nat) (inner : Datum × List Datum), inside[index]? = some inner →
      (constructs inner.2).map some = (below index).map inner.1.at?) :
    (constructs (walked.flatMap Prod.snd)).map some =
      (Preordered.under order below).map tree.at? := by
  have unpacked := congrArg (List.flatMap fun inner : Option (Datum × List Datum) =>
    (inner.map fun pair => (constructs pair.2).map some).getD []) ordered
  simp only [List.flatMap_map, Option.map_some, Option.getD_some] at unpacked
  rw [Preordered.under, List.map_flatMap, constructs, List.filter_flatMap, List.map_flatMap]
  refine unpacked.trans ?_
  rw [List.flatMap_def, List.flatMap_def]
  refine congrArg List.flatten (List.map_congr_left fun index inOrder => ?_)
  have bound : index < inside.length := by simpa using complete.mem_iff.mp inOrder
  have held := List.getElem?_eq_getElem bound
  have found : tree.inside[index]? = some (inside[index]).1 := by
    rw [← same, List.getElem?_map, held, Option.map_some]
  rw [held, Option.map_some, Option.getD_some, listed index _ held, List.map_map]
  exact List.map_congr_left fun rest _ => (Datum.at?_cons_of_getElem? found rest).symm

/--
The visits of an unanswered datum are itself and the visits of what is inside
it, in any order.
-/
theorem entered {inside walked : List (Datum × List Datum)} (unanswered : replace tree = none)
    (same : inside.map Prod.fst = tree.inside)
    (each : ∀ inner ∈ inside, VisitsExposed replace inner.1 inner.2)
    (perm : walked.Perm inside) :
    VisitsExposed replace tree (tree :: walked.flatMap Prod.snd) := by
  obtain ⟨order, complete, ordered⟩ := exists_order perm
  have chosen : ∀ index : Nat, ∃ positions, ∀ inner : Datum × List Datum,
      inside[index]? = some inner → Preordered replace inner.1 positions ∧
        (constructs inner.2).map some = positions.map inner.1.at? := by
    intro index
    cases found : inside[index]? with
    | none => exact ⟨[], by simp⟩
    | some inner =>
        obtain ⟨positions, listed⟩ := each inner (List.mem_of_getElem? found)
        exact ⟨positions, by simpa using listed⟩
  obtain ⟨below, listed⟩ := Classical.axiomOfChoice chosen
  refine ⟨Preordered.top tree ++ Preordered.under order below,
    .entered unanswered (by rwa [← same, List.length_map]) fun index inner held => ?_, ?_⟩
  · rw [← same, List.getElem?_map, Option.map_eq_some_iff] at held
    obtain ⟨pair, held, rfl⟩ := held
    exact (listed index pair held).1
  · have lower := constructs_under same complete ordered fun index inner held =>
      (listed index inner held).2
    rw [List.map_append, ← constructs_top, ← lower, ← List.map_append, ← constructs_append]
    rfl

end VisitsExposed

end ShellTree
