import Mathlib.Data.List.Forall2

/-!
# Ampersands before semicolons

The shell takes an ampersand for the end of a command, and refuses a semicolon
behind it unless that is one of two.  Whether a text holds such a clash is told
by scanning it, and the scan of a text that is put together needs to know only
three things of each part: is it blank, does it end behind an ampersand, and
does it start with a semicolon.
-/

namespace ShellTree

namespace Seam

/-! ## Clashes in a text -/

/-- The blanks that may stand between two tokens of a line. -/
def isGap (c : Char) : Bool :=
  c == ' ' || c == '\t'

theorem ne_of_isGap {c : Char} (gap : isGap c = true) : c ≠ '&' ∧ c ≠ ';' := by
  constructor <;> rintro rfl <;> cases gap

/-- Behind blanks a text starts with a semicolon that is not one of two. -/
def Shuts (text : List Char) : Prop :=
  ∃ gap after, text = gap ++ ';' :: after ∧ (∀ c ∈ gap, isGap c = true) ∧ after.head? ≠ some ';'

/-- Somewhere in a text an ampersand stands before a semicolon that is not one of two. -/
def Clashes (text : List Char) : Prop :=
  ∃ before behind, text = before ++ '&' :: behind ∧ Shuts behind

theorem not_shuts_nil : ¬ Shuts [] := by
  rintro ⟨gap, after, same, _⟩
  simp at same

theorem shuts_cons {c : Char} {text : List Char} :
    Shuts (c :: text) ↔ isGap c = true ∧ Shuts text ∨ c = ';' ∧ text.head? ≠ some ';' := by
  constructor
  · rintro ⟨gap, after, same, blank, single⟩
    cases gap with
    | nil =>
        cases same
        exact .inr ⟨rfl, single⟩
    | cons d gap =>
        cases same
        have each := List.forall_mem_cons.mp blank
        exact .inl ⟨each.1, gap, after, rfl, each.2, single⟩
  · rintro (⟨first, gap, after, rfl, blank, single⟩ | ⟨rfl, single⟩)
    · exact ⟨c :: gap, after, rfl, List.forall_mem_cons.mpr ⟨first, blank⟩, single⟩
    · exact ⟨[], text, rfl, by simp, single⟩

theorem not_clashes_nil : ¬ Clashes [] := by
  rintro ⟨before, behind, same, _⟩
  simp at same

theorem clashes_cons {c : Char} {text : List Char} :
    Clashes (c :: text) ↔ c = '&' ∧ Shuts text ∨ Clashes text := by
  constructor
  · rintro ⟨before, behind, same, shuts⟩
    cases before with
    | nil =>
        cases same
        exact .inl ⟨rfl, shuts⟩
    | cons d before =>
        cases same
        exact .inr ⟨before, behind, rfl, shuts⟩
  · rintro (⟨rfl, shuts⟩ | ⟨before, behind, rfl, shuts⟩)
    · exact ⟨[], text, rfl, shuts⟩
    · exact ⟨c :: before, behind, rfl, shuts⟩

/-! ## Scanning -/

/-- Where a scan stands. -/
inductive State where
  | clear
  /-- Behind an ampersand, and blanks. -/
  | waiting
  /-- Behind the semicolon after that. -/
  | closing
  | clashed
deriving DecidableEq

/-- A scan goes on by a character. -/
def State.next : State → Char → State
  | .clear, c => if c == '&' then .waiting else .clear
  | .waiting, c =>
      if isGap c || c == '&' then .waiting else if c == ';' then .closing else .clear
  | .closing, c => if c == ';' then .clear else .clashed
  | .clashed, _ => .clashed

/-- A scan goes on by a text. -/
def scan (state : State) (text : String) : State :=
  text.toList.foldl State.next state

theorem scan_append (state : State) (first second : String) :
    scan state (first ++ second) = scan (scan state first) second := by
  rw [scan, String.toList_append, List.foldl_append]
  rfl

theorem foldl_clashed (text : List Char) : text.foldl State.next .clashed = .clashed := by
  induction text with
  | nil => rfl
  | cons c rest ih => exact ih

/-- There was a clash, or there will be one if the text ends here. -/
def State.isBad (state : State) : Bool :=
  state == .closing || state == .clashed

/-- A scan goes bad just where there is a clash, if what it is behind of is counted. -/
theorem isBad_foldl_iff (text : List Char) :
    ((text.foldl State.next .clear).isBad = true ↔ Clashes text) ∧
      ((text.foldl State.next .waiting).isBad = true ↔ Clashes text ∨ Shuts text) ∧
      ((text.foldl State.next .closing).isBad = true ↔
        Clashes text ∨ text.head? ≠ some ';') := by
  induction text with
  | nil =>
      have noShut := not_shuts_nil
      have noClash := not_clashes_nil
      simp [State.isBad, noShut, noClash]
  | cons c rest ih =>
      obtain ⟨clear, waiting, closing⟩ := ih
      have gone : (rest.foldl State.next .clashed).isBad = true := by
        rw [foldl_clashed]
        rfl
      simp only [List.foldl_cons, State.next, clashes_cons, shuts_cons, List.head?_cons]
      refine ⟨?_, ?_, ?_⟩
      · split
        next amp => simp_all [or_comm]
        next => simp_all
      · by_cases gap : isGap c = true
        · obtain ⟨notAmp, notSemi⟩ := ne_of_isGap gap
          simp [gap, notAmp, notSemi, waiting]
        · by_cases amp : c = '&'
          · subst amp
            simp [gap, waiting, or_comm]
          · by_cases semi : c = ';'
            · subst semi
              simp [gap, closing]
            · simp [gap, amp, semi, clear]
      · split <;> simp_all

/-- A text holds a clash just where its scan goes bad. -/
theorem clashes_iff (text : String) :
    Clashes text.toList ↔ (scan .clear text).isBad = true :=
  (isBad_foldl_iff text.toList).1.symm

/-! ## Texts that are put together -/

/-- What the scan of a text without a clash depends on. -/
structure Edges where
  /-- There are only blanks. -/
  blank : Bool
  /-- The last that is not blank is an ampersand. -/
  opened : Bool
  /-- The first that is not blank is a semicolon. -/
  shut : Bool
deriving DecidableEq

/-- Where a scan stands behind a text with these edges. -/
def Edges.run (edges : Edges) : State → State
  | .clear => if edges.opened then .waiting else .clear
  | .waiting =>
      if edges.shut then .clashed else if edges.blank || edges.opened then .waiting else .clear
  | state => state

/-- A text without a clash has these edges. -/
structure HasEdges (text : String) (edges : Edges) : Prop where
  blank : text.toList.all isGap = edges.blank
  run {state : State} (settled : state ≠ .closing) : scan state text = edges.run state

/-- A text clashes wherever it stands. -/
def Clashed (text : String) : Prop :=
  ∀ state, state ≠ .closing → scan state text = .clashed

/-- The edges of a text, if it is without a clash. -/
def Settles (text : String) : Option Edges → Prop
  | some edges => HasEdges text edges
  | none => Clashed text

/-- Does a text have these edges? -/
def Edges.fit (edges : Edges) (text : String) : Bool :=
  text.toList.all isGap == edges.blank && scan .clear text == edges.run .clear &&
    scan .waiting text == edges.run .waiting

theorem hasEdges_of_fit {text : String} {edges : Edges} (fits : edges.fit text = true) :
    HasEdges text edges := by
  simp only [Edges.fit, Bool.and_eq_true, beq_iff_eq] at fits
  obtain ⟨⟨blank, clear⟩, waiting⟩ := fits
  refine ⟨blank, fun {state} settled => ?_⟩
  cases state with
  | clear => exact clear
  | waiting => exact waiting
  | closing => exact absurd rfl settled
  | clashed => exact foldl_clashed text.toList

/-- The empty text, or blanks. -/
@[simp]
def Edges.absent : Edges :=
  ⟨true, false, false⟩

/-- A text whose edges are plain. -/
@[simp]
def Edges.solid : Edges :=
  ⟨false, false, false⟩

/-- A text that starts with a semicolon. -/
@[simp]
def Edges.closing : Edges :=
  ⟨false, false, true⟩

/-- A text that ends with an ampersand. -/
@[simp]
def Edges.opening : Edges :=
  ⟨false, true, false⟩

/-- Two texts clash, or the edges of the first and the second remain. -/
@[simp]
def Edges.join (first second : Edges) : Option Edges :=
  if second.shut && first.opened then none
  else some ⟨first.blank && second.blank, (first.opened && second.blank) || second.opened,
    (second.shut && first.blank) || first.shut⟩

theorem Edges.run_ne_closing (edges : Edges) {state : State} (settled : state ≠ .closing) :
    edges.run state ≠ .closing := by
  obtain ⟨blank, opened, shut⟩ := edges
  cases state with
  | closing => exact absurd rfl settled
  | _ =>
      revert blank opened shut
      decide

theorem Edges.run_join {first second both : Edges} {state : State} (settled : state ≠ .closing)
    (joined : first.join second = some both) : second.run (first.run state) = both.run state := by
  obtain ⟨blank, opened, shut⟩ := first
  obtain ⟨blank', opened', shut'⟩ := second
  rw [Edges.join] at joined
  split at joined
  next => cases joined
  next apart =>
  cases joined
  cases state with
  | closing => exact absurd rfl settled
  | _ =>
      revert blank opened shut blank' opened' shut'
      decide

theorem Edges.run_clash {first second : Edges} {state : State} (settled : state ≠ .closing)
    (clash : first.join second = none) : second.run (first.run state) = .clashed := by
  obtain ⟨blank, opened, shut⟩ := first
  obtain ⟨blank', opened', shut'⟩ := second
  obtain ⟨rfl, rfl⟩ : shut' = true ∧ opened = true := by simpa [Edges.join] using clash
  clear clash
  cases state with
  | closing => exact absurd rfl settled
  | _ =>
      revert blank shut blank' opened'
      decide

variable {text next : String} {first second : Edges}

theorem HasEdges.append (before : HasEdges text first) (behind : HasEdges next second) :
    Settles (text ++ next) (first.join second) := by
  have both {state : State} (settled : state ≠ .closing) :
      scan state (text ++ next) = second.run (first.run state) := by
    rw [scan_append, before.run settled, behind.run (first.run_ne_closing settled)]
  cases joined : first.join second with
  | none => exact fun state settled => (both settled).trans (Edges.run_clash settled joined)
  | some edges =>
      refine ⟨?_, fun settled => (both settled).trans (Edges.run_join settled joined)⟩
      rw [String.toList_append, List.all_append, before.blank, behind.blank]
      rw [Edges.join] at joined
      split at joined
      · cases joined
      · cases joined
        rfl

/-- A scan never stops between a semicolon behind an ampersand and what comes next. -/
def Steady (text : String) : Prop :=
  ∀ state, state ≠ .closing → scan state text ≠ .closing

theorem HasEdges.steady (edged : HasEdges text first) : Steady text := by
  intro state settled
  rw [edged.run settled]
  exact first.run_ne_closing settled

theorem Clashed.steady (clashed : Clashed text) : Steady text := by
  intro state settled
  rw [clashed state settled]
  decide

theorem steady_literal (clear : scan .clear text ≠ .closing)
    (waiting : scan .waiting text ≠ .closing) : Steady text := by
  intro state settled
  cases state with
  | clear => exact clear
  | waiting => exact waiting
  | closing => exact absurd rfl settled
  | clashed =>
      rw [scan, foldl_clashed]
      decide

theorem Steady.append_clashed (before : Steady text) (behind : Clashed next) :
    Clashed (text ++ next) := by
  intro state settled
  rw [scan_append]
  exact behind _ (before state settled)

theorem Clashed.append (before : Clashed text) (next : String) : Clashed (text ++ next) := by
  intro state settled
  rw [scan_append, before state settled]
  exact foldl_clashed next.toList

/-- A text clashes just where a condition holds, and else does not start with a semicolon. -/
inductive ClashesWhen (text : String) (condition : Prop) : Prop where
  | clash : condition → Clashed text → ClashesWhen text condition
  | apart {edges : Edges} : ¬ condition → HasEdges text edges → edges.shut = false →
      ClashesWhen text condition

theorem ClashesWhen.append {condition other : Prop} (before : ClashesWhen text condition)
    (behind : ClashesWhen next other) : ClashesWhen (text ++ next) (condition ∨ other) := by
  cases before with
  | clash holds clashed => exact .clash (.inl holds) (clashed.append next)
  | @apart first fails edged shut =>
      cases behind with
      | clash holds clashed => exact .clash (.inr holds) (edged.steady.append_clashed clashed)
      | @apart second fails' edged' shut' =>
          have joined := edged.append edged'
          rw [Edges.join, shut', Bool.false_and, if_neg Bool.false_ne_true] at joined
          refine .apart (not_or.mpr ⟨fails, fails'⟩) joined ?_
          simpa using shut

/-- The edges of texts one after the other, if none of them clashes. -/
@[simp]
def joinAll : List Edges → Option Edges
  | [] => some .absent
  | [only] => some only
  | first :: second :: rest => (joinAll (second :: rest)).bind first.join

/-- Two texts with a mark between them. -/
theorem joinAll_between (first : Edges) (opens closes : Bool) (last : Edges) :
    joinAll [first, ⟨false, opens, closes⟩, last] =
      if closes && first.opened || opens && last.shut then none
      else some ⟨false, (opens && last.blank) || last.opened,
        (closes && first.blank) || first.shut⟩ := by
  obtain ⟨blank, opened, shut⟩ := last
  cases opens with
  | false => simp
  | true => cases shut <;> simp

/-- Blanks between two texts do not keep them apart. -/
theorem joinAll_beside (first : Edges) (blank opened : Bool) {last : Edges}
    (visible : last.blank = false) :
    joinAll [first, ⟨blank, opened, false⟩, .absent, last] =
      if last.shut && ((first.opened && blank) || opened) then none
      else some ⟨false, last.opened, (last.shut && (first.blank && blank)) || first.shut⟩ := by
  obtain ⟨blank', opened', shut⟩ := first
  obtain ⟨_, opened'', shut'⟩ := last
  cases visible
  revert blank opened blank' opened' shut opened'' shut'
  decide

theorem settles_join {texts : List String} {edges : List Edges}
    (each : List.Forall₂ HasEdges texts edges) : Settles (String.join texts) (joinAll edges) := by
  induction each with
  | nil => exact hasEdges_of_fit rfl
  | cons first rest ih =>
      rw [String.join_cons]
      cases rest with
      | nil =>
          rw [String.join_nil, String.append_empty]
          exact first
      | cons second rest =>
          rw [joinAll]
          revert ih
          cases joinAll _ with
          | none => exact first.steady.append_clashed
          | some edges => exact first.append

theorem foldl_of_quiet {chars : List Char} (quiet : ';' ∉ chars) :
    (chars.foldl State.next .clear = .clear ∨ chars.foldl State.next .clear = .waiting) ∧
      chars.foldl State.next .waiting =
        if chars.all isGap then .waiting else chars.foldl State.next .clear := by
  induction chars with
  | nil => exact ⟨.inl rfl, rfl⟩
  | cons c rest ih =>
      have notSemi : c ≠ ';' := fun same => quiet (by simp [same])
      obtain ⟨clear, waiting⟩ := ih fun inside => quiet (List.mem_cons_of_mem c inside)
      have either : rest.foldl State.next .waiting = .clear ∨
          rest.foldl State.next .waiting = .waiting := by
        rw [waiting]
        split
        · exact .inr rfl
        · exact clear
      simp only [List.foldl_cons, State.next, List.all_cons]
      by_cases gap : isGap c = true
      · simp [gap, (ne_of_isGap gap).1, clear, waiting]
      · by_cases amp : c = '&'
        · subst amp
          simp [gap, either]
        · simp [gap, amp, notSemi, clear]

/-- A text without semicolons is without a clash. -/
theorem hasEdges_of_quiet (quiet : ';' ∉ text.toList) :
    HasEdges text ⟨text.toList.all isGap, scan .clear text == .waiting, false⟩ := by
  obtain ⟨clear, waiting⟩ := foldl_of_quiet quiet
  apply hasEdges_of_fit
  rcases clear with same | same <;> simp [Edges.fit, Edges.run, scan, same, waiting]

/-- A text without ampersands and semicolons has no edges but blanks. -/
theorem hasEdges_of_plain (noAmp : '&' ∉ text.toList) (quiet : ';' ∉ text.toList) :
    HasEdges text ⟨text.toList.all isGap, false, false⟩ := by
  have clear : ∀ chars : List Char, '&' ∉ chars → chars.foldl State.next .clear = .clear := by
    intro chars absent
    induction chars with
    | nil => rfl
    | cons c rest ih =>
        rw [List.mem_cons, not_or] at absent
        simp [State.next, Ne.symm absent.1, ih absent.2]
  have edged := hasEdges_of_quiet quiet
  rwa [scan, clear _ noAmp] at edged

/-- Blanks neither end with an ampersand nor start with a semicolon. -/
theorem HasEdges.of_blank (edged : HasEdges text first) (blank : first.blank = true) :
    first = .absent := by
  have gaps : text.toList.all isGap = true := edged.blank.trans blank
  have visible {c : Char} (inside : c ∈ text.toList) : c ≠ '&' ∧ c ≠ ';' :=
    ne_of_isGap (List.all_eq_true.mp gaps c inside)
  have plain := hasEdges_of_plain (fun amp => (visible amp).1 rfl) fun semi => (visible semi).2 rfl
  have clear : State.clear ≠ .closing := by decide
  have waiting : State.waiting ≠ .closing := by decide
  have clear := (edged.run clear).symm.trans (plain.run clear)
  have waiting := (edged.run waiting).symm.trans (plain.run waiting)
  rw [gaps] at clear waiting
  obtain ⟨blank', opened, shut⟩ := first
  cases blank
  cases opened with
  | true => cases clear
  | false =>
      cases shut with
      | true => cases waiting
      | false => rfl

end Seam

end ShellTree
