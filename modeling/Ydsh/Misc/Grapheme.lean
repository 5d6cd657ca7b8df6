import Ydsh.Library.PartitionPoint

/-
  The boundaries of grapheme clusters.

  The state of the scanner is the property of the last code
  point, except where more of what was scanned matters: after a
  pictographic with what extends it, after such a sequence and
  a joiner, and after a pair of regional indicators.

  Main declarations:
    * `BreakTable`
    * `scanBoundary`
    * `Joins`
    * `Breaks`
    * `boundaries_iff`
-/

----
-- Properties
----

namespace Ydsh

namespace Grapheme

open Library

inductive BreakProperty where
  -- before the first code point
  | SOT
  | Any
  | CR
  | LF
  | Control
  | Extend
  | ZWJ
  | Regional_Indicator
  | Prepend
  | SpacingMark
  | L
  | V
  | T
  | LV
  | LVT
  | Extended_Pictographic
  -- a pictographic with what extends it, and a joiner
  | Extended_Pictographic_with_ZWJ
  deriving DecidableEq, Repr

namespace BreakProperty

/- A property of a code point, not only of the scanner. -/
def isProper : BreakProperty → Bool
  | SOT => false
  | Extended_Pictographic_with_ZWJ => false
  | _ => true

def isControl : BreakProperty → Bool
  | CR => true
  | LF => true
  | Control => true
  | _ => false

end BreakProperty

open BreakProperty

structure PropertyInterval where
  first : Int
  last : Int
  property : BreakProperty

/- The table that is generated from the Unicode database. -/
structure BreakTable where
  rows : List PropertyInterval
  proper : ∀ row ∈ rows, row.property.isProper = true

def getBreakProperty
    (table : BreakTable)
    (codePoint : Int) : BreakProperty :=
  let index :=
    lowerBound
      (fun row : PropertyInterval =>
        decide (row.last < codePoint))
      table.rows
  match table.rows[index]? with
  | some row =>
      if codePoint ≥ row.first ∧ codePoint ≤ row.last then
        row.property
      else
        .Any
  | none => .Any

----
-- Scanner
----

/- GB6, GB7 and GB8. -/
def joinsSyllable : BreakProperty → BreakProperty → Bool
  | L, L => true
  | L, V => true
  | L, LV => true
  | L, LVT => true
  | LV, V => true
  | LV, T => true
  | V, V => true
  | V, T => true
  | LVT, T => true
  | T, T => true
  | _, _ => false

/- The last `switch` on the state. -/
def scanLast
    (before after : BreakProperty) : Bool × BreakProperty :=
  match before with
  | Prepend => (false, after)
  | Regional_Indicator =>
      if after = Regional_Indicator then
        (false, Any)
      else
        (true, after)
  | Extended_Pictographic =>
      if after = Extend then
        (false, Extended_Pictographic)
      else if after = ZWJ then
        (false, Extended_Pictographic_with_ZWJ)
      else
        (true, after)
  | Extended_Pictographic_with_ZWJ =>
      if after = Extended_Pictographic then
        (false, after)
      else
        (true, after)
  | _ => (true, after)

/- Whether there is a boundary, and the next state. -/
def scan
    (before after : BreakProperty) : Bool × BreakProperty :=
  if before = SOT then
    (false, after)
  else if before = CR then
    (after != LF, after)
  else if before = LF ∨ before = Control then
    (true, after)
  else if after.isControl then
    (true, after)
  else if joinsSyllable before after then
    (false, after)
  else if
      (after = Extend ∨ after = ZWJ) ∧
        before ≠ Extended_Pictographic then
    (false, after)
  else if after = SpacingMark then
    (false, after)
  else
    scanLast before after

def scanBoundary
    (table : BreakTable)
    (state : BreakProperty)
    (codePoint : Int) : Bool × BreakProperty :=
  scan state (getBreakProperty table codePoint)

/- What is reported in front of each code point. -/
def boundaries
    (table : BreakTable) :
    BreakProperty → List Int → List Bool
  | _, [] => []
  | state, codePoint :: rest =>
      let found := scanBoundary table state codePoint
      found.1 :: boundaries table found.2 rest

/-
  The rules by which there is no boundary, control characters
  apart.  What stands before the position is listed with the
  nearest first.
-/
inductive Joins :
    List BreakProperty → BreakProperty → Prop where
  | GB6 {before : List BreakProperty} {after : BreakProperty}
      (hAfter : after ∈ [L, V, LV, LVT]) :
      Joins (L :: before) after
  | GB7 {before : List BreakProperty}
      {last after : BreakProperty}
      (hLast : last ∈ [LV, V]) (hAfter : after ∈ [V, T]) :
      Joins (last :: before) after
  | GB8 {before : List BreakProperty} {last : BreakProperty}
      (hLast : last ∈ [LVT, T]) :
      Joins (last :: before) T
  | GB9 {before : List BreakProperty} {after : BreakProperty}
      (hAfter : after ∈ [Extend, ZWJ]) :
      Joins before after
  | GB9a {before : List BreakProperty} :
      Joins before SpacingMark
  | GB9b {before : List BreakProperty}
      {after : BreakProperty} :
      Joins (Prepend :: before) after
  | GB11 {before : List BreakProperty} (count : Nat) :
      Joins
        (ZWJ :: List.replicate count Extend ++
          Extended_Pictographic :: before)
        Extended_Pictographic
  | GB12 (count : Nat) :
      Joins
        (List.replicate (2 * count + 1) Regional_Indicator)
        Regional_Indicator
  | GB13 {before : List BreakProperty} (count : Nat)
      {other : BreakProperty}
      (hOther : other ≠ Regional_Indicator) :
      Joins
        (List.replicate (2 * count + 1) Regional_Indicator ++
          other :: before)
        Regional_Indicator

/- GB3, GB4 and GB5 come before the rules that join, and GB999
   after them. -/
def Breaks
    (last : BreakProperty)
    (before : List BreakProperty)
    (after : BreakProperty) : Prop :=
  ¬ (last = CR ∧ after = LF) ∧
    (last.isControl = true ∨ after.isControl = true ∨
      ¬ Joins (last :: before) after)

----
-- States
----

/- A pictographic with what extends it. -/
def pictographic : List BreakProperty → Bool
  | Extended_Pictographic :: _ => true
  | Extend :: before => pictographic before
  | _ => false

/- An odd number of regional indicators. -/
def oddIndicators : List BreakProperty → Bool
  | Regional_Indicator :: before => !oddIndicators before
  | _ => false

/- The state after what was scanned, the nearest first. -/
def stateOf : List BreakProperty → BreakProperty
  | [] => SOT
  | Regional_Indicator :: before =>
      if oddIndicators before then Any else Regional_Indicator
  | ZWJ :: before =>
      if pictographic before then
        Extended_Pictographic_with_ZWJ
      else
        ZWJ
  | Extend :: before =>
      if pictographic before then
        Extended_Pictographic
      else
        Extend
  | last :: _ => last

theorem scan_state (before after : BreakProperty) :
    (scan before after).2 =
      if before = Regional_Indicator ∧
          after = Regional_Indicator then
        Any
      else if before = Extended_Pictographic ∧
          after = Extend then
        Extended_Pictographic
      else if before = Extended_Pictographic ∧ after = ZWJ then
        Extended_Pictographic_with_ZWJ
      else
        after := by
  cases before <;> cases after <;> rfl

variable {before : List BreakProperty}
variable {last after : BreakProperty}

theorem stateOf_eq_indicator :
    stateOf before = Regional_Indicator ↔
      oddIndicators before = true := by
  cases before with
  | nil => simp [stateOf, oddIndicators]
  | cons last before =>
      cases last <;> simp [stateOf, oddIndicators]
      all_goals split_ifs <;> simp_all

theorem stateOf_eq_pictographic :
    stateOf before = Extended_Pictographic ↔
      pictographic before = true := by
  cases before with
  | nil => simp [stateOf, pictographic]
  | cons last before =>
      cases last <;> simp [stateOf, pictographic]
      all_goals split_ifs <;> simp_all

/- One code point more. -/
theorem scan_stateOf :
    (scan (stateOf before) after).2 =
      stateOf (after :: before) := by
  rw [scan_state]
  simp only [stateOf_eq_indicator, stateOf_eq_pictographic]
  cases after <;> simp [stateOf]

----
-- Rules as tests
----

theorem pictographic_iff :
    pictographic before = true ↔
      ∃ count rest,
        before =
          List.replicate count Extend ++
            Extended_Pictographic :: rest := by
  constructor
  · intro hBefore
    induction before with
    | nil => simp [pictographic] at hBefore
    | cons last before ih =>
        cases last <;> simp only [pictographic] at hBefore
        case Extend =>
          rcases ih hBefore with
            ⟨count, rest, rfl⟩
          exact ⟨count + 1, rest, rfl⟩
        case Extended_Pictographic =>
          exact ⟨0, before, rfl⟩
        all_goals exact absurd hBefore Bool.false_ne_true
  · rintro ⟨count, rest, rfl⟩
    induction count with
    | zero => rfl
    | succ count ih =>
        exact ih

theorem oddIndicators_replicate
    (count : Nat) (rest : List BreakProperty)
    (hRest : oddIndicators rest = false) :
    oddIndicators
        (List.replicate count Regional_Indicator ++ rest) =
      decide (count % 2 = 1) := by
  induction count with
  | zero => exact hRest
  | succ count ih =>
      simp only [List.replicate_succ, List.cons_append,
        oddIndicators, ih]
      rcases Nat.mod_two_eq_zero_or_one count with
        hCount | hCount
      · simp [hCount, Nat.add_mod]
      · simp [hCount, Nat.add_mod]

/- The run of indicators at the front. -/
theorem indicators_cut (before : List BreakProperty) :
    ∃ count rest,
      before =
          List.replicate count Regional_Indicator ++ rest ∧
        rest.head? ≠ some Regional_Indicator := by
  induction before with
  | nil => exact ⟨0, [], rfl, by simp⟩
  | cons last before ih =>
      by_cases hLast : last = Regional_Indicator
      · rcases ih with
          ⟨count, rest, hBefore, hRest⟩
        exact ⟨count + 1, rest, by
          rw [hLast, hBefore]
          rfl, hRest⟩
      · exact ⟨0, last :: before, rfl, by simpa using hLast⟩

theorem oddIndicators_head
    {rest : List BreakProperty}
    (hRest : rest.head? ≠ some Regional_Indicator) :
    oddIndicators rest = false := by
  cases rest with
  | nil => rfl
  | cons last rest =>
      cases last <;> first | rfl | exact absurd rfl hRest

theorem joins_of_odd
    (hOdd : oddIndicators before = true) :
    Joins before Regional_Indicator := by
  rcases indicators_cut before with
    ⟨count, rest, hBefore, hRest⟩
  subst hBefore
  rw [oddIndicators_replicate count rest
    (oddIndicators_head hRest)] at hOdd
  have hCount : count = 2 * (count / 2) + 1 := by
    have := of_decide_eq_true hOdd
    omega
  rw [hCount]
  cases rest with
  | nil =>
      rw [List.append_nil]
      exact Joins.GB12 (count / 2)
  | cons other rest =>
      exact Joins.GB13 (count / 2) (by simpa using hRest)

theorem odd_of_joins
    (hJoins : Joins before after)
    (hAfter : after = Regional_Indicator)
    (hLast : before.head? ≠ some Prepend) :
    oddIndicators before = true := by
  have hOddCount : ∀ count : Nat,
      decide ((2 * count + 1) % 2 = 1) = true := by
    intro count
    exact decide_eq_true (by omega)
  cases hJoins with
  | GB12 count =>
      have hRun :=
        oddIndicators_replicate (2 * count + 1) [] rfl
      rw [List.append_nil] at hRun
      rw [hRun, hOddCount]
  | @GB13 rest count other hOther =>
      rw [oddIndicators_replicate _ _
        (oddIndicators_head (by simpa using hOther)),
        hOddCount]
  | GB6 hMem | GB7 _ hMem | GB9 hMem => simp [hAfter] at hMem
  | GB8 _ | GB9a | GB11 _ => cases hAfter
  | GB9b => exact absurd rfl hLast

theorem joinsSyllable_iff :
    joinsSyllable last after = true ↔
      (last = L ∧ after ∈ [L, V, LV, LVT]) ∨
        (last ∈ [LV, V] ∧ after ∈ [V, T]) ∨
          (last ∈ [LVT, T] ∧ after = T) := by
  cases last <;> cases after <;> simp [joinsSyllable]

/- The rules that join, each as a test of the two code points
and of what the state remembers. -/
theorem joins_iff :
    Joins (last :: before) after ↔
      joinsSyllable last after = true ∨
        after ∈ [Extend, ZWJ] ∨
        after = SpacingMark ∨
        last = Prepend ∨
        (last = ZWJ ∧ after = Extended_Pictographic ∧
          pictographic before = true) ∨
        (after = Regional_Indicator ∧
          oddIndicators (last :: before) = true) := by
  constructor
  · intro hJoins
    by_cases hPrepend : last = Prepend
    · exact .inr (.inr (.inr (.inl hPrepend)))
    · have hOdd :
          after = Regional_Indicator →
            oddIndicators (last :: before) = true := by
        intro hAfter
        exact
          odd_of_joins hJoins hAfter (by simpa using hPrepend)
      generalize hList : last :: before = list at hJoins hOdd ⊢
      cases hJoins with
      | GB6 hAfter =>
          cases hList
          exact .inl
            (joinsSyllable_iff.mpr (.inl ⟨rfl, hAfter⟩))
      | GB7 hLast hAfter =>
          cases hList
          exact .inl
            (joinsSyllable_iff.mpr
              (.inr (.inl ⟨hLast, hAfter⟩)))
      | GB8 hLast =>
          cases hList
          exact .inl
            (joinsSyllable_iff.mpr
              (.inr (.inr ⟨hLast, rfl⟩)))
      | GB9 hAfter => exact .inr (.inl hAfter)
      | GB9a => exact .inr (.inr (.inl rfl))
      | GB9b =>
          cases hList
          exact absurd rfl hPrepend
      | GB11 count =>
          cases hList
          exact .inr (.inr (.inr (.inr (.inl
            ⟨rfl, rfl, pictographic_iff.mpr
              ⟨count, _, rfl⟩⟩))))
      | GB12 | GB13 =>
          exact .inr (.inr (.inr (.inr (.inr
            ⟨rfl, hOdd rfl⟩))))
  · rintro
      (hSyllable | hExtend | rfl | rfl |
        ⟨rfl, rfl, hBefore⟩ | ⟨rfl, hOdd⟩)
    · rcases joinsSyllable_iff.mp hSyllable with
        ⟨rfl, hAfter⟩ | ⟨hLast, hAfter⟩ | ⟨hLast, rfl⟩
      · exact Joins.GB6 hAfter
      · exact Joins.GB7 hLast hAfter
      · exact Joins.GB8 hLast
    · exact Joins.GB9 hExtend
    · exact Joins.GB9a
    · exact Joins.GB9b
    · rcases pictographic_iff.mp hBefore with
        ⟨count, rest, rfl⟩
      exact Joins.GB11 count
    · exact joins_of_odd hOdd

instance : Decidable (Joins (last :: before) after) :=
  decidable_of_iff _ joins_iff.symm

instance : Decidable (Breaks last before after) :=
  inferInstanceAs (Decidable (_ ∧ _))

----
-- The scanner follows the rules
----

/- What the state tells of the code points. -/
theorem stateOf_cases (hLast : last.isProper = true) :
    (stateOf (last :: before) = last ∧
        ¬ (last = Regional_Indicator ∧
          oddIndicators before = true) ∧
        ¬ (last = ZWJ ∧ pictographic before = true)) ∨
      (stateOf (last :: before) = Any ∧
        last = Regional_Indicator ∧
        oddIndicators before = true) ∨
      (stateOf (last :: before) =
          Extended_Pictographic_with_ZWJ ∧
        last = ZWJ ∧ pictographic before = true) ∨
      (stateOf (last :: before) = Extended_Pictographic ∧
        last = Extend) := by
  cases last <;>
    first
      | exact absurd hLast Bool.false_ne_true
      | exact .inl ⟨rfl, by simp, by simp⟩
      | skip
  case Regional_Indicator =>
    cases hOdd : oddIndicators before with
    | false => exact .inl ⟨by simp [stateOf, hOdd], by simp⟩
    | true =>
        exact .inr (.inl ⟨by simp [stateOf, hOdd], by simp⟩)
  case ZWJ =>
    cases hBefore : pictographic before with
    | false =>
        exact .inl ⟨by simp [stateOf, hBefore], by simp⟩
    | true =>
        exact .inr (.inr (.inl
          ⟨by simp [stateOf, hBefore], by simp⟩))
  case Extend =>
    cases hBefore : pictographic before with
    | false =>
        exact .inl ⟨by simp [stateOf, hBefore], by simp⟩
    | true =>
        exact .inr (.inr (.inr
          ⟨by simp [stateOf, hBefore], rfl⟩))

/- The rules, with what the state remembers as two tests. -/
def demands
    (odd joined : Bool)
    (last after : BreakProperty) : Bool :=
  !(last == CR && after == LF) &&
    (last.isControl || after.isControl ||
      !(joinsSyllable last after || after == Extend ||
        after == ZWJ || after == SpacingMark ||
        last == Prepend ||
        (after == Extended_Pictographic && joined) ||
        (after == Regional_Indicator && odd)))

/- The pairs that are not broken, as one test. -/
theorem joins_iff_test :
    (joinsSyllable last after || after == Extend ||
        after == ZWJ || after == SpacingMark ||
        last == Prepend ||
        (after == Extended_Pictographic &&
          (last == ZWJ && pictographic before)) ||
        (after == Regional_Indicator &&
          oddIndicators (last :: before))) = true ↔
      Joins (last :: before) after := by
  rw [joins_iff]
  simp only [Bool.or_eq_true, Bool.and_eq_true, beq_iff_eq,
    List.mem_cons, List.not_mem_nil, or_false, or_assoc,
    and_left_comm]

theorem breaks_iff :
    Breaks last before after ↔
      demands (oddIndicators (last :: before))
        (last == ZWJ && pictographic before) last after =
          true := by
  unfold Breaks demands
  rw [← joins_iff_test]
  simp only [Bool.and_eq_true, Bool.not_eq_true',
    ← Bool.not_eq_true, Bool.or_eq_true (_ || _) (!_),
    Bool.or_eq_true (BreakProperty.isControl _), beq_iff_eq,
    or_assoc]

/- The state is the property of the last code point. -/
theorem scan_last (hLast : last.isProper = true) :
    (scan last after).1 =
      demands (last == Regional_Indicator) false
        last after := by
  cases last <;>
    first
      | exact absurd hLast Bool.false_ne_true
      | cases after <;> rfl

/- After a pair of indicators. -/
theorem scan_pair :
    (scan Any after).1 =
      demands false false Regional_Indicator after := by
  cases after <;> rfl

/- After a pictographic and a joiner. -/
theorem scan_joined :
    (scan Extended_Pictographic_with_ZWJ after).1 =
      demands false true ZWJ after := by
  cases after <;> rfl

/- After what extends a pictographic. -/
theorem scan_extended :
    (scan Extended_Pictographic after).1 =
      demands false false Extend after := by
  cases after <;> rfl

theorem scan_iff (hLast : last.isProper = true) :
    (scan (stateOf (last :: before)) after).1 = true ↔
      Breaks last before after := by
  rw [breaks_iff]
  rcases @stateOf_cases before last hLast with
    ⟨hState, hOdd, hJoined⟩ | ⟨hState, rfl, hOdd⟩ |
      ⟨hState, rfl, hBefore⟩ | ⟨hState, rfl⟩
  · have hIndicators :
        oddIndicators (last :: before) =
          (last == Regional_Indicator) := by
      cases last <;>
        first | rfl | simpa [oddIndicators] using hOdd
    have hPictographic :
        (last == ZWJ && pictographic before) = false := by
      simpa using hJoined
    rw [hState, hIndicators, hPictographic,
      scan_last hLast]
  · have hIndicators :
        oddIndicators (Regional_Indicator :: before) =
          false := by
      simp [oddIndicators, hOdd]
    rw [hState, scan_pair, hIndicators]
    rfl
  · rw [hState, scan_joined]
    simp [oddIndicators, hBefore]
  · rw [hState, scan_extended]
    rfl

----
-- Sequences of code points
----

theorem getBreakProperty_isProper
    (table : BreakTable)
    (codePoint : Int) :
    (getBreakProperty table codePoint).isProper = true := by
  unfold getBreakProperty
  dsimp only
  split
  · rename_i row hRow
    split_ifs
    · exact table.proper row (List.mem_of_getElem? hRow)
    · rfl
  · rfl

/- The properties of what was scanned, the nearest first. -/
def propertiesOf
    (table : BreakTable)
    (scanned : List Int) : List BreakProperty :=
  (scanned.map (getBreakProperty table)).reverse

/- The scanner somewhere in a sequence. -/
theorem boundaries_at
    (table : BreakTable)
    (scanned front : List Int)
    (codePoint : Int)
    (back : List Int) :
    (boundaries table (stateOf (propertiesOf table scanned))
        (front ++ codePoint :: back))[front.length]? =
      some
        (scanBoundary table
          (stateOf (propertiesOf table (scanned ++ front)))
          codePoint).1 := by
  induction front generalizing scanned with
  | nil => simp [boundaries]
  | cons first front ih =>
      have hState :
          (scanBoundary table
              (stateOf (propertiesOf table scanned)) first).2 =
            stateOf (propertiesOf table (scanned ++ [first])) := by
        simp [scanBoundary, scan_stateOf, propertiesOf]
      have hRest := ih (scanned ++ [first])
      rw [List.append_assoc] at hRest
      simpa [boundaries, hState] using hRest

/- Between two code points that stand next to each other in a
sequence, the scanner that started in front of it reports a
boundary exactly when the rules demand one. -/
theorem boundaries_iff
    (table : BreakTable)
    (front : List Int)
    (before after : Int)
    (back : List Int) :
    (boundaries table SOT
        (front ++ before :: after :: back))[front.length + 1]? =
        some true ↔
      Breaks (getBreakProperty table before)
        (propertiesOf table front)
        (getBreakProperty table after) := by
  have hReported :=
    boundaries_at table [] (front ++ [before]) after back
  have hScanned :
      propertiesOf table (front ++ [before]) =
        getBreakProperty table before ::
          propertiesOf table front := by
    simp [propertiesOf]
  rw [List.append_assoc, List.length_append,
    List.nil_append, hScanned] at hReported
  rw [← scan_iff (getBreakProperty_isProper table before)]
  constructor
  · intro hTrue
    exact (Option.some.inj (hTrue.symm.trans hReported)).symm
  · intro hTrue
    exact hReported.trans (congrArg some hTrue)

/- A family is one cluster, three flags are two. -/
example :
    ¬ Breaks ZWJ [Extend, Extended_Pictographic]
        Extended_Pictographic ∧
      ¬ Breaks Regional_Indicator [] Regional_Indicator ∧
      Breaks Regional_Indicator [Regional_Indicator]
        Regional_Indicator := by
  decide

end Grapheme

end Ydsh
