import Mathlib.Data.List.Basic
import Mathlib.Tactic.Common

/-
  Halving search for the first index of a range at which a
  predicate on indices fails.

  `partitionPoint` is the loop shared by `std::lower_bound`
  and by every hand-written search of the same shape.  It is
  stated over indices, so the predicate may also compare an
  element with its own position.

  Main declarations:
    * `partitionPoint`
    * `partitionPoint_bounds`
    * `partitionPoint_below`
    * `partitionPoint_at`
    * `lowerBound`
    * `lowerBound_getElem?`
-/

----
-- Halving Search
----

namespace Ydsh

namespace Library

/-
  Search `[first, first + dist)` for the first index at
  which `p` fails, halving the distance at every step.
-/
def partitionPoint
    (p : Nat → Bool)
    (first dist : Nat) : Nat :=
  if dist = 0 then
    first
  else
    let halfDist := dist / 2
    let midIndex := first + halfDist
    if p midIndex then
      partitionPoint p (midIndex + 1) (dist - halfDist - 1)
    else
      partitionPoint p first halfDist
termination_by dist

/- A predicate that never holds again once it has failed. -/
def IsPartitioned
    (p : Nat → Bool)
    (first dist : Nat) : Prop :=
  ∀ i j, first ≤ i → i ≤ j → j < first + dist →
    p j = true → p i = true

theorem partitionPoint_bounds
    (p : Nat → Bool)
    (first dist : Nat) :
    first ≤ partitionPoint p first dist ∧
      partitionPoint p first dist ≤ first + dist := by
  fun_induction partitionPoint p first dist with
  | case1 first => simp
  | case2 first dist hDist halfDist midIndex hMid ih =>
      omega
  | case3 first dist hDist halfDist midIndex hMid ih =>
      omega

/- Every index before the partition point satisfies `p`. -/
theorem partitionPoint_below
    (p : Nat → Bool)
    (first dist : Nat)
    (hPart : IsPartitioned p first dist)
    {i : Nat}
    (hFirst : first ≤ i)
    (hBelow : i < partitionPoint p first dist) :
    p i = true := by
  fun_induction partitionPoint p first dist with
  | case1 first => omega
  | case2 first dist hDist halfDist midIndex hMid ih =>
      by_cases hLe : i ≤ midIndex
      · exact hPart i midIndex hFirst hLe (by omega) hMid
      · refine ih ?_ (by omega) hBelow
        intro a b hA hAB hB hPB
        exact hPart a b (by omega) hAB (by omega) hPB
  | case3 first dist hDist halfDist midIndex hMid ih =>
      refine ih ?_ hFirst hBelow
      intro a b hA hAB hB hPB
      exact hPart a b hA hAB (by omega) hPB

/- The partition point itself fails `p` unless it is the end. -/
theorem partitionPoint_at
    (p : Nat → Bool)
    (first dist : Nat)
    (hEnd : partitionPoint p first dist < first + dist) :
    p (partitionPoint p first dist) = false := by
  fun_induction partitionPoint p first dist with
  | case1 first => omega
  | case2 first dist hDist halfDist midIndex hMid ih =>
      exact ih (by omega)
  | case3 first dist hDist halfDist midIndex hMid ih =>
      by_cases hLast :
          partitionPoint p first halfDist = midIndex
      · rw [hLast]
        simpa using hMid
      · have hBounds := partitionPoint_bounds p first halfDist
        exact ih (by omega)

----
-- Lower Bound in a Sorted List
----

variable {α : Type}

/- Comparison of the element at an index with the key. -/
def belowAt
    (below : α → Bool)
    (xs : List α)
    (i : Nat) : Bool :=
  (xs[i]?.map below).getD false

theorem belowAt_of_get
    {below : α → Bool}
    {xs : List α}
    {i : Nat}
    {x : α}
    (hGet : xs[i]? = some x) :
    belowAt below xs i = below x := by
  simp [belowAt, hGet]

/-
  The index `std::lower_bound` returns on `xs`: `below x`
  compares an element with the searched key.
-/
def lowerBound
    (below : α → Bool)
    (xs : List α) : Nat :=
  partitionPoint (belowAt below xs) 0 xs.length

theorem lowerBound_le_length
    (below : α → Bool)
    (xs : List α) :
    lowerBound below xs ≤ xs.length := by
  have hBounds :=
    partitionPoint_bounds (belowAt below xs) 0 xs.length
  simpa [lowerBound] using hBounds.2

/- `below` holds on a prefix of the list only. -/
def SplitsList
    (below : α → Bool)
    (xs : List α) : Prop :=
  xs.Pairwise (fun x y => below y = true → below x = true)

theorem belowAt_isPartitioned
    {below : α → Bool}
    {xs : List α}
    (hSplit : SplitsList below xs) :
    IsPartitioned (belowAt below xs) 0 xs.length := by
  intro a b _ hAB hB hPB
  have hBLength : b < xs.length := by omega
  have hALength : a < xs.length := by omega
  rw [belowAt_of_get (List.getElem?_eq_getElem hBLength)]
    at hPB
  rw [belowAt_of_get (List.getElem?_eq_getElem hALength)]
  rcases Nat.lt_or_eq_of_le hAB with hLt | rfl
  · exact
      List.pairwise_iff_getElem.mp hSplit a b
        hALength hBLength hLt hPB
  · exact hPB

/- Elements before the lower bound are below the key. -/
theorem lowerBound_below
    {below : α → Bool}
    {xs : List α}
    (hSplit : SplitsList below xs)
    {i : Nat}
    {x : α}
    (hGet : xs[i]? = some x)
    (hIndex : i < lowerBound below xs) :
    below x = true := by
  have hValue : belowAt below xs i = below x :=
    belowAt_of_get hGet
  rw [← hValue]
  exact
    partitionPoint_below (belowAt below xs) 0 xs.length
      (belowAt_isPartitioned hSplit) (Nat.zero_le i) hIndex

/- The element at the lower bound is not below the key. -/
theorem lowerBound_at
    {below : α → Bool}
    {xs : List α}
    {x : α}
    (hGet : xs[lowerBound below xs]? = some x) :
    below x = false := by
  have hLength : lowerBound below xs < xs.length :=
    (List.getElem?_eq_some_iff.mp hGet).1
  have hValue :
      belowAt below xs (lowerBound below xs) = below x :=
    belowAt_of_get hGet
  rw [← hValue]
  exact
    partitionPoint_at (belowAt below xs) 0 xs.length
      (by simpa [lowerBound] using hLength)

/-
  In a list split by `below`, the lower bound stands at the
  first element that is not below the key.
-/
theorem lowerBound_getElem?
    {below : α → Bool}
    {xs : List α}
    (hSplit : SplitsList below xs) :
    xs[lowerBound below xs]? =
      xs.find? (fun x => !below x) := by
  cases hGet : xs[lowerBound below xs]? with
  | none =>
      symm
      apply List.find?_eq_none.mpr
      intro x hMem
      rcases List.mem_iff_getElem?.mp hMem with ⟨i, hX⟩
      have hI : i < xs.length :=
        (List.getElem?_eq_some_iff.mp hX).1
      have hEnd : xs.length ≤ lowerBound below xs :=
        List.getElem?_eq_none_iff.mp hGet
      simp [lowerBound_below hSplit hX (by omega)]
  | some x =>
      symm
      rcases List.getElem?_eq_some_iff.mp hGet with
        ⟨hIndex, hX⟩
      apply List.find?_eq_some_iff_getElem.mpr
      refine ⟨?_, lowerBound below xs, hIndex, hX, ?_⟩
      · simp [lowerBound_at hGet]
      · intro j hJ
        have hLt : j < xs.length := by omega
        simp [lowerBound_below hSplit
          (List.getElem?_eq_getElem hLt) hJ]

end Library

end Ydsh
