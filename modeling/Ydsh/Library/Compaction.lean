import Mathlib.Data.List.Basic
import Mathlib.Data.List.TakeDrop
import Mathlib.Tactic.Common

/-
  In-place compaction of a vector by swapping.

  The loop keeps the live elements in their order at the
  front of the vector and leaves the dead ones behind them.

  Main declarations:
    * `compactLoop`
    * `Compacted`
    * `compactLoop_compacted`
    * `compact`
    * `compact_eq_filter`
-/

----
-- Compaction Loop
----

namespace Ydsh

namespace Library

variable {α : Type}

/- Exchange the elements at two indices. -/
def swapAt
    (xs : List α)
    (i j : Nat) : List α :=
  match xs[i]?, xs[j]? with
  | some x, some y => (xs.set i y).set j x
  | _, _ => xs

@[simp] theorem swapAt_length
    (xs : List α)
    (i j : Nat) :
    (swapAt xs i j).length = xs.length := by
  unfold swapAt
  split <;> simp

/- Elements away from the two indices stay in place. -/
theorem swapAt_getElem?_ne
    (xs : List α)
    {i j k : Nat}
    (hI : k ≠ i)
    (hJ : k ≠ j) :
    (swapAt xs i j)[k]? = xs[k]? := by
  unfold swapAt
  split
  · rw [List.getElem?_set_ne hJ.symm,
      List.getElem?_set_ne hI.symm]
  · rfl

theorem swapAt_getElem?_right
    (xs : List α)
    {i j : Nat}
    (hI : i < xs.length)
    (hJ : j < xs.length) :
    (swapAt xs i j)[j]? = xs[i]? := by
  unfold swapAt
  rw [List.getElem?_eq_getElem hI,
    List.getElem?_eq_getElem hJ]
  simp [hJ]

theorem swapAt_getElem?_left
    (xs : List α)
    {i j : Nat}
    (hI : i < xs.length)
    (hJ : j < xs.length) :
    (swapAt xs i j)[i]? = xs[j]? := by
  unfold swapAt
  rw [List.getElem?_eq_getElem hI,
    List.getElem?_eq_getElem hJ]
  by_cases hSame : j = i
  · subst hSame
    simp [hJ]
  · simp only [List.getElem?_set_ne hSame]
    simp [hI]

/-
  Walk over the vector from `i`, moving every live element
  to the index `removed` of the first dead one.
-/
def compactLoop
    (dead : α → Bool)
    (xs : List α)
    (removed i : Nat) : List α × Nat :=
  if h : i < xs.length then
    if dead xs[i] then
      compactLoop dead xs removed (i + 1)
    else
      compactLoop dead (swapAt xs i removed) (removed + 1)
        (i + 1)
  else
    (xs, removed)
termination_by xs.length - i
decreasing_by
  · omega
  · simp only [swapAt_length]
    omega

theorem compactLoop_length
    (dead : α → Bool)
    (xs : List α)
    (removed i : Nat) :
    (compactLoop dead xs removed i).1.length =
      xs.length := by
  fun_induction compactLoop dead xs removed i with
  | case1 xs removed i hIndex hDead ih => exact ih
  | case2 xs removed i hIndex hDead ih => simpa using ih
  | case3 xs removed i hIndex => rfl

/-
  Compaction state: the live elements met so far stand in
  order at the front, the dead ones between the two indices.
-/
structure Compacted
    (dead : α → Bool)
    (original xs : List α)
    (removed i : Nat) : Prop where
  removed_le : removed ≤ i
  index_le : i ≤ xs.length
  front :
    xs.take removed =
      (original.take i).filter (fun x => !dead x)
  gap :
    ∀ k x, removed ≤ k → k < i → xs[k]? = some x →
      dead x = true
  rest : ∀ k, i ≤ k → xs[k]? = original[k]?

theorem Compacted.skip
    {dead : α → Bool}
    {original xs : List α}
    {removed i : Nat}
    (hState : Compacted dead original xs removed i)
    (hIndex : i < xs.length)
    (hDead : dead xs[i] = true) :
    Compacted dead original xs removed (i + 1) where
  removed_le := Nat.le_succ_of_le hState.removed_le
  index_le := hIndex
  front := by
    have hGet : original[i]? = some xs[i] := by
      rw [← hState.rest i (Nat.le_refl _)]
      exact List.getElem?_eq_getElem hIndex
    rw [List.take_add_one, hGet, List.filter_append,
      ← hState.front]
    simp [hDead]
  gap := by
    intro k x hLow hHigh hGet
    rcases Nat.lt_succ_iff_lt_or_eq.mp hHigh with hLt | rfl
    · exact hState.gap k x hLow hLt hGet
    · rw [List.getElem?_eq_getElem hIndex] at hGet
      rw [← Option.some.inj hGet]
      exact hDead
  rest := fun k hK => hState.rest k (by omega)

theorem Compacted.move
    {dead : α → Bool}
    {original xs : List α}
    {removed i : Nat}
    (hState : Compacted dead original xs removed i)
    (hIndex : i < xs.length)
    (hLive : dead xs[i] = false) :
    Compacted dead original (swapAt xs i removed)
      (removed + 1) (i + 1) where
  removed_le := Nat.succ_le_succ hState.removed_le
  index_le := by
    simp only [swapAt_length]
    omega
  front := by
    have hRemoved := hState.removed_le
    have hGet : original[i]? = some xs[i] := by
      rw [← hState.rest i (Nat.le_refl _)]
      exact List.getElem?_eq_getElem hIndex
    have hMoved :
        (swapAt xs i removed)[removed]? = some xs[i] := by
      rw [swapAt_getElem?_right xs hIndex (by omega)]
      exact List.getElem?_eq_getElem hIndex
    have hPrefix :
        (swapAt xs i removed).take removed =
          xs.take removed := by
      apply List.ext_getElem?
      intro k
      by_cases hK : k < removed
      · rw [List.getElem?_take_of_lt hK,
          List.getElem?_take_of_lt hK,
          swapAt_getElem?_ne xs (by omega) (by omega)]
      · rw [List.getElem?_take, List.getElem?_take,
          if_neg hK, if_neg hK]
    rw [List.take_add_one, hMoved, hPrefix,
      List.take_add_one, hGet, List.filter_append,
      ← hState.front]
    simp [hLive]
  gap := by
    intro k x hLow hHigh hGet
    have hRemoved := hState.removed_le
    by_cases hK : k = i
    · -- the dead element that stood at `removed` is now at `i`
      subst hK
      rw [swapAt_getElem?_left xs hIndex (by omega)] at hGet
      exact hState.gap removed x (Nat.le_refl _) (by omega) hGet
    · rw [swapAt_getElem?_ne xs hK (by omega)] at hGet
      exact hState.gap k x (by omega) (by omega) hGet
  rest := by
    intro k hK
    have hRemoved := hState.removed_le
    rw [swapAt_getElem?_ne xs (by omega) (by omega)]
    exact hState.rest k (by omega)

theorem compactLoop_compacted
    (dead : α → Bool)
    (original xs : List α)
    (removed i : Nat)
    (hState : Compacted dead original xs removed i) :
    Compacted dead original
      (compactLoop dead xs removed i).1
      (compactLoop dead xs removed i).2
      (compactLoop dead xs removed i).1.length := by
  fun_induction compactLoop dead xs removed i with
  | case1 xs removed i hIndex hDead ih =>
      exact ih (hState.skip hIndex hDead)
  | case2 xs removed i hIndex hDead ih =>
      exact ih (hState.move hIndex (by simpa using hDead))
  | case3 xs removed i hIndex =>
      have hEnd : i = xs.length := by
        have hLe := hState.index_le
        omega
      subst hEnd
      exact hState

/- The first dead element opens an empty gap behind itself. -/
theorem Compacted.first
    {dead : α → Bool}
    {xs : List α}
    (hFound : xs.findIdx dead < xs.length) :
    Compacted dead xs xs (xs.findIdx dead)
      (xs.findIdx dead + 1) where
  removed_le := Nat.le_succ _
  index_le := hFound
  front := by
    have hDead : dead (xs[xs.findIdx dead]) = true :=
      List.findIdx_getElem
    have hPrefix :
        (xs.take (xs.findIdx dead)).filter (fun x => !dead x) =
          xs.take (xs.findIdx dead) := by
      apply List.filter_eq_self.mpr
      intro x hMem
      rcases List.mem_take_iff_getElem.mp hMem with
        ⟨k, hK, rfl⟩
      have hBefore : k < xs.findIdx dead := by omega
      simpa using List.not_of_lt_findIdx hBefore
    rw [List.take_add_one, List.getElem?_eq_getElem hFound,
      List.filter_append, hPrefix]
    simp [hDead]
  gap := by
    intro k x hLow hHigh hGet
    have hK : k = xs.findIdx dead := by omega
    subst hK
    rw [List.getElem?_eq_getElem hFound] at hGet
    rw [← Option.some.inj hGet]
    exact List.findIdx_getElem
  rest := fun _ _ => rfl

/-
  Compaction from the first dead element on.  The result is
  the vector after the swaps and the number of elements kept.
-/
def compact
    (dead : α → Bool)
    (xs : List α) : List α × Nat :=
  if xs.findIdx dead = xs.length then
    (xs, xs.findIdx dead)
  else
    compactLoop dead xs (xs.findIdx dead)
      (xs.findIdx dead + 1)

/- The kept elements are the live ones in their old order. -/
theorem compact_eq_filter
    (dead : α → Bool)
    (xs : List α) :
    (compact dead xs).1.take (compact dead xs).2 =
      xs.filter (fun x => !dead x) := by
  have hLe : xs.findIdx dead ≤ xs.length :=
    List.findIdx_le_length
  unfold compact
  split
  · next hNone =>
      have hAllLive : ∀ x ∈ xs, dead x = false :=
        List.findIdx_eq_length.mp hNone
      rw [hNone, List.take_length]
      exact (List.filter_eq_self.mpr
        (fun x hMem => by simp [hAllLive x hMem])).symm
  · next hSome =>
      have hState :=
        compactLoop_compacted dead xs xs _ _
          (Compacted.first
            (Nat.lt_of_le_of_ne hLe hSome))
      have hLength :
          (compactLoop dead xs (xs.findIdx dead)
            (xs.findIdx dead + 1)).1.length = xs.length :=
        compactLoop_length dead xs _ _
      rw [hState.front, hLength, List.take_length]

/- The elements behind the kept ones are dead. -/
theorem compact_drop_dead
    (dead : α → Bool)
    (xs : List α)
    {x : α}
    (hMem : x ∈ (compact dead xs).1.drop (compact dead xs).2) :
    dead x = true := by
  have hLe : xs.findIdx dead ≤ xs.length :=
    List.findIdx_le_length
  unfold compact at hMem
  split at hMem
  · next hNone =>
      rw [hNone, List.drop_length] at hMem
      cases hMem
  · next hSome =>
      have hState :=
        compactLoop_compacted dead xs xs _ _
          (Compacted.first
            (Nat.lt_of_le_of_ne hLe hSome))
      rcases List.mem_iff_getElem?.mp hMem with ⟨k, hK⟩
      rw [List.getElem?_drop] at hK
      exact
        hState.gap _ x (Nat.le_add_right _ k)
          (List.getElem?_eq_some_iff.mp hK).1 hK

end Library

end Ydsh
