import Ydsh.Library.SortedVector

/-
  The first gap of a vector of numbered elements.

  Elements carry increasing positive numbers.  As long as no
  number is missing, the element at an index carries the number
  after it, so the first gap can be found by halving.

  Main declarations:
    * `firstGap`
    * `firstGap_unused`
    * `firstGap_used`
    * `SortedBy.insertIdx_firstGap`
-/

----
-- Search
----

namespace Ydsh

namespace Library

variable {α : Type}

def firstGap
    (key : α → Nat)
    (xs : List α) : Nat :=
  partitionPoint
    (fun i => (xs[i]?.map key) == some (i + 1))
    0 xs.length

theorem firstGap_le_length
    (key : α → Nat)
    (xs : List α) :
    firstGap key xs ≤ xs.length := by
  have hBounds :=
    partitionPoint_bounds
      (fun i => (xs[i]?.map key) == some (i + 1)) 0 xs.length
  simpa [firstGap] using hBounds.2

theorem SortedBy.congr
    {κ : Type} [LinearOrder κ]
    {key other : α → κ}
    {xs : List α}
    (hSorted : SortedBy key xs)
    (hSame : ∀ x ∈ xs, other x = key x) :
    SortedBy other xs := by
  refine List.Pairwise.imp_of_mem ?_ hSorted
  intro x y hX hY hLt
  rw [hSame x hX, hSame y hY]
  exact hLt

/- Positive increasing numbers run ahead of the indices. -/
theorem SortedBy.index_lt_key
    {key : α → Nat}
    {xs : List α}
    (hSorted : SortedBy key xs)
    (hPos : ∀ x ∈ xs, 0 < key x)
    {i : Nat}
    {x : α}
    (hGet : xs[i]? = some x) :
    i < key x := by
  induction i generalizing x with
  | zero => exact hPos x (List.mem_of_getElem? hGet)
  | succ i ih =>
      have hI := (List.getElem?_eq_some_iff.mp hGet).1
      have hPrevious :=
        List.getElem?_eq_getElem (Nat.lt_of_succ_lt hI)
      have hLt :=
        List.pairwise_iff_getElem.mp hSorted i (i + 1)
          (Nat.lt_of_succ_lt hI) hI (Nat.lt_succ_self i)
      rw [(List.getElem?_eq_some_iff.mp hGet).2] at hLt
      have hLow := ih hPrevious
      omega

section

variable {key : α → Nat}
variable {xs : List α}
variable (hSorted : SortedBy key xs)
variable (hPos : ∀ x ∈ xs, 0 < key x)

include hSorted hPos

/- Once a number is missing, the later elements are ahead. -/
theorem numbered_isPartitioned :
    IsPartitioned
      (fun i => (xs[i]?.map key) == some (i + 1))
      0 xs.length := by
  intro i j _ hIJ hJ hKey
  have hJLength : j < xs.length := by omega
  have hILength : i < xs.length := by omega
  have hGetI := List.getElem?_eq_getElem hILength
  have hGetJ := List.getElem?_eq_getElem hJLength
  simp only [hGetI, hGetJ, Option.map_some, beq_iff_eq,
    Option.some.injEq] at hKey ⊢
  have hLow := hSorted.index_lt_key hPos hGetI
  have hGrow :
      ∀ k, (hK : i + k < xs.length) →
        key xs[i] + k ≤ key xs[i + k] := by
    intro k
    induction k with
    | zero => exact fun _ => Nat.le_refl _
    | succ k ih =>
        intro hK
        have hPrevious := ih (by omega)
        have hLt :=
          List.pairwise_iff_getElem.mp hSorted (i + k)
            (i + (k + 1)) (by omega) hK (by omega)
        omega
  have hFar := hGrow (j - i) (by omega)
  have hIndex : i + (j - i) = j := by omega
  simp only [hIndex] at hFar
  omega

theorem firstGap_before
    {i : Nat}
    {x : α}
    (hGet : xs[i]? = some x)
    (hBefore : i < firstGap key xs) :
    key x = i + 1 := by
  have hBelow :=
    partitionPoint_below _ 0 xs.length
      (numbered_isPartitioned hSorted hPos)
      (Nat.zero_le i) hBefore
  simpa [hGet] using hBelow

theorem firstGap_after
    {i : Nat}
    {x : α}
    (hGet : xs[i]? = some x)
    (hAfter : firstGap key xs ≤ i) :
    firstGap key xs + 1 < key x := by
  have hI := (List.getElem?_eq_some_iff.mp hGet).1
  have hGap : firstGap key xs < xs.length := by omega
  have hAt :=
    partitionPoint_at
      (fun i => (xs[i]?.map key) == some (i + 1)) 0 xs.length
      (by simpa [firstGap] using hGap)
  have hGetGap := List.getElem?_eq_getElem hGap
  have hNe : key xs[firstGap key xs] ≠ firstGap key xs + 1 := by
    intro hSame
    have hHit :
        ((xs[firstGap key xs]?.map key) ==
          some (firstGap key xs + 1)) = true := by
      simp [hGetGap, hSame]
    rw [show firstGap key xs = partitionPoint
      (fun i => (xs[i]?.map key) == some (i + 1)) 0 xs.length
      from rfl, hAt] at hHit
    cases hHit
  have hLow := hSorted.index_lt_key hPos hGetGap
  rcases Nat.eq_or_lt_of_le hAfter with hSame | hLt
  · subst hSame
    rw [hGetGap] at hGet
    cases hGet
    omega
  · have hOrder :=
      List.pairwise_iff_getElem.mp hSorted _ i hGap hI hLt
    rw [(List.getElem?_eq_some_iff.mp hGet).2] at hOrder
    omega

/- No element carries the number of the gap. -/
theorem firstGap_unused
    {x : α}
    (hMem : x ∈ xs) :
    key x ≠ firstGap key xs + 1 := by
  rcases List.mem_iff_getElem?.mp hMem with ⟨i, hGet⟩
  by_cases hBefore : i < firstGap key xs
  · have hKey := firstGap_before hSorted hPos hGet hBefore
    omega
  · have hKey :=
      firstGap_after hSorted hPos hGet (Nat.le_of_not_lt hBefore)
    omega

/- Every smaller positive number is carried by an element. -/
theorem firstGap_used
    {n : Nat}
    (hN : 0 < n)
    (hBelow : n < firstGap key xs + 1) :
    ∃ x ∈ xs, key x = n := by
  have hLe := firstGap_le_length key xs
  have hIndex : n - 1 < xs.length := by omega
  have hGet := List.getElem?_eq_getElem hIndex
  have hKey :=
    firstGap_before hSorted hPos hGet (by omega)
  exact ⟨_, List.mem_of_getElem? hGet, by omega⟩

/- An element that takes the number keeps the order. -/
theorem SortedBy.insertIdx_firstGap
    {other : α → Nat}
    {a : α}
    (hSame : ∀ x ∈ xs, other x = key x)
    (hNew : other a = firstGap key xs + 1) :
    SortedBy other (xs.insertIdx (firstGap key xs) a) := by
  refine pairwise_insertIdx (hSorted.congr hSame) ?_ ?_
  · intro i x hI hGet
    rw [hNew, hSame x (List.mem_of_getElem? hGet),
      firstGap_before hSorted hPos hGet hI]
    omega
  · intro i x hI hGet
    rw [hNew, hSame x (List.mem_of_getElem? hGet)]
    exact firstGap_after hSorted hPos hGet hI

end

end Library

end Ydsh
