import Mathlib.Data.List.InsertIdx
import Mathlib.Order.Lattice
import Ydsh.Library.PartitionPoint

/-
  Vectors kept sorted by a key and searched by halving.

  Main declarations:
    * `SortedBy`
    * `SortedBy.insertIdx`
    * `SortedBy.lowerBound_getElem?`
    * `SortedBy.eq_of_key`
-/

----
-- Sorted Vectors
----

namespace Ydsh

namespace Library

variable {α κ : Type} [LinearOrder κ]

def SortedBy
    (key : α → κ)
    (xs : List α) : Prop :=
  xs.Pairwise (fun x y => key x < key y)

/- The comparison `std::lower_bound` makes on keys. -/
def keyBelow
    (key : α → κ)
    (k : κ)
    (x : α) : Bool :=
  decide (key x < k)

theorem SortedBy.nil
    (key : α → κ) :
    SortedBy key [] :=
  List.Pairwise.nil

theorem SortedBy.filter
    {key : α → κ}
    {xs : List α}
    (hSorted : SortedBy key xs)
    (p : α → Bool) :
    SortedBy key (xs.filter p) :=
  List.Pairwise.filter p hSorted

/- Only the keys matter for the order. -/
theorem SortedBy.of_map_eq
    {key : α → κ}
    {xs ys : List α}
    (hSorted : SortedBy key xs)
    (hKeys : ys.map key = xs.map key) :
    SortedBy key ys := by
  unfold SortedBy at hSorted ⊢
  rw [← List.pairwise_map (f := key)] at hSorted ⊢
  rw [hKeys]
  exact hSorted

theorem SortedBy.splits
    {key : α → κ}
    {xs : List α}
    (hSorted : SortedBy key xs)
    (k : κ) :
    SplitsList (keyBelow key k) xs := by
  apply List.Pairwise.imp _ hSorted
  intro x y hLt hBelow
  simp only [keyBelow, decide_eq_true_eq] at hBelow ⊢
  exact lt_trans hLt hBelow

/- Two elements with one key stand at one index. -/
theorem SortedBy.eq_of_key
    {key : α → κ}
    {xs : List α}
    (hSorted : SortedBy key xs)
    {i j : Nat}
    {x y : α}
    (hX : xs[i]? = some x)
    (hY : xs[j]? = some y)
    (hKey : key x = key y) :
    i = j := by
  rcases List.getElem?_eq_some_iff.mp hX with ⟨hI, rfl⟩
  rcases List.getElem?_eq_some_iff.mp hY with ⟨hJ, rfl⟩
  have hOrder := List.pairwise_iff_getElem.mp hSorted
  rcases Nat.lt_trichotomy i j with hLt | hEq | hGt
  · exact absurd hKey (ne_of_lt (hOrder i j hI hJ hLt))
  · exact hEq
  · exact absurd hKey.symm
      (ne_of_lt (hOrder j i hJ hI hGt))

/- The lower bound is the first element not below the key. -/
theorem SortedBy.lowerBound_getElem?
    {key : α → κ}
    {xs : List α}
    (hSorted : SortedBy key xs)
    (k : κ) :
    xs[lowerBound (keyBelow key k) xs]? =
      xs.find? (fun x => decide (k ≤ key x)) := by
  rw [Library.lowerBound_getElem? (hSorted.splits k)]
  congr 1
  funext x
  rw [Bool.eq_iff_iff]
  simp [keyBelow]

/- An element with the searched key is the one found. -/
theorem SortedBy.lowerBound_of_key
    {key : α → κ}
    {xs : List α}
    (hSorted : SortedBy key xs)
    {i : Nat}
    {x : α}
    (hGet : xs[i]? = some x) :
    lowerBound (keyBelow key (key x)) xs = i := by
  have hSplit := hSorted.splits (key x)
  have hLe : lowerBound (keyBelow key (key x)) xs ≤ i := by
    by_contra hGt
    have hBelow :=
      lowerBound_below hSplit hGet (Nat.lt_of_not_le hGt)
    simp [keyBelow] at hBelow
  rcases Nat.lt_or_eq_of_le hLe with hLt | hEq
  · -- an earlier element would be both below and not below
    have hI : i < xs.length :=
      (List.getElem?_eq_some_iff.mp hGet).1
    have hFound := List.getElem?_eq_getElem
      (Nat.lt_trans hLt hI)
    have hNotBelow := lowerBound_at hFound
    have hOrder :=
      List.pairwise_iff_getElem.mp hSorted _ i
        (Nat.lt_trans hLt hI) hI hLt
    rw [(List.getElem?_eq_some_iff.mp hGet).2] at hOrder
    simp [keyBelow, not_le.mpr hOrder] at hNotBelow
  · exact hEq

----
-- Insertion
----

theorem pairwise_insertIdx
    {R : α → α → Prop}
    {xs : List α}
    (hPair : xs.Pairwise R)
    {i : Nat}
    {a : α}
    (hBefore : ∀ k x, k < i → xs[k]? = some x → R x a)
    (hAfter : ∀ k x, i ≤ k → xs[k]? = some x → R a x) :
    (xs.insertIdx i a).Pairwise R := by
  induction xs generalizing i with
  | nil =>
      cases i with
      | zero => simp
      | succ i => simp
  | cons x xs ih =>
      rcases List.pairwise_cons.mp hPair with
        ⟨hHead, hTail⟩
      cases i with
      | zero =>
          rw [List.insertIdx_zero]
          refine List.pairwise_cons.mpr ⟨?_, hPair⟩
          intro y hMem
          rcases List.mem_iff_getElem?.mp hMem with ⟨k, hK⟩
          exact hAfter k y (Nat.zero_le k) hK
      | succ i =>
          rw [List.insertIdx_succ_cons]
          refine List.pairwise_cons.mpr ⟨?_, ?_⟩
          · intro y hMem
            rcases List.eq_or_mem_of_mem_insertIdx hMem with
              rfl | hOld
            · exact hBefore 0 x (Nat.succ_pos i) rfl
            · exact hHead y hOld
          · apply ih hTail
            · intro k y hK hGet
              exact hBefore (k + 1) y (by omega) hGet
            · intro k y hK hGet
              exact hAfter (k + 1) y (by omega) hGet

/- Inserting a new key at its lower bound keeps the order. -/
theorem SortedBy.insertIdx
    {key : α → κ}
    {xs : List α}
    (hSorted : SortedBy key xs)
    {a : α}
    (hNew : ∀ x ∈ xs, key x ≠ key a) :
    SortedBy key
      (xs.insertIdx
        (lowerBound (keyBelow key (key a)) xs) a) := by
  have hSplit := hSorted.splits (key a)
  apply pairwise_insertIdx hSorted
  · intro k x hK hGet
    simpa [keyBelow] using lowerBound_below hSplit hGet hK
  · intro k x hK hGet
    have hMem : x ∈ xs := List.mem_of_getElem? hGet
    apply lt_of_le_of_ne _ (hNew x hMem).symm
    by_contra hGt
    have hBelow : keyBelow key (key a) x = true := by
      simpa [keyBelow] using hGt
    have hKLength : k < xs.length :=
      (List.getElem?_eq_some_iff.mp hGet).1
    have hFound := List.getElem?_eq_getElem
      (Nat.lt_of_le_of_lt hK hKLength)
    have hAt := lowerBound_at hFound
    have hPart :=
      belowAt_isPartitioned hSplit _ k (Nat.zero_le _) hK
        (by omega)
    rw [belowAt_of_get hGet, belowAt_of_get hFound] at hPart
    rw [hPart hBelow] at hAt
    exact Bool.noConfusion hAt

end Library

end Ydsh
