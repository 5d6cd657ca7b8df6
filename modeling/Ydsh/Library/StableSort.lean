import Mathlib.Data.List.Perm.Basic
import Mathlib.Order.Lattice

/-
  Stable sorting by a strict weak order.

  A comparison is a strict weak order on the elements of a list
  if it is irreflexive and transitive there and if elements that
  are not comparable are as good as equal.  A stable sort puts
  the elements in order and leaves those that are not comparable
  in the order they had.

  Main declarations:
    * `WeakOrder`
    * `weakOrder_of_key`
    * `IsStableSort`
    * `insertBack`
    * `insertionSort`
    * `isStableSort_insertionSort`
-/

----
-- Strict Weak Orders
----

namespace Ydsh

namespace Library

namespace StableSort

variable {α : Type}

/- Neither element is below the other. -/
def equivalent (lt : α → α → Bool) (x y : α) : Bool :=
  !lt x y && !lt y x

structure WeakOrder
    (lt : α → α → Bool)
    (values : List α) : Prop where
  irrefl : ∀ x ∈ values, lt x x = false
  trans :
    ∀ x ∈ values, ∀ y ∈ values, ∀ z ∈ values,
      lt x y = true → lt y z = true → lt x z = true
  equivalent_trans :
    ∀ x ∈ values, ∀ y ∈ values, ∀ z ∈ values,
      equivalent lt x y = true →
        equivalent lt y z = true → equivalent lt x z = true

structure IsStableSort
    (lt : α → α → Bool)
    (values sorted : List α) : Prop where
  perm : sorted.Perm values
  ordered : sorted.Pairwise (fun x y => lt y x = false)
  stable :
    ∀ z ∈ values,
      sorted.filter (equivalent lt z) =
        values.filter (equivalent lt z)

variable {lt : α → α → Bool}
variable {values acc rest : List α}
variable {x y z : α}

theorem equivalent_iff :
    equivalent lt x y = true ↔ lt x y = false ∧ lt y x = false := by
  unfold equivalent
  rw [Bool.and_eq_true, Bool.not_eq_true', Bool.not_eq_true']

theorem WeakOrder.asymm
    (hOrder : WeakOrder lt values)
    (hX : x ∈ values)
    (hY : y ∈ values)
    (hLt : lt x y = true) :
    lt y x = false := by
  by_contra hNot
  have hBack : lt y x = true := Bool.of_not_eq_false hNot
  have hSelf := hOrder.trans x hX y hY x hX hLt hBack
  rw [hOrder.irrefl x hX] at hSelf
  cases hSelf

/- What is not below is transitive, too. -/
theorem WeakOrder.not_lt_trans
    (hOrder : WeakOrder lt values)
    (hX : x ∈ values)
    (hY : y ∈ values)
    (hZ : z ∈ values)
    (hXY : lt x y = false)
    (hYZ : lt y z = false) :
    lt x z = false := by
  by_contra hNot
  have hXZ : lt x z = true := Bool.of_not_eq_false hNot
  by_cases hYX : lt y x = true
  · have hBelow := hOrder.trans y hY x hX z hZ hYX hXZ
    rw [hYZ] at hBelow
    cases hBelow
  by_cases hZY : lt z y = true
  · have hBelow := hOrder.trans x hX z hZ y hY hXZ hZY
    rw [hXY] at hBelow
    cases hBelow
  have hFirst : equivalent lt x y = true :=
    equivalent_iff.mpr ⟨hXY, Bool.eq_false_iff.mpr hYX⟩
  have hSecond : equivalent lt y z = true :=
    equivalent_iff.mpr ⟨hYZ, Bool.eq_false_iff.mpr hZY⟩
  have hBoth :=
    hOrder.equivalent_trans x hX y hY z hZ hFirst hSecond
  rw [(equivalent_iff.mp hBoth).1] at hXZ
  cases hXZ

/- An element above one is not equivalent to one like it. -/
theorem WeakOrder.not_equivalent
    (hOrder : WeakOrder lt values)
    (hX : x ∈ values)
    (hY : y ∈ values)
    (hZ : z ∈ values)
    (hLt : lt x y = true)
    (hSame : equivalent lt z x = true) :
    equivalent lt z y = false := by
  by_contra hNot
  have hZY : equivalent lt z y = true := Bool.of_not_eq_false hNot
  rcases equivalent_iff.mp hSame with ⟨_, hXZ⟩
  rcases equivalent_iff.mp hZY with ⟨hZY', _⟩
  rw [hOrder.not_lt_trans hX hZ hY hXZ hZY'] at hLt
  cases hLt

/- A comparison of keys that are in a linear order. -/
section

variable {κ : Type} [LinearOrder κ]
variable {key : α → κ}

theorem equivalent_iff_key
    (hXY : lt x y = true ↔ key x < key y)
    (hYX : lt y x = true ↔ key y < key x) :
    equivalent lt x y = true ↔ key x = key y := by
  rw [equivalent_iff, Bool.eq_false_iff, Bool.eq_false_iff,
    Ne, Ne, hXY, hYX]
  constructor
  · intro hNeither
    exact
      le_antisymm (not_lt.mp hNeither.2) (not_lt.mp hNeither.1)
  · intro hSame
    rw [hSame]
    exact ⟨lt_irrefl _, lt_irrefl _⟩

theorem weakOrder_of_key
    (hKey :
      ∀ x ∈ values, ∀ y ∈ values,
        (lt x y = true ↔ key x < key y)) :
    WeakOrder lt values where
  irrefl := by
    intro x hX
    apply Bool.eq_false_iff.mpr
    intro hLt
    exact lt_irrefl _ ((hKey x hX x hX).mp hLt)
  trans := by
    intro x hX y hY z hZ hXY hYZ
    have hBelow := (hKey x hX y hY).mp hXY
    exact
      (hKey x hX z hZ).mpr
        (lt_trans hBelow ((hKey y hY z hZ).mp hYZ))
  equivalent_trans := by
    intro x hX y hY z hZ hXY hYZ
    have hFirst :=
      (equivalent_iff_key (hKey x hX y hY)
        (hKey y hY x hX)).mp hXY
    have hSecond :=
      (equivalent_iff_key (hKey y hY z hZ)
        (hKey z hZ y hY)).mp hYZ
    exact
      (equivalent_iff_key (hKey x hX z hZ)
        (hKey z hZ x hX)).mpr (hFirst.trans hSecond)

end

----
-- Insertion Sort
----

/- Insertion into a list that is sorted from its end. -/
def insertBack (lt : α → α → Bool) (x : α) : List α → List α
  | [] => [x]
  | y :: rest =>
      if lt x y then
        y :: insertBack lt x rest
      else
        x :: y :: rest

def sortBack
    (lt : α → α → Bool) : List α → List α → List α
  | acc, [] => acc
  | acc, x :: rest => sortBack lt (insertBack lt x acc) rest

def insertionSort
    (lt : α → α → Bool)
    (values : List α) : List α :=
  (sortBack lt [] values).reverse

theorem insertBack_perm (x : α) (acc : List α) :
    (insertBack lt x acc).Perm (x :: acc) := by
  induction acc with
  | nil => exact List.Perm.refl _
  | cons y acc ih =>
      unfold insertBack
      by_cases hLt : lt x y = true
      · rw [if_pos hLt]
        exact (ih.cons y).trans (List.Perm.swap x y acc)
      · rw [if_neg hLt]

theorem sortBack_perm :
    (sortBack lt acc rest).Perm (acc ++ rest) := by
  induction rest generalizing acc with
  | nil =>
      rw [List.append_nil]
      exact List.Perm.refl _
  | cons x rest ih =>
      apply ih.trans
      apply ((insertBack_perm x acc).append_right rest).trans
      exact (List.perm_middle).symm

/- From the end on, no element is below a later one. -/
def Descending (lt : α → α → Bool) (acc : List α) : Prop :=
  acc.Pairwise (fun x y => lt x y = false)

theorem descending_insertBack
    (hOrder : WeakOrder lt values)
    (hX : x ∈ values)
    (hAcc : ∀ y ∈ acc, y ∈ values)
    (hDescending : Descending lt acc) :
    Descending lt (insertBack lt x acc) := by
  induction acc with
  | nil => exact List.pairwise_singleton _ x
  | cons y acc ih =>
      have hY := hAcc y List.mem_cons_self
      have hRest : ∀ z ∈ acc, z ∈ values :=
        fun z hZ => hAcc z (List.mem_cons_of_mem _ hZ)
      rcases List.pairwise_cons.mp hDescending with
        ⟨hHead, hTail⟩
      unfold insertBack
      by_cases hLt : lt x y = true
      · rw [if_pos hLt]
        apply List.pairwise_cons.mpr
        refine ⟨?_, ih hRest hTail⟩
        intro z hZ
        rcases
            List.mem_cons.mp
              ((insertBack_perm x acc).mem_iff.mp hZ) with
          hSame | hOld
        · rw [hSame]
          exact hOrder.asymm hX hY hLt
        · exact hHead z hOld
      · rw [if_neg hLt]
        have hNot : lt x y = false := Bool.eq_false_iff.mpr hLt
        apply List.pairwise_cons.mpr
        refine ⟨?_, hDescending⟩
        intro z hZ
        rcases List.mem_cons.mp hZ with hSame | hOld
        · rw [hSame]
          exact hNot
        · exact
            hOrder.not_lt_trans hX hY (hRest z hOld) hNot
              (hHead z hOld)

/- An element is inserted in front of those like it. -/
theorem filter_insertBack
    (hOrder : WeakOrder lt values)
    (hX : x ∈ values)
    (hZ : z ∈ values)
    (hAcc : ∀ y ∈ acc, y ∈ values) :
    (insertBack lt x acc).filter (equivalent lt z) =
      (x :: acc).filter (equivalent lt z) := by
  induction acc with
  | nil => rfl
  | cons y acc ih =>
      have hY := hAcc y List.mem_cons_self
      have hRest : ∀ w ∈ acc, w ∈ values :=
        fun w hW => hAcc w (List.mem_cons_of_mem _ hW)
      unfold insertBack
      by_cases hLt : lt x y = true
      · rw [if_pos hLt, List.filter_cons, ih hRest]
        by_cases hSame : equivalent lt z x = true
        · have hNot :=
            hOrder.not_equivalent hX hY hZ hLt hSame
          simp [hSame, hNot]
        · simp [List.filter_cons, hSame]
      · rw [if_neg hLt]

theorem of_mem_insertBack
    {x y : α}
    (hX : x ∈ values)
    (hAcc : ∀ z ∈ acc, z ∈ values)
    (hY : y ∈ insertBack lt x acc) :
    y ∈ values := by
  rcases
      List.mem_cons.mp
        ((insertBack_perm x acc).mem_iff.mp hY) with
    hSame | hOld
  · rw [hSame]
    exact hX
  · exact hAcc y hOld

theorem sortBack_spec
    (hOrder : WeakOrder lt values)
    (hAcc : ∀ y ∈ acc, y ∈ values)
    (hRest : ∀ y ∈ rest, y ∈ values)
    (hDescending : Descending lt acc) :
    Descending lt (sortBack lt acc rest) ∧
      ∀ z ∈ values,
        (sortBack lt acc rest).filter (equivalent lt z) =
          (rest.reverse ++ acc).filter (equivalent lt z) := by
  induction rest generalizing acc with
  | nil =>
      refine ⟨hDescending, ?_⟩
      intro z _
      rfl
  | cons x rest ih =>
      have hX := hRest x List.mem_cons_self
      have hNext : ∀ y ∈ insertBack lt x acc, y ∈ values :=
        fun y hY => of_mem_insertBack hX hAcc hY
      rcases
          ih hNext
            (fun y hY => hRest y (List.mem_cons_of_mem _ hY))
            (descending_insertBack hOrder hX hAcc hDescending)
        with ⟨hSorted, hFilter⟩
      refine ⟨hSorted, ?_⟩
      intro z hZ
      unfold sortBack
      rw [hFilter z hZ, List.filter_append,
        filter_insertBack hOrder hX hZ hAcc,
        List.reverse_cons, List.append_assoc,
        List.filter_append]
      rfl

theorem isStableSort_insertionSort
    (hOrder : WeakOrder lt values) :
    IsStableSort lt values (insertionSort lt values) := by
  have hPerm : (sortBack lt [] values).Perm values :=
    sortBack_perm
  rcases
      @sortBack_spec α lt values [] values hOrder
        (fun y hY => absurd hY List.not_mem_nil)
        (fun y hY => hY) List.Pairwise.nil with
    ⟨hDescending, hFilter⟩
  unfold insertionSort
  refine ⟨(List.reverse_perm _).trans hPerm, ?_, ?_⟩
  · exact List.pairwise_reverse.mpr hDescending
  · intro z hZ
    rw [List.filter_reverse, hFilter z hZ, List.append_nil,
      List.filter_reverse, List.reverse_reverse]

end StableSort

end Library

end Ydsh
