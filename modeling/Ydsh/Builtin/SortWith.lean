import Ydsh.Library.StableSort

/-
  Sorting an array with a comparator of the user.

  The comparator is called from within the sort of the standard
  library, of which is known what it does for a strict weak
  order that raises nothing and leaves the array alone.  An
  error passes through the sort as an exception, and so the
  elements that the sort holds at this moment are lost.

  Main declarations:
    * `Comparator`
    * `Conforms`
    * `array_sortWith`
    * `Safe`
    * `movingSort`
    * `array_sortWith_iff`
-/

----
-- Comparators and Sorts
----

namespace Ydsh

namespace Builtin

open Library.StableSort

/-
  What a call of the comparator leaves.  An empty slot is a
  value that has been moved from.  No value: an error is raised.
-/
structure Answer (W V : Type) where
  world : W
  slots : List (Option V)
  value : Option Bool
  deriving DecidableEq, Repr

/- A function that reads and changes the world and the array. -/
abbrev Comparator (W V : Type) : Type :=
  W → List (Option V) → V → V → Answer W V

/- `thrown` is the exception that an error becomes. -/
structure Sorting (W V : Type) where
  world : W
  slots : List (Option V)
  thrown : Bool
  deriving DecidableEq, Repr

/- `std::stable_sort` -/
abbrev StableSorter (W V : Type) : Type :=
  Comparator W V → W → List V → Sorting W V

variable {W V : Type}
variable {comp : Comparator W V}
variable {world : W}
variable {values acc rest : List V}
variable {lt lt' : V → V → Bool}

/- A slot is empty or holds an element of the array. -/
def Holds
    (values : List V)
    (slots : List (Option V)) : Prop :=
  ∀ v, some v ∈ slots → v ∈ values

/-
  The worlds that the comparator is called in, when the elements
  are compared in any order.  An error ends the comparisons.
-/
inductive Reached
    (comp : Comparator W V)
    (values : List V)
    (start : W) : W → Prop where
  | start : Reached comp values start start
  | call
      {world : W}
      {slots : List (Option V)}
      {x y : V} :
      Reached comp values start world →
      Holds values slots →
      x ∈ values →
      y ∈ values →
      (comp world slots x y).value ≠ none →
      Reached comp values start (comp world slots x y).world

/- Every answer to a comparison of elements, from a world on. -/
def Always
    (comp : Comparator W V)
    (values : List V)
    (start : W)
    (good : List (Option V) → V → V → Answer W V → Prop) : Prop :=
  ∀ world, Reached comp values start world →
    ∀ slots, Holds values slots →
      ∀ x ∈ values, ∀ y ∈ values,
        good slots x y (comp world slots x y)

/- On the elements the comparator is the relation `lt`. -/
def Follows
    (comp : Comparator W V)
    (values : List V)
    (start : W)
    (lt : V → V → Bool) : Prop :=
  Always comp values start fun slots x y answer =>
    answer.slots = slots ∧ answer.value = some (lt x y)

/-
  What is guaranteed: one element is not compared at all, and a
  strict weak order yields the stable sort.
-/
structure Conforms (sort : StableSorter W V) : Prop where
  short :
    ∀ comp world values,
      values.length ≤ 1 →
        sort comp world values =
          { world := world
            slots := values.map some
            thrown := false }
  sorted :
    ∀ comp world values lt,
      WeakOrder lt values →
        Follows comp values world lt →
          ∃ world' result,
            sort comp world values =
                { world := world'
                  slots := result.map some
                  thrown := false } ∧
              IsStableSort lt values result

inductive SortResult where
  | returned
  | error
  deriving DecidableEq, Repr

structure SortCall (W V : Type) where
  world : W
  slots : List (Option V)
  result : SortResult
  deriving DecidableEq, Repr

/- Any exception ends the method with the error. -/
def array_sortWith
    (sort : StableSorter W V)
    (comp : Comparator W V)
    (world : W)
    (values : List V) : SortCall W V :=
  let sorting := sort comp world values
  { world := sorting.world
    slots := sorting.slots
    result := if sorting.thrown then .error else .returned }

----
-- Nothing Is Lost
----

/- The comparator does not change the array. -/
def KeepsArray
    (comp : Comparator W V)
    (values : List V)
    (start : W) : Prop :=
  Always comp values start fun slots _ _ answer =>
    answer.slots = slots

/-
  No slot is empty, no element is lost unless the comparator
  changes the array, and with a strict weak order the array is
  sorted.
-/
def Safe
    (comp : Comparator W V)
    (values : List V)
    (start : W)
    (call : SortCall W V) : Prop :=
  ∃ result : List V,
    call.slots = result.map some ∧
      (KeepsArray comp values start → result.Perm values) ∧
        ∀ lt,
          WeakOrder lt values →
            Follows comp values start lt →
              call.result = .returned ∧
                IsStableSort lt values result

/- There is a strict weak order that the comparator follows. -/
def WellBehaved
    (comp : Comparator W V)
    (values : List V)
    (start : W) : Prop :=
  ∃ lt, WeakOrder lt values ∧ Follows comp values start lt

theorem isStableSort_short
    (hShort : values.length ≤ 1) :
    IsStableSort lt values values where
  perm := List.Perm.refl _
  ordered := by
    cases values with
    | nil => exact List.Pairwise.nil
    | cons x values =>
        cases values with
        | nil => exact List.pairwise_singleton _ x
        | cons y values =>
            rw [List.length_cons, List.length_cons] at hShort
            omega
  stable := fun _ _ => rfl

theorem map_some_injective
    {result result' : List V}
    (hSame : result.map some = result'.map some) :
    result = result' :=
  (List.map_inj_right (fun _ _ => Option.some.inj)).mp hSame

theorem safe_of_short
    {sort : StableSorter W V}
    (hConforms : Conforms sort)
    (hShort : values.length ≤ 1) :
    Safe comp values world
      (array_sortWith sort comp world values) := by
  have hSort := hConforms.short comp world values hShort
  refine ⟨values, ?_, fun _ => List.Perm.refl _, ?_⟩
  · simp only [array_sortWith, hSort]
  · intro lt _ _
    refine ⟨?_, isStableSort_short hShort⟩
    simp only [array_sortWith, hSort]
    exact if_neg Bool.false_ne_true

theorem safe_of_wellBehaved
    {sort : StableSorter W V}
    (hConforms : Conforms sort)
    (hBehaved : WellBehaved comp values world) :
    Safe comp values world
      (array_sortWith sort comp world values) := by
  rcases hBehaved with ⟨lt, hOrder, hFollows⟩
  rcases hConforms.sorted comp world values lt hOrder hFollows
    with ⟨world', result, hSort, hStable⟩
  refine ⟨result, ?_, fun _ => hStable.perm, ?_⟩
  · simp only [array_sortWith, hSort]
  · intro other hOther hFollowsOther
    rcases
        hConforms.sorted comp world values other hOther
          hFollowsOther with
      ⟨_, result', hSort', hStable'⟩
    rw [hSort] at hSort'
    have hSame :=
      map_some_injective (congrArg Sorting.slots hSort')
    refine ⟨?_, ?_⟩
    · simp only [array_sortWith, hSort]
      exact if_neg Bool.false_ne_true
    · rw [hSame]
      exact hStable'

----
-- A Sort that Moves Elements
----

/-
  The element `x` has been moved out of the array, and those
  above it are shifted up.  The elements in front of the gap are
  given from the last one on.
-/
def insertMoved
    (comp : Comparator W V)
    (x : V)
    (rest : List V) :
    List V → List V → W → Except (Sorting W V) (W × List V)
  | shifted, [], world => .ok (world, (x :: shifted).reverse)
  | shifted, y :: before, world =>
      let slots :=
        (y :: before).reverse.map some ++ none ::
          (shifted ++ rest).map some
      let answer := comp world slots x y
      match answer.value with
      | none =>
          .error
            { world := answer.world
              slots := slots
              thrown := true }
      | some true =>
          insertMoved comp x rest (y :: shifted) before
            answer.world
      | some false =>
          .ok
            (answer.world, shifted.reverse ++ x :: y :: before)

def sortMoved
    (comp : Comparator W V) :
    List V → List V → W → Sorting W V
  | acc, [], world =>
      { world := world
        slots := acc.reverse.map some
        thrown := false }
  | acc, x :: rest, world =>
      match insertMoved comp x rest [] acc world with
      | .error sorting => sorting
      | .ok (world', acc') => sortMoved comp acc' rest world'

/- The insertion sort of short ranges. -/
def movingSort : StableSorter W V :=
  fun comp world values => sortMoved comp [] values world

theorem holds_gap
    {shifted before : List V}
    (hBefore : ∀ y ∈ before, y ∈ values)
    (hShifted : ∀ y ∈ shifted, y ∈ values)
    (hRest : ∀ y ∈ rest, y ∈ values) :
    Holds values
      (before.reverse.map some ++
        none :: (shifted ++ rest).map some) := by
  intro v hMem
  simp only [List.mem_append, List.mem_cons, List.mem_map,
    List.mem_reverse, Option.some.injEq, exists_eq_right,
    reduceCtorEq, false_or] at hMem
  rcases hMem with hOld | hNew | hLater
  · exact hBefore v hOld
  · exact hShifted v hNew
  · exact hRest v hLater

theorem insertMoved_eq
    {start : W}
    {x : V}
    {shifted before : List V}
    (hFollows : Follows comp values start lt)
    (hWorld : Reached comp values start world)
    (hX : x ∈ values)
    (hBefore : ∀ y ∈ before, y ∈ values)
    (hShifted : ∀ y ∈ shifted, y ∈ values)
    (hRest : ∀ y ∈ rest, y ∈ values) :
    ∃ world',
      Reached comp values start world' ∧
        insertMoved comp x rest shifted before world =
          .ok
            (world',
              shifted.reverse ++ insertBack lt x before) := by
  induction before generalizing shifted world with
  | nil =>
      refine ⟨world, hWorld, ?_⟩
      unfold insertMoved
      rw [List.reverse_cons]
      rfl
  | cons y before ih =>
      have hY := hBefore y List.mem_cons_self
      have hSlots := holds_gap hBefore hShifted hRest
      have hAnswer := (hFollows world hWorld _ hSlots x hX y hY).2
      have hNext :=
        Reached.call hWorld hSlots hX hY
          (by rw [hAnswer]; exact Option.some_ne_none _)
      simp only [insertMoved, insertBack, hAnswer]
      cases hLt : lt x y with
      | true =>
          have hNextShifted : ∀ z ∈ y :: shifted, z ∈ values := by
            intro z hZ
            rcases List.mem_cons.mp hZ with rfl | hOld
            · exact hY
            · exact hShifted z hOld
          rcases
              ih hNext
                (fun z hZ =>
                  hBefore z (List.mem_cons_of_mem _ hZ))
                hNextShifted with
            ⟨world', hReached, hRun⟩
          refine ⟨world', hReached, ?_⟩
          simp only [hRun, if_true]
          rw [List.reverse_cons, List.append_assoc]
          rfl
      | false => exact ⟨_, hNext, rfl⟩

theorem sortMoved_eq
    {start : W}
    (hFollows : Follows comp values start lt)
    (hWorld : Reached comp values start world)
    (hAcc : ∀ y ∈ acc, y ∈ values)
    (hRest : ∀ y ∈ rest, y ∈ values) :
    ∃ world',
      sortMoved comp acc rest world =
        { world := world'
          slots := (sortBack lt acc rest).reverse.map some
          thrown := false } := by
  induction rest generalizing acc world with
  | nil => exact ⟨world, rfl⟩
  | cons x rest ih =>
      have hX := hRest x List.mem_cons_self
      have hLater : ∀ y ∈ rest, y ∈ values :=
        fun y hY => hRest y (List.mem_cons_of_mem _ hY)
      rcases
          @insertMoved_eq W V comp world values rest lt start x []
            acc hFollows hWorld hX hAcc
            (fun y hY => absurd hY List.not_mem_nil) hLater with
        ⟨world', hReached, hInsert⟩
      have hNext : ∀ y ∈ insertBack lt x acc, y ∈ values :=
        fun y hY => of_mem_insertBack hX hAcc hY
      unfold sortMoved
      simp only [hInsert]
      exact ih hReached hNext hLater

theorem conforms_movingSort :
    Conforms (movingSort : StableSorter W V) where
  short := by
    intro comp world values hShort
    cases values with
    | nil => rfl
    | cons x values =>
        cases values with
        | nil => rfl
        | cons y values =>
            rw [List.length_cons, List.length_cons] at hShort
            omega
  sorted := by
    intro comp world values lt hOrder hFollows
    rcases
        @sortMoved_eq W V comp world values [] values lt world
          hFollows .start (fun y hY => absurd hY List.not_mem_nil)
          (fun y hY => hY) with
      ⟨world', hSort⟩
    exact
      ⟨world', insertionSort lt values, hSort,
        isStableSort_insertionSort hOrder⟩

----
-- When Nothing Is Lost
----

open Classical in
/- A sort that loses everything where nothing is guaranteed. -/
noncomputable def losingSort : StableSorter W V :=
  fun comp world values =>
    if values.length ≤ 1 ∨ WellBehaved comp values world then
      movingSort comp world values
    else
      { world := world
        slots := values.map (fun _ => none)
        thrown := true }

theorem conforms_losingSort :
    Conforms (losingSort : StableSorter W V) where
  short := by
    intro comp world values hShort
    unfold losingSort
    rw [if_pos (Or.inl hShort)]
    exact conforms_movingSort.short comp world values hShort
  sorted := by
    intro comp world values lt hOrder hFollows
    unfold losingSort
    rw [if_pos (Or.inr ⟨lt, hOrder, hFollows⟩)]
    exact
      conforms_movingSort.sorted comp world values lt hOrder
        hFollows

/-
  Whatever the sort does where nothing is guaranteed, nothing is
  lost: this holds exactly if there is nothing to compare or the
  comparator follows a strict weak order.
-/
theorem array_sortWith_iff
    (comp : Comparator W V)
    (world : W)
    (values : List V) :
    (∀ sort : StableSorter W V,
        Conforms sort →
          Safe comp values world
            (array_sortWith sort comp world values)) ↔
      values.length ≤ 1 ∨ WellBehaved comp values world := by
  constructor
  · intro hSafe
    by_contra hNot
    rcases hSafe losingSort conforms_losingSort with
      ⟨result, hSlots, _⟩
    have hSort :
        (array_sortWith losingSort comp world values).slots =
          values.map (fun _ => none) := by
      simp only [array_sortWith, losingSort]
      rw [if_neg hNot]
    rw [hSort] at hSlots
    cases values with
    | nil => exact hNot (Or.inl (Nat.zero_le 1))
    | cons x values =>
        cases result with
        | nil => cases hSlots
        | cons y result =>
            rw [List.map_cons, List.map_cons] at hSlots
            cases (List.cons.inj hSlots).1
  · intro hCondition sort hConforms
    rcases hCondition with hShort | hBehaved
    · exact safe_of_short hConforms hShort
    · exact safe_of_wellBehaved hConforms hBehaved

/- The comparator raises an error when it is called. -/
theorem not_array_sortWith :
    ¬ ∀ (sort : StableSorter Unit Nat)
        (comp : Comparator Unit Nat)
        (world : Unit)
        (values : List Nat),
        Conforms sort →
          Safe comp values world
            (array_sortWith sort comp world values) := by
  intro hAll
  rcases
      hAll movingSort
        (fun world slots _ _ =>
          { world := world
            slots := slots
            value := none })
        () [1, 2] conforms_movingSort with
    ⟨result, hSlots, _⟩
  have hLost : [some 1, none] = result.map some := hSlots
  cases result with
  | nil => cases hLost
  | cons x result =>
      cases result with
      | nil => cases hLost
      | cons y result =>
          rw [List.map_cons, List.map_cons] at hLost
          cases (List.cons.inj (List.cons.inj hLost).2).1

end Builtin

end Ydsh
