import Ydsh.Library.Run
import Ydsh.Object.MapObject

/-
  Maps and the iterators over them along a run.

  A run is any sequence of the operations that reach map
  objects: literals, builtin methods, iterators that are
  advanced or dropped, and the command `read`, which writes to
  the map `reply`.

  Main declarations:
    * `MapIterObject`
    * `MapState`
    * `MapOp`
    * `MapState.call`
    * `MapStepFaithful`
    * `mapStepFaithful_iff`
-/

----
-- State
----

namespace Ydsh

open Library

/-
  `iter` is a position in the map.  The entries that were
  present at the start and the ones returned so far are kept
  beside it.
-/
structure MapIterObject (K V : Type) where
  obj : MapRef
  iter : Nat
  initial : List (K × V)
  visited : List (K × V)
  deriving DecidableEq, Repr

/-
  Iterators that have been destroyed leave a hole.  Literals
  under construction are listed from the innermost one; they
  are operands that no variable refers to.
-/
structure MapState (K V : Type) where
  maps : List (MapObject K V)
  iters : List (Option (MapIterObject K V))
  building : List MapRef
  deriving DecidableEq, Repr

inductive MapOp (K V : Type) where
  | new
  | append (key : K) (value : V)
  | finish
  | method (ref : MapRef) (method : MapMethod K V)
  | next (index : Nat)
  | hasNext (index : Nat)
  | destroy (index : Nat)
  | read (fields : List (K × V))
  deriving DecidableEq, Repr

/- The map that the global variable `reply` always holds. -/
def replyRef : MapRef := 0

namespace MapOp

variable {K V : Type}

/- The map that an operation of a script tries to change. -/
def attempts : MapOp K V → Option MapRef
  | .method ref called =>
      if called.mutates then some ref else none
  | .read _ => some replyRef
  | _ => none

end MapOp

namespace MapState

variable {K V : Type}

def init : MapState K V :=
  { maps := [.empty], iters := [], building := [] }

/- The iterator is alive and goes over a map. -/
def goesOver
    (ref : MapRef)
    (iter : Option (MapIterObject K V)) : Bool :=
  iter.any (fun iter => iter.obj == ref)

def iterCount (state : MapState K V) (ref : MapRef) : Nat :=
  state.iters.countP (goesOver ref)

def IsIterated (state : MapState K V) (ref : MapRef) : Prop :=
  0 < state.iterCount ref

def setMap
    (ref : MapRef)
    (obj : MapObject K V)
    (state : MapState K V) : MapState K V :=
  { state with maps := state.maps.set ref obj }

def newIter
    (ref : MapRef)
    (obj : MapObject K V) : MapIterObject K V :=
  { obj := ref
    iter := 0
    initial := obj.valueMap
    visited := [] }

----
-- Operations
----

variable [DecidableEq K] [ToString K]
variable (link : K × V → List (K × V) → List (K × V))

/- The object that a method creates beside its result. -/
def create
    (ref : MapRef)
    (obj : MapObject K V)
    (state : MapState K V) : MapMethod K V → MapState K V
  | .copy =>
      { state with
        maps :=
          state.maps ++
            [{ valueMap := obj.valueMap, lockCount := 0 }] }
  | .iter =>
      { state with
        iters := state.iters ++ [some (newIter ref obj)] }
  | _ => state

def createdRef
    (state : MapState K V) : MapMethod K V → Nat
  | .copy => state.maps.length
  | .iter => state.iters.length
  | _ => 0

def raiseIterEnd : RaisedError :=
  { type := .outOfRangeError
    message := "map iterator has already reached end" }

/- An iterator returns the entry at its position. -/
def iterNext
    (index : Nat)
    (iter : MapIterObject K V)
    (obj : MapObject K V)
    (state : MapState K V) :
    MapState K V × Except RaisedError (MapResult K V) :=
  match obj.valueMap[iter.iter]? with
  | none => (state, .error raiseIterEnd)
  | some entry =>
      ({ state with
          iters :=
            state.iters.set index
              (some
                { iter with
                  iter := iter.iter + 1
                  visited := iter.visited ++ [entry] }) },
        .ok (.entry entry.1 entry.2))

/- The map is cleared first; no lock is looked at. -/
def builtinRead
    (fields : List (K × V))
    (obj : MapObject K V) : MapObject K V :=
  fields.foldl
    (fun obj field => (obj.set link field.1 field.2).1)
    obj.clear

/-
  The state after an operation, with its result or the error
  it raises.
-/
def call
    (state : MapState K V) :
    MapOp K V →
      Option (MapState K V × Except RaisedError (MapResult K V))
  | .new =>
      some
        ({ state with
            maps := state.maps ++ [.empty]
            building := state.maps.length :: state.building },
          .ok (.map state.maps.length))
  | .append key value =>
      match state.building with
      | [] => none
      | ref :: _ =>
          match state.maps[ref]? with
          | none => none
          | some obj =>
              some
                (state.setMap ref (obj.set link key value).1,
                  .ok .void)
  | .finish =>
      match state.building with
      | [] => none
      | ref :: building =>
          some ({ state with building }, .ok (.map ref))
  | .method ref called =>
      if ref ∈ state.building then
        none
      else
        match state.maps[ref]? with
        | none => none
        | some obj =>
            match called.run link (state.createdRef called) obj with
            | .error error => some (state, .error error)
            | .ok (next, result) =>
                some
                  ((state.setMap ref next).create ref obj called,
                    .ok result)
  | .next index =>
      match state.iters[index]? with
      | some (some iter) =>
          (state.maps[iter.obj]?).map
            (fun obj => state.iterNext index iter obj)
      | _ => none
  | .hasNext index =>
      match state.iters[index]? with
      | some (some iter) =>
          (state.maps[iter.obj]?).map
            (fun obj =>
              (state,
                .ok
                  (.boolean (iter.iter < obj.valueMap.length))))
      | _ => none
  | .destroy index =>
      match state.iters[index]? with
      | some (some iter) =>
          (state.maps[iter.obj]?).map
            (fun obj =>
              ({ state.setMap iter.obj obj.unlock with
                  iters := state.iters.set index none },
                .ok .void))
      | _ => none
  | .read fields =>
      (state.maps[replyRef]?).map
        (fun obj =>
          (state.setMap replyRef (builtinRead link fields obj),
            .ok .void))

def step
    (state : MapState K V)
    (op : MapOp K V) : Option (MapState K V) :=
  (state.call link op).map Prod.fst

end MapState

----
-- Faithful Steps
----

section

variable {K V : Type}

/-
  The iterators that are alive stand in the entries that were
  there when they were created, and have returned the ones in
  front of their position.
-/
def MapState.IterationsExact (state : MapState K V) : Prop :=
  ∀ (index : Nat) (iter : MapIterObject K V),
    state.iters[index]? = some (some iter) →
    ∃ obj,
      state.maps[iter.obj]? = some obj ∧
        obj.valueMap = iter.initial ∧
        iter.iter ≤ iter.initial.length ∧
        iter.visited = iter.initial.take iter.iter

/-
  What a step promises: an attempt to change a map that is
  iterated raises an error and changes nothing, no other
  operation changes such a map, and iterations stay exact.
-/
structure MapStepFaithful
    (state : MapState K V)
    (op : MapOp K V)
    (next : MapState K V)
    (result : Except RaisedError (MapResult K V)) : Prop where
  refused :
    ∀ ref,
      op.attempts = some ref →
      state.IsIterated ref →
      result = .error MapObject.raiseIterInvalid ∧ next = state
  unchanged :
    ∀ (ref : MapRef) (obj : MapObject K V),
      state.IsIterated ref →
      state.maps[ref]? = some obj →
      ∃ after,
        next.maps[ref]? = some after ∧
          after.valueMap = obj.valueMap
  exact : next.IterationsExact

/- The command `read` runs only while `reply` is not iterated. -/
def ReadsUniterated
    (state : MapState K V)
    (op : MapOp K V) : Prop :=
  match op with
  | .read _ => ¬ state.IsIterated replyRef
  | _ => True

/- Every lock count is the number of iterators. -/
structure MapState.Consistent (state : MapState K V) : Prop where
  counted :
    ∀ (ref : MapRef) (obj : MapObject K V),
      state.maps[ref]? = some obj →
      obj.lockCount = state.iterCount ref
  building : ∀ ref ∈ state.building, ¬ state.IsIterated ref
  exact : state.IterationsExact

end

----
-- Counting Iterators
----

namespace MapState

section

variable {K V : Type}
variable {state : MapState K V}

theorem Consistent.init : Consistent (init : MapState K V) where
  counted := by
    intro ref obj hObj
    rcases List.mem_singleton.mp (List.mem_of_getElem? hObj)
    rfl
  building := nofun
  exact := nofun

theorem Consistent.locked_iff
    (hState : state.Consistent)
    {ref : MapRef}
    {obj : MapObject K V}
    (hObj : state.maps[ref]? = some obj) :
    obj.locked = true ↔ state.IsIterated ref := by
  unfold MapObject.locked IsIterated
  rw [decide_eq_true_iff, hState.counted ref obj hObj]
  exact Int.natCast_pos

/- An iterator that is alive counts. -/
theorem isIterated_of_iter
    {index : Nat}
    {iter : MapIterObject K V}
    (hIter : state.iters[index]? = some (some iter)) :
    state.IsIterated iter.obj := by
  refine List.countP_pos_iff.mpr ⟨_, List.mem_of_getElem? hIter, ?_⟩
  exact beq_self_eq_true iter.obj

/- A map that is iterated exists. -/
theorem Consistent.exists_of_isIterated
    (hState : state.Consistent)
    {ref : MapRef}
    (hIterated : state.IsIterated ref) :
    ref < state.maps.length := by
  rcases List.countP_pos_iff.mp hIterated with
    ⟨found, hMem, hOver⟩
  rcases List.mem_iff_getElem?.mp hMem with ⟨index, hIndex⟩
  cases found with
  | none => cases hOver
  | some iter =>
      rcases hState.exact index iter hIndex with ⟨obj, hObj, _⟩
      rw [← beq_iff_eq.mp hOver]
      exact (List.getElem?_eq_some_iff.mp hObj).1

theorem setMap_maps
    {ref other : MapRef}
    {obj : MapObject K V}
    (hRef : ref < state.maps.length) :
    (state.setMap ref obj).maps[other]? =
      if ref = other then some obj else state.maps[other]? := by
  unfold setMap
  rw [List.getElem?_set]
  by_cases hSame : ref = other
  · subst hSame
    simp [hRef]
  · simp [hSame]

/-
  A map may be replaced by one with the same lock count: its
  entries are the same, or nobody iterates over it.
-/
theorem Consistent.setMap
    (hState : state.Consistent)
    {ref : MapRef}
    {obj next : MapObject K V}
    (hObj : state.maps[ref]? = some obj)
    (hLock : next.lockCount = obj.lockCount)
    (hEntries :
      next.valueMap = obj.valueMap ∨ ¬ state.IsIterated ref) :
    (state.setMap ref next).Consistent := by
  have hRef := (List.getElem?_eq_some_iff.mp hObj).1
  constructor
  · intro other found hFound
    rw [setMap_maps hRef] at hFound
    split at hFound
    · next hSame =>
        cases hFound
        subst hSame
        exact hLock.trans (hState.counted ref obj hObj)
    · exact hState.counted other found hFound
  · exact hState.building
  · intro index iter hIter
    rcases hState.exact index iter hIter with
      ⟨found, hFound, hSame, hRest⟩
    by_cases hIs : ref = iter.obj
    · rcases hEntries with hKept | hFree
      · refine ⟨next, ?_, ?_, hRest⟩
        · rw [setMap_maps hRef, if_pos hIs]
        · rw [← hIs, hObj] at hFound
          cases hFound
          exact hKept.trans hSame
      · rw [hIs] at hFree
        exact absurd (isIterated_of_iter hIter) hFree
    · refine ⟨found, ?_, hSame, hRest⟩
      rw [setMap_maps hRef, if_neg hIs, hFound]

/- The entries of an iterated map survive such a replacement. -/
theorem setMap_unchanged
    {ref other : MapRef}
    {obj next found : MapObject K V}
    (hObj : state.maps[ref]? = some obj)
    (hEntries :
      next.valueMap = obj.valueMap ∨ ¬ state.IsIterated ref)
    (hIterated : state.IsIterated other)
    (hFound : state.maps[other]? = some found) :
    ∃ after,
      (state.setMap ref next).maps[other]? = some after ∧
        after.valueMap = found.valueMap := by
  have hRef := (List.getElem?_eq_some_iff.mp hObj).1
  rw [setMap_maps hRef]
  by_cases hSame : ref = other
  · subst hSame
    rw [hObj] at hFound
    cases hFound
    refine ⟨next, if_pos rfl, ?_⟩
    exact hEntries.resolve_right (fun hFree => hFree hIterated)
  · exact ⟨found, (if_neg hSame).trans hFound, rfl⟩

/- A new map is not iterated by anyone. -/
theorem Consistent.pushMap
    (hState : state.Consistent)
    {obj : MapObject K V}
    (hLock : obj.lockCount = 0)
    {building : List MapRef}
    (hBuilding :
      ∀ ref ∈ building,
        ref ∈ state.building ∨ ref = state.maps.length) :
    Consistent
      { state with maps := state.maps ++ [obj], building } := by
  have hFresh : ¬ state.IsIterated state.maps.length := by
    intro hIterated
    exact Nat.lt_irrefl _ (hState.exists_of_isIterated hIterated)
  constructor
  · intro ref found hFound
    by_cases hOld : ref < state.maps.length
    · rw [List.getElem?_append_left hOld] at hFound
      exact hState.counted ref found hFound
    · rw [List.getElem?_append_right (Nat.le_of_not_lt hOld)]
        at hFound
      have hMem := List.mem_of_getElem? hFound
      rw [List.mem_singleton.mp hMem, hLock]
      have hIs : ref = state.maps.length := by
        have hIndex : ref - state.maps.length < 1 :=
          (List.getElem?_eq_some_iff.mp hFound).1
        exact
          Nat.le_antisymm
            (Nat.sub_eq_zero_iff_le.mp (Nat.lt_one_iff.mp hIndex))
            (Nat.le_of_not_lt hOld)
      rw [hIs]
      exact
        (congrArg Int.ofNat (Nat.eq_zero_of_not_pos hFresh)).symm
  · intro ref hRef
    rcases hBuilding ref hRef with hOld | rfl
    · exact hState.building ref hOld
    · exact hFresh
  · intro index iter hIter
    rcases hState.exact index iter hIter with
      ⟨found, hFound, hRest⟩
    refine ⟨found, ?_, hRest⟩
    have hOld := (List.getElem?_eq_some_iff.mp hFound).1
    rw [← hFound]
    exact List.getElem?_append_left hOld

/- A new iterator locks its map. -/
theorem Consistent.pushIter
    (hState : state.Consistent)
    {ref : MapRef}
    {obj : MapObject K V}
    (hObj : state.maps[ref]? = some obj)
    (hBuilding : ref ∉ state.building) :
    Consistent
      { state.setMap ref obj.lock with
        iters := state.iters ++ [some (newIter ref obj)] } := by
  have hRef := (List.getElem?_eq_some_iff.mp hObj).1
  have hCount :
      ∀ other,
        iterCount
            { state.setMap ref obj.lock with
              iters := state.iters ++ [some (newIter ref obj)] }
            other =
          state.iterCount other + (if ref = other then 1 else 0) := by
    intro other
    unfold iterCount
    rw [List.countP_append, List.countP_singleton]
    have hOver :
        goesOver other (some (newIter ref obj)) =
          decide (ref = other) := rfl
    rw [hOver]
    by_cases hSame : ref = other <;> simp [hSame]
  constructor
  · intro other found hFound
    have hMaps :
        some found =
          if ref = other then some obj.lock
            else state.maps[other]? :=
      hFound.symm.trans (setMap_maps hRef)
    rw [hCount]
    by_cases hSame : ref = other
    · rw [if_pos hSame] at hMaps ⊢
      cases hMaps
      subst hSame
      have hOld := hState.counted ref obj hObj
      simp only [MapObject.lock, hOld]
      rfl
    · rw [if_neg hSame] at hMaps ⊢
      exact hState.counted other found hMaps.symm
  · intro other hOther
    have hFree := hState.building other hOther
    unfold IsIterated at hFree ⊢
    rw [hCount]
    have hNe : ref ≠ other := by
      rintro rfl
      exact hBuilding hOther
    rw [if_neg hNe]
    exact hFree
  · intro index iter hIter
    have hIter' :
        (state.iters ++ [some (newIter ref obj)])[index]? =
          some (some iter) := hIter
    by_cases hOld : index < state.iters.length
    · rw [List.getElem?_append_left hOld] at hIter'
      rcases hState.exact index iter hIter' with
        ⟨found, hFound, hSame, hRest⟩
      by_cases hIs : ref = iter.obj
      · refine ⟨obj.lock, ?_, ?_, hRest⟩
        · exact (setMap_maps hRef).trans (if_pos hIs)
        · rw [← hIs, hObj] at hFound
          cases hFound
          exact hSame
      · refine ⟨found, ?_, hSame, hRest⟩
        exact ((setMap_maps hRef).trans (if_neg hIs)).trans hFound
    · rw [List.getElem?_append_right (Nat.le_of_not_lt hOld)]
        at hIter'
      have hNew := List.mem_singleton.mp (List.mem_of_getElem? hIter')
      cases hNew
      refine ⟨obj.lock, ?_, rfl, Nat.zero_le _, rfl⟩
      exact (setMap_maps hRef).trans (if_pos rfl)

/- An iterator may move over the entries of its map. -/
theorem Consistent.setIter
    (hState : state.Consistent)
    {index : Nat}
    {iter next : MapIterObject K V}
    (hIter : state.iters[index]? = some (some iter))
    (hObj : next.obj = iter.obj)
    (hInitial : next.initial = iter.initial)
    (hBound : next.iter ≤ next.initial.length)
    (hVisited : next.visited = next.initial.take next.iter) :
    Consistent
      { state with iters := state.iters.set index (some next) } := by
  rcases List.getElem?_eq_some_iff.mp hIter with ⟨hIndex, hGet⟩
  have hOver :
      ∀ ref, goesOver ref (some next) = goesOver ref (some iter) := by
    intro ref
    simp only [goesOver, Option.any_some, hObj]
  have hCount :
      ∀ ref,
        iterCount
            { state with iters := state.iters.set index (some next) }
            ref =
          state.iterCount ref := by
    intro ref
    unfold iterCount
    rw [List.countP_set hIndex, hGet, hOver]
    have hLe :
        (if goesOver ref (some iter) = true then 1 else 0) ≤
          state.iters.countP (goesOver ref) := by
      split
      · next hHere =>
          exact
            List.countP_pos_iff.mpr
              ⟨_, List.mem_of_getElem? hIter, hHere⟩
      · exact Nat.zero_le _
    omega
  constructor
  · intro ref obj hFound
    rw [hCount]
    exact hState.counted ref obj hFound
  · intro ref hRef
    unfold IsIterated
    rw [hCount]
    exact hState.building ref hRef
  · intro other found hFound
    have hFound' :
        (state.iters.set index (some next))[other]? =
          some (some found) := hFound
    rw [List.getElem?_set] at hFound'
    by_cases hSame : index = other
    · rw [if_pos hSame, if_pos hIndex] at hFound'
      cases hFound'
      rcases hState.exact index iter hIter with
        ⟨obj, hMap, hEntries, _⟩
      exact
        ⟨obj, (congrArg (state.maps[·]?) hObj).trans hMap,
          hEntries.trans hInitial.symm, hBound, hVisited⟩
    · rw [if_neg hSame] at hFound'
      exact hState.exact other found hFound'

/- An iterator that is destroyed unlocks its map. -/
theorem Consistent.destroyIter
    (hState : state.Consistent)
    {index : Nat}
    {iter : MapIterObject K V}
    {obj : MapObject K V}
    (hIter : state.iters[index]? = some (some iter))
    (hObj : state.maps[iter.obj]? = some obj) :
    Consistent
      { state.setMap iter.obj obj.unlock with
        iters := state.iters.set index none } := by
  have hRef := (List.getElem?_eq_some_iff.mp hObj).1
  rcases List.getElem?_eq_some_iff.mp hIter with ⟨hIndex, hGet⟩
  have hCount :
      ∀ ref,
        iterCount
              { state.setMap iter.obj obj.unlock with
                iters := state.iters.set index none }
              ref +
            (if iter.obj = ref then 1 else 0) =
          state.iterCount ref := by
    intro ref
    unfold iterCount
    rw [List.countP_set hIndex, hGet]
    have hOver :
        goesOver ref (some iter) = decide (iter.obj = ref) := rfl
    rw [hOver]
    by_cases hSame : iter.obj = ref
    · have hPos : 0 < state.iters.countP (goesOver ref) := by
        rw [← hSame]
        exact isIterated_of_iter hIter
      have hHole :
          goesOver ref (none : Option (MapIterObject K V)) =
            false := rfl
      simp only [hSame, hHole, decide_true, if_true,
        Bool.false_eq_true, if_false]
      omega
    · simp [hSame, goesOver]
  constructor
  · intro ref found hFound
    have hMaps :
        some found =
          if iter.obj = ref then some obj.unlock
            else state.maps[ref]? :=
      hFound.symm.trans (setMap_maps hRef)
    have hRefCount := hCount ref
    by_cases hSame : iter.obj = ref
    · rw [if_pos hSame] at hMaps hRefCount
      cases hMaps
      subst hSame
      have hOld := hState.counted iter.obj obj hObj
      have hUnlock : obj.unlock.lockCount = obj.lockCount - 1 := rfl
      omega
    · rw [if_neg hSame] at hMaps hRefCount
      rw [hState.counted ref found hMaps.symm]
      omega
  · intro ref hBuilding
    have hFree := hState.building ref hBuilding
    have hRefCount := hCount ref
    unfold IsIterated at hFree ⊢
    omega
  · intro other found hFound
    have hFound' :
        (state.iters.set index none)[other]? =
          some (some found) := hFound
    rw [List.getElem?_set] at hFound'
    by_cases hSame : index = other
    · rw [if_pos hSame, if_pos hIndex] at hFound'
      cases hFound'
    · rw [if_neg hSame] at hFound'
      rcases hState.exact other found hFound' with
        ⟨old, hOld, hEntries, hRest⟩
      by_cases hIs : iter.obj = found.obj
      · refine ⟨obj.unlock, ?_, ?_, hRest⟩
        · exact (setMap_maps hRef).trans (if_pos hIs)
        · rw [← hIs, hObj] at hOld
          cases hOld
          exact hEntries
      · refine ⟨old, ?_, hEntries, hRest⟩
        exact ((setMap_maps hRef).trans (if_neg hIs)).trans hOld

end

----
-- Steps
----

section

variable {K V : Type}
variable [DecidableEq K] [ToString K]
variable {link : K × V → List (K × V) → List (K × V)}
variable {state next : MapState K V}
variable {op : MapOp K V}
variable {result : Except RaisedError (MapResult K V)}

omit [ToString K] in
theorem builtinRead_lockCount
    (fields : List (K × V))
    (obj : MapObject K V) :
    (builtinRead link fields obj).lockCount = obj.lockCount := by
  have hFold :
      ∀ start : MapObject K V,
        (fields.foldl
            (fun obj field => (obj.set link field.1 field.2).1)
            start).lockCount =
          start.lockCount := by
    induction fields with
    | nil => exact fun _ => rfl
    | cons field fields ih =>
        intro start
        exact (ih _).trans (start.set_lockCount link _ _)
  exact hFold obj.clear

/- A method that succeeds on an iterated map keeps its entries. -/
theorem Consistent.run_entries
    (hState : state.Consistent)
    {ref created : Nat}
    {obj after : MapObject K V}
    {called : MapMethod K V}
    {value : MapResult K V}
    (hObj : state.maps[ref]? = some obj)
    (hRun : called.run link created obj = .ok (after, value)) :
    after.valueMap = obj.valueMap ∨ ¬ state.IsIterated ref := by
  cases hMutates : called.mutates with
  | false => exact Or.inl (MapMethod.run_valueMap hRun hMutates)
  | true =>
      refine Or.inr (fun hIterated => ?_)
      have hLocked := (hState.locked_iff hObj).mpr hIterated
      rw [MapMethod.run_of_locked hLocked hMutates] at hRun
      cases hRun

/- What the call of a method does, when it succeeds. -/
theorem call_method
    {ref : MapRef}
    {called : MapMethod K V}
    (hCall :
      state.call link (.method ref called) =
        some (next, result)) :
    ref ∉ state.building ∧
      ∃ obj,
        state.maps[ref]? = some obj ∧
          ((∃ error,
              called.run link (state.createdRef called) obj =
                  .error error ∧
                next = state ∧
                result = .error error) ∨
            ∃ after value,
              called.run link (state.createdRef called) obj =
                  .ok (after, value) ∧
                next =
                  (state.setMap ref after).create ref obj called ∧
                result = .ok value) := by
  simp only [call] at hCall
  split at hCall
  · cases hCall
  · next hBuilding =>
      refine ⟨hBuilding, ?_⟩
      split at hCall
      · cases hCall
      · next obj hObj =>
          refine ⟨obj, hObj, ?_⟩
          split at hCall
          · next error hRun =>
              cases hCall
              exact Or.inl ⟨error, hRun, rfl, rfl⟩
          · next after value hRun =>
              cases hCall
              exact Or.inr ⟨after, value, hRun, rfl, rfl⟩

/- The map and the object created keep the counts right. -/
theorem Consistent.method
    (hState : state.Consistent)
    {ref : MapRef}
    {obj after : MapObject K V}
    {called : MapMethod K V}
    {value : MapResult K V}
    (hBuilding : ref ∉ state.building)
    (hObj : state.maps[ref]? = some obj)
    (hRun :
      called.run link (state.createdRef called) obj =
        .ok (after, value)) :
    ((state.setMap ref after).create ref obj called).Consistent := by
  have hEntries := hState.run_entries hObj hRun
  have hLock := MapMethod.run_lockCount hRun
  cases called with
  | iter =>
      cases hRun
      exact hState.pushIter hObj hBuilding
  | copy =>
      cases hRun
      refine
        (hState.setMap hObj rfl (Or.inl rfl)).pushMap rfl
          (fun ref hRef => Or.inl hRef)
  | _ =>
      exact
        hState.setMap hObj (hLock.trans (Int.add_zero _)) hEntries

/- A step keeps the lock counts and the iterations right. -/
theorem Consistent.call
    (hState : state.Consistent)
    (hReads : ReadsUniterated state op)
    (hCall : state.call link op = some (next, result)) :
    next.Consistent := by
  cases op with
  | new =>
      cases hCall
      refine hState.pushMap rfl (fun ref hRef => ?_)
      rcases List.mem_cons.mp hRef with rfl | hOld
      · exact Or.inr rfl
      · exact Or.inl hOld
  | append key value =>
      simp only [MapState.call] at hCall
      split at hCall
      · cases hCall
      · next ref building hBuilding =>
          split at hCall
          · cases hCall
          · next obj hObj =>
              cases hCall
              have hMem : ref ∈ state.building := by
                rw [hBuilding]
                exact List.mem_cons_self
              exact
                hState.setMap hObj
                  (obj.set_lockCount link key value)
                  (Or.inr (hState.building ref hMem))
  | finish =>
      simp only [MapState.call] at hCall
      split at hCall
      · cases hCall
      · next ref building hBuilding =>
          cases hCall
          refine ⟨hState.counted, fun other hOther => ?_, hState.exact⟩
          refine hState.building other ?_
          rw [hBuilding]
          exact List.mem_cons_of_mem ref hOther
  | method ref called =>
      rcases call_method hCall with
        ⟨hBuilding, obj, hObj, hError | hValue⟩
      · rcases hError with ⟨error, _, rfl, _⟩
        exact hState
      · rcases hValue with ⟨after, value, hRun, rfl, _⟩
        exact hState.method hBuilding hObj hRun
  | next index =>
      simp only [MapState.call] at hCall
      split at hCall
      · next iter hIter =>
          rcases Option.map_eq_some_iff.mp hCall with
            ⟨obj, hObj, hNext⟩
          unfold iterNext at hNext
          split at hNext
          · cases hNext
            exact hState
          · next entry hEntry =>
              cases hNext
              rcases hState.exact index iter hIter with
                ⟨found, hFound, hEntries, hBound, hVisited⟩
              rw [hObj] at hFound
              cases hFound
              rw [hEntries] at hEntry
              rcases List.getElem?_eq_some_iff.mp hEntry with
                ⟨hIndex, hGet⟩
              refine hState.setIter hIter rfl rfl hIndex ?_
              simp only [hVisited]
              rw [List.take_add_one, hEntry]
              rfl
      · cases hCall
  | hasNext index =>
      simp only [MapState.call] at hCall
      split at hCall
      · rcases Option.map_eq_some_iff.mp hCall with
          ⟨obj, hObj, hNext⟩
        cases hNext
        exact hState
      · cases hCall
  | destroy index =>
      simp only [MapState.call] at hCall
      split at hCall
      · next iter hIter =>
          rcases Option.map_eq_some_iff.mp hCall with
            ⟨obj, hObj, hNext⟩
          cases hNext
          exact hState.destroyIter hIter hObj
      · cases hCall
  | read fields =>
      rcases Option.map_eq_some_iff.mp hCall with
        ⟨obj, hObj, hNext⟩
      cases hNext
      exact
        hState.setMap hObj (builtinRead_lockCount fields obj)
          (Or.inr hReads)

/- No step changes the entries of a map that is iterated. -/
theorem Consistent.call_unchanged
    (hState : state.Consistent)
    (hReads : ReadsUniterated state op)
    (hCall : state.call link op = some (next, result))
    {ref : MapRef}
    {obj : MapObject K V}
    (hIterated : state.IsIterated ref)
    (hObj : state.maps[ref]? = some obj) :
    ∃ after,
      next.maps[ref]? = some after ∧
        after.valueMap = obj.valueMap := by
  have hPush :
      ∀ (maps : List (MapObject K V)) (pushed after : MapObject K V),
        maps[ref]? = some after →
        (maps ++ [pushed])[ref]? = some after := by
    intro maps pushed after hAfter
    have hRef := (List.getElem?_eq_some_iff.mp hAfter).1
    rw [List.getElem?_append_left hRef, hAfter]
  cases op with
  | new =>
      cases hCall
      exact ⟨obj, hPush state.maps .empty obj hObj, rfl⟩
  | append key value =>
      simp only [MapState.call] at hCall
      split at hCall
      · cases hCall
      · next built building hBuilding =>
          split at hCall
          · cases hCall
          · next found hFound =>
              cases hCall
              have hMem : built ∈ state.building := by
                rw [hBuilding]
                exact List.mem_cons_self
              exact
                setMap_unchanged hFound
                  (Or.inr (hState.building built hMem))
                  hIterated hObj
  | finish =>
      simp only [MapState.call] at hCall
      split at hCall
      · cases hCall
      · cases hCall
        exact ⟨obj, hObj, rfl⟩
  | method called method =>
      rcases call_method hCall with
        ⟨hBuilding, found, hFound, hError | hValue⟩
      · rcases hError with ⟨error, _, rfl, _⟩
        exact ⟨obj, hObj, rfl⟩
      · rcases hValue with ⟨after, value, hRun, rfl, _⟩
        rcases setMap_unchanged hFound
            (hState.run_entries hFound hRun) hIterated hObj with
          ⟨kept, hKept, hSame⟩
        refine ⟨kept, ?_, hSame⟩
        cases method with
        | copy => exact hPush _ _ kept hKept
        | _ => exact hKept
  | next index =>
      simp only [MapState.call] at hCall
      split at hCall
      · rcases Option.map_eq_some_iff.mp hCall with
          ⟨found, hFound, hNext⟩
        unfold iterNext at hNext
        split at hNext
        · cases hNext
          exact ⟨obj, hObj, rfl⟩
        · cases hNext
          exact ⟨obj, hObj, rfl⟩
      · cases hCall
  | hasNext index =>
      simp only [MapState.call] at hCall
      split at hCall
      · rcases Option.map_eq_some_iff.mp hCall with
          ⟨found, hFound, hNext⟩
        cases hNext
        exact ⟨obj, hObj, rfl⟩
      · cases hCall
  | destroy index =>
      simp only [MapState.call] at hCall
      split at hCall
      · next iter hIter =>
          rcases Option.map_eq_some_iff.mp hCall with
            ⟨found, hFound, hNext⟩
          cases hNext
          have hEntries :
              found.unlock.valueMap = found.valueMap := rfl
          exact
            setMap_unchanged hFound (Or.inl hEntries) hIterated hObj
      · cases hCall
  | read fields =>
      rcases Option.map_eq_some_iff.mp hCall with
        ⟨found, hFound, hNext⟩
      cases hNext
      exact setMap_unchanged hFound (Or.inr hReads) hIterated hObj

/- An attempt to change an iterated map raises an error. -/
theorem Consistent.call_refused
    (hState : state.Consistent)
    (hReads : ReadsUniterated state op)
    (hCall : state.call link op = some (next, result))
    {ref : MapRef}
    (hAttempts : op.attempts = some ref)
    (hIterated : state.IsIterated ref) :
    result = .error MapObject.raiseIterInvalid ∧ next = state := by
  cases op with
  | method called method =>
      simp only [MapOp.attempts, Option.ite_none_right_eq_some,
        Option.some.injEq] at hAttempts
      rcases hAttempts with ⟨hMutates, rfl⟩
      rcases call_method hCall with ⟨_, obj, hObj, hOutcome⟩
      have hRefused :
          method.run link (state.createdRef method) obj =
            .error MapObject.raiseIterInvalid :=
        MapMethod.run_of_locked
          ((hState.locked_iff hObj).mpr hIterated) hMutates
      rcases hOutcome with hError | hValue
      · rcases hError with ⟨error, hRun, rfl, rfl⟩
        rw [hRefused] at hRun
        cases hRun
        exact ⟨rfl, rfl⟩
      · rcases hValue with ⟨after, value, hRun, _, _⟩
        rw [hRefused] at hRun
        cases hRun
  | read fields =>
      cases hAttempts
      exact absurd hIterated hReads
  | _ => cases hAttempts

end

end MapState

----
-- Main Results
----

section

variable {K V : Type}
variable [DecidableEq K] [ToString K]
variable {link : K × V → List (K × V) → List (K × V)}

/- The invariant holds along runs. -/
theorem MapState.Consistent.of_run
    {ops : List (MapOp K V)}
    {state : MapState K V}
    (hRun :
      GuardedRun (MapState.step link) ReadsUniterated .init ops
        state) :
    state.Consistent := by
  refine hRun.invariant ?_ MapState.Consistent.init
  intro state op next hState hReads hStep
  rcases Option.map_eq_some_iff.mp hStep with
    ⟨⟨reached, result⟩, hCall, rfl⟩
  exact hState.call hReads hCall

/-
  After a run in which `read` left iterated maps alone, a step
  is faithful exactly if it does so too.
-/
theorem mapStepFaithful_iff
    {ops : List (MapOp K V)}
    {state next : MapState K V}
    {op : MapOp K V}
    {result : Except RaisedError (MapResult K V)}
    (hRun :
      GuardedRun (MapState.step link) ReadsUniterated .init ops
        state)
    (hCall : state.call link op = some (next, result)) :
    MapStepFaithful state op next result ↔
      ReadsUniterated state op := by
  have hState := MapState.Consistent.of_run hRun
  constructor
  · intro hFaithful
    cases op with
    | read fields =>
        intro hIterated
        rcases Option.map_eq_some_iff.mp hCall with
          ⟨obj, _, hNext⟩
        cases hNext
        have hRefused := hFaithful.refused replyRef rfl hIterated
        cases hRefused.1
    | _ => trivial
  · intro hReads
    exact
      { refused :=
          fun _ hAttempts hIterated =>
            hState.call_refused hReads hCall hAttempts hIterated
        unchanged :=
          fun _ _ hIterated hObj =>
            hState.call_unchanged hReads hCall hIterated hObj
        exact := (hState.call hReads hCall).exact }

end

/- The script `for(e in $reply) { read b; }`, at its iterator. -/
def iteratedReplyOps : List (MapOp String String) :=
  [.method replyRef (.set "a" "1"), .method replyRef .iter]

def iteratedReply (lockCount : Int) (fields : List (String × String)) :
    MapState String String :=
  { maps := [{ valueMap := fields, lockCount }]
    iters :=
      [some
        { obj := replyRef
          iter := 0
          initial := [("a", "1")]
          visited := [] }]
    building := [] }

theorem mapStepFaithful_clearReply :
    MapStepFaithful
        (iteratedReply 1 [("a", "1")])
        (.method replyRef .clear)
        (iteratedReply 1 [("a", "1")])
        (.error MapObject.raiseIterInvalid) ↔
      ReadsUniterated
        (iteratedReply 1 [("a", "1")])
        (.method replyRef .clear) :=
  mapStepFaithful_iff
    (show
      GuardedRun (MapState.step List.cons) ReadsUniterated .init
        iteratedReplyOps (iteratedReply 1 [("a", "1")])
      from .cons trivial rfl (.cons trivial rfl (.nil _)))
    rfl

/- The loop reads into the map that it goes over. -/
theorem not_mapStepFaithful_read :
    ¬ ∀ (ops : List (MapOp String String))
        (state next : MapState String String)
        (op : MapOp String String)
        (result : Except RaisedError (MapResult String String)),
        exec (MapState.step List.cons) .init ops = some state →
        state.call List.cons op = some (next, result) →
        MapStepFaithful state op next result := by
  intro hAll
  have hFaithful :=
    hAll iteratedReplyOps
      (iteratedReply 1 [("a", "1")])
      (iteratedReply 1 [("b", "2")])
      (.read [("b", "2")])
      (.ok .void) rfl rfl
  have hIterated :
      (iteratedReply 1 [("a", "1")]).IsIterated replyRef :=
    Nat.zero_lt_one
  rcases hFaithful.unchanged replyRef _ hIterated rfl with
    ⟨after, hAfter, hSame⟩
  cases hAfter
  exact absurd hSame (by decide)

end Ydsh
