import Mathlib.Data.Set.Card
import Ydsh.Library.AssocList
import Ydsh.Object.MapIteration

/-
  What maps and the iterators over them mean to a script.

  A map is a finite partial function.  An iterator has entries
  left to return and returns any of them next.  Where the hash
  table puts its entries is of no account.

  Main declarations:
    * `MapHeap`
    * `MapMethod.meaning`
    * `HeapStep`
    * `MapState.abstract`
    * `mapRun_refines`
-/

----
-- Heaps of Partial Functions
----

namespace Ydsh

open Library

open AssocList (Distinct denote)

/- The map an iterator goes over, and what it has left. -/
structure PendingIter (K V : Type) where
  obj : MapRef
  rest : K → Option V

structure MapHeap (K V : Type) where
  maps : List (K → Option V)
  iters : List (Option (PendingIter K V))
  building : List MapRef

namespace MapHeap

variable {K V : Type}

def init : MapHeap K V :=
  { maps := [fun _ => none], iters := [], building := [] }

def IsIterated
    (heap : MapHeap K V)
    (ref : MapRef) : Prop :=
  ∃ iter, some iter ∈ heap.iters ∧ iter.obj = ref

def setMap
    (ref : MapRef)
    (f : K → Option V)
    (heap : MapHeap K V) : MapHeap K V :=
  { heap with maps := heap.maps.set ref f }

/- The object that a method creates beside its result. -/
def create
    (ref : MapRef)
    (f : K → Option V)
    (heap : MapHeap K V) : MapMethod K V → MapHeap K V
  | .copy => { heap with maps := heap.maps ++ [f] }
  | .iter =>
      { heap with
        iters := heap.iters ++ [some { obj := ref, rest := f }] }
  | _ => heap

def createdRef
    (heap : MapHeap K V) : MapMethod K V → Nat
  | .copy => heap.maps.length
  | .iter => heap.iters.length
  | _ => 0

end MapHeap

section

variable {K V : Type}

def MapState.KeysDistinct (state : MapState K V) : Prop :=
  ∀ obj ∈ state.maps, Distinct obj.valueMap

namespace MapState

variable {state : MapState K V}

theorem KeysDistinct.of_map
    (hKeys : state.KeysDistinct)
    {ref : MapRef}
    {obj : MapObject K V}
    (hObj : state.maps[ref]? = some obj) :
    Distinct obj.valueMap :=
  hKeys obj (List.mem_of_getElem? hObj)

theorem KeysDistinct.setMap
    (hKeys : state.KeysDistinct)
    (ref : MapRef)
    {obj : MapObject K V}
    (hDistinct : Distinct obj.valueMap) :
    (state.setMap ref obj).KeysDistinct := by
  intro found hMem
  rcases List.mem_or_eq_of_mem_set hMem with hOld | hNew
  · exact hKeys found hOld
  · rw [hNew]
    exact hDistinct

theorem KeysDistinct.create
    (hKeys : state.KeysDistinct)
    (ref : MapRef)
    {obj : MapObject K V}
    (hDistinct : Distinct obj.valueMap)
    (called : MapMethod K V) :
    (state.create ref obj called).KeysDistinct := by
  cases called with
  | copy =>
      intro found hMem
      rcases List.mem_append.mp hMem with hOld | hNew
      · exact hKeys found hOld
      · rw [List.mem_singleton.mp hNew]
        exact hDistinct
  | _ => exact hKeys

end MapState

end

----
-- Entries and Partial Functions
----

section

variable {K V : Type}
variable [DecidableEq K]

/- The number of keys that have a value. -/
noncomputable def sizeOfMap (f : K → Option V) : Nat :=
  Set.ncard {key | (f key).isSome = true}

/- The fields in order; the last one of a name counts. -/
def fieldsMeaning (fields : List (K × V)) : K → Option V :=
  fields.foldl
    (fun f field => Function.update f field.1 (some field.2))
    (fun _ => none)

/- The hash table may put a new entry anywhere. -/
def Placing
    (link : K × V → List (K × V) → List (K × V)) : Prop :=
  ∀ entry entries,
    (link entry entries).Perm (entry :: entries)

theorem find_eq_denote
    (obj : MapObject K V)
    (key : K) :
    obj.find key = denote obj.valueMap key :=
  rfl

namespace MapObject

variable {link : K × V → List (K × V) → List (K × V)}
variable {obj : MapObject K V}

/- A key without a value gets its first one. -/
theorem denote_link
    (hLink : Placing link)
    {entries : List (K × V)}
    (hDistinct : Distinct entries)
    {key : K}
    (hNew : denote entries key = none)
    (value : V) :
    Distinct (link (key, value) entries) ∧
      denote (link (key, value) entries) =
        Function.update (denote entries) key (some value) := by
  have hPerm := (hLink (key, value) entries).symm
  have hCons : Distinct ((key, value) :: entries) :=
    List.nodup_cons.mpr
      ⟨AssocList.denote_eq_none.mp hNew, hDistinct⟩
  refine ⟨hCons.perm hPerm, ?_⟩
  rw [← hCons.denote_perm hPerm, AssocList.denote_cons]

theorem denote_replace
    (hDistinct : Distinct obj.valueMap)
    {key : K}
    {old : V}
    (hOld : obj.find key = some old)
    (value : V) :
    Distinct (obj.replace key value).valueMap ∧
      denote (obj.replace key value).valueMap =
        Function.update (denote obj.valueMap) key
          (some value) := by
  have hKey : key ∈ AssocList.keys obj.valueMap :=
    AssocList.denote_isSome.mp
      (Option.isSome_of_eq_some hOld)
  constructor
  · unfold Distinct replace
    rw [AssocList.keys_replace]
    exact hDistinct
  · exact AssocList.denote_replace value hKey

theorem denote_set
    (hLink : Placing link)
    (hDistinct : Distinct obj.valueMap)
    (key : K)
    (value : V) :
    Distinct (obj.set link key value).1.valueMap ∧
      denote (obj.set link key value).1.valueMap =
        Function.update (denote obj.valueMap) key
          (some value) := by
  unfold MapObject.set
  cases hFind : obj.find key with
  | some old => exact denote_replace hDistinct hFind value
  | none => exact denote_link hLink hDistinct hFind value

/- The value returned is the one before. -/
theorem set_old
    (link : K × V → List (K × V) → List (K × V))
    (obj : MapObject K V)
    (key : K)
    (value : V) :
    (obj.set link key value).2 = denote obj.valueMap key := by
  show _ = obj.find key
  unfold MapObject.set
  cases obj.find key with
  | some old => rfl
  | none => rfl

theorem denote_remove
    (hDistinct : Distinct obj.valueMap)
    (key : K) :
    Distinct (obj.remove key).1.valueMap ∧
      denote (obj.remove key).1.valueMap =
        Function.update (denote obj.valueMap) key none ∧
      (obj.remove key).2 =
        (denote obj.valueMap key).isSome := by
  rw [← find_eq_denote]
  unfold MapObject.remove
  cases hFind : obj.find key with
  | some old =>
      exact
        ⟨hDistinct.erase _, hDistinct.denote_erase key, rfl⟩
  | none =>
      have hNone : denote obj.valueMap key = none := hFind
      exact
        ⟨hDistinct,
          (Function.update_eq_self_iff.mpr hNone.symm).symm,
          rfl⟩

/- As many keys have a value as there are entries. -/
theorem sizeOfMap_denote
    {entries : List (K × V)}
    (hDistinct : Distinct entries) :
    sizeOfMap (denote entries) = entries.length := by
  have hSet :
      {key | (denote entries key).isSome = true} =
        ((AssocList.keys entries).toFinset : Set K) := by
    ext key
    simp [AssocList.denote_isSome]
  unfold sizeOfMap
  rw [hSet, Set.ncard_coe_finset,
    List.toFinset_card_of_nodup hDistinct]
  exact List.length_map _

end MapObject

----
-- Abstraction
----

def MapIterObject.pending
    (iter : MapIterObject K V) : PendingIter K V :=
  { obj := iter.obj
    rest := denote (iter.initial.drop iter.iter) }

def MapState.abstract (state : MapState K V) : MapHeap K V :=
  { maps := state.maps.map (fun obj => denote obj.valueMap)
    iters := state.iters.map (Option.map MapIterObject.pending)
    building := state.building }

namespace MapState

variable {link : K × V → List (K × V) → List (K × V)}
variable {state next : MapState K V}

theorem abstract_map
    {ref : MapRef}
    {obj : MapObject K V}
    (hObj : state.maps[ref]? = some obj) :
    state.abstract.maps[ref]? = some (denote obj.valueMap) := by
  unfold MapState.abstract
  rw [List.getElem?_map, hObj]
  rfl

theorem abstract_iter
    {index : Nat}
    {iter : MapIterObject K V}
    (hIter : state.iters[index]? = some (some iter)) :
    state.abstract.iters[index]? = some (some iter.pending) := by
  unfold MapState.abstract
  rw [List.getElem?_map, hIter]
  rfl

theorem abstract_setMap
    (ref : MapRef)
    (obj : MapObject K V) :
    (state.setMap ref obj).abstract =
      state.abstract.setMap ref (denote obj.valueMap) := by
  unfold MapState.abstract MapState.setMap MapHeap.setMap
  simp only [List.map_set]

/- A map that keeps its entries means what it meant. -/
theorem abstract_setMap_same
    {ref : MapRef}
    {obj after : MapObject K V}
    (hObj : state.maps[ref]? = some obj)
    (hSame : after.valueMap = obj.valueMap) :
    (state.setMap ref after).abstract = state.abstract := by
  have hMap := abstract_map hObj
  rw [abstract_setMap, hSame]
  rcases List.getElem?_eq_some_iff.mp hMap with ⟨hLt, hEq⟩
  unfold MapHeap.setMap
  rw [← hEq, List.set_getElem_self]

theorem abstract_create
    (ref : MapRef)
    (obj : MapObject K V)
    (called : MapMethod K V) :
    (state.create ref obj called).abstract =
      state.abstract.create ref (denote obj.valueMap)
        called := by
  cases called with
  | copy =>
      unfold MapState.abstract MapState.create MapHeap.create
      simp only [List.map_append, List.map_cons, List.map_nil]
  | iter =>
      unfold MapState.abstract MapState.create MapHeap.create
      simp only [List.map_append, List.map_cons, List.map_nil]
      rfl
  | _ => rfl

theorem abstract_createdRef (called : MapMethod K V) :
    state.abstract.createdRef called =
      state.createdRef called := by
  cases called with
  | copy => exact List.length_map _
  | iter => exact List.length_map _
  | _ => rfl

theorem abstract_isIterated (ref : MapRef) :
    state.abstract.IsIterated ref ↔ state.IsIterated ref := by
  unfold MapHeap.IsIterated MapState.IsIterated MapState.iterCount
  rw [List.countP_pos_iff]
  constructor
  · intro hIter
    rcases hIter with ⟨pending, hMem, hRef⟩
    rcases List.mem_map.mp hMem with ⟨found, hFound, hEq⟩
    rcases Option.map_eq_some_iff.mp hEq with ⟨iter, rfl, rfl⟩
    exact ⟨some iter, hFound, beq_iff_eq.mpr hRef⟩
  · intro hIter
    rcases hIter with ⟨found, hFound, hOver⟩
    cases found with
    | none => cases hOver
    | some iter =>
        exact
          ⟨iter.pending, List.mem_map.mpr ⟨_, hFound, rfl⟩,
            beq_iff_eq.mp hOver⟩

/- What an iterator has left once it has moved on. -/
theorem pending_next
    {iter : MapIterObject K V}
    (hDistinct : Distinct iter.initial)
    {entry : K × V}
    (hEntry : iter.initial[iter.iter]? = some entry)
    (visited : List (K × V)) :
    iter.pending.rest entry.1 = some entry.2 ∧
      ({ iter with iter := iter.iter + 1, visited } :
          MapIterObject K V).pending =
        { iter.pending with
          rest :=
            Function.update iter.pending.rest entry.1 none } := by
  rcases List.getElem?_eq_some_iff.mp hEntry with ⟨hLt, hEq⟩
  have hDrop :
      iter.initial.drop iter.iter =
        (entry.1, entry.2) ::
          iter.initial.drop (iter.iter + 1) := by
    rw [List.drop_eq_getElem_cons hLt, hEq]
  have hCons :
      Distinct
        ((entry.1, entry.2) ::
          iter.initial.drop (iter.iter + 1)) := by
    rw [← hDrop]
    exact hDistinct.sublist ((List.drop_sublist _ _).map Prod.fst)
  have hNew := (List.nodup_cons.mp hCons).1
  have hNone := AssocList.denote_eq_none.mpr hNew
  have hRest :
      iter.pending.rest =
        Function.update
          (denote (iter.initial.drop (iter.iter + 1))) entry.1
          (some entry.2) := by
    show denote (iter.initial.drop iter.iter) = _
    rw [hDrop, AssocList.denote_cons]
  rw [hRest, Function.update_idem, Function.update_self,
    Function.update_eq_self_iff.mpr hNone.symm]
  exact ⟨rfl, rfl⟩

/- The fields that `read` sets. -/
theorem denote_builtinRead
    (hLink : Placing link)
    (fields : List (K × V))
    (obj : MapObject K V) :
    Distinct (builtinRead link fields obj).valueMap ∧
      denote (builtinRead link fields obj).valueMap =
        fieldsMeaning fields := by
  have hFold :
      ∀ (fields : List (K × V)) (obj : MapObject K V),
        Distinct obj.valueMap →
        Distinct
            (fields.foldl
              (fun obj field =>
                (obj.set link field.1 field.2).1)
              obj).valueMap ∧
          denote
              (fields.foldl
                (fun obj field =>
                  (obj.set link field.1 field.2).1)
                obj).valueMap =
            fields.foldl
              (fun (f : K → Option V) field =>
                Function.update f field.1 (some field.2))
              (denote obj.valueMap) := by
    intro fields
    induction fields with
    | nil =>
        intro obj hDistinct
        exact ⟨hDistinct, rfl⟩
    | cons field fields ih =>
        intro obj hDistinct
        have hSet :=
          MapObject.denote_set hLink hDistinct field.1 field.2
        rw [List.foldl_cons, List.foldl_cons, ← hSet.2]
        exact ih _ hSet.1
  exact hFold fields obj.clear Distinct.nil

end MapState

end

----
-- Methods on Partial Functions
----

section

variable {K V : Type}
variable [DecidableEq K] [ToString K]

open Classical in
/- The partial function after the call, and the result. -/
noncomputable def MapMethod.meaning
    (created : Nat)
    (f : K → Option V) :
    MapMethod K V →
      Except RaisedError ((K → Option V) × MapResult K V)
  | .get key =>
      match f key with
      | some value => .ok (f, .value value)
      | none => .error (MapObject.raiseKeyNotFound key)
  | .set key value =>
      .ok (Function.update f key (some value), .void)
  | .put key value =>
      .ok (Function.update f key (some value), .option (f key))
  | .default key value =>
      match f key with
      | some old => .ok (f, .value old)
      | none =>
          .ok (Function.update f key (some value), .value value)
  | .size => .ok (f, .int (sizeOfMap f))
  | .empty => .ok (f, .boolean (f = fun _ => none))
  | .find key => .ok (f, .option (f key))
  | .contains key => .ok (f, .boolean (f key).isSome)
  | .remove key =>
      .ok (Function.update f key none, .boolean (f key).isSome)
  | .swap key value =>
      match f key with
      | some old =>
          .ok (Function.update f key (some value), .value old)
      | none => .error (MapObject.raiseKeyNotFound key)
  | .copy => .ok (f, .map created)
  | .clear => .ok (fun _ => none, .void)
  | .iter => .ok (f, .iter created)

open Classical in
/- What a script can observe, operation by operation. -/
inductive HeapStep :
    MapHeap K V → MapOp K V →
      Except RaisedError (MapResult K V) → MapHeap K V →
      Prop where
  | new (heap : MapHeap K V) :
      HeapStep heap .new (.ok (.map heap.maps.length))
        { heap with
          maps := heap.maps ++ [fun _ => none]
          building := heap.maps.length :: heap.building }
  | append {heap : MapHeap K V} {ref : MapRef}
      {building : List MapRef} {f : K → Option V}
      (key : K) (value : V)
      (hBuilding : heap.building = ref :: building)
      (hMap : heap.maps[ref]? = some f) :
      HeapStep heap (.append key value) (.ok .void)
        (heap.setMap ref (Function.update f key (some value)))
  | finish {heap : MapHeap K V} {ref : MapRef}
      {building : List MapRef}
      (hBuilding : heap.building = ref :: building) :
      HeapStep heap .finish (.ok (.map ref))
        { heap with building }
  | refused {heap : MapHeap K V} {ref : MapRef}
      {called : MapMethod K V}
      (hMutates : called.mutates = true)
      (hIterated : heap.IsIterated ref) :
      HeapStep heap (.method ref called)
        (.error MapObject.raiseIterInvalid) heap
  | raised {heap : MapHeap K V} {ref : MapRef}
      {called : MapMethod K V} {f : K → Option V}
      {error : RaisedError}
      (hMap : heap.maps[ref]? = some f)
      (hFree :
        called.mutates = true → ¬ heap.IsIterated ref)
      (hMeaning :
        called.meaning (heap.createdRef called) f =
          .error error) :
      HeapStep heap (.method ref called) (.error error) heap
  | method {heap : MapHeap K V} {ref : MapRef}
      {called : MapMethod K V} {f g : K → Option V}
      {value : MapResult K V}
      (hMap : heap.maps[ref]? = some f)
      (hFree :
        called.mutates = true → ¬ heap.IsIterated ref)
      (hMeaning :
        called.meaning (heap.createdRef called) f =
          .ok (g, value)) :
      HeapStep heap (.method ref called) (.ok value)
        ((heap.setMap ref g).create ref f called)
  | next {heap : MapHeap K V} {index : Nat}
      {iter : PendingIter K V} {key : K} {value : V}
      (hIter : heap.iters[index]? = some (some iter))
      (hEntry : iter.rest key = some value) :
      HeapStep heap (.next index) (.ok (.entry key value))
        { heap with
          iters :=
            heap.iters.set index
              (some
                { iter with
                  rest := Function.update iter.rest key none }) }
  | ended {heap : MapHeap K V} {index : Nat}
      {iter : PendingIter K V}
      (hIter : heap.iters[index]? = some (some iter))
      (hRest : iter.rest = fun _ => none) :
      HeapStep heap (.next index) (.error MapState.raiseIterEnd)
        heap
  | hasNext {heap : MapHeap K V} {index : Nat}
      {iter : PendingIter K V}
      (hIter : heap.iters[index]? = some (some iter)) :
      HeapStep heap (.hasNext index)
        (.ok (.boolean (iter.rest ≠ fun _ => none))) heap
  | destroy {heap : MapHeap K V} {index : Nat}
      {iter : PendingIter K V}
      (hIter : heap.iters[index]? = some (some iter)) :
      HeapStep heap (.destroy index) (.ok .void)
        { heap with iters := heap.iters.set index none }
  | read (heap : MapHeap K V) (fields : List (K × V)) :
      HeapStep heap (.read fields) (.ok .void)
        (heap.setMap replyRef (fieldsMeaning fields))

namespace MapMethod

variable {link : K × V → List (K × V) → List (K × V)}
variable {obj : MapObject K V}
variable {created : Nat}

/- A method that is not refused does what it means. -/
theorem meaning_run
    (hLink : Placing link)
    (hDistinct : Distinct obj.valueMap)
    {called : MapMethod K V}
    (hFree : called.mutates = true → obj.locked = false) :
    called.meaning created (denote obj.valueMap) =
      (called.run link created obj).map
        (fun found => (denote found.1.valueMap, found.2)) := by
  have hGuard :
      ∀ {α : Type} (rest : Except RaisedError α),
        called.mutates = true →
        obj.checkIterInvalidation rest = rest := by
    intro α rest hMutates
    unfold MapObject.checkIterInvalidation
    rw [hFree hMutates]
    exact if_neg Bool.false_ne_true
  cases called with
  | get key =>
      simp only [run, meaning, find_eq_denote]
      cases denote obj.valueMap key with
      | some value => rfl
      | none => rfl
  | set key value =>
      simp only [run, hGuard _ rfl, Except.map, meaning,
        (MapObject.denote_set hLink hDistinct key value).2]
  | put key value =>
      simp only [run, hGuard _ rfl, Except.map, meaning,
        (MapObject.denote_set hLink hDistinct key value).2,
        MapObject.set_old]
  | default key value =>
      simp only [run, hGuard _ rfl, Except.map, meaning,
        MapObject.setDefault, find_eq_denote]
      cases hFind : denote obj.valueMap key with
      | some old => rfl
      | none =>
          rw [(MapObject.denote_link hLink hDistinct hFind
            value).2]
  | size =>
      simp only [run, Except.map, meaning,
        MapObject.sizeOfMap_denote hDistinct]
  | empty =>
      classical
      simp only [run, Except.map, meaning]
      congr 3
      rw [Bool.eq_iff_iff, decide_eq_true_eq, List.isEmpty_iff]
      exact AssocList.denote_eq_empty
  | find key => rfl
  | contains key => rfl
  | remove key =>
      have hRemove := MapObject.denote_remove hDistinct key
      simp only [run, hGuard _ rfl, Except.map, meaning,
        hRemove.2.1, hRemove.2.2]
  | swap key value =>
      simp only [run, hGuard _ rfl, meaning, MapObject.trySwap,
        find_eq_denote]
      cases hFind : denote obj.valueMap key with
      | some old =>
          have hReplace :=
            MapObject.denote_replace hDistinct hFind value
          simp only [Option.map_some, Except.map, hReplace.2]
      | none => rfl
  | copy => rfl
  | clear =>
      simp only [run, hGuard _ rfl, Except.map, meaning]
      rfl
  | iter => rfl

/- Keys stay distinct. -/
theorem distinct_run
    (hLink : Placing link)
    (hDistinct : Distinct obj.valueMap)
    {called : MapMethod K V}
    {after : MapObject K V}
    {value : MapResult K V}
    (hRun : called.run link created obj = .ok (after, value)) :
    Distinct after.valueMap := by
  have hGuarded :
      ∀ rest : Except RaisedError (MapObject K V × MapResult K V),
        obj.checkIterInvalidation rest = .ok (after, value) →
        rest = .ok (after, value) := by
    intro rest hRest
    unfold MapObject.checkIterInvalidation at hRest
    split at hRest
    · cases hRest
    · exact hRest
  cases hMutates : called.mutates with
  | false =>
      rw [run_valueMap hRun hMutates]
      exact hDistinct
  | true =>
      cases called with
      | set key v | put key v =>
          cases hGuarded _ hRun
          exact (MapObject.denote_set hLink hDistinct key v).1
      | default key v =>
          cases hGuarded _ hRun
          unfold MapObject.setDefault
          cases hFind : obj.find key with
          | some old => exact hDistinct
          | none =>
              exact
                (MapObject.denote_link hLink hDistinct hFind v).1
      | remove key =>
          cases hGuarded _ hRun
          exact (MapObject.denote_remove hDistinct key).1
      | swap key v =>
          have hSwap := hGuarded _ hRun
          unfold MapObject.trySwap at hSwap
          cases hFind : obj.find key with
          | none =>
              rw [hFind] at hSwap
              cases hSwap
          | some old =>
              rw [hFind] at hSwap
              cases hSwap
              exact
                (MapObject.denote_replace hDistinct hFind v).1
      | clear =>
          cases hGuarded _ hRun
          exact Distinct.nil
      | _ => cases hMutates

end MapMethod

----
-- Steps
----

namespace MapState

variable {link : K × V → List (K × V) → List (K × V)}
variable {state next : MapState K V}
variable {op : MapOp K V}
variable {result : Except RaisedError (MapResult K V)}

/- Calls of methods on maps that are not being built. -/
theorem heapStep_method
    (hLink : Placing link)
    (hState : state.Consistent)
    (hKeys : state.KeysDistinct)
    {ref : MapRef}
    {called : MapMethod K V}
    (hCall :
      state.call link (.method ref called) =
        some (next, result)) :
    HeapStep state.abstract (.method ref called) result
        next.abstract ∧
      next.KeysDistinct := by
  rcases call_method hCall with ⟨-, obj, hObj, hRun⟩
  have hDistinct := hKeys.of_map hObj
  have hMap := abstract_map hObj
  by_cases hRefused :
      called.mutates = true ∧ state.IsIterated ref
  · have hLocked :=
      (hState.locked_iff hObj).mpr hRefused.2
    have hError :=
      @MapMethod.run_of_locked _ _ _ _ link
        (state.createdRef called) obj called hLocked hRefused.1
    rcases hRun with
      ⟨error, hIs, rfl, rfl⟩ | ⟨after, value, hIs, -, -⟩
    · rw [hError] at hIs
      cases hIs
      exact
        ⟨.refused hRefused.1
          ((abstract_isIterated ref).mpr hRefused.2), hKeys⟩
    · rw [hError] at hIs
      cases hIs
  · have hFree :
        called.mutates = true →
          ¬ state.abstract.IsIterated ref := by
      intro hMutates hIterated
      exact
        hRefused
          ⟨hMutates, (abstract_isIterated ref).mp hIterated⟩
    have hUnlocked :
        called.mutates = true → obj.locked = false := by
      intro hMutates
      rw [Bool.eq_false_iff]
      intro hLocked
      exact
        hRefused ⟨hMutates, (hState.locked_iff hObj).mp hLocked⟩
    have hMeaning :=
      @MapMethod.meaning_run _ _ _ _ link obj
        (state.abstract.createdRef called) hLink hDistinct called
        hUnlocked
    rw [abstract_createdRef] at hMeaning
    rcases hRun with
      ⟨error, hIs, rfl, rfl⟩ | ⟨after, value, hIs, rfl, rfl⟩
    · rw [hIs, ← abstract_createdRef] at hMeaning
      exact ⟨.raised hMap hFree hMeaning, hKeys⟩
    · have hAfter := MapMethod.distinct_run hLink hDistinct hIs
      rw [hIs, ← abstract_createdRef] at hMeaning
      rw [abstract_create, abstract_setMap]
      exact
        ⟨.method hMap hFree hMeaning,
          (hKeys.setMap ref hAfter).create ref hDistinct called⟩

theorem heapStep_next
    (hState : state.Consistent)
    (hKeys : state.KeysDistinct)
    {index : Nat}
    (hCall :
      state.call link (.next index) = some (next, result)) :
    HeapStep state.abstract (.next index) result next.abstract ∧
      next.KeysDistinct := by
  simp only [call] at hCall
  split at hCall
  · rename_i iter hIter
    rcases hState.exact index iter hIter with
      ⟨obj, hObj, hInitial, -⟩
    have hDistinct := hKeys.of_map hObj
    have hPending := abstract_iter hIter
    rw [hObj, Option.map_some] at hCall
    unfold MapState.iterNext at hCall
    cases hEntry : obj.valueMap[iter.iter]? with
    | none =>
        rw [hEntry] at hCall
        cases hCall
        refine ⟨.ended hPending ?_, hKeys⟩
        have hPast := List.getElem?_eq_none_iff.mp hEntry
        rw [hInitial] at hPast
        exact
          AssocList.denote_eq_empty.mpr
            (List.drop_eq_nil_of_le hPast)
    | some entry =>
        rw [hEntry] at hCall
        cases hCall
        rw [hInitial] at hDistinct hEntry
        have hNext :=
          pending_next hDistinct hEntry
            (iter.visited ++ [entry])
        have hStep := HeapStep.next hPending hNext.1
        rw [← hNext.2] at hStep
        refine ⟨?_, hKeys⟩
        unfold MapState.abstract at hStep ⊢
        simp only [List.map_set] at hStep ⊢
        exact hStep
  · cases hCall

theorem heapStep_hasNext
    (hState : state.Consistent)
    (hKeys : state.KeysDistinct)
    {index : Nat}
    (hCall :
      state.call link (.hasNext index) = some (next, result)) :
    HeapStep state.abstract (.hasNext index) result
        next.abstract ∧
      next.KeysDistinct := by
  classical
  simp only [call] at hCall
  split at hCall
  · rename_i iter hIter
    rcases hState.exact index iter hIter with
      ⟨obj, hObj, hInitial, -⟩
    rw [hObj, Option.map_some] at hCall
    cases hCall
    have hStep := HeapStep.hasNext (abstract_iter hIter)
    have hMore :
        iter.iter < obj.valueMap.length ↔
          iter.pending.rest ≠ fun _ => none := by
      rw [hInitial, ← Nat.not_le, not_iff_not,
        ← List.drop_eq_nil_iff]
      exact AssocList.denote_eq_empty.symm
    have hBool :
        decide (iter.iter < obj.valueMap.length) =
          decide (iter.pending.rest ≠ fun _ => none) :=
      decide_eq_decide.mpr hMore
    rw [hBool]
    exact ⟨hStep, hKeys⟩
  · cases hCall

theorem heapStep_destroy
    (hState : state.Consistent)
    (hKeys : state.KeysDistinct)
    {index : Nat}
    (hCall :
      state.call link (.destroy index) = some (next, result)) :
    HeapStep state.abstract (.destroy index) result
        next.abstract ∧
      next.KeysDistinct := by
  simp only [call] at hCall
  split at hCall
  · rename_i iter hIter
    rcases hState.exact index iter hIter with ⟨obj, hObj, -⟩
    rw [hObj, Option.map_some] at hCall
    cases hCall
    have hStep := HeapStep.destroy (abstract_iter hIter)
    have hSame :
        (state.setMap iter.obj obj.unlock).abstract =
          state.abstract :=
      abstract_setMap_same hObj rfl
    have hMaps := congrArg MapHeap.maps hSame
    have hDistinct := hKeys.of_map hObj
    have hUnlock : Distinct obj.unlock.valueMap := hDistinct
    refine ⟨?_, hKeys.setMap iter.obj hUnlock⟩
    have hNext :
        ({ state.setMap iter.obj obj.unlock with
            iters := state.iters.set index none } :
          MapState K V).abstract =
          { state.abstract with
            iters := state.abstract.iters.set index none } := by
      unfold MapState.abstract at hMaps ⊢
      simp only at hMaps
      simp only [hMaps, List.map_set]
      rfl
    rw [hNext]
    exact hStep
  · cases hCall

/- Every operation is one on partial functions. -/
theorem heapStep_call
    (hLink : Placing link)
    (hState : state.Consistent)
    (hKeys : state.KeysDistinct)
    (hCall : state.call link op = some (next, result)) :
    HeapStep state.abstract op result next.abstract ∧
      next.KeysDistinct := by
  cases op with
  | new =>
      cases hCall
      have hLength :
          state.abstract.maps.length = state.maps.length :=
        List.length_map _
      have hStep := HeapStep.new state.abstract
      rw [hLength] at hStep
      constructor
      · unfold MapState.abstract at hStep ⊢
        rw [List.map_append]
        exact hStep
      · intro obj hMem
        rcases List.mem_append.mp hMem with hOld | hNew
        · exact hKeys obj hOld
        · rw [List.mem_singleton.mp hNew]
          exact Distinct.nil
  | append key value =>
      simp only [call] at hCall
      cases hBuilding : state.building with
      | nil =>
          rw [hBuilding] at hCall
          cases hCall
      | cons ref building =>
          rw [hBuilding] at hCall
          simp only at hCall
          cases hObj : state.maps[ref]? with
          | none =>
              rw [hObj] at hCall
              cases hCall
          | some obj =>
              rw [hObj] at hCall
              cases hCall
              have hSet :=
                MapObject.denote_set hLink (hKeys.of_map hObj)
                  key value
              refine ⟨?_, hKeys.setMap ref hSet.1⟩
              rw [abstract_setMap, hSet.2]
              exact
                .append key value hBuilding (abstract_map hObj)
  | finish =>
      simp only [call] at hCall
      cases hBuilding : state.building with
      | nil =>
          rw [hBuilding] at hCall
          cases hCall
      | cons ref building =>
          rw [hBuilding] at hCall
          cases hCall
          have hAbstract :
              state.abstract.building = ref :: building :=
            hBuilding
          exact ⟨.finish hAbstract, hKeys⟩
  | method ref called =>
      exact heapStep_method hLink hState hKeys hCall
  | next index => exact heapStep_next hState hKeys hCall
  | hasNext index => exact heapStep_hasNext hState hKeys hCall
  | destroy index => exact heapStep_destroy hState hKeys hCall
  | read fields =>
      rcases Option.map_eq_some_iff.mp hCall with
        ⟨obj, hObj, hEq⟩
      cases hEq
      have hRead := denote_builtinRead hLink fields obj
      refine ⟨?_, hKeys.setMap replyRef hRead.1⟩
      rw [abstract_setMap, hRead.2]
      exact .read _ fields

end MapState

----
-- Runs
----

/-
  A step of a script whose `read` leaves iterated maps alone.
  Where the hash table puts entries may be another at each step.
-/
def MapState.Answers
    (state : MapState K V)
    (op : MapOp K V)
    (result : Except RaisedError (MapResult K V))
    (next : MapState K V) : Prop :=
  ReadsUniterated state op ∧
    ∃ link, Placing link ∧
      state.call link op = some (next, result)

/-
  Whatever a script does with maps and iterators, it is
  answered as partial functions and unordered iterations are.
-/
theorem mapRun_refines
    {calls :
      List (MapOp K V × Except RaisedError (MapResult K V))}
    {state : MapState K V}
    (hRun :
      Answered MapState.Answers MapState.init calls state) :
    Answered HeapStep MapHeap.init calls state.abstract := by
  let Rel :=
    fun (state : MapState K V) (heap : MapHeap K V) =>
      state.Consistent ∧ state.KeysDistinct ∧
        heap = state.abstract
  have hInit : Rel MapState.init MapHeap.init := by
    refine ⟨MapState.Consistent.init, ?_, rfl⟩
    intro obj hMem
    rw [List.mem_singleton.mp hMem]
    exact Distinct.nil
  have hStep :
      ∀ state op result next heap,
        Rel state heap →
        MapState.Answers state op result next →
        ∃ after,
          HeapStep heap op result after ∧ Rel next after := by
    intro state op result next heap hRel hAnswers
    rcases hRel with ⟨hState, hKeys, rfl⟩
    rcases hAnswers with ⟨hReads, link, hLink, hCall⟩
    have hHeap :=
      MapState.heapStep_call hLink hState hKeys hCall
    exact
      ⟨next.abstract, hHeap.1, hState.call hReads hCall, hHeap.2,
        rfl⟩
  rcases Answered.simulated hStep hRun hInit with
    ⟨heap, hHeap, -, -, rfl⟩
  exact hHeap

end

/-
  A literal with one entry, an iteration over it, and a method
  that is refused meanwhile.
-/
theorem mapRun_refines_iteration :
    Answered HeapStep MapHeap.init
      [(MapOp.new, .ok (.map 1)),
        (.append "a" "x", .ok .void),
        (.finish, .ok (.map 1)),
        (.method 1 .iter, .ok (.iter 0)),
        (.method 1 .clear, .error MapObject.raiseIterInvalid),
        (.next 0, .ok (.entry "a" "x"))]
      (MapState.abstract
        { maps :=
            [.empty,
              { valueMap := [("a", "x")], lockCount := 1 }]
          iters :=
            [some
              { obj := 1, iter := 1, initial := [("a", "x")],
                visited := [("a", "x")] }]
          building := [] }) := by
  have hPlacing :
      Placing (List.cons : String × String → _ → _) :=
    fun _ _ => List.Perm.refl _
  apply mapRun_refines
  iterate 6 refine .cons ⟨trivial, _, hPlacing, rfl⟩ ?_
  exact .nil _

end Ydsh
