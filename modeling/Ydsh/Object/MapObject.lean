import Ydsh.Type.DSType

/-
  Map objects and their methods.

  A map counts the iterators over it, and the methods that
  change its entries refuse to run while there is one.  Where
  the hash table puts a new entry is a parameter.

  Main declarations:
    * `MapObject`
    * `MapObject.checkIterInvalidation`
    * `MapMethod`
    * `MapMethod.run`
    * `MapMethod.run_of_locked`
-/

----
-- Objects
----

namespace Ydsh

abbrev MapRef := Nat

structure MapObject (K V : Type) where
  valueMap : List (K × V)
  lockCount : Int
  deriving DecidableEq, Repr

/- An error object raised by a builtin method. -/
structure RaisedError where
  type : ErrorType
  message : String
  deriving DecidableEq, Repr

/- What a builtin method on maps or map iterators returns. -/
inductive MapResult (K V : Type) where
  | void
  | value (value : V)
  | option (value : Option V)
  | boolean (value : Bool)
  | int (value : Nat)
  | map (ref : MapRef)
  | iter (index : Nat)
  | entry (key : K) (value : V)
  deriving DecidableEq, Repr

namespace MapObject

variable {K V : Type}

def empty : MapObject K V :=
  { valueMap := [], lockCount := 0 }

def locked (obj : MapObject K V) : Bool :=
  obj.lockCount > 0

def find
    [DecidableEq K]
    (obj : MapObject K V)
    (key : K) : Option V :=
  (obj.valueMap.find? (fun entry => entry.1 = key)).map Prod.snd

/- Replace the value of a key that has one. -/
def replace
    [DecidableEq K]
    (obj : MapObject K V)
    (key : K)
    (value : V) : MapObject K V :=
  { obj with
    valueMap :=
      obj.valueMap.map
        (fun entry =>
          if entry.1 = key then (entry.1, value) else entry) }

section

variable [DecidableEq K]
variable (link : K × V → List (K × V) → List (K × V))

/- The old value is returned, if there is one. -/
def set
    (obj : MapObject K V)
    (key : K)
    (value : V) : MapObject K V × Option V :=
  match obj.find key with
  | some old => (obj.replace key value, some old)
  | none =>
      ({ obj with valueMap := link (key, value) obj.valueMap },
        none)

/- The value of the key is kept if it has one. -/
def setDefault
    (obj : MapObject K V)
    (key : K)
    (value : V) : MapObject K V × V :=
  match obj.find key with
  | some old => (obj, old)
  | none =>
      ({ obj with valueMap := link (key, value) obj.valueMap },
        value)

def trySwap
    (obj : MapObject K V)
    (key : K)
    (value : V) : Option (MapObject K V × V) :=
  (obj.find key).map (fun old => (obj.replace key value, old))

def remove
    (obj : MapObject K V)
    (key : K) : MapObject K V × Bool :=
  match obj.find key with
  | some _ =>
      ({ obj with
          valueMap :=
            obj.valueMap.eraseP (fun entry => entry.1 = key) },
        true)
  | none => (obj, false)

theorem set_lockCount
    (obj : MapObject K V)
    (key : K)
    (value : V) :
    (obj.set link key value).1.lockCount = obj.lockCount := by
  unfold set
  split <;> rfl

theorem setDefault_lockCount
    (obj : MapObject K V)
    (key : K)
    (value : V) :
    (obj.setDefault link key value).1.lockCount =
      obj.lockCount := by
  unfold setDefault
  split <;> rfl

theorem remove_lockCount
    (obj : MapObject K V)
    (key : K) :
    (obj.remove key).1.lockCount = obj.lockCount := by
  unfold remove
  split <;> rfl

end

def clear (obj : MapObject K V) : MapObject K V :=
  { obj with valueMap := [] }

/- An iterator is created, or destroyed. -/
def lock (obj : MapObject K V) : MapObject K V :=
  { obj with lockCount := obj.lockCount + 1 }

def unlock (obj : MapObject K V) : MapObject K V :=
  { obj with lockCount := obj.lockCount - 1 }

----
-- Methods
----

def raiseIterInvalid : RaisedError :=
  { type := .invalidOperationError
    message := "cannot modify map object during iteration" }

def checkIterInvalidation
    {α : Type}
    (obj : MapObject K V)
    (rest : Except RaisedError α) : Except RaisedError α :=
  if obj.locked then .error raiseIterInvalid else rest

def raiseKeyNotFound [ToString K] (key : K) : RaisedError :=
  { type := .keyNotFoundError
    message := "not found key: " ++ toString key }

end MapObject

/-
  The builtin methods of maps.  `find` returns an option and
  `contains` a truth value; in scripts they are called `get`
  and `find`.
-/
inductive MapMethod (K V : Type) where
  | get (key : K)
  | set (key : K) (value : V)
  | put (key : K) (value : V)
  | default (key : K) (value : V)
  | size
  | empty
  | find (key : K)
  | contains (key : K)
  | remove (key : K)
  | swap (key : K) (value : V)
  | copy
  | clear
  | iter
  deriving DecidableEq, Repr

namespace MapMethod

variable {K V : Type}

/- The methods that may change the entries of the map. -/
def mutates : MapMethod K V → Bool
  | set _ _ => true
  | put _ _ => true
  | default _ _ => true
  | remove _ => true
  | swap _ _ => true
  | clear => true
  | _ => false

variable [DecidableEq K] [ToString K]
variable (link : K × V → List (K × V) → List (K × V))

/-
  The methods that allocate nothing: the map after the call and
  the result.  `copy` and `iter` are given the reference of the
  object they create.
-/
def run
    (ref : Nat)
    (obj : MapObject K V) :
    MapMethod K V →
      Except RaisedError (MapObject K V × MapResult K V)
  | get key =>
      match obj.find key with
      | some value => .ok (obj, .value value)
      | none => .error (MapObject.raiseKeyNotFound key)
  | set key value =>
      obj.checkIterInvalidation
        (.ok ((obj.set link key value).1, .void))
  | put key value =>
      obj.checkIterInvalidation
        (.ok
          ((obj.set link key value).1,
            .option (obj.set link key value).2))
  | default key value =>
      obj.checkIterInvalidation
        (.ok
          ((obj.setDefault link key value).1,
            .value (obj.setDefault link key value).2))
  | size => .ok (obj, .int obj.valueMap.length)
  | empty => .ok (obj, .boolean obj.valueMap.isEmpty)
  | find key => .ok (obj, .option (obj.find key))
  | contains key => .ok (obj, .boolean (obj.find key).isSome)
  | remove key =>
      obj.checkIterInvalidation
        (.ok ((obj.remove key).1, .boolean (obj.remove key).2))
  | swap key value =>
      obj.checkIterInvalidation
        (match obj.trySwap key value with
        | some (obj, old) => .ok (obj, .value old)
        | none => .error (MapObject.raiseKeyNotFound key))
  | copy => .ok (obj, .map ref)
  | clear => obj.checkIterInvalidation (.ok (obj.clear, .void))
  | iter => .ok (obj.lock, .iter ref)

variable {link}
variable {ref : Nat}
variable {obj next : MapObject K V}
variable {result : MapResult K V}

/- A locked map refuses every change. -/
theorem run_of_locked
    {method : MapMethod K V}
    (hLocked : obj.locked = true)
    (hMutates : method.mutates = true) :
    method.run link ref obj =
      .error MapObject.raiseIterInvalid := by
  cases method with
  | get key => cases hMutates
  | size => cases hMutates
  | empty => cases hMutates
  | find key => cases hMutates
  | contains key => cases hMutates
  | copy => cases hMutates
  | iter => cases hMutates
  | _ => exact if_pos hLocked

/- The other methods leave the entries as they are. -/
theorem run_valueMap
    {method : MapMethod K V}
    (hRun : method.run link ref obj = .ok (next, result))
    (hMutates : method.mutates = false) :
    next.valueMap = obj.valueMap := by
  cases method with
  | get key =>
      simp only [run] at hRun
      cases hFind : obj.find key with
      | some value =>
          rw [hFind] at hRun
          cases hRun
          rfl
      | none =>
          rw [hFind] at hRun
          cases hRun
  | set key value => cases hMutates
  | put key value => cases hMutates
  | default key value => cases hMutates
  | remove key => cases hMutates
  | swap key value => cases hMutates
  | clear => cases hMutates
  | _ =>
      cases hRun
      rfl

/- Only the creation of an iterator locks a map. -/
theorem run_lockCount
    {method : MapMethod K V}
    (hRun : method.run link ref obj = .ok (next, result)) :
    next.lockCount =
      obj.lockCount + (if method matches .iter then 1 else 0) := by
  have hGuarded :
      ∀ rest : Except RaisedError (MapObject K V × MapResult K V),
        obj.checkIterInvalidation rest = .ok (next, result) →
        rest = .ok (next, result) := by
    intro rest hRest
    unfold MapObject.checkIterInvalidation at hRest
    split at hRest
    · cases hRest
    · exact hRest
  cases method with
  | get key =>
      simp only [run] at hRun
      cases hFind : obj.find key with
      | some value =>
          rw [hFind] at hRun
          cases hRun
          exact (Int.add_zero _).symm
      | none =>
          rw [hFind] at hRun
          cases hRun
  | set key value | put key value =>
      cases hGuarded _ hRun
      exact (obj.set_lockCount link key value).trans (Int.add_zero _).symm
  | default key value =>
      cases hGuarded _ hRun
      exact
        (obj.setDefault_lockCount link key value).trans
          (Int.add_zero _).symm
  | remove key =>
      cases hGuarded _ hRun
      exact (obj.remove_lockCount key).trans (Int.add_zero _).symm
  | swap key value =>
      have hSwap := hGuarded _ hRun
      unfold MapObject.trySwap at hSwap
      cases hFind : obj.find key with
      | none =>
          rw [hFind] at hSwap
          cases hSwap
      | some old =>
          rw [hFind] at hSwap
          cases hSwap
          exact (Int.add_zero _).symm
  | clear =>
      cases hGuarded _ hRun
      exact (Int.add_zero _).symm
  | iter =>
      cases hRun
      rfl
  | _ =>
      cases hRun
      exact (Int.add_zero _).symm

end MapMethod

end Ydsh
