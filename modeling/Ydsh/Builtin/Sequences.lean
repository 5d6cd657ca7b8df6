import Ydsh.Builtin.ArrayMethods

/-
  What the methods of arrays are for: operations on sequences
  that never change.

  Main declarations:
    * `Sequences`
    * `ArrayMethod.spec`
    * `Sequences.Within`
    * `Partial`
-/

----
-- Positions
----

namespace Ydsh

namespace Builtin

/- A negative index counts from the end. -/
def normalize (size : Nat) (index : Int) : Int :=
  if index < 0 then index + size else index

/- The position of an element. -/
def position? (size : Nat) (index : Int) : Option Nat :=
  if 0 ≤ normalize size index ∧ normalize size index < size then
    some (normalize size index).toNat
  else
    none

/- The position between two elements or at an end. -/
def gap? (size : Nat) (index : Int) : Option Nat :=
  if 0 ≤ normalize size index ∧ normalize size index ≤ size then
    some (normalize size index).toNat
  else
    none

def range? (size : Nat) (start stop : Int) : Option (Nat × Nat) :=
  if 0 ≤ normalize size start ∧
      normalize size start ≤ normalize size stop ∧
        normalize size stop ≤ size then
    some
      ((normalize size start).toNat, (normalize size stop).toNat)
  else
    none

----
-- Sequences
----

structure Sequences (V : Type) where
  lists : ArrayRef → List V
  next : ArrayRef

namespace Sequences

variable {V : Type}

def put
    (s : Sequences V)
    (ref : ArrayRef)
    (list : List V) : Sequences V :=
  { s with lists := fun r => if r = ref then list else s.lists r }

def alloc
    (s : Sequences V)
    (list : List V) : Sequences V where
  lists := (s.put s.next list).lists
  next := s.next + 1

/- No list is beyond the limit. -/
def Within (s : Sequences V) : Prop :=
  ∀ ref, (s.lists ref).length ≤ MAX_SIZE

/- A list that is one longer, if it may be. -/
def grow
    (s : Sequences V)
    (ref : ArrayRef)
    (list : List V)
    (ret : ArrayResult V) : Option (ArrayResult V × Sequences V) :=
  if (s.lists ref).length < MAX_SIZE then
    some (ret, s.put ref list)
  else
    none

end Sequences

/- No result: the index, the range or the size is out of
   range. -/
def ArrayMethod.spec
    {V : Type}
    (s : Sequences V)
    (self : ArrayRef) :
    ArrayMethod V → Option (ArrayResult V × Sequences V)
  | get index =>
      (position? (s.lists self).length index.toInt).bind
        (fun i => (s.lists self)[i]?.map (fun v => (.value v, s)))
  | get2 index =>
      some
        (.option
          ((position? (s.lists self).length index.toInt).bind
            (fun i => (s.lists self)[i]?)), s)
  | set index v =>
      (position? (s.lists self).length index.toInt).map
        (fun i => (.void, s.put self ((s.lists self).set i v)))
  | remove index =>
      (position? (s.lists self).length index.toInt).bind
        (fun i =>
          (s.lists self)[i]?.map
            (fun v =>
              (.value v, s.put self ((s.lists self).eraseIdx i))))
  | peek =>
      (s.lists self).getLast?.map (fun v => (.value v, s))
  | push v => s.grow self (s.lists self ++ [v]) .void
  | pop =>
      (s.lists self).getLast?.map
        (fun v => (.value v, s.put self (s.lists self).dropLast))
  | shift =>
      (s.lists self).head?.map
        (fun v => (.value v, s.put self (s.lists self).tail))
  | unshift v => s.grow self (v :: s.lists self) .void
  | insert index v =>
      (gap? (s.lists self).length index.toInt).bind
        (fun i =>
          s.grow self
            ((s.lists self).take i ++ v :: (s.lists self).drop i)
            .void)
  | add v => s.grow self (s.lists self ++ [v]) (.array self)
  | extend value =>
      if value = self then
        some (.array self, s)
      else if (s.lists self).length + (s.lists value).length ≤
          MAX_SIZE then
        some
          (.array self,
            s.put self (s.lists self ++ s.lists value))
      else
        none
  | swap index v =>
      (position? (s.lists self).length index.toInt).bind
        (fun i =>
          (s.lists self)[i]?.map
            (fun old =>
              (.value old, s.put self ((s.lists self).set i v))))
  | slice start stop =>
      (range? (s.lists self).length start.toInt stop.toInt).map
        (fun r =>
          (.array s.next,
            s.alloc (((s.lists self).drop r.1).take (r.2 - r.1))))
  | sliceFrom start =>
      (range? (s.lists self).length start.toInt
          (s.lists self).length).map
        (fun r =>
          (.array s.next, s.alloc ((s.lists self).drop r.1)))
  | sliceTo stop =>
      (range? (s.lists self).length 0 stop.toInt).map
        (fun r =>
          (.array s.next, s.alloc ((s.lists self).take r.2)))
  | copy => some (.array s.next, s.alloc (s.lists self))
  | reverse =>
      some (.array self, s.put self (s.lists self).reverse)
  | clear => some (.void, s.put self [])

/- What is seen of a call: what it returns or the type of its
   error, and all sequences after it. -/
abbrev Seen (V : Type) :=
  Except ErrorType (ArrayResult V) × Sequences V

def ArrayMethod.specRun
    {V : Type}
    (s : Sequences V)
    (self : ArrayRef)
    (method : ArrayMethod V) : Seen V :=
  (method.spec s self).elim
    (.error .outOfRangeError, s)
    (fun found => (.ok found.1, found.2))

def Heap.sequences
    {V : Type}
    (heap : Heap V) : Sequences V where
  lists := fun ref => (heap.arrays ref).values
  next := heap.next

def observe
    {V : Type}
    (effect : Effect V) : Seen V :=
  (effect.1.mapError RaisedError.type, effect.2.sequences)

/- Some values are appended before the limit is met. -/
def Partial
    {V : Type}
    (s : Sequences V)
    (self : ArrayRef) : ArrayMethod V → Prop
  | .extend value =>
      value ≠ self ∧
        (s.lists self).length < MAX_SIZE ∧
          MAX_SIZE <
            (s.lists self).length + (s.lists value).length
  | _ => False

/- A call has its receiver. -/
abbrev Call (V : Type) := ArrayRef × ArrayMethod V

section

variable {V : Type}

def trace : List (Call V) → Heap V → List (Seen V)
  | [], _ => []
  | call :: calls, heap =>
      observe (call.2.run heap call.1) ::
        trace calls (call.2.run heap call.1).2

def specTrace : List (Call V) → Sequences V → List (Seen V)
  | [], _ => []
  | call :: calls, s =>
      call.2.specRun s call.1 ::
        specTrace calls (call.2.specRun s call.1).2

/- No call of the run is partial. -/
def Whole : List (Call V) → Sequences V → Prop
  | [], _ => True
  | call :: calls, s =>
      ¬ Partial s call.1 call.2 ∧
        Whole calls (call.2.specRun s call.1).2

end

end Builtin

end Ydsh
