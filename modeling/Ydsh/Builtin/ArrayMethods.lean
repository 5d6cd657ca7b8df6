import Ydsh.Object.MapObject

/-
  The methods of arrays.

  Indices are signed, sizes unsigned, and both are added in
  arithmetic modulo the width.  Arrays are referred to, so that
  an argument may be the receiver.

  Main declarations:
    * `ArrayObject`
    * `ArrayMethod`
    * `ArrayMethod.run`
-/

----
-- Objects
----

namespace Ydsh

namespace Builtin

/- `INT32_MAX` -/
abbrev MAX_SIZE : Nat := 0x7FFFFFFF

/- The limit is kept by the methods below alone: `split` may
   make a longer array. -/
structure ArrayObject (V : Type) where
  values : List V

abbrev ArrayRef := Nat

namespace ArrayObject

variable {V : Type}

def size (obj : ArrayObject V) : Nat :=
  obj.values.length

def uintSize (obj : ArrayObject V) : UInt64 :=
  .ofNat obj.size

def empty : ArrayObject V where
  values := []

def set (obj : ArrayObject V) (index : Nat) (v : V) :
    ArrayObject V where
  values := obj.values.set index v

def erase (obj : ArrayObject V) (index : Nat) :
    ArrayObject V where
  values := obj.values.eraseIdx index

def insert
    (obj : ArrayObject V)
    (index : Nat)
    (v : V) : ArrayObject V where
  values := obj.values.insertIdx index v

/- It does not look at the limit. -/
def append
    (obj : ArrayObject V)
    (v : V) : ArrayObject V where
  values := obj.values ++ [v]

/- The values from `begin` up to `stop`. -/
def sliceImpl
    (obj : ArrayObject V)
    (start stop : Nat) : ArrayObject V where
  values := (obj.values.drop start).take (stop - start)

def reversed (obj : ArrayObject V) : ArrayObject V where
  values := obj.values.reverse

end ArrayObject

/- All arrays, and the first free reference. -/
structure Heap (V : Type) where
  arrays : ArrayRef → ArrayObject V
  next : ArrayRef

namespace Heap

variable {V : Type}

def put
    (heap : Heap V)
    (ref : ArrayRef)
    (obj : ArrayObject V) : Heap V :=
  { heap with
    arrays := fun r => if r = ref then obj else heap.arrays r }

def alloc
    (heap : Heap V)
    (obj : ArrayObject V) : Heap V where
  arrays := (heap.put heap.next obj).arrays
  next := heap.next + 1

end Heap

----
-- Indices
----

structure ArrayIndex where
  index : UInt64
  s : Bool

/- `index += (index < 0 ? size : 0)` -/
def addSize (index : Int64) (size : UInt64) : Int64 :=
  (index.toUInt64 + (if index < 0 then size else 0)).toInt64

def resolveIndex (index : Int64) (size : UInt64) : ArrayIndex :=
  { index := (addSize index size).toUInt64
    s :=
      -1 < addSize index size &&
        (addSize index size).toUInt64 < size }

def raiseOutOfRangeError (message : String) : RaisedError :=
  { type := .outOfRangeError
    message := message }

def indexMessage (index : Int64) (size : UInt64) : String :=
  "size is " ++ toString size.toNat ++
    ", but index is " ++ toString index.toInt

def resolveOrRaise
    (index : Int64)
    (size : UInt64) : Except RaisedError Nat :=
  if (resolveIndex index size).s then
    .ok (resolveIndex index size).index.toNat
  else
    .error (raiseOutOfRangeError (indexMessage index size))

def rangeMessage
    (startIndex stopIndex : Int64)
    (size : UInt64) : String :=
  "size is " ++ toString size.toNat ++
    ", but range is [" ++ toString startIndex.toInt ++
    ", " ++ toString stopIndex.toInt ++ ")"

/- `startIndex` is inclusive and `stopIndex` exclusive. -/
def slice
    {V : Type}
    (obj : ArrayObject V)
    (startIndex stopIndex : Int64) :
    Except RaisedError (ArrayObject V) :=
  let size := obj.uintSize
  let startIndex := addSize startIndex size
  let stopIndex := addSize stopIndex size
  if startIndex > stopIndex || startIndex < 0 ||
      startIndex.toUInt64 > size || stopIndex < 0 ||
      stopIndex.toUInt64 > size then
    .error
      (raiseOutOfRangeError
        (rangeMessage startIndex stopIndex size))
  else
    .ok
      (obj.sliceImpl startIndex.toUInt64.toNat
        stopIndex.toUInt64.toNat)

----
-- Methods
----

inductive ArrayResult (V : Type) where
  | void
  | value (value : V)
  | option (value : Option V)
  | array (ref : ArrayRef)
  deriving DecidableEq, Repr

/- What a method returns or raises, and the heap after it. -/
abbrev Effect (V : Type) :=
  Except RaisedError (ArrayResult V) × Heap V

section

variable {V : Type}
variable (heap : Heap V)
variable (self : ArrayRef)

/- `TRY` -/
def orRaise
    {α : Type}
    (ret : Except RaisedError α)
    (go : α → Effect V) : Effect V :=
  match ret with
  | .error error => (.error error, heap)
  | .ok a => go a

/- A method that goes on only with a valid index. -/
def withIndex
    (index : Int64)
    (go : Nat → Effect V) : Effect V :=
  orRaise heap
    (resolveOrRaise index (heap.arrays self).uintSize) go

def valueAt (index : Nat) : ArrayResult V :=
  (heap.arrays self).values[index]?.elim .void .value

def array_get (index : Int64) : Effect V :=
  withIndex heap self index
    (fun i => (.ok (valueAt heap self i), heap))

def array_get2 (index : Int64) : Effect V :=
  let ret := resolveIndex index (heap.arrays self).uintSize
  (.ok
    (.option
      (if ret.s then
        (heap.arrays self).values[ret.index.toNat]?
      else
        none)),
    heap)

def array_set (index : Int64) (v : V) : Effect V :=
  withIndex heap self index
    (fun i =>
      (.ok .void, heap.put self ((heap.arrays self).set i v)))

def array_remove (index : Int64) : Effect V :=
  withIndex heap self index
    (fun i =>
      (.ok (valueAt heap self i),
        heap.put self ((heap.arrays self).erase i)))

def array_fetch
    (fetchLast : Bool) : Except RaisedError V :=
  (if fetchLast then
    (heap.arrays self).values.getLast?
  else
    (heap.arrays self).values.head?).elim
    (.error (raiseOutOfRangeError "Array size is 0"))
    (fun v => .ok v)

def array_peek : Effect V :=
  ((array_fetch heap self true).map .value, heap)

/- `static_cast<unsigned int>(index)` -/
def castIndex (index : Int64) : Nat :=
  index.toUInt64.toUInt32.toNat

/- An index at the end is no index of the array. -/
def insertPosition
    (size : UInt64)
    (index : Int64) : Except RaisedError Nat :=
  if index ≠ size.toInt64 then
    resolveOrRaise index size
  else
    .ok (castIndex index)

def array_insertImpl
    (index : Int64)
    (v : V)
    (ret : ArrayResult V) : Effect V :=
  if (heap.arrays self).size = MAX_SIZE then
    (.error (raiseOutOfRangeError "reach Array size limit"), heap)
  else
    orRaise heap
      (insertPosition (heap.arrays self).uintSize index)
      (fun i =>
        (.ok ret,
          heap.put self ((heap.arrays self).insert i v)))

/- The size becomes an index. -/
def array_pushImpl (v : V) (ret : ArrayResult V) : Effect V :=
  array_insertImpl heap self
    (heap.arrays self).uintSize.toInt64 v ret

def array_push (v : V) : Effect V :=
  array_pushImpl heap self v .void

/- `pop` and `shift` take away what was fetched. -/
def take (fetchLast : Bool) (index : Nat) : Effect V :=
  orRaise heap (array_fetch heap self fetchLast)
    (fun v =>
      (.ok (.value v),
        heap.put self ((heap.arrays self).erase index)))

def array_pop : Effect V :=
  take heap self true ((heap.arrays self).size - 1)

def array_shift : Effect V :=
  take heap self false 0

def array_unshift (v : V) : Effect V :=
  array_insertImpl heap self 0 v .void

def array_insert (index : Int64) (v : V) : Effect V :=
  array_insertImpl heap self index v .void

def array_add (v : V) : Effect V :=
  array_pushImpl heap self v (.array self)

/- Whether all values were appended, and the array. -/
def extendLoop :
    List V → ArrayObject V → Bool × ArrayObject V
  | [], obj => (true, obj)
  | v :: values, obj =>
      if obj.size = MAX_SIZE then
        (false, obj)
      else
        extendLoop values (obj.append v)

def array_extend (value : ArrayRef) : Effect V :=
  if self ≠ value then
    let ret :=
      extendLoop (heap.arrays value).values (heap.arrays self)
    (if ret.1 then
      .ok (.array self)
    else
      .error (raiseOutOfRangeError "reach Array size limit"),
      heap.put self ret.2)
  else
    (.ok (.array self), heap)

def array_swap (index : Int64) (v : V) : Effect V :=
  withIndex heap self index
    (fun i =>
      (.ok (valueAt heap self i),
        heap.put self ((heap.arrays self).set i v)))

/- A slice is a new array. -/
def allocSlice
    (ret : Except RaisedError (ArrayObject V)) : Effect V :=
  orRaise heap ret
    (fun obj => (.ok (.array heap.next), heap.alloc obj))

def array_slice (start stop : Int64) : Effect V :=
  allocSlice heap (slice (heap.arrays self) start stop)

def array_sliceFrom (start : Int64) : Effect V :=
  allocSlice heap
    (slice (heap.arrays self) start
      (heap.arrays self).uintSize.toInt64)

def array_sliceTo (stop : Int64) : Effect V :=
  allocSlice heap (slice (heap.arrays self) 0 stop)

def array_copy : Effect V :=
  (.ok (.array heap.next), heap.alloc (heap.arrays self))

def array_reverse : Effect V :=
  (.ok (.array self), heap.put self (heap.arrays self).reversed)

def array_clear : Effect V :=
  (.ok .void, heap.put self .empty)

end

/- In scripts `get` is `$OP_GET` and `get2` is `get`. -/
inductive ArrayMethod (V : Type) where
  | get (index : Int64)
  | get2 (index : Int64)
  | set (index : Int64) (v : V)
  | remove (index : Int64)
  | peek
  | push (v : V)
  | pop
  | shift
  | unshift (v : V)
  | insert (index : Int64) (v : V)
  | add (v : V)
  | extend (value : ArrayRef)
  | swap (index : Int64) (v : V)
  | slice (start stop : Int64)
  | sliceFrom (start : Int64)
  | sliceTo (stop : Int64)
  | copy
  | reverse
  | clear

def ArrayMethod.run
    {V : Type}
    (heap : Heap V)
    (self : ArrayRef) : ArrayMethod V → Effect V
  | get index => array_get heap self index
  | get2 index => array_get2 heap self index
  | set index v => array_set heap self index v
  | remove index => array_remove heap self index
  | peek => array_peek heap self
  | push v => array_push heap self v
  | pop => array_pop heap self
  | shift => array_shift heap self
  | unshift v => array_unshift heap self v
  | insert index v => array_insert heap self index v
  | add v => array_add heap self v
  | extend value => array_extend heap self value
  | swap index v => array_swap heap self index v
  | slice start stop => array_slice heap self start stop
  | sliceFrom start => array_sliceFrom heap self start
  | sliceTo stop => array_sliceTo heap self stop
  | copy => array_copy heap self
  | reverse => array_reverse heap self
  | clear => array_clear heap self

end Builtin

end Ydsh
