import Ydsh.Render.Value

/-
  String conversions through the buffer of the machine.

  A native method appends the text of its receiver to
  `toStrBuf`.  The outermost call, which finds the buffer
  empty, turns what was appended into its result; the calls it
  makes for the elements only append.

  Each call of a method goes through the main loop, which may
  start a signal handler before the native code and after it.
  A handler may convert values and change objects, also those
  whose elements are being converted.

  Main declarations:
    * `State`
    * `DSValue.opStr`, `DSValue.opInterp`
    * `to_str`, `to_interp`, `array_join`
    * `callMethod`
    * `run`
-/

----
-- State
----

namespace Ydsh

namespace Render

/- What a native method hands back. -/
inductive Ret where
  | value (text : String)
  | invalid
  | error

/- One conversion as it began and as it ended. -/
structure Entry where
  heap : Heap
  request : Request
  before : String
  ret : Ret
  after : String

/-
  The buffer, the objects, the number of checks for events in
  the conversion, and what a run has seen: its conversions, the
  buffer whenever a join met an absent element, and whether an
  element was read that is not there any more.
-/
structure State where
  toStrBuf : String
  heap : Heap
  checks : Nat
  entries : List Entry
  absences : List String
  undefined : Bool

namespace State

def init : State :=
  { toStrBuf := ""
    heap := fun _ => .array []
    checks := 0
    entries := []
    absences := []
    undefined := false }

def append
    (state : State)
    (text : String) : State :=
  { state with toStrBuf := state.toStrBuf ++ text }

def clear (state : State) : State :=
  { state with toStrBuf := "" }

def tick (state : State) : State :=
  { state with checks := state.checks + 1 }

def record
    (state : State)
    (entry : Entry) : State :=
  { state with entries := state.entries ++ [entry] }

def meetAbsent (state : State) : State :=
  { state with absences := state.absences ++ [state.toStrBuf] }

/- Undefined behaviour, of which the end of the loop is as good
   as anything. -/
def readGone (state : State) : Bool × State :=
  (false, { state with undefined := true })

def change
    (state : State)
    (id : Nat)
    (object : Object) : State :=
  { state with
    heap := fun i => if i = id then object else state.heap i }

/- The end of a native method, `hasRet` telling the outermost. -/
def ret
    (state : State)
    (hasRet : Bool) : Ret × State :=
  if hasRet then
    (.value state.toStrBuf, state.clear)
  else
    (.invalid, state)

end State

/- The method `op` called on a value. -/
abbrev Call :=
  Op → Value → State → Ret × State

def callOP
    (call : Call)
    (op : Op)
    (value : Option Value)
    (state : State) : Ret × State :=
  match value with
  | none => (.error, state)
  | some (.string text) => (.value text, state)
  | some value => call op value state

/- The string of a result is appended if there is one. -/
def appendRet
    (result : Ret × State) : Bool × State :=
  match result with
  | (.error, state) => (false, state)
  | (.invalid, state) => (true, state)
  | (.value text, state) => (true, state.append text)

def appendOP
    (call : Call)
    (op : Op)
    (value : Option Value)
    (state : State) : Bool × State :=
  appendRet (callOP call op value state)

def appendEntry
    (call : Call)
    (entry : Value × Option Value)
    (state : State) : Bool × State :=
  match appendOP call .OP_STR (some entry.1) state with
  | (false, state) => (false, state)
  | (true, state) =>
      appendOP call .OP_STR entry.2 (state.append " : ")

/- A loop that puts `sep` before every item but the first, from
   an index on. -/
def appendEach
    (sep : String)
    (item : Nat → State → Bool × State) :
    Nat → Nat → State → Bool × State
  | _, 0, state => (true, state)
  | i, left + 1, state =>
      match
        item i (if 0 < i then state.append sep else state) with
      | (false, state) => (false, state)
      | (true, state) => appendEach sep item (i + 1) left state

----
-- Objects
----

/- `text` is appended unless the loop has failed. -/
def thenAppend
    (result : Bool × State)
    (text : String) : Bool × State :=
  match result with
  | (false, state) => (false, state)
  | (true, state) => (true, state.append text)

/- The element is read by its index when its turn comes. -/
def appendElement
    (call : Call)
    (op : Op)
    (id i : Nat)
    (state : State) : Bool × State :=
  match (state.heap id).elements[i]? with
  | some value => appendOP call op value state
  | none => state.readGone

/- The size is read before the loop. -/
def appendElements
    (call : Call)
    (op : Op)
    (sep : String)
    (id : Nat)
    (state : State) : Bool × State :=
  appendEach sep (appendElement call op id) 0
    (state.heap id).elements.length state

namespace ArrayObject

def opStr
    (call : Call)
    (id : Nat)
    (state : State) : Bool × State :=
  thenAppend
    (appendElements call .OP_STR ", " id (state.append "["))
    "]"

def opInterp
    (call : Call)
    (id : Nat)
    (state : State) : Bool × State :=
  appendElements call .OP_INTERP " " id state

end ArrayObject

namespace MapObject

/- An iterator is lost when the map changes. -/
def element
    (call : Call)
    (id : Nat)
    (begun : Object)
    (i : Nat)
    (state : State) : Bool × State :=
  if state.heap id = begun then
    match begun.entries[i]? with
    | some entry => appendEntry call entry state
    | none => state.readGone
  else
    state.readGone

def opStr
    (call : Call)
    (id : Nat)
    (state : State) : Bool × State :=
  thenAppend
    (appendEach ", " (element call id (state.heap id)) 0
      (state.heap id).entries.length (state.append "["))
    "]"

end MapObject

namespace BaseObject

def opStrAsTuple
    (call : Call)
    (id : Nat)
    (state : State) : Bool × State :=
  thenAppend
    (appendElements call .OP_STR ", " id (state.append "("))
    (tupleEnd (state.heap id).elements.length)

def opInterpAsTuple
    (call : Call)
    (id : Nat)
    (state : State) : Bool × State :=
  appendElements call .OP_INTERP " " id state

end BaseObject

namespace DSValue

def opStr
    (call : Call)
    (value : Value)
    (state : State) : Bool × State :=
  match value with
  | .string text => (true, state.append text)
  | .other text => (true, state.append text)
  | .object id =>
      match state.heap id with
      | .array _ => ArrayObject.opStr call id state
      | .map _ => MapObject.opStr call id state
      | .tuple _ => BaseObject.opStrAsTuple call id state

def opInterp
    (call : Call)
    (value : Value)
    (state : State) : Bool × State :=
  match value with
  | .string _ => opStr call value state
  | .other _ => opStr call value state
  | .object id =>
      match state.heap id with
      | .array _ => ArrayObject.opInterp call id state
      | .map _ => opStr call value state
      | .tuple _ => BaseObject.opInterpAsTuple call id state

end DSValue

----
-- Native Methods
----

/- A conversion that empties the buffer when it fails. -/
def convert
    (op : State → Bool × State)
    (state : State) : Ret × State :=
  match op state with
  | (false, after) => (.error, after.clear)
  | (true, after) => after.ret state.toStrBuf.isEmpty

def to_str
    (call : Call)
    (value : Value)
    (state : State) : Ret × State :=
  convert (DSValue.opStr call value) state

def to_interp
    (call : Call)
    (value : Value)
    (state : State) : Ret × State :=
  convert (DSValue.opInterp call value) state

/-
  An absent element raises an error and leaves the buffer as it
  is; an element that cannot be converted empties it.
-/
def joinItem
    (call : Call)
    (value : Option Value)
    (state : State) : Bool × State :=
  match value with
  | none => (false, state.meetAbsent)
  | some value =>
      match DSValue.opStr call value state with
      | (false, state) => (false, state.clear)
      | (true, state) => (true, state)

/- An iterator is lost when the array changes. -/
def joinElement
    (call : Call)
    (id : Nat)
    (begun : Object)
    (i : Nat)
    (state : State) : Bool × State :=
  if state.heap id = begun then
    match begun.elements[i]? with
    | some value => joinItem call value state
    | none => state.readGone
  else
    state.readGone

def array_join
    (call : Call)
    (id : Nat)
    (delim : String)
    (state : State) : Ret × State :=
  match
    appendEach delim (joinElement call id (state.heap id)) 0
      (state.heap id).elements.length state with
  | (false, after) => (.error, after)
  | (true, after) => after.ret state.toStrBuf.isEmpty

/- The native code behind `op`. -/
def native
    (call : Call)
    (op : Op) :
    Value → State → Ret × State :=
  match op with
  | .OP_STR => to_str call
  | .OP_INTERP => to_interp call

/-
  A native method called from native code.  The recursion guard
  fails at depth zero; the main loop checks for events before
  the native code and before its value is returned.
-/
def callMethod
    (check : State → Bool × State) :
    Nat → Call
  | 0, _, _, state => (.error, state)
  | depth + 1, op, value, state =>
      match check state with
      | (false, state) => (.error, state)
      | (true, state) =>
          match
            native (callMethod check depth) op value state with
          | (.error, state) => (.error, state)
          | (ret, state) =>
              match check state with
              | (false, state) => (.error, state)
              | (true, state) => (ret, state)

----
-- Conversions
----

def Request.run
    (call : Call) :
    Request → State → Ret × State
  | .toStr value => to_str call value
  | .toInterp value => to_interp call value
  | .join id delim => array_join call id delim

/- `depth` is what is left of the depth of calls. -/
def perform
    (check : State → Bool × State)
    (depth : Nat)
    (request : Request)
    (state : State) : State :=
  match request.run (callMethod check depth) state with
  | (ret, after) =>
      after.record
        { heap := state.heap
          request := request
          before := state.toStrBuf
          ret := ret
          after := after.toStrBuf }

/- What a signal handler does. -/
inductive Action where
  | convert (depth : Nat) (request : Request)
  | change (id : Nat) (object : Object)

/-
  What happens at a check for events: the actions of a signal
  handler, if one is started, and whether an error is raised.
-/
structure Event where
  handled : List Action
  fails : Bool

/- The check inside a handler, where signals are masked. -/
def checkMasked
    (events : Nat → Event)
    (state : State) : Bool × State :=
  (!(events state.checks).fails, state.tick)

def handle
    (events : Nat → Event) :
    List Action → State → State
  | [], state => state
  | .convert depth request :: actions, state =>
      handle events actions
        (perform (checkMasked events) depth request state)
  | .change id object :: actions, state =>
      handle events actions (state.change id object)

def checkVMEvent
    (events : Nat → Event)
    (state : State) : Bool × State :=
  (!(events state.checks).fails,
    handle events (events state.checks).handled state.tick)

----
-- Runs
----

/-
  A request, the objects it begins with and what happens at the
  checks inside of it.
-/
structure Conversion where
  heap : Heap
  depth : Nat
  request : Request
  events : Nat → Event

def Conversion.run
    (conversion : Conversion)
    (state : State) : State :=
  perform (checkVMEvent conversion.events) conversion.depth
    conversion.request
    { state with heap := conversion.heap, checks := 0 }

/- The conversions of a program, one after the other. -/
def run : List Conversion → State → State
  | [], state => state
  | conversion :: conversions, state =>
      run conversions (conversion.run state)

/- A handler that is started inside of the conversion converts
   nothing and leaves alone what the operand reaches. -/
def Conversion.Calm (conversion : Conversion) : Prop :=
  ∀ n, ∀ action ∈ (conversion.events n).handled,
    ∃ id object,
      action = .change id object ∧
        ¬ Reaches conversion.heap conversion.request.operand id

end Render

end Ydsh
