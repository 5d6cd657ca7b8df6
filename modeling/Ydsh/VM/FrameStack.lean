import Ydsh.Library.Run
import Ydsh.VM.OperandStack

/-
  The control frames of the virtual machine.

  A callable is entered by `wind`, which saves the frame of the
  caller and makes the arguments, where they lie, the first local
  variables of the callee.  A native function is entered by
  `nativeWind`, which keeps what it changes in a variable of the
  machine.  Without the code that runs, the stack is that of
  `OperandStack`.

  Main declarations:
    * `ControlFrame`
    * `VMState.wind`
    * `VMState.unwind`
    * `VMState.nativeWind`
    * `VMState.nativeUnwind`
    * `Machine.step`
    * `Proper`
    * `VMState.withoutCode`
    * `VMState.wind_withoutCode`
-/

----
-- The Stack
----

namespace Ydsh

open Library

namespace FrameStack

open OperandStack (UINT_RANGE MAX_FRAME_SIZE growTo)

/- `body` is the kind, the bytes and the tables of the code. -/
structure DSCode (κ : Type) where
  localVarNum : Nat
  stackDepth : Nat
  body : κ
  deriving DecidableEq, Repr

structure ControlFrame (κ : Type) where
  code : Option (DSCode κ) := none
  stackTopIndex : Nat := 0
  stackBottomIndex : Nat := 0
  localVarOffset : Nat := 0
  pc : Nat := 0
  recDepth : Nat := 0
  deriving DecidableEq, Repr

/- The frame saved last is the first of `frames`. -/
structure VMState (κ α : Type) where
  frame : ControlFrame κ
  frames : List (ControlFrame κ)
  operands : List α
  deriving DecidableEq, Repr

namespace VMState

variable {κ α : Type} [Inhabited α]

def init : VMState κ α :=
  { frame := {}
    frames := []
    operands := List.replicate 64 default }

def top (s : VMState κ α) : Nat :=
  s.frame.stackTopIndex

def bottom (s : VMState κ α) : Nat :=
  s.frame.stackBottomIndex

def withTop
    (s : VMState κ α)
    (stackTopIndex : Nat) : VMState κ α :=
  { s with
    frame := { s.frame with stackTopIndex := stackTopIndex } }

/- No result: the index is outside of the array. -/
def write
    (s : VMState κ α)
    (index : Nat)
    (value : α) : Option (VMState κ α) :=
  if index < s.operands.length then
    some { s with operands := s.operands.set index value }
  else
    none

def push
    (s : VMState κ α)
    (value : α) : Option (VMState κ α) :=
  (s.withTop (s.top + 1)).write (s.top + 1) value

/- Both `pop` and `popNoReturn` leave the slot empty. -/
def popNoReturn (s : VMState κ α) : Option (VMState κ α) :=
  (s.withTop (s.top - 1)).write s.top default

def popMany : Nat → VMState κ α → Option (VMState κ α)
  | 0, s => some s
  | count + 1, s => s.popNoReturn.bind (popMany count)

/- The loop that pops while the top is above `limit`. -/
def popDownTo
    (s : VMState κ α)
    (limit : Nat) : Option (VMState κ α) :=
  popMany (s.top - limit) s

def swap (s : VMState κ α) : Option (VMState κ α) :=
  match s.operands[s.top]?, s.operands[s.top - 1]? with
  | some value, some below =>
      (s.write s.top below).bind
        (fun t => t.write (s.top - 1) value)
  | _, _ => none

def setLocal
    (s : VMState κ α)
    (index : Nat)
    (value : α) : Option (VMState κ α) :=
  s.write (s.frame.localVarOffset + index) value

/- The slots are reset from the last one down. -/
def reclaimLocals
    (offset : Nat) :
    Nat → VMState κ α → Option (VMState κ α)
  | 0, s => some s
  | size + 1, s =>
      (s.setLocal (offset + size) default).bind
        (reclaimLocals offset size)

def clearOperands (s : VMState κ α) : Option (VMState κ α) :=
  s.popDownTo s.bottom

def setPc (s : VMState κ α) (pc : Nat) : VMState κ α :=
  { s with frame := { s.frame with pc := pc } }

def incRecDepth (s : VMState κ α) : VMState κ α :=
  { s with
    frame := { s.frame with recDepth := s.frame.recDepth + 1 } }

def decRecDepth (s : VMState κ α) : VMState κ α :=
  { s with
    frame := { s.frame with recDepth := s.frame.recDepth - 1 } }

/-
  After as many growth steps as there are sizes the sizes
  repeat, and the loop has no end.
-/
def resize
    (s : VMState κ α)
    (afterSize : Nat) : Option (VMState κ α) :=
  if s.top < s.operands.length then
    (growTo afterSize UINT_RANGE s.operands.length).map
      (fun newSize =>
        { s with
          operands :=
            (s.operands.take (s.top + 1)).takeD newSize default })
  else
    none

def reserve
    (s : VMState κ α)
    (add : Nat) : Option (VMState κ α) :=
  let afterSize := (s.top + add) % UINT_RANGE
  if afterSize < s.operands.length then
    some s
  else
    s.resize afterSize

----
-- Entering and Leaving
----

/- The frame that `wind` saves. -/
def savedFrame
    (s : VMState κ α)
    (stackTopOffset : Nat) : ControlFrame κ :=
  { s.frame with stackTopIndex := s.top - stackTopOffset }

def enter
    (s : VMState κ α)
    (paramSize : Nat)
    (code : DSCode κ) : ControlFrame κ :=
  let stackTopIndex := s.top + (code.localVarNum - paramSize)
  { code := some code
    stackTopIndex := stackTopIndex
    stackBottomIndex := stackTopIndex
    localVarOffset := s.top - paramSize + 1
    pc := 0
    recDepth := s.frame.recDepth }

/- With the greatest number of frames the result is `false`. -/
def wind
    (s : VMState κ α)
    (stackTopOffset paramSize : Nat)
    (code : DSCode κ) : Option (Bool × VMState κ α) :=
  if s.frames.length = MAX_FRAME_SIZE then
    some (false, s)
  else
    (s.reserve
        (code.localVarNum - paramSize + code.stackDepth)).map
      (fun t =>
        (true,
          { t with
            frame := s.enter paramSize code
            frames := s.savedFrame stackTopOffset :: s.frames }))

/- The depth of the recursion is the one field not restored. -/
def unwind (s : VMState κ α) : Option (VMState κ α) :=
  match s.frames with
  | [] => none
  | savedFrame :: frames =>
      (s.popDownTo savedFrame.stackTopIndex).map
        (fun t =>
          { t with
            frame :=
              { t.frame with
                code := savedFrame.code
                stackBottomIndex := savedFrame.stackBottomIndex
                localVarOffset := savedFrame.localVarOffset
                pc := savedFrame.pc }
            frames := frames })

end VMState

/- The top, the bottom and the offset before the arguments. -/
structure NativeFrame where
  stackTopIndex : Nat
  stackBottomIndex : Nat
  localVarOffset : Nat
  deriving DecidableEq, Repr

namespace VMState

variable {κ α : Type} [Inhabited α]

def nativeWind
    (s : VMState κ α)
    (paramSize : Nat) : NativeFrame × VMState κ α :=
  ({ stackTopIndex := s.top - paramSize
     stackBottomIndex := s.bottom
     localVarOffset := s.frame.localVarOffset },
    { s with
      frame :=
        { s.frame with
          stackBottomIndex := s.top
          localVarOffset := s.top - paramSize + 1 } })

def nativeUnwind
    (s : VMState κ α)
    (old : NativeFrame) : Option (VMState κ α) :=
  (s.popDownTo old.stackTopIndex).map
    (fun t =>
      { t with
        frame :=
          { t.frame with
            stackBottomIndex := old.stackBottomIndex
            localVarOffset := old.localVarOffset } })

end VMState

----
-- The Machine
----

/-
  Every other operation of the stack is one of these: a value
  that is duplicated or loaded is pushed, and a value stored to
  a local variable is popped and set.  A local variable that is
  moved from is set to the empty value.
-/
inductive StackOp (κ α : Type) where
  | push (value : α)
  | pop
  | swap
  | setLocal (index : Nat) (value : α)
  | clearOperands
  | reclaimLocals (offset size : Nat)
  | setPc (pc : Nat)
  | reserve (add : Nat)
  | refused
      (stackTopOffset paramSize : Nat)
      (code : DSCode κ)
  | incRecDepth
  | decRecDepth
  | wind
      (stackTopOffset paramSize : Nat)
      (code : DSCode κ)
  | unwind
  | nativeWind (paramSize : Nat)
  | nativeUnwind
  deriving DecidableEq, Repr

/- A call in progress, with what the machine keeps of it. -/
inductive Call where
  | wound
  | native (old : NativeFrame)
  deriving DecidableEq, Repr

/- The call entered last is the first of `calls`. -/
structure Machine (κ α : Type) where
  stack : VMState κ α
  calls : List Call
  deriving DecidableEq, Repr

namespace Machine

variable {κ α : Type} [Inhabited α]

def init : Machine κ α :=
  { stack := VMState.init
    calls := [] }

def withStack
    (m : Machine κ α)
    (stack : VMState κ α) : Machine κ α :=
  { m with stack := stack }

/- A callable is entered only if `wind` returns true. -/
def entered
    (m : Machine κ α) :
    Bool × VMState κ α → Option (Machine κ α)
  | (true, stack) =>
      some { stack := stack, calls := .wound :: m.calls }
  | (false, _) => none

def notEntered
    (m : Machine κ α) :
    Bool × VMState κ α → Option (Machine κ α)
  | (false, stack) => some (m.withStack stack)
  | (true, _) => none

/- A call is left by the function that belongs to its entry. -/
def leave
    (m : Machine κ α) : Option (Machine κ α) :=
  match m.calls with
  | .wound :: calls =>
      m.stack.unwind.map
        (fun stack => { stack := stack, calls := calls })
  | _ => none

def leaveNative
    (m : Machine κ α) : Option (Machine κ α) :=
  match m.calls with
  | .native old :: calls =>
      (m.stack.nativeUnwind old).map
        (fun stack => { stack := stack, calls := calls })
  | _ => none

def step
    (m : Machine κ α) : StackOp κ α → Option (Machine κ α)
  | .push value => (m.stack.push value).map m.withStack
  | .pop => m.stack.popNoReturn.map m.withStack
  | .swap => m.stack.swap.map m.withStack
  | .setLocal index value =>
      (m.stack.setLocal index value).map m.withStack
  | .clearOperands => m.stack.clearOperands.map m.withStack
  | .reclaimLocals offset size =>
      (VMState.reclaimLocals offset size m.stack).map m.withStack
  | .setPc pc => some (m.withStack (m.stack.setPc pc))
  | .reserve add => (m.stack.reserve add).map m.withStack
  | .refused stackTopOffset paramSize code =>
      (m.stack.wind stackTopOffset paramSize code).bind
        m.notEntered
  | .incRecDepth => some (m.withStack m.stack.incRecDepth)
  | .decRecDepth => some (m.withStack m.stack.decRecDepth)
  | .wind stackTopOffset paramSize code =>
      (m.stack.wind stackTopOffset paramSize code).bind m.entered
  | .unwind => m.leave
  | .nativeWind paramSize =>
      some
        { stack := (m.stack.nativeWind paramSize).2
          calls :=
            .native (m.stack.nativeWind paramSize).1 :: m.calls }
  | .nativeUnwind => m.leaveNative

end Machine

/-
  A callable works on its own operands and local variables, and
  its arguments are operands of its caller.
-/
def Proper
    {κ α : Type}
    (m : Machine κ α) : StackOp κ α → Prop
  | .pop => m.stack.bottom < m.stack.top
  | .swap => m.stack.bottom + 1 < m.stack.top
  | .setLocal index _ =>
      m.stack.frame.localVarOffset + index ≤ m.stack.bottom
  | .reclaimLocals offset size =>
      m.stack.frame.localVarOffset + offset + size ≤
        m.stack.bottom + 1
  | .wind stackTopOffset paramSize code =>
      m.stack.bottom + stackTopOffset ≤ m.stack.top ∧
        paramSize ≤ stackTopOffset ∧
          paramSize ≤ code.localVarNum
  | .nativeWind paramSize =>
      m.stack.bottom + paramSize ≤ m.stack.top
  | _ => True

----
-- The Stack without the Code
----

def ControlFrame.withoutCode
    {κ : Type}
    (frame : ControlFrame κ) : OperandStack.ControlFrame :=
  { stackTopIndex := frame.stackTopIndex
    stackBottomIndex := frame.stackBottomIndex
    localVarOffset := frame.localVarOffset }

namespace VMState

variable {κ α : Type} [Inhabited α]
variable {s : VMState κ α}

/- What `OperandStack` has of a state. -/
def withoutCode (s : VMState κ α) : OperandStack.VMState α :=
  { frame := s.frame.withoutCode
    frames := s.frames.map ControlFrame.withoutCode
    operands := s.operands }

omit [Inhabited α] in
theorem push_withoutCode (value : α) :
    (s.push value).map withoutCode = s.withoutCode.push value :=
  apply_ite (Option.map withoutCode)
    (s.top + 1 < s.operands.length) _ _

variable (hTop : s.top < s.operands.length)

include hTop

theorem popNoReturn_withoutCode :
    s.popNoReturn.map withoutCode =
      some s.withoutCode.dropTop :=
  congrArg (Option.map withoutCode) (if_pos hTop)

theorem popMany_withoutCode (count : Nat) :
    (popMany count s).map withoutCode =
      some
        (OperandStack.VMState.dropTop^[count]
          s.withoutCode) := by
  induction count generalizing s with
  | zero => rfl
  | succ count ih =>
      have hPop : s.popNoReturn = some _ := if_pos hTop
      rw [popMany, hPop, Option.bind_some, ih]
      · rfl
      · have hLe : s.top - 1 ≤ s.top := Nat.sub_le _ _
        simpa [top, withTop] using Nat.lt_of_le_of_lt hLe hTop

theorem resize_withoutCode (afterSize : Nat) :
    (s.resize afterSize).map withoutCode =
      s.withoutCode.resize UINT_RANGE afterSize := by
  unfold resize
  rw [if_pos hTop, Option.map_map]
  rfl

theorem reserve_withoutCode (add : Nat) :
    (s.reserve add).map withoutCode =
      s.withoutCode.reserve UINT_RANGE add := by
  rw [OperandStack.VMState.reserve, ← resize_withoutCode hTop]
  exact apply_ite (Option.map withoutCode) _ _ _

theorem unwind_withoutCode :
    s.unwind.map withoutCode = s.withoutCode.unwind := by
  unfold unwind OperandStack.VMState.unwind
  cases hFrames : s.frames with
  | nil => simp [withoutCode, hFrames]
  | cons saved frames =>
      have hCode :
          s.withoutCode.frames =
            saved.withoutCode ::
              frames.map ControlFrame.withoutCode :=
        congrArg (List.map ControlFrame.withoutCode) hFrames
      rcases
        Option.map_eq_some_iff.mp
          (popMany_withoutCode hTop
            (s.top - saved.stackTopIndex)) with
        ⟨popped, hPop, hSame⟩
      simp only [hCode, popDownTo, hPop, Option.map_some]
      have hDropped :
          OperandStack.VMState.dropTop^[s.withoutCode.top -
              saved.withoutCode.stackTopIndex] s.withoutCode =
            popped.withoutCode :=
        hSame.symm
      rw [hDropped]
      rfl

/- With the caller's arguments on the stack, and the locals
   inside of the array, the same frame is entered. -/
theorem wind_withoutCode
    {stackTopOffset paramSize : Nat}
    {code : DSCode κ}
    {t : OperandStack.VMState α}
    (hArgs : paramSize ≤ s.top)
    (hWind :
      s.withoutCode.wind UINT_RANGE stackTopOffset paramSize
        code.localVarNum code.stackDepth = some t) :
    (s.wind stackTopOffset paramSize code).map
        (fun found => found.2.withoutCode) =
      some t := by
  unfold OperandStack.VMState.wind at hWind
  rw [← reserve_withoutCode hTop] at hWind
  unfold wind
  have hLength :
      s.withoutCode.frames.length = s.frames.length :=
    List.length_map _
  rw [hLength] at hWind
  split_ifs at hWind ⊢
  · exact hWind
  · cases hReserve :
        s.reserve
          (code.localVarNum - paramSize + code.stackDepth) with
    | none => simp [hReserve] at hWind
    | some u =>
        simp only [hReserve, Option.map_some] at hWind ⊢
        split_ifs at hWind
        have hOffset :
            s.withoutCode.top + 1 - paramSize =
              s.top - paramSize + 1 :=
          Nat.succ_sub hArgs
        rw [← hWind, hOffset]
        rfl

end VMState

end FrameStack

end Ydsh
