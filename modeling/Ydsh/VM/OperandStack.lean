import Mathlib.Data.List.TakeDrop
import Mathlib.Data.Nat.Find
import Mathlib.Logic.Function.Iterate
import Mathlib.Tactic.Common
import Ydsh.Library.Run

/-
  The operand stack of the virtual machine and its growth.

  Operands, local variables and global variables share one
  array.  Before a frame is entered and before a native function
  pushes, the machine asks for room, and the array grows by half
  of its size until the size it needs is reached.

  Main declarations:
    * `VMState`
    * `VMState.reserve`
    * `VMState.step`
    * `VMState.HasRoom`
    * `VMState.hasRoom_iff`
-/

----
-- Growth
----

namespace Ydsh

open Library

namespace OperandStack

/- The number of values of an unsigned int. -/
abbrev UINT_RANGE : Nat := 0x100000000

abbrev MAX_FRAME_SIZE : Nat := 2048

/- One growth step. -/
def grow (size : Nat) : Nat :=
  (size + size / 2) % UINT_RANGE

/-
  The size after at least one growth step, as soon as it is not
  below `afterSize`.
-/
def growTo (afterSize : Nat) : Nat → Nat → Option Nat
  | 0, _ => none
  | fuel + 1, size =>
      if grow size < afterSize then
        growTo afterSize fuel (grow size)
      else
        some (grow size)

----
-- The Stack
----

structure ControlFrame where
  stackTopIndex : Nat := 0
  stackBottomIndex : Nat := 0
  localVarOffset : Nat := 0
  deriving DecidableEq, Repr

structure VMState (α : Type) where
  frame : ControlFrame
  frames : List ControlFrame
  operands : List α
  deriving DecidableEq, Repr

namespace VMState

variable {α : Type} [Inhabited α]

def init : VMState α :=
  { frame := {}
    frames := []
    operands := List.replicate 64 default }

def top (s : VMState α) : Nat :=
  s.frame.stackTopIndex

def operandsSize (s : VMState α) : Nat :=
  s.operands.length

def withTop (s : VMState α) (stackTopIndex : Nat) : VMState α :=
  { s with
    frame := { s.frame with stackTopIndex := stackTopIndex } }

/- No result: the value is written outside of the stack. -/
def push (s : VMState α) (value : α) : Option (VMState α) :=
  if s.top + 1 < s.operandsSize then
    some
      { s.withTop (s.top + 1) with
        operands := s.operands.set (s.top + 1) value }
  else
    none

def pushAll (s : VMState α) : List α → Option (VMState α)
  | [] => some s
  | value :: values =>
      match s.push value with
      | some s => pushAll s values
      | none => none

/- The top operand is reset. -/
def dropTop (s : VMState α) : VMState α :=
  { s.withTop (s.top - 1) with
    operands := s.operands.set s.top default }

def popNoReturn (s : VMState α) : Option (VMState α) :=
  if s.top = 0 then none else some s.dropTop

def resize
    (fuel : Nat)
    (s : VMState α)
    (afterSize : Nat) : Option (VMState α) :=
  (growTo afterSize fuel s.operandsSize).map
    (fun newSize =>
      { s with
        operands :=
          (s.operands.take (s.top + 1)).takeD newSize default })

def reserve
    (fuel : Nat)
    (s : VMState α)
    (add : Nat) : Option (VMState α) :=
  let afterSize := (s.top + add) % UINT_RANGE
  if afterSize < s.operandsSize then
    some s
  else
    s.resize fuel afterSize

/-
  A callable is entered.  Nothing changes if there are too many
  frames.  No result: a local variable lies outside of the
  stack.
-/
def wind
    (fuel : Nat)
    (s : VMState α)
    (stackTopOffset paramSize localVarNum stackDepth : Nat) :
    Option (VMState α) :=
  if s.frames.length = MAX_FRAME_SIZE then
    some s
  else if s.top < stackTopOffset ∨ s.top + 1 < paramSize ∨
      localVarNum < paramSize then
    none
  else
    match s.reserve fuel (localVarNum - paramSize + stackDepth)
    with
    | none => none
    | some t =>
        let newTop := s.top + (localVarNum - paramSize)
        if newTop < t.operandsSize then
          some
            { t with
              frames :=
                { s.frame with
                  stackTopIndex := s.top - stackTopOffset } ::
                  s.frames
              frame :=
                { stackTopIndex := newTop
                  stackBottomIndex := newTop
                  localVarOffset := s.top + 1 - paramSize } }
        else
          none

/- The operands above the saved top are popped. -/
def unwind (s : VMState α) : Option (VMState α) :=
  match s.frames with
  | [] => none
  | savedFrame :: frames =>
      let popped :=
        dropTop^[s.top - savedFrame.stackTopIndex] s
      some
        { popped with
          frames := frames
          frame :=
            { savedFrame with stackTopIndex := popped.top } }

end VMState

inductive StackOp (α : Type) where
  | push (value : α)
  | popNoReturn
  | reserve (add : Nat)
  | wind
      (stackTopOffset paramSize localVarNum stackDepth : Nat)
  | unwind
  deriving DecidableEq, Repr

namespace VMState

variable {α : Type} [Inhabited α]

def step
    (fuel : Nat)
    (s : VMState α) : StackOp α → Option (VMState α)
  | .push value => s.push value
  | .popNoReturn => s.popNoReturn
  | .reserve add => s.reserve fuel add
  | .wind stackTopOffset paramSize localVarNum stackDepth =>
      s.wind fuel stackTopOffset paramSize localVarNum stackDepth
  | .unwind => s.unwind

end VMState

----
-- Room on the Stack
----

/- The first growth step not below `required` is above it. -/
def GrowsPast (size required : Nat) : Prop :=
  ∃ k,
    required < grow^[k + 1] size ∧
      ∀ j, j < k → grow^[j + 1] size < required

theorem growTo_eq_some
    {afterSize fuel size newSize : Nat}
    (hGrow : growTo afterSize fuel size = some newSize) :
    ∃ k,
      newSize = grow^[k + 1] size ∧
        afterSize ≤ newSize ∧
          ∀ j, j < k → grow^[j + 1] size < afterSize := by
  induction fuel generalizing size with
  | zero => cases hGrow
  | succ fuel ih =>
      rw [growTo] at hGrow
      by_cases hLt : grow size < afterSize
      · rw [if_pos hLt] at hGrow
        rcases ih hGrow with ⟨k, hNew, hLe, hBelow⟩
        refine ⟨k + 1, hNew, hLe, ?_⟩
        intro j hJ
        cases j with
        | zero => exact hLt
        | succ j => exact hBelow j (Nat.lt_of_succ_lt_succ hJ)
      · rw [if_neg hLt] at hGrow
        have hNew := Option.some.inj hGrow
        refine ⟨0, hNew.symm, ?_, ?_⟩
        · rw [← hNew]
          exact Nat.le_of_not_lt hLt
        · intro j hJ
          exact absurd hJ (Nat.not_lt_zero j)

/- The loop ends with the first step not below `afterSize`. -/
theorem growTo_of_first
    {afterSize size : Nat}
    (k : Nat)
    (hLe : afterSize ≤ grow^[k + 1] size)
    (hBelow : ∀ j, j < k → grow^[j + 1] size < afterSize) :
    growTo afterSize (k + 1) size = some (grow^[k + 1] size) := by
  induction k generalizing size with
  | zero =>
      have hStop : ¬ grow size < afterSize := Nat.not_lt.mpr hLe
      rw [growTo, if_neg hStop]
      rfl
  | succ k ih =>
      have hFirst : grow size < afterSize :=
        hBelow 0 (Nat.succ_pos k)
      rw [growTo, if_pos hFirst]
      apply ih hLe
      intro j hJ
      exact hBelow (j + 1) (Nat.succ_lt_succ hJ)

theorem grow_lt (size : Nat) : grow size < UINT_RANGE :=
  Nat.mod_lt _ (by decide)

namespace VMState

variable {α : Type} [Inhabited α]
variable {fuel : Nat}
variable {s t : VMState α}

/- At least `n` more values can be pushed. -/
def CanPush (s : VMState α) (n : Nat) : Prop :=
  ∀ values : List α,
    values.length ≤ n → (s.pushAll values).isSome = true

/- `reserve` comes back, and leaves room for `n` values. -/
def HasRoom (s : VMState α) (n : Nat) : Prop :=
  ∃ fuel t, s.reserve fuel n = some t ∧ t.CanPush n

/- The size needed is a number, and not a growth step hit. -/
def Fits (s : VMState α) (n : Nat) : Prop :=
  s.top + n < UINT_RANGE ∧
    (s.top + n < s.operandsSize ∨
      GrowsPast s.operandsSize (s.top + n))

omit [Inhabited α] in
theorem push_eq_some
    {value : α}
    (hPush : s.push value = some t) :
    s.top + 1 < s.operandsSize ∧
      t.top = s.top + 1 ∧
        t.operandsSize = s.operandsSize ∧
          t.frames = s.frames := by
  unfold push at hPush
  split_ifs at hPush with hRoom
  cases hPush
  exact ⟨hRoom, rfl, List.length_set, rfl⟩

omit [Inhabited α] in
theorem pushAll_isSome
    {values : List α}
    (hTop : s.top < s.operandsSize) :
    (s.pushAll values).isSome = true ↔
      s.top + values.length < s.operandsSize := by
  induction values generalizing s with
  | nil => exact iff_of_true rfl hTop
  | cons value values ih =>
      rw [pushAll, List.length_cons]
      cases hPush : s.push value with
      | none =>
          unfold push at hPush
          split_ifs at hPush with hRoom
          apply iff_of_false Bool.false_ne_true
          omega
      | some t =>
          rcases push_eq_some hPush with ⟨hRoom, hT, hSize, _⟩
          simp only
          rw [ih (by omega), hT, hSize]
          omega

theorem canPush_iff
    {n : Nat}
    (hTop : s.top < s.operandsSize) :
    s.CanPush n ↔ s.top + n < s.operandsSize := by
  constructor
  · intro hCan
    have hAll := hCan (List.replicate n default) (by simp)
    rw [pushAll_isSome hTop, List.length_replicate] at hAll
    exact hAll
  · intro hRoom values hLength
    rw [pushAll_isSome hTop]
    omega

----
-- Reachable States
----

/- The tops of all frames lie on the stack. -/
structure Ok (s : VMState α) : Prop where
  top_lt : s.top < s.operandsSize
  size_lt : s.operandsSize < UINT_RANGE
  frames_lt :
    ∀ frame ∈ s.frames, frame.stackTopIndex < s.operandsSize

/- The array grows, if at all, to a growth step. -/
theorem reserve_eq_some
    {n : Nat}
    (hReserve : s.reserve fuel n = some t) :
    t.frame = s.frame ∧ t.frames = s.frames ∧
      ((t = s ∧ (s.top + n) % UINT_RANGE < s.operandsSize) ∨
        (s.operandsSize ≤ (s.top + n) % UINT_RANGE ∧
          ∃ k,
            t.operandsSize = grow^[k + 1] s.operandsSize ∧
              (s.top + n) % UINT_RANGE ≤ t.operandsSize ∧
                ∀ j, j < k →
                  grow^[j + 1] s.operandsSize <
                    (s.top + n) % UINT_RANGE)) := by
  simp only [reserve] at hReserve
  split_ifs at hReserve with hLt
  · cases hReserve
    exact ⟨rfl, rfl, .inl ⟨rfl, hLt⟩⟩
  · unfold resize at hReserve
    rcases Option.map_eq_some_iff.mp hReserve with
      ⟨newSize, hGrow, hT⟩
    rcases growTo_eq_some hGrow with ⟨k, hNew, hLe, hBelow⟩
    have hSize : t.operandsSize = newSize := by
      rw [← hT]
      exact List.takeD_length _ _ _
    rw [← hSize] at hNew hLe
    refine ⟨?_, ?_, .inr ⟨Nat.le_of_not_lt hLt, k, ?_⟩⟩
    · rw [← hT]
    · rw [← hT]
    · exact ⟨hNew, hLe, hBelow⟩

theorem operandsSize_reserve
    {n : Nat}
    (hOk : s.Ok)
    (hReserve : s.reserve fuel n = some t) :
    s.operandsSize ≤ t.operandsSize ∧
      t.operandsSize < UINT_RANGE := by
  rcases reserve_eq_some hReserve with ⟨_, _, hCases⟩
  rcases hCases with ⟨hEq, _⟩ | ⟨hLe, k, hNew, hReq, _⟩
  · rw [hEq]
    exact ⟨Nat.le_refl _, hOk.size_lt⟩
  · refine ⟨Nat.le_trans hLe hReq, ?_⟩
    rw [hNew, Function.iterate_succ_apply']
    exact grow_lt _

/- A larger stack holds the tops of the smaller one. -/
theorem Ok.of_reserve
    {n : Nat}
    (hOk : s.Ok)
    (hReserve : s.reserve fuel n = some t) :
    t.Ok := by
  rcases reserve_eq_some hReserve with ⟨hFrame, hFrames, _⟩
  rcases operandsSize_reserve hOk hReserve with ⟨hLe, hLt⟩
  constructor
  · have hTop : t.top = s.top := by
      unfold top
      rw [hFrame]
    rw [hTop]
    exact Nat.lt_of_lt_of_le hOk.top_lt hLe
  · exact hLt
  · rw [hFrames]
    intro frame hMem
    exact Nat.lt_of_lt_of_le (hOk.frames_lt frame hMem) hLe

theorem operandsSize_dropTop (s : VMState α) :
    s.dropTop.operandsSize = s.operandsSize :=
  List.length_set

theorem Ok.dropTop (hOk : s.Ok) : s.dropTop.Ok := by
  constructor
  · rw [operandsSize_dropTop]
    exact Nat.lt_of_le_of_lt (Nat.sub_le _ _) hOk.top_lt
  · rw [operandsSize_dropTop]
    exact hOk.size_lt
  · rw [operandsSize_dropTop]
    exact hOk.frames_lt

theorem Ok.iterate_dropTop
    (hOk : s.Ok)
    (count : Nat) :
    (VMState.dropTop^[count] s).Ok ∧
      (VMState.dropTop^[count] s).frames = s.frames := by
  induction count generalizing s with
  | zero => exact ⟨hOk, rfl⟩
  | succ count ih =>
      rw [Function.iterate_succ_apply]
      exact ih hOk.dropTop

theorem Ok.step
    {op : StackOp α}
    (hOk : s.Ok)
    (hStep : s.step fuel op = some t) :
    t.Ok := by
  cases op with
  | push value =>
      rcases push_eq_some hStep with ⟨hRoom, hTop, hSize, hFr⟩
      constructor
      · rw [hTop, hSize]
        exact hRoom
      · rw [hSize]
        exact hOk.size_lt
      · rw [hFr, hSize]
        exact hOk.frames_lt
  | popNoReturn =>
      simp only [VMState.step, popNoReturn] at hStep
      split_ifs at hStep
      cases hStep
      exact hOk.dropTop
  | reserve add => exact hOk.of_reserve hStep
  | wind stackTopOffset paramSize localVarNum stackDepth =>
      simp only [VMState.step, wind] at hStep
      split_ifs at hStep with hLimit hArgs
      · cases hStep
        exact hOk
      cases hReserve :
          s.reserve fuel (localVarNum - paramSize + stackDepth)
        with
      | none =>
          simp only [hReserve] at hStep
          cases hStep
      | some u =>
          simp only [hReserve] at hStep
          split_ifs at hStep with hRoom
          cases hStep
          have hLe := (operandsSize_reserve hOk hReserve).1
          constructor
          · exact hRoom
          · exact (hOk.of_reserve hReserve).size_lt
          · intro frame hMem
            apply Nat.lt_of_lt_of_le _ hLe
            rcases List.mem_cons.mp hMem with hEq | hOld
            · rw [hEq]
              exact
                Nat.lt_of_le_of_lt (Nat.sub_le _ _) hOk.top_lt
            · exact hOk.frames_lt frame hOld
  | unwind =>
      simp only [VMState.step, unwind] at hStep
      cases hFrames : s.frames with
      | nil =>
          simp only [hFrames] at hStep
          cases hStep
      | cons savedFrame frames =>
          simp only [hFrames] at hStep
          cases hStep
          rcases
              hOk.iterate_dropTop
                (s.top - savedFrame.stackTopIndex) with
            ⟨hPopped, hSame⟩
          constructor
          · exact hPopped.top_lt
          · exact hPopped.size_lt
          · intro frame hMem
            apply hPopped.frames_lt
            rw [hSame, hFrames]
            exact List.mem_cons_of_mem _ hMem

theorem ok_init : (init : VMState α).Ok where
  top_lt := by
    unfold operandsSize init
    rw [List.length_replicate]
    exact Nat.zero_lt_succ 63
  size_lt := by
    unfold operandsSize init
    rw [List.length_replicate]
    decide
  frames_lt := by
    intro frame hMem
    exact absurd hMem List.not_mem_nil

theorem ok_run
    {ops : List (StackOp α)}
    (hRun : exec (VMState.step fuel) init ops = some s) :
    s.Ok :=
  exec_invariant (fun _ _ _ hOk hStep => hOk.step hStep) hRun
    ok_init

----
-- When There Is Room
----

theorem canPush_of_reserve
    {n : Nat}
    (hOk : s.Ok)
    (hReserve : s.reserve fuel n = some t) :
    t.CanPush n ↔ s.top + n < t.operandsSize := by
  have hTop : t.top = s.top := by
    unfold top
    rw [(reserve_eq_some hReserve).1]
  rw [canPush_iff (hOk.of_reserve hReserve).top_lt, hTop]

/- With enough fuel the growth ends where it passes the size. -/
theorem reserve_of_growsPast
    {n : Nat}
    (hFit : s.top + n < UINT_RANGE)
    (hPast : GrowsPast s.operandsSize (s.top + n)) :
    ∃ fuel t,
      s.reserve fuel n = some t ∧
        s.top + n < t.operandsSize := by
  rcases hPast with ⟨k, hGt, hBelow⟩
  by_cases hRoom : s.top + n < s.operandsSize
  · refine ⟨0, s, ?_, hRoom⟩
    simp only [reserve]
    rw [Nat.mod_eq_of_lt hFit, if_pos hRoom]
  · have hGrow :=
      growTo_of_first k (Nat.le_of_lt hGt) hBelow
    refine
      ⟨k + 1,
        { s with
          operands :=
            (s.operands.take (s.top + 1)).takeD
              (grow^[k + 1] s.operandsSize) default },
        ?_, ?_⟩
    · simp only [reserve]
      rw [Nat.mod_eq_of_lt hFit, if_neg hRoom, resize, hGrow]
      rfl
    · unfold operandsSize
      rw [List.takeD_length]
      exact hGt

/-
  The stack has room exactly if the size needed is no growth
  step at which the growth stops.
-/
theorem hasRoom_iff
    {ops : List (StackOp α)}
    (hRun : exec (VMState.step fuel) init ops = some s)
    (n : Nat) :
    s.HasRoom n ↔ s.Fits n := by
  have hOk := ok_run hRun
  constructor
  · intro hRoom
    rcases hRoom with ⟨fuel', t, hReserve, hCan⟩
    rw [canPush_of_reserve hOk hReserve] at hCan
    have hLt := (operandsSize_reserve hOk hReserve).2
    have hFit : s.top + n < UINT_RANGE :=
      Nat.lt_trans hCan hLt
    refine ⟨hFit, ?_⟩
    rcases reserve_eq_some hReserve with ⟨_, _, hCases⟩
    rw [Nat.mod_eq_of_lt hFit] at hCases
    rcases hCases with ⟨_, hBelow⟩ | ⟨_, k, hNew, _, hBelow⟩
    · exact .inl hBelow
    · rw [hNew] at hCan
      exact .inr ⟨k, hCan, hBelow⟩
  · intro hFits
    rcases hFits with ⟨hFit, hRoom | hPast⟩
    · refine ⟨0, s, ?_, ?_⟩
      · simp only [reserve]
        rw [Nat.mod_eq_of_lt hFit, if_pos hRoom]
      · exact (canPush_iff hOk.top_lt).mpr hRoom
    · rcases reserve_of_growsPast hFit hPast with
        ⟨fuel', t, hReserve, hLt⟩
      exact
        ⟨fuel', t, hReserve,
          (canPush_of_reserve hOk hReserve).mpr hLt⟩

/- The growth step behind the size of a frame's stack is 216. -/
theorem hasRoom_iff_wound :
    ∃ s : VMState Unit,
      exec (VMState.step 2) init
          [.push (), .wind 1 0 60 40] = some s ∧
        s.HasRoom 154 ∧ ¬s.HasRoom 155 := by
  let s : VMState Unit :=
    { frame :=
        { stackTopIndex := 61
          stackBottomIndex := 61
          localVarOffset := 2 }
      frames := [{}]
      operands := List.replicate 144 () }
  have hRun :
      exec (VMState.step 2) init
          [.push (), .wind 1 0 60 40] = some s := by
    decide +kernel
  have hSize : s.operandsSize = 144 := List.length_replicate
  refine ⟨s, hRun, ?_, ?_⟩
  · rw [hasRoom_iff hRun, Fits, hSize]
    refine ⟨by decide, .inr ⟨0, by decide, ?_⟩⟩
    intro j hJ
    exact absurd hJ (Nat.not_lt_zero j)
  · rw [hasRoom_iff hRun, Fits, hSize]
    rintro ⟨_, hRoom | ⟨k, hGt, hBelow⟩⟩
    · exact absurd hRoom (by decide)
    · cases k with
      | zero => exact absurd hGt (by decide)
      | succ k =>
          exact absurd (hBelow 0 (Nat.succ_pos k)) (by decide)

/- The first growth step of a new stack is 96. -/
theorem not_hasRoom_step :
    ¬ ∀ (fuel : Nat) (ops : List (StackOp Unit))
        (s : VMState Unit),
        exec (VMState.step fuel) init ops = some s →
          ∀ n, s.HasRoom n := by
  intro hAll
  rcases hAll 0 [] init (exec_nil _ _) 96 with
    ⟨fuel, t, hReserve, hCan⟩
  rw [canPush_of_reserve ok_init hReserve] at hCan
  rcases reserve_eq_some hReserve with ⟨_, _, hCases⟩
  rcases hCases with ⟨_, hBelow⟩ | ⟨_, k, hNew, _, hBelow⟩
  · exact absurd hBelow (by decide)
  · cases k with
    | zero =>
        rw [hNew] at hCan
        exact absurd hCan (by decide)
    | succ k =>
        exact absurd (hBelow 0 (Nat.succ_pos k)) (by decide)

end VMState

end OperandStack

end Ydsh
