import Ydsh.VM.FrameStack

/-
  What the operations of the stack keep.

  The running callable changes slots from its first local
  variable on, and these lie above what its caller keeps.  A
  callable that is left at any height of the stack gives the
  caller its frame back.

  Main declarations:
    * `VMState.Ok`
    * `Changed`
    * `Kept`
    * `own_kept`
    * `Restored`
    * `restored_of_wind`
    * `restored_of_nativeWind`
-/

----
-- Changes of the Stack
----

namespace Ydsh

open Library

namespace FrameStack

open OperandStack (UINT_RANGE MAX_FRAME_SIZE growTo)

variable {κ α : Type} [Inhabited α]
variable {s t u : VMState κ α}
variable {low low' newTop newTop' : Nat}

/- Every slot above the top is empty. -/
def VMState.Clean (s : VMState κ α) : Prop :=
  ∀ index,
    s.top < index →
      index < s.operands.length →
        s.operands[index]? = some default

structure VMState.Ok (s : VMState κ α) : Prop where
  bottom_le_top : s.bottom ≤ s.top
  offset_le : s.frame.localVarOffset ≤ s.bottom + 1
  clean : s.Clean

/- The slots below `low` are kept, and the top is `newTop`. -/
structure Changed
    (low newTop : Nat)
    (s t : VMState κ α) : Prop where
  frame : t.frame = { s.frame with stackTopIndex := newTop }
  frames : t.frames = s.frames
  kept :
    ∀ index,
      index < low → t.operands[index]? = s.operands[index]?
  clean : s.Clean → t.Clean

theorem Changed.refl (low : Nat) (s : VMState κ α) :
    Changed low s.top s s where
  frame := rfl
  frames := rfl
  kept := fun _ _ => rfl
  clean := id

theorem Changed.trans
    (hFirst : Changed low newTop s t)
    (hSecond : Changed low newTop' t u) :
    Changed low newTop' s u where
  frame := by
    rw [hSecond.frame, hFirst.frame]
  frames := by
    rw [hSecond.frames, hFirst.frames]
  kept := by
    intro index hIndex
    rw [hSecond.kept index hIndex, hFirst.kept index hIndex]
  clean := fun hClean => hSecond.clean (hFirst.clean hClean)

theorem Changed.mono
    (hChanged : Changed low newTop s t)
    (hLow : low' ≤ low) :
    Changed low' newTop s t :=
  { hChanged with
    kept := fun index hIndex =>
      hChanged.kept index (Nat.lt_of_lt_of_le hIndex hLow) }

theorem Changed.top_eq (hChanged : Changed low newTop s t) :
    t.top = newTop := by
  unfold VMState.top
  rw [hChanged.frame]

/- A write that leaves the slots above the new top empty. -/
theorem write_changed
    {index : Nat}
    {value : α}
    (hWrite : (s.withTop newTop).write index value = some t)
    (hEmpty :
      ∀ other,
        newTop < other →
          s.top < other ∧ other ≠ index ∨
            other = index ∧ value = default) :
    Changed index newTop s t := by
  unfold VMState.write at hWrite
  by_cases hIndex : index < (s.withTop newTop).operands.length
  · rw [if_pos hIndex] at hWrite
    have hT := Option.some.inj hWrite
    have hOperands :
        t.operands = s.operands.set index value := by
      rw [← hT]
      rfl
    have hFrame :
        t.frame = { s.frame with stackTopIndex := newTop } := by
      rw [← hT]
      rfl
    refine ⟨hFrame, ?_, ?_, ?_⟩
    · rw [← hT]
      rfl
    · intro other hOther
      rw [hOperands]
      exact List.getElem?_set_ne (Nat.ne_of_gt hOther)
    · intro hClean other hTop hLength
      have hNew : t.top = newTop := by
        unfold VMState.top
        rw [hFrame]
      rw [hNew] at hTop
      rw [hOperands, List.length_set] at hLength
      rw [hOperands]
      rcases hEmpty other hTop with ⟨hAbove, hNe⟩ | ⟨hEq, hVal⟩
      · rw [List.getElem?_set_ne hNe.symm]
        exact hClean other hAbove hLength
      · rw [hEq] at hLength ⊢
        rw [List.getElem?_set_self hLength, hVal]
  · rw [if_neg hIndex] at hWrite
    cases hWrite

theorem push_changed
    {value : α}
    (hPush : s.push value = some t) :
    Changed (s.top + 1) (s.top + 1) s t := by
  apply write_changed hPush
  intro other hOther
  left
  omega

theorem popNoReturn_changed
    (hPop : s.popNoReturn = some t) :
    Changed s.top (s.top - 1) s t := by
  apply write_changed hPop
  intro other hOther
  by_cases hEq : other = s.top
  · exact Or.inr ⟨hEq, rfl⟩
  · left
    omega

/- The slots up to the new top are kept. -/
theorem popMany_changed
    {count : Nat}
    (hCount : count ≤ s.top)
    (hPop : VMState.popMany count s = some t) :
    Changed (s.top - count + 1) (s.top - count) s t := by
  induction count generalizing s with
  | zero =>
      have hEq := Option.some.inj hPop
      rw [← hEq]
      exact Changed.refl _ s
  | succ count ih =>
      unfold VMState.popMany at hPop
      rcases Option.bind_eq_some_iff.mp hPop with
        ⟨first, hFirst, hRest⟩
      have hPopped := popNoReturn_changed hFirst
      have hTop := hPopped.top_eq
      have hTail := ih (by omega) hRest
      have hSame :
          first.top - count = s.top - (count + 1) := by
        omega
      rw [hSame] at hTail
      exact (hPopped.mono (by omega)).trans hTail

theorem popDownTo_changed
    {limit : Nat}
    (hLimit : limit ≤ s.top)
    (hPop : s.popDownTo limit = some t) :
    Changed (limit + 1) limit s t := by
  have hPopped := popMany_changed (Nat.sub_le _ _) hPop
  have hTop : s.top - (s.top - limit) = limit :=
    Nat.sub_sub_self hLimit
  rw [hTop] at hPopped
  exact hPopped

/- A write up to the top that leaves the top where it is. -/
theorem overwrite_changed
    {index : Nat}
    {value : α}
    (hIndex : index ≤ s.top)
    (hWrite : s.write index value = some t) :
    Changed index s.top s t := by
  have hSame :
      (s.withTop s.top).write index value = some t :=
    hWrite
  apply write_changed hSame
  intro other hOther
  exact Or.inl ⟨hOther, by omega⟩

theorem reclaimLocals_changed
    {offset size : Nat}
    (hSize : s.frame.localVarOffset + offset + size ≤ s.top + 1)
    (hReclaim : VMState.reclaimLocals offset size s = some t) :
    Changed (s.frame.localVarOffset + offset) s.top s t := by
  induction size generalizing s with
  | zero =>
      have hEq := Option.some.inj hReclaim
      rw [← hEq]
      exact Changed.refl _ s
  | succ size ih =>
      unfold VMState.reclaimLocals at hReclaim
      rcases Option.bind_eq_some_iff.mp hReclaim with
        ⟨first, hFirst, hRest⟩
      have hSet := overwrite_changed (by omega) hFirst
      have hTop := hSet.top_eq
      have hOffset :
          first.frame.localVarOffset =
            s.frame.localVarOffset := by
        rw [hSet.frame]
      have hTail := ih (by omega) hRest
      rw [hTop, hOffset] at hTail
      exact (hSet.mono (by omega)).trans hTail

theorem swap_changed
    (hTop : 0 < s.top)
    (hSwap : s.swap = some t) :
    Changed (s.top - 1) s.top s t := by
  unfold VMState.swap at hSwap
  cases hValue : s.operands[s.top]? with
  | none =>
      simp only [hValue] at hSwap
      cases hSwap
  | some value =>
      cases hBelow : s.operands[s.top - 1]? with
      | none =>
          simp only [hValue, hBelow] at hSwap
          cases hSwap
      | some below =>
          simp only [hValue, hBelow] at hSwap
          rcases Option.bind_eq_some_iff.mp hSwap with
            ⟨first, hFirst, hSecond⟩
          have hUpper :=
            overwrite_changed (Nat.le_refl _) hFirst
          have hSame := hUpper.top_eq
          have hLower :=
            overwrite_changed (by omega) hSecond
          rw [hSame] at hLower
          exact (hUpper.mono (Nat.sub_le _ _)).trans hLower

theorem getElem?_takeD
    (list : List α)
    (size index : Nat)
    (hIndex : index < size) :
    (list.takeD size default)[index]? =
      some (list[index]?.getD default) := by
  induction size generalizing list index with
  | zero => exact absurd hIndex (Nat.not_lt_zero index)
  | succ size ih =>
      rw [List.takeD_succ]
      cases index with
      | zero =>
          rw [List.getElem?_cons_zero, List.head?_eq_getElem?]
      | succ index =>
          rw [List.getElem?_cons_succ,
            ih list.tail index (Nat.lt_of_succ_lt_succ hIndex),
            List.getElem?_tail]

/- A new array holds the slots up to the top. -/
theorem resize_changed
    {afterSize : Nat}
    (hAfter : s.operands.length ≤ afterSize)
    (hResize : s.resize afterSize = some t) :
    Changed (s.top + 1) s.top s t := by
  unfold VMState.resize at hResize
  by_cases hTop : s.top < s.operands.length
  · rw [if_pos hTop] at hResize
    rcases Option.map_eq_some_iff.mp hResize with
      ⟨newSize, hGrow, hT⟩
    rcases OperandStack.growTo_eq_some hGrow with
      ⟨_, _, hNew, _⟩
    have hOperands :
        t.operands =
          (s.operands.take (s.top + 1)).takeD newSize
            default := by
      rw [← hT]
    refine ⟨?_, ?_, ?_, ?_⟩
    · rw [← hT]
      rfl
    · rw [← hT]
    · intro index hIndex
      rw [hOperands,
        getElem?_takeD _ newSize index (by omega),
        List.getElem?_take_of_lt hIndex,
        List.getElem?_eq_getElem (by omega)]
      rfl
    · intro hClean index hAbove hLength
      have hSame : t.top = s.top := by
        rw [← hT]
        rfl
      rw [hSame] at hAbove
      rw [hOperands, List.takeD_length] at hLength
      have hTake :
          (s.operands.take (s.top + 1))[index]? = none := by
        apply List.getElem?_eq_none
        rw [List.length_take]
        omega
      rw [hOperands, getElem?_takeD _ newSize index hLength,
        hTake]
      rfl
  · rw [if_neg hTop] at hResize
    cases hResize

theorem reserve_changed
    {add : Nat}
    (hReserve : s.reserve add = some t) :
    Changed (s.top + 1) s.top s t := by
  simp only [VMState.reserve] at hReserve
  by_cases hRoom :
      (s.top + add) % UINT_RANGE < s.operands.length
  · rw [if_pos hRoom] at hReserve
    have hEq := Option.some.inj hReserve
    rw [← hEq]
    exact Changed.refl _ s
  · rw [if_neg hRoom] at hReserve
    exact resize_changed (Nat.le_of_not_lt hRoom) hReserve

----
-- The Running Callable
----

/- A native function has no program counter of its own. -/
inductive Running where
  | code
  | function
  deriving DecidableEq, Repr

/- The operations of the callable itself. -/
def StackOp.own : Running → StackOp κ α → Bool
  | .function, .setPc _ => false
  | _, .incRecDepth => false
  | _, .decRecDepth => false
  | _, .wind _ _ _ => false
  | _, .unwind => false
  | _, .nativeWind _ => false
  | _, .nativeUnwind => false
  | _, _ => true

variable {m m' n : Machine κ α}
variable {op : StackOp κ α}
variable {ops body rest : List (StackOp κ α)}
variable {running : Running}

/- What the running callable does not change. -/
structure Kept
    (running : Running)
    (m m' : Machine κ α) : Prop where
  ok : m'.stack.Ok
  calls : m'.calls = m.calls
  frames : m'.stack.frames = m.stack.frames
  code : m'.stack.frame.code = m.stack.frame.code
  bottom : m'.stack.bottom = m.stack.bottom
  localVarOffset :
    m'.stack.frame.localVarOffset = m.stack.frame.localVarOffset
  recDepth : m'.stack.frame.recDepth = m.stack.frame.recDepth
  pc :
    running = .function →
      m'.stack.frame.pc = m.stack.frame.pc
  below :
    ∀ index,
      index < m.stack.frame.localVarOffset →
        m'.stack.operands[index]? = m.stack.operands[index]?

theorem Kept.refl
    (running : Running)
    (hOk : m.stack.Ok) :
    Kept running m m where
  ok := hOk
  calls := rfl
  frames := rfl
  code := rfl
  bottom := rfl
  localVarOffset := rfl
  recDepth := rfl
  pc := fun _ => rfl
  below := fun _ _ => rfl

theorem Kept.trans
    (hFirst : Kept running m m')
    (hSecond : Kept running m' n) :
    Kept running m n where
  ok := hSecond.ok
  calls := by rw [hSecond.calls, hFirst.calls]
  frames := by rw [hSecond.frames, hFirst.frames]
  code := by rw [hSecond.code, hFirst.code]
  bottom := by rw [hSecond.bottom, hFirst.bottom]
  localVarOffset := by
    rw [hSecond.localVarOffset, hFirst.localVarOffset]
  recDepth := by rw [hSecond.recDepth, hFirst.recDepth]
  pc := by
    intro hRunning
    rw [hSecond.pc hRunning, hFirst.pc hRunning]
  below := by
    intro index hIndex
    rw [← hFirst.below index hIndex]
    apply hSecond.below
    rw [hFirst.localVarOffset]
    exact hIndex

/- A change from the first local variable on keeps the frame. -/
theorem Changed.kept_frame
    (hChanged : Changed low newTop m.stack t)
    (hOk : m.stack.Ok)
    (hLow : m.stack.frame.localVarOffset ≤ low)
    (hTop : m.stack.bottom ≤ newTop) :
    Kept running m (m.withStack t) := by
  have hBottom : t.bottom = m.stack.bottom := by
    unfold VMState.bottom
    rw [hChanged.frame]
  have hOffset :
      t.frame.localVarOffset = m.stack.frame.localVarOffset := by
    rw [hChanged.frame]
  refine ⟨⟨?_, ?_, ?_⟩, rfl, hChanged.frames, ?_, hBottom,
    hOffset, ?_, ?_, ?_⟩
  · show t.bottom ≤ t.top
    rw [hBottom, hChanged.top_eq]
    exact hTop
  · show t.frame.localVarOffset ≤ t.bottom + 1
    rw [hOffset, hBottom]
    exact hOk.offset_le
  · exact hChanged.clean hOk.clean
  · show t.frame.code = m.stack.frame.code
    rw [hChanged.frame]
  · show t.frame.recDepth = m.stack.frame.recDepth
    rw [hChanged.frame]
  · intro _
    show t.frame.pc = m.stack.frame.pc
    rw [hChanged.frame]
  · intro index hIndex
    exact
      hChanged.kept index (Nat.lt_of_lt_of_le hIndex hLow)

/- `wind` returns false only if it has done nothing. -/
theorem refused_eq
    {stackTopOffset paramSize : Nat}
    {code : DSCode κ}
    (hStep :
      (m.stack.wind stackTopOffset paramSize code).bind
          m.notEntered =
        some m') :
    m' = m := by
  rcases Option.bind_eq_some_iff.mp hStep with
    ⟨result, hWind, hNot⟩
  unfold VMState.wind at hWind
  by_cases hLimit : m.stack.frames.length = MAX_FRAME_SIZE
  · rw [if_pos hLimit] at hWind
    rw [← Option.some.inj hWind] at hNot
    exact (Option.some.inj hNot).symm
  · rw [if_neg hLimit] at hWind
    rcases Option.map_eq_some_iff.mp hWind with
      ⟨_, _, hResult⟩
    rw [← hResult] at hNot
    cases hNot

theorem own_kept
    (hOk : m.stack.Ok)
    (hOwn : op.own running = true)
    (hProper : Proper m op)
    (hStep : m.step op = some m') :
    Kept running m m' := by
  have hBottom := hOk.bottom_le_top
  have hOffset := hOk.offset_le
  cases op with
  | push value =>
      rcases Option.map_eq_some_iff.mp hStep with ⟨t, hOp, hT⟩
      rw [← hT]
      exact (push_changed hOp).kept_frame hOk (by omega)
        (by omega)
  | pop =>
      have hOperand : m.stack.bottom < m.stack.top := hProper
      rcases Option.map_eq_some_iff.mp hStep with ⟨t, hOp, hT⟩
      rw [← hT]
      exact (popNoReturn_changed hOp).kept_frame hOk (by omega)
        (by omega)
  | swap =>
      have hOperands : m.stack.bottom + 1 < m.stack.top :=
        hProper
      rcases Option.map_eq_some_iff.mp hStep with ⟨t, hOp, hT⟩
      rw [← hT]
      exact (swap_changed (by omega) hOp).kept_frame hOk
        (by omega) hBottom
  | setLocal index value =>
      have hLocal :
          m.stack.frame.localVarOffset + index ≤
            m.stack.bottom :=
        hProper
      rcases Option.map_eq_some_iff.mp hStep with ⟨t, hOp, hT⟩
      rw [← hT]
      exact (overwrite_changed (by omega) hOp).kept_frame hOk
        (Nat.le_add_right _ _) hBottom
  | clearOperands =>
      rcases Option.map_eq_some_iff.mp hStep with ⟨t, hOp, hT⟩
      rw [← hT]
      exact (popDownTo_changed hBottom hOp).kept_frame hOk
        hOffset (Nat.le_refl _)
  | reclaimLocals offset size =>
      have hLocals :
          m.stack.frame.localVarOffset + offset + size ≤
            m.stack.bottom + 1 :=
        hProper
      rcases Option.map_eq_some_iff.mp hStep with ⟨t, hOp, hT⟩
      rw [← hT]
      exact (reclaimLocals_changed (by omega) hOp).kept_frame
        hOk (Nat.le_add_right _ _) hBottom
  | setPc pc =>
      have hEq := Option.some.inj hStep
      rw [← hEq]
      refine
        ⟨⟨hOk.bottom_le_top, hOk.offset_le, hOk.clean⟩,
          rfl, rfl, rfl, rfl, rfl, rfl, ?_, fun _ _ => rfl⟩
      intro hRunning
      rw [hRunning] at hOwn
      cases hOwn
  | reserve add =>
      rcases Option.map_eq_some_iff.mp hStep with ⟨t, hOp, hT⟩
      rw [← hT]
      exact (reserve_changed hOp).kept_frame hOk (by omega)
        hBottom
  | refused stackTopOffset paramSize code =>
      rw [refused_eq hStep]
      exact Kept.refl running hOk
  | incRecDepth => cases running <;> cases hOwn
  | decRecDepth => cases running <;> cases hOwn
  | wind stackTopOffset paramSize code =>
      cases running <;> cases hOwn
  | unwind => cases running <;> cases hOwn
  | nativeWind paramSize => cases running <;> cases hOwn
  | nativeUnwind => cases running <;> cases hOwn

----
-- Entering and Leaving
----

/-
  The caller has its frame again and `argCount` operands less
  than before.  Its local variables and the frames below it are
  among the slots under the arguments.
-/
structure Restored
    (argCount : Nat)
    (m m' : Machine κ α) : Prop where
  code : m'.stack.frame.code = m.stack.frame.code
  pc : m'.stack.frame.pc = m.stack.frame.pc
  bottom : m'.stack.bottom = m.stack.bottom
  localVarOffset :
    m'.stack.frame.localVarOffset = m.stack.frame.localVarOffset
  recDepth : m'.stack.frame.recDepth = m.stack.frame.recDepth
  frames : m'.stack.frames = m.stack.frames
  calls : m'.calls = m.calls
  top : m'.stack.top + argCount = m.stack.top
  operands :
    ∀ index,
      index + argCount ≤ m.stack.top →
        m'.stack.operands[index]? = m.stack.operands[index]?
  gone : m'.stack.Clean

theorem Restored.kept
    {argCount : Nat}
    (hRestored : Restored argCount m m')
    (hOk : m.stack.Ok)
    (hArgs : m.stack.bottom + argCount ≤ m.stack.top) :
    Kept running m m' where
  ok := by
    have hTop := hRestored.top
    have hOffset := hOk.offset_le
    constructor
    · rw [hRestored.bottom]
      omega
    · rw [hRestored.localVarOffset, hRestored.bottom]
      exact hOffset
    · exact hRestored.gone
  calls := hRestored.calls
  frames := hRestored.frames
  code := hRestored.code
  bottom := hRestored.bottom
  localVarOffset := hRestored.localVarOffset
  recDepth := hRestored.recDepth
  pc := fun _ => hRestored.pc
  below := by
    intro index hIndex
    have hOffset := hOk.offset_le
    apply hRestored.operands
    omega

/- What a frame that has been entered is above its caller. -/
theorem wind_eq_some
    {stackTopOffset paramSize : Nat}
    {code : DSCode κ}
    (hStep :
      m.step (.wind stackTopOffset paramSize code) = some m') :
    m'.calls = .wound :: m.calls ∧
      m'.stack.frame = m.stack.enter paramSize code ∧
        m'.stack.frames =
          m.stack.savedFrame stackTopOffset :: m.stack.frames ∧
          (∀ index,
            index ≤ m.stack.top →
              m'.stack.operands[index]? =
                m.stack.operands[index]?) ∧
            (m.stack.Clean → m'.stack.Clean) := by
  rcases Option.bind_eq_some_iff.mp hStep with
    ⟨result, hWind, hEntered⟩
  unfold VMState.wind at hWind
  by_cases hLimit : m.stack.frames.length = MAX_FRAME_SIZE
  · rw [if_pos hLimit] at hWind
    rw [← Option.some.inj hWind] at hEntered
    cases hEntered
  · rw [if_neg hLimit] at hWind
    rcases Option.map_eq_some_iff.mp hWind with
      ⟨t, hReserve, hResult⟩
    rw [← hResult] at hEntered
    have hNew := Option.some.inj hEntered
    have hRoom := reserve_changed hReserve
    rw [← hNew]
    refine ⟨rfl, rfl, rfl, ?_, ?_⟩
    · intro index hIndex
      exact hRoom.kept index (Nat.lt_succ_of_le hIndex)
    · intro hClean index hAbove hLength
      have hT := hRoom.clean hClean
      apply hT index _ hLength
      rw [hRoom.top_eq]
      exact Nat.lt_of_le_of_lt (Nat.le_add_right _ _) hAbove

theorem unwind_eq_some
    {saved : ControlFrame κ}
    {frames : List (ControlFrame κ)}
    {calls : List Call}
    (hCalls : m.calls = .wound :: calls)
    (hFrames : m.stack.frames = saved :: frames)
    (hTop : saved.stackTopIndex ≤ m.stack.top)
    (hStep : m.step .unwind = some m') :
    m'.calls = calls ∧
      m'.stack.frame =
          { saved with recDepth := m.stack.frame.recDepth } ∧
        m'.stack.frames = frames ∧
          (∀ index,
            index ≤ saved.stackTopIndex →
              m'.stack.operands[index]? =
                m.stack.operands[index]?) ∧
            (m.stack.Clean → m'.stack.Clean) := by
  have hLeave : m.leave = some m' := hStep
  simp only [Machine.leave, hCalls] at hLeave
  rcases Option.map_eq_some_iff.mp hLeave with
    ⟨stack, hUnwind, hM⟩
  simp only [VMState.unwind, hFrames] at hUnwind
  rcases Option.map_eq_some_iff.mp hUnwind with
    ⟨t, hPop, hStack⟩
  have hPopped := popDownTo_changed hTop hPop
  rw [← hM, ← hStack]
  refine ⟨rfl, ?_, rfl, ?_, ?_⟩
  · show
      { t.frame with
        code := saved.code
        stackBottomIndex := saved.stackBottomIndex
        localVarOffset := saved.localVarOffset
        pc := saved.pc } = _
    rw [hPopped.frame]
  · intro index hIndex
    exact hPopped.kept index (Nat.lt_succ_of_le hIndex)
  · exact hPopped.clean

theorem nativeUnwind_eq_some
    {old : NativeFrame}
    {calls : List Call}
    (hCalls : m.calls = .native old :: calls)
    (hTop : old.stackTopIndex ≤ m.stack.top)
    (hStep : m.step .nativeUnwind = some m') :
    m'.calls = calls ∧
      m'.stack.frame =
          { m.stack.frame with
            stackTopIndex := old.stackTopIndex
            stackBottomIndex := old.stackBottomIndex
            localVarOffset := old.localVarOffset } ∧
        m'.stack.frames = m.stack.frames ∧
          (∀ index,
            index ≤ old.stackTopIndex →
              m'.stack.operands[index]? =
                m.stack.operands[index]?) ∧
            (m.stack.Clean → m'.stack.Clean) := by
  have hLeave : m.leaveNative = some m' := hStep
  simp only [Machine.leaveNative, hCalls] at hLeave
  rcases Option.map_eq_some_iff.mp hLeave with
    ⟨stack, hUnwind, hM⟩
  rcases Option.map_eq_some_iff.mp hUnwind with
    ⟨t, hPop, hStack⟩
  have hPopped := popDownTo_changed hTop hPop
  rw [← hM, ← hStack]
  refine ⟨rfl, ?_, hPopped.frames, ?_, ?_⟩
  · show
      { t.frame with
        stackBottomIndex := old.stackBottomIndex
        localVarOffset := old.localVarOffset } = _
    rw [hPopped.frame]
  · intro index hIndex
    exact hPopped.kept index (Nat.lt_succ_of_le hIndex)
  · exact hPopped.clean

/- An entered frame starts above what its caller keeps. -/
theorem wind_ok
    {stackTopOffset paramSize : Nat}
    {code : DSCode κ}
    (hOk : m.stack.Ok)
    (hProper : Proper m (.wind stackTopOffset paramSize code))
    (hStep :
      m.step (.wind stackTopOffset paramSize code) = some m') :
    m'.stack.Ok := by
  rcases hProper with ⟨hArgs, hParams, hLocals⟩
  rcases wind_eq_some hStep with ⟨_, hFrame, _, _, hClean⟩
  refine ⟨?_, ?_, hClean hOk.clean⟩
  · show
      m'.stack.frame.stackBottomIndex ≤
        m'.stack.frame.stackTopIndex
    rw [hFrame]
    exact Nat.le_refl _
  · show
      m'.stack.frame.localVarOffset ≤
        m'.stack.frame.stackBottomIndex + 1
    rw [hFrame]
    show
      m.stack.top - paramSize + 1 ≤
        m.stack.top + (code.localVarNum - paramSize) + 1
    omega

theorem nativeWind_ok
    {paramSize : Nat}
    (hOk : m.stack.Ok)
    (hStep : m.step (.nativeWind paramSize) = some m') :
    m'.stack.Ok := by
  rw [← Option.some.inj hStep]
  refine ⟨Nat.le_refl _, ?_, hOk.clean⟩
  show m.stack.top - paramSize + 1 ≤ m.stack.top + 1
  omega

/-
  The saved frame is found again below a callee that has come to
  an end at any height.
-/
theorem restored_of_wind
    {entered ended : Machine κ α}
    {stackTopOffset paramSize : Nat}
    {code : DSCode κ}
    (hProper : Proper m (.wind stackTopOffset paramSize code))
    (hWind :
      m.step (.wind stackTopOffset paramSize code) =
        some entered)
    (hBody : Kept .code entered ended)
    (hUnwind : ended.step .unwind = some m') :
    Restored stackTopOffset m m' := by
  rcases hProper with ⟨hArgs, hParams, hLocals⟩
  rcases wind_eq_some hWind with
    ⟨hCalls, hFrame, hFrames, hBelow, hClean⟩
  have hBottom :
      entered.stack.bottom =
        m.stack.top + (code.localVarNum - paramSize) := by
    unfold VMState.bottom
    rw [hFrame]
    rfl
  have hOffset :
      entered.stack.frame.localVarOffset =
        m.stack.top - paramSize + 1 := by
    rw [hFrame]
    rfl
  have hRec :
      ended.stack.frame.recDepth = m.stack.frame.recDepth := by
    rw [hBody.recDepth, hFrame]
    rfl
  have hTop := hBody.ok.bottom_le_top
  rw [hBody.bottom, hBottom] at hTop
  rcases
      unwind_eq_some
        (hBody.calls.trans hCalls)
        (hBody.frames.trans hFrames)
        (show m.stack.top - stackTopOffset ≤ _ by omega)
        hUnwind with
    ⟨hCalls', hFrame', hFrames', hBelow', hClean'⟩
  rw [hRec] at hFrame'
  refine
    ⟨?_, ?_, ?_, ?_, ?_, hFrames', hCalls', ?_, ?_,
      hClean' hBody.ok.clean⟩
  · rw [hFrame']
    rfl
  · rw [hFrame']
    rfl
  · unfold VMState.bottom
    rw [hFrame']
    rfl
  · rw [hFrame']
    rfl
  · rw [hFrame']
  · show m'.stack.frame.stackTopIndex + _ = _
    rw [hFrame']
    show m.stack.top - stackTopOffset + _ = _
    omega
  · intro index hIndex
    have hSaved :
        index ≤
          (m.stack.savedFrame stackTopOffset).stackTopIndex := by
      show index ≤ m.stack.top - stackTopOffset
      omega
    rw [hBelow' index hSaved, hBody.below index (by omega),
      hBelow index (by omega)]

theorem restored_of_nativeWind
    {entered ended : Machine κ α}
    {paramSize : Nat}
    (hProper : Proper m (.nativeWind paramSize))
    (hWind : m.step (.nativeWind paramSize) = some entered)
    (hBody : Kept .function entered ended)
    (hUnwind : ended.step .nativeUnwind = some m') :
    Restored paramSize m m' := by
  have hArgs : m.stack.bottom + paramSize ≤ m.stack.top :=
    hProper
  have hEntered := Option.some.inj hWind
  rw [← hEntered] at hBody
  have hTop := hBody.ok.bottom_le_top
  rw [hBody.bottom] at hTop
  have hHigh : m.stack.top ≤ ended.stack.top := hTop
  rcases
      nativeUnwind_eq_some hBody.calls
        (show m.stack.top - paramSize ≤ _ by omega)
        hUnwind with
    ⟨hCalls', hFrame', hFrames', hBelow', hClean'⟩
  refine
    ⟨?_, ?_, ?_, ?_, ?_, ?_, hCalls', ?_, ?_,
      hClean' hBody.ok.clean⟩
  · rw [hFrame']
    exact hBody.code
  · rw [hFrame']
    exact hBody.pc rfl
  · unfold VMState.bottom
    rw [hFrame']
    rfl
  · rw [hFrame']
    rfl
  · rw [hFrame']
    exact hBody.recDepth
  · rw [hFrames']
    exact hBody.frames
  · show m'.stack.frame.stackTopIndex + _ = _
    rw [hFrame']
    show m.stack.top - paramSize + _ = _
    omega
  · intro index hIndex
    have hOld : index ≤ m.stack.top - paramSize := by
      omega
    rw [hBelow' index hOld]
    exact hBody.below index (Nat.lt_succ_of_le hOld)

end FrameStack

end Ydsh
