import Ydsh.VM.Unwinding

/-
  Calls that are entered and left in order.

  In a balanced sequence every call that is entered is left,
  whatever the callable has left on the stack when it ends, and
  an exception that passes several frames leaves one after the
  other.  By induction on the sequence, a call gives its caller
  back what it had.

  Main declarations:
    * `Balanced`
    * `Balanced.kept`
    * `Machine.Ok`
    * `Entry`
    * `call_restores`
-/

----
-- Balanced Sequences
----

namespace Ydsh

open Library

namespace FrameStack

variable {κ α : Type} [Inhabited α]

/-
  What a callable does from its entry on: operations of its own,
  calls, and calls of the interpreter that count as a recursion.
-/
inductive Balanced :
    Running → List (StackOp κ α) → Prop where
  | nil (running : Running) : Balanced running []
  | own
      {running : Running}
      {op : StackOp κ α}
      {rest : List (StackOp κ α)} :
      op.own running = true →
      Balanced running rest →
      Balanced running (op :: rest)
  | recursion
      {running : Running}
      {body rest : List (StackOp κ α)} :
      Balanced running body →
      Balanced running rest →
      Balanced running
        (.incRecDepth :: (body ++ .decRecDepth :: rest))
  | call
      {running : Running}
      {body rest : List (StackOp κ α)}
      (stackTopOffset paramSize : Nat)
      (code : DSCode κ) :
      Balanced .code body →
      Balanced running rest →
      Balanced running
        (.wind stackTopOffset paramSize code ::
          (body ++ .unwind :: rest))
  | native
      {running : Running}
      {body rest : List (StackOp κ α)}
      (paramSize : Nat) :
      Balanced .function body →
      Balanced running rest →
      Balanced running
        (.nativeWind paramSize ::
          (body ++ .nativeUnwind :: rest))

/- Steps of callables that keep to what is theirs. -/
abbrev Run
    (m : Machine κ α)
    (ops : List (StackOp κ α))
    (m' : Machine κ α) : Prop :=
  GuardedRun Machine.step Proper m ops m'

variable {m m' n : Machine κ α}
variable {ops body rest : List (StackOp κ α)}
variable {running : Running}

theorem Run.bracket
    {opening closing : StackOp κ α}
    (hRun : Run m (opening :: (body ++ closing :: rest)) m') :
    Proper m opening ∧
      ∃ entered ended left,
        m.step opening = some entered ∧
          Run entered body ended ∧
            ended.step closing = some left ∧
              Run left rest m' := by
  rcases GuardedRun.cons_iff.mp hRun with
    ⟨hProper, entered, hEnter, hInner⟩
  rcases GuardedRun.append_iff.mp hInner with
    ⟨ended, hBody, hOuter⟩
  rcases GuardedRun.cons_iff.mp hOuter with
    ⟨_, left, hLeave, hRest⟩
  exact
    ⟨hProper, entered, ended, left, hEnter, hBody, hLeave, hRest⟩

/- The count of the recursion is taken back. -/
theorem kept_of_recursion
    {entered ended : Machine κ α}
    (hEnter : m.step .incRecDepth = some entered)
    (hBody : Kept running entered ended)
    (hLeave : ended.step .decRecDepth = some m') :
    Kept running m m' := by
  rw [← Option.some.inj hEnter] at hBody
  rw [← Option.some.inj hLeave]
  refine
    ⟨⟨hBody.ok.bottom_le_top, hBody.ok.offset_le,
        hBody.ok.clean⟩,
      hBody.calls, hBody.frames, hBody.code, hBody.bottom,
      hBody.localVarOffset, ?_, hBody.pc, hBody.below⟩
  have hDepth := hBody.recDepth
  show ended.stack.frame.recDepth - 1 = _
  rw [hDepth]
  rfl

theorem incRecDepth_ok
    (hOk : m.stack.Ok)
    (hStep : m.step .incRecDepth = some m') :
    m'.stack.Ok := by
  rw [← Option.some.inj hStep]
  exact ⟨hOk.bottom_le_top, hOk.offset_le, hOk.clean⟩

/- The induction is on the sequence: a call is one step. -/
theorem Balanced.kept
    (hBalanced : Balanced running ops)
    (hOk : m.stack.Ok)
    (hRun : Run m ops m') :
    Kept running m m' := by
  induction hBalanced generalizing m m' with
  | nil running =>
      cases hRun with
      | nil => exact Kept.refl running hOk
  | own hOwn _ ih =>
      rcases GuardedRun.cons_iff.mp hRun with
        ⟨hProper, t, hStep, hRest⟩
      have hFirst := own_kept hOk hOwn hProper hStep
      exact hFirst.trans (ih hFirst.ok hRest)
  | recursion _ _ ihBody ihRest =>
      rcases Run.bracket hRun with
        ⟨_, entered, ended, left, hEnter, hBody, hLeave, hRest⟩
      have hInner := ihBody (incRecDepth_ok hOk hEnter) hBody
      have hFirst := kept_of_recursion hEnter hInner hLeave
      exact hFirst.trans (ihRest hFirst.ok hRest)
  | @call running _ _ _ _ _ _ _ ihBody ihRest =>
      rcases Run.bracket hRun with
        ⟨hProper, entered, ended, left, hEnter, hBody, hLeave,
          hRest⟩
      have hInner := ihBody (wind_ok hOk hProper hEnter) hBody
      have hBack :=
        restored_of_wind hProper hEnter hInner hLeave
      have hFirst : Kept running m left :=
        hBack.kept hOk hProper.1
      exact hFirst.trans (ihRest hFirst.ok hRest)
  | @native running _ _ _ _ _ ihBody ihRest =>
      rcases Run.bracket hRun with
        ⟨hProper, entered, ended, left, hEnter, hBody, hLeave,
          hRest⟩
      have hInner := ihBody (nativeWind_ok hOk hEnter) hBody
      have hBack :=
        restored_of_nativeWind hProper hEnter hInner hLeave
      have hFirst : Kept running m left :=
        hBack.kept hOk hProper
      exact hFirst.trans (ihRest hFirst.ok hRest)

----
-- Every State Reached
----

/-
  The callers, from the last one on.  What each of them keeps
  lies below the local variables of the callable above it.
-/
def Chain :
    Nat → List Call → List (ControlFrame κ) → Prop
  | _, [], [] => True
  | limit, .wound :: calls, frame :: frames =>
      frame.stackBottomIndex ≤ frame.stackTopIndex ∧
        frame.localVarOffset ≤ frame.stackBottomIndex + 1 ∧
          frame.stackTopIndex < limit ∧
            Chain frame.localVarOffset calls frames
  | limit, .native old :: calls, frames =>
      old.stackBottomIndex ≤ old.stackTopIndex ∧
        old.localVarOffset ≤ old.stackBottomIndex + 1 ∧
          old.stackTopIndex < limit ∧
            Chain old.localVarOffset calls frames
  | _, [], _ :: _ => False
  | _, .wound :: _, [] => False

structure Machine.Ok (m : Machine κ α) : Prop where
  stack : m.stack.Ok
  chain :
    Chain m.stack.frame.localVarOffset m.calls m.stack.frames

theorem Kept.machine_ok
    (hKept : Kept running m m')
    (hOk : m.Ok) :
    m'.Ok := by
  refine ⟨hKept.ok, ?_⟩
  rw [hKept.localVarOffset, hKept.calls, hKept.frames]
  exact hOk.chain

theorem machine_ok_of_wind
    {stackTopOffset paramSize : Nat}
    {code : DSCode κ}
    (hOk : m.Ok)
    (hProper : Proper m (.wind stackTopOffset paramSize code))
    (hStep :
      m.step (.wind stackTopOffset paramSize code) = some m') :
    m'.Ok := by
  refine ⟨wind_ok hOk.stack hProper hStep, ?_⟩
  rcases hProper with ⟨hArgs, hParams, _⟩
  rcases wind_eq_some hStep with ⟨hCalls, hFrame, hFrames, _⟩
  rw [hCalls, hFrames, hFrame]
  refine ⟨?_, hOk.stack.offset_le, ?_, hOk.chain⟩
  · show m.stack.bottom ≤ m.stack.top - stackTopOffset
    omega
  · show
      m.stack.top - stackTopOffset <
        m.stack.top - paramSize + 1
    omega

theorem machine_ok_of_nativeWind
    {paramSize : Nat}
    (hOk : m.Ok)
    (hProper : Proper m (.nativeWind paramSize))
    (hStep : m.step (.nativeWind paramSize) = some m') :
    m'.Ok := by
  have hArgs : m.stack.bottom + paramSize ≤ m.stack.top :=
    hProper
  refine ⟨nativeWind_ok hOk.stack hStep, ?_⟩
  rw [← Option.some.inj hStep]
  refine ⟨?_, hOk.stack.offset_le, ?_, hOk.chain⟩
  · show m.stack.bottom ≤ m.stack.top - paramSize
    omega
  · exact Nat.lt_succ_self _

theorem machine_ok_of_unwind
    (hOk : m.Ok)
    (hStep : m.step .unwind = some m') :
    m'.Ok := by
  have hBottom := hOk.stack.bottom_le_top
  have hOffset := hOk.stack.offset_le
  have hChain := hOk.chain
  cases hCalls : m.calls with
  | nil =>
      have hLeave : m.leave = some m' := hStep
      simp only [Machine.leave, hCalls] at hLeave
      cases hLeave
  | cons call calls =>
      cases call with
      | native old =>
          have hLeave : m.leave = some m' := hStep
          simp only [Machine.leave, hCalls] at hLeave
          cases hLeave
      | wound =>
          cases hFrames : m.stack.frames with
          | nil =>
              rw [hCalls, hFrames] at hChain
              exact hChain.elim
          | cons saved frames =>
              rw [hCalls, hFrames] at hChain
              rcases hChain with
                ⟨hSaved, hLocals, hBelow, hRest⟩
              rcases
                  unwind_eq_some hCalls hFrames (by omega)
                    hStep with
                ⟨hCalls', hFrame', hFrames', _, hClean⟩
              refine ⟨⟨?_, ?_, hClean hOk.stack.clean⟩, ?_⟩
              · unfold VMState.bottom VMState.top
                rw [hFrame']
                exact hSaved
              · unfold VMState.bottom
                rw [hFrame']
                exact hLocals
              · rw [hCalls', hFrames', hFrame']
                exact hRest

theorem machine_ok_of_nativeUnwind
    (hOk : m.Ok)
    (hStep : m.step .nativeUnwind = some m') :
    m'.Ok := by
  have hBottom := hOk.stack.bottom_le_top
  have hOffset := hOk.stack.offset_le
  have hChain := hOk.chain
  cases hCalls : m.calls with
  | nil =>
      have hLeave : m.leaveNative = some m' := hStep
      simp only [Machine.leaveNative, hCalls] at hLeave
      cases hLeave
  | cons call calls =>
      cases call with
      | wound =>
          have hLeave : m.leaveNative = some m' := hStep
          simp only [Machine.leaveNative, hCalls] at hLeave
          cases hLeave
      | native old =>
          rw [hCalls] at hChain
          rcases hChain with ⟨hSaved, hLocals, hBelow, hRest⟩
          rcases
              nativeUnwind_eq_some hCalls (by omega) hStep with
            ⟨hCalls', hFrame', hFrames', _, hClean⟩
          refine ⟨⟨?_, ?_, hClean hOk.stack.clean⟩, ?_⟩
          · unfold VMState.bottom VMState.top
            rw [hFrame']
            exact hSaved
          · unfold VMState.bottom
            rw [hFrame']
            exact hLocals
          · rw [hCalls', hFrames', hFrame']
            exact hRest

/- One step of any kind, in a balanced sequence or not. -/
theorem Machine.Ok.step
    {op : StackOp κ α}
    (hOk : m.Ok)
    (hProper : Proper m op)
    (hStep : m.step op = some m') :
    m'.Ok := by
  by_cases hOwn : op.own .code = true
  · exact
      (own_kept hOk.stack hOwn hProper hStep).machine_ok hOk
  · cases op with
    | incRecDepth | decRecDepth =>
        rw [← Option.some.inj hStep]
        exact
          ⟨⟨hOk.stack.bottom_le_top, hOk.stack.offset_le,
            hOk.stack.clean⟩, hOk.chain⟩
    | wind stackTopOffset paramSize code =>
        exact machine_ok_of_wind hOk hProper hStep
    | unwind => exact machine_ok_of_unwind hOk hStep
    | nativeWind paramSize =>
        exact machine_ok_of_nativeWind hOk hProper hStep
    | nativeUnwind =>
        exact machine_ok_of_nativeUnwind hOk hStep
    | _ => exact absurd rfl hOwn

theorem machine_ok_init : (Machine.init : Machine κ α).Ok := by
  refine ⟨⟨Nat.le_refl _, Nat.zero_le _, ?_⟩, trivial⟩
  intro index _ hLength
  have hSize : index < 64 := by
    have hInit :
        (Machine.init : Machine κ α).stack.operands.length =
          64 :=
      List.length_replicate
    rw [hInit] at hLength
    exact hLength
  exact List.getElem?_replicate_of_lt hSize

theorem machine_ok_of_run
    (hRun : Run Machine.init ops m) :
    m.Ok := by
  apply GuardedRun.invariant _ hRun machine_ok_init
  intro s op t hOk hProper hStep
  exact hOk.step hProper hStep

----
-- Calls
----

inductive Entry (κ : Type) where
  | wind
      (stackTopOffset paramSize : Nat)
      (code : DSCode κ)
  | nativeWind (paramSize : Nat)
  deriving DecidableEq, Repr

namespace Entry

def opening : Entry κ → StackOp κ α
  | .wind stackTopOffset paramSize code =>
      .wind stackTopOffset paramSize code
  | .nativeWind paramSize => .nativeWind paramSize

def closing : Entry κ → StackOp κ α
  | .wind _ _ _ => .unwind
  | .nativeWind _ => .nativeUnwind

def callee : Entry κ → Running
  | .wind _ _ _ => .code
  | .nativeWind _ => .function

/- The operands of the caller that the call takes. -/
def argCount : Entry κ → Nat
  | .wind stackTopOffset _ _ => stackTopOffset
  | .nativeWind paramSize => paramSize

end Entry

/-
  A call leaves its caller with the frame, the local variables
  and the operands it had, without the arguments; and in no
  state is the top below the bottom.
-/
theorem call_restores
    {before : List (StackOp κ α)}
    (entry : Entry κ)
    (hBefore : Run Machine.init before m)
    (hBody : Balanced entry.callee body)
    (hRun :
      Run m (entry.opening :: (body ++ [entry.closing])) m') :
    Restored entry.argCount m m' ∧
      ∀ (reached : List (StackOp κ α)) (n : Machine κ α),
        Run Machine.init reached n →
          n.stack.bottom ≤ n.stack.top := by
  have hOk := (machine_ok_of_run hBefore).stack
  constructor
  · rcases Run.bracket hRun with
      ⟨hProper, entered, ended, left, hEnter, hInner, hLeave,
        hRest⟩
    have hLast : left = m' := by
      cases hRest with
      | nil => rfl
    rw [hLast] at hLeave
    cases entry with
    | wind stackTopOffset paramSize code =>
        have hKept :=
          hBody.kept (wind_ok hOk hProper hEnter) hInner
        exact restored_of_wind hProper hEnter hKept hLeave
    | nativeWind paramSize =>
        have hKept :=
          hBody.kept (nativeWind_ok hOk hEnter) hInner
        exact
          restored_of_nativeWind hProper hEnter hKept hLeave
  · intro reached n hReached
    exact (machine_ok_of_run hReached).stack.bottom_le_top

/-
  A function with one argument, which calls a native function
  and ends with an operand left.
-/
theorem call_restores_nested :
    ∃ m m' : Machine Unit Nat,
      Run m
          [.wind 2 1 ⟨2, 3, ()⟩, .setLocal 1 5, .push 6,
            .nativeWind 1, .push 7, .nativeUnwind, .push 8,
            .unwind]
          m' ∧
        Restored 2 m m' := by
  have hAll :
      Run (Machine.init : Machine Unit Nat)
        ([.wind 0 0 ⟨1, 4, ()⟩, .push 1, .push 2, .push 3] ++
          [.wind 2 1 ⟨2, 3, ()⟩, .setLocal 1 5, .push 6,
            .nativeWind 1, .push 7, .nativeUnwind, .push 8,
            .unwind])
        _ :=
    .cons ⟨Nat.le_refl 0, Nat.le_refl 0, Nat.zero_le 1⟩ rfl
      (.cons trivial rfl
        (.cons trivial rfl
          (.cons trivial rfl
            (.cons
              ⟨Nat.le_of_ble_eq_true rfl,
                Nat.le_of_ble_eq_true rfl,
                Nat.le_of_ble_eq_true rfl⟩
              rfl
              (.cons (Nat.le_of_ble_eq_true rfl) rfl
                (.cons trivial rfl
                  (.cons (Nat.le_of_ble_eq_true rfl) rfl
                    (.cons trivial rfl
                      (.cons trivial rfl
                        (.cons trivial rfl
                          (.cons trivial rfl
                            (.nil _))))))))))))
  have hBody :
      @Balanced Unit Nat .code
        [.setLocal 1 5, .push 6, .nativeWind 1, .push 7,
          .nativeUnwind, .push 8] :=
    .own rfl
      (.own rfl
        (@Balanced.native Unit Nat .code [.push 7] [.push 8] 1
          (.own rfl (.nil _))
          (.own rfl (.nil _))))
  rcases GuardedRun.append_iff.mp hAll with
    ⟨m, hBefore, hRun⟩
  exact
    ⟨m, _, hRun,
      (call_restores (.wind 2 1 ⟨2, 3, ()⟩) hBefore hBody
        hRun).1⟩

end FrameStack

end Ydsh
