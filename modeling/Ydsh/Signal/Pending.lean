import Ydsh.Library.Run
import Ydsh.Signal.SigSet

/-
  Pending signals and the event bit that announces them.

  The handler of the operating system runs between any two
  steps of the machine.  Under a guard all signals are blocked,
  so that a pop or a clear is one step.  The child of a fork
  with job control has no guard any more when it clears the
  set, and the mask is changed without one: these take a step
  for each access.

  Main declarations:
    * `SignalState`
    * `SignalOp`
    * `SignalState.step`
    * `SignalState.returned`
    * `SignalState.BitKept`
    * `SignalsFaithful`
    * `signalsFaithful_of_run`
-/

----
-- Operations
----

namespace Ydsh

open Library

/-
  What the machine is at: between a successful check and its
  pop, between a clear without a guard and its test, or before
  it writes an event word that it has read and changed.
-/
inductive SignalPhase where
  | running
  | checked
  | cleared
  | writing (signal mask : Bool)
  deriving DecidableEq, Repr

/- The pending set and the bits of the event word. -/
structure SignalState where
  set : SigSet
  signal : Bool
  mask : Bool
  phase : SignalPhase
  deriving DecidableEq, Repr

/-
  `pop`, `clear` and `setMask` are under a guard.  A clear of
  the number zero clears the whole set.  The others are the
  accesses without a guard.
-/
inductive SignalOp where
  | signalHandler (sigNum : Nat)
  | check
  | pop
  | clear (sigNum : Nat)
  | setMask (mask : Bool)
  | clearSet
  | testEmpty
  | readEvent (mask : Bool)
  | writeEvent
  deriving DecidableEq, Repr

namespace SignalOp

def clears (op : SignalOp) (sigNum : Nat) : Bool :=
  match op with
  | .clear other => other == 0 || other == sigNum
  | .clearSet => true
  | _ => false

def isPop (op : SignalOp) : Bool :=
  op == .pop

end SignalOp

namespace SignalState

def init : SignalState :=
  { set := .init
    signal := false
    mask := false
    phase := .running }

def signalHandler
    (sigNum : Nat)
    (state : SignalState) : SignalState :=
  { state with set := state.set.add sigNum, signal := true }

/- The bit is cleared once no signal is left. -/
def withSet
    (set : SigSet)
    (state : SignalState) : SignalState :=
  { state with
    set
    signal := if set.empty then false else state.signal }

def popPendingSignal
    (nsig : Nat)
    (state : SignalState) : Option (Nat × SignalState) :=
  match state.set.popPendingSig nsig with
  | none => none
  | some (sigNum, set) =>
      some (sigNum, { state.withSet set with phase := .running })

def clearPendingSignal
    (sigNum : Nat)
    (state : SignalState) : SignalState :=
  if sigNum > 0 then
    state.withSet (state.set.del sigNum)
  else
    state.withSet state.set.clear

/- The machine goes on only from where it is; the handler runs
   anywhere. -/
def step
    (nsig : Nat)
    (state : SignalState) : SignalOp → Option SignalState
  | .signalHandler sigNum =>
      if 0 < sigNum ∧ sigNum < nsig then
        some (state.signalHandler sigNum)
      else
        none
  | .check =>
      if state.phase = .running then
        some
          (if state.signal && !state.mask then
            { state with phase := .checked }
          else
            state)
      else
        none
  | .pop =>
      if state.phase = .checked then
        (state.popPendingSignal nsig).map Prod.snd
      else
        none
  | .clear sigNum =>
      if state.phase = .running ∧ sigNum < nsig then
        some (state.clearPendingSignal sigNum)
      else
        none
  | .setMask mask =>
      if state.phase = .running then
        some { state with mask }
      else
        none
  | .clearSet =>
      if state.phase = .running then
        some
          { state with set := state.set.clear, phase := .cleared }
      else
        none
  | .testEmpty =>
      if state.phase = .cleared then
        some
          { state with
            phase :=
              if state.set.empty then
                .writing false state.mask
              else
                .running }
      else
        none
  | .readEvent mask =>
      if state.phase = .running then
        some { state with phase := .writing state.signal mask }
      else
        none
  | .writeEvent =>
      match state.phase with
      | .writing signal mask =>
          some { state with signal, mask, phase := .running }
      | _ => none

/- The signal that a step returns to the machine. -/
def popped
    (nsig : Nat)
    (state : SignalState)
    (op : SignalOp) : Option Nat :=
  if op.isPop && state.phase == .checked then
    (state.popPendingSignal nsig).map Prod.fst
  else
    none

/- The signals that a run returns, in order. -/
def returned (nsig : Nat) :
    SignalState → List SignalOp → List Nat
  | _, [] => []
  | state, op :: ops =>
      match state.step nsig op with
      | none => []
      | some next =>
          (state.popped nsig op).toList ++ returned nsig next ops

def IsPending (state : SignalState) (sigNum : Nat) : Prop :=
  0 < sigNum ∧ sigNum ≤ 64 ∧ state.set.has sigNum = true

/- No signal arrives while an event word without the bit is
   about to be written. -/
def BitKept (state : SignalState) (op : SignalOp) : Prop :=
  ∀ sigNum mask,
    op = .signalHandler sigNum →
      state.phase ≠ .writing false mask

end SignalState

/-
  What holds in a state: the bit announces the pending signals,
  a pop takes one of them and no other, no step but a clear
  loses one, and none of them waits for more pops than there
  are signals.
-/
structure SignalsFaithful
    (nsig : Nat)
    (state : SignalState) : Prop where
  announced :
    ∀ sigNum, state.IsPending sigNum → state.signal = true
  quiet :
    state.phase = .running →
    state.signal = true →
    ∃ sigNum, state.IsPending sigNum
  added :
    ∀ sigNum next,
      state.step nsig (.signalHandler sigNum) = some next →
      next.IsPending sigNum
  pop :
    state.phase = .checked →
    ∃ sigNum next,
      state.step nsig .pop = some next ∧
        state.popped nsig .pop = some sigNum ∧
        state.IsPending sigNum ∧
        ∀ other,
          next.IsPending other ↔
            state.IsPending other ∧ other ≠ sigNum
  kept :
    ∀ sigNum ops last,
      state.IsPending sigNum →
      exec (SignalState.step nsig) state ops = some last →
      (∀ op ∈ ops, op.clears sigNum = false) →
      last.IsPending sigNum ∨ sigNum ∈ state.returned nsig ops
  fair :
    ∀ sigNum ops last,
      state.IsPending sigNum →
      exec (SignalState.step nsig) state ops = some last →
      (∀ op ∈ ops, op.clears sigNum = false) →
      nsig - 1 ≤ ops.countP SignalOp.isPop →
      sigNum ∈ state.returned nsig ops

/- The bit is set for members of the set only. -/
structure SignalsConsistent
    (nsig : Nat)
    (state : SignalState) : Prop where
  set : state.set.WellFormed nsig
  running :
    state.phase = .running →
    state.signal = true →
    state.set.empty = false
  checked : state.phase = .checked → state.set.empty = false
  writing :
    ∀ mask,
      state.phase = .writing true mask →
      state.set.empty = false

/- It is set for all members, and will not be taken away. -/
structure SignalsAnnounced (state : SignalState) : Prop where
  signal : state.set.empty = false → state.signal = true
  writing :
    ∀ mask,
      state.phase = .writing false mask →
      state.set.empty = true

----
-- Steps
----

section

variable {nsig : Nat}
variable {state next : SignalState}

theorem SignalsConsistent.init (hSignals : 1 < nsig) :
    SignalsConsistent nsig .init where
  set := .init hSignals
  running := nofun
  checked := nofun
  writing := nofun

theorem SignalsAnnounced.init : SignalsAnnounced .init where
  signal := nofun
  writing := nofun

/- A set with a member is not empty. -/
theorem SignalState.IsPending.not_empty
    {sigNum : Nat}
    (hPending : state.IsPending sigNum) :
    state.set.empty = false :=
  state.set.empty_eq_false_iff.mpr ⟨sigNum, hPending⟩

/- The bit that is left belongs to a member. -/
theorem SignalState.withSet_not_empty
    {set : SigSet}
    (hSignal : (state.withSet set).signal = true) :
    set.empty = false := by
  unfold SignalState.withSet at hSignal
  cases hEmpty : set.empty with
  | true =>
      rw [hEmpty] at hSignal
      cases hSignal
  | false => rfl

theorem SignalsAnnounced.withSet
    (hState : SignalsAnnounced state)
    {set : SigSet}
    (hFewer : set.empty = false → state.set.empty = false)
    (hSet : set.empty = false) :
    (state.withSet set).signal = true := by
  simp only [SignalState.withSet, hSet, Bool.false_eq_true,
    if_false]
  exact hState.signal (hFewer hSet)

/- Fewer signals than in a state without any are none. -/
theorem empty_of_fewer
    {set other : SigSet}
    (hFewer :
      ∀ sigNum, 0 < sigNum → sigNum ≤ 64 →
        set.has sigNum = true →
        other.has sigNum = true)
    (hSet : set.empty = false) :
    other.empty = false := by
  rcases set.empty_eq_false_iff.mp hSet with
    ⟨sigNum, hPos, hLimit, hHas⟩
  exact
    other.empty_eq_false_iff.mpr
      ⟨sigNum, hPos, hLimit, hFewer sigNum hPos hLimit hHas⟩

/- A pop of a set that is not empty. -/
theorem popPendingSignal_of_pending
    (hLimit : nsig ≤ 65)
    (hState : SignalsConsistent nsig state)
    {member : Nat}
    (hMember : state.IsPending member) :
    ∃ sigNum next,
      state.popPendingSignal nsig = some (sigNum, next) ∧
        state.IsPending sigNum ∧
        SignalsConsistent nsig next ∧
        (SignalsAnnounced state → SignalsAnnounced next) ∧
        (∀ other,
          next.IsPending other ↔
            state.IsPending other ∧ other ≠ sigNum) ∧
        (sigNum ≠ member →
          distance 1 nsig next.set.pendingIndex member <
            distance 1 nsig state.set.pendingIndex member) := by
  rcases hMember with ⟨hPos, hMemberLimit, hHas⟩
  rcases
    SigSet.popPendingSig_of_has hLimit hState.set hPos
      hMemberLimit hHas with
    ⟨sigNum, set, hPop, hFound, hFoundLimit, hFoundHas, hSet,
      hRest, hCloser⟩
  have hFewer : set.empty = false → state.set.empty = false := by
    apply empty_of_fewer
    intro other hOther hOtherLimit hOtherHas
    rw [hRest other hOther hOtherLimit, Bool.and_eq_true]
      at hOtherHas
    exact hOtherHas.1
  refine
    ⟨sigNum, { state.withSet set with phase := .running }, ?_,
      ⟨hFound, hFoundLimit, hFoundHas⟩, ?_, ?_, ?_, hCloser⟩
  · rw [SignalState.popPendingSignal, hPop]
  · exact
      { set := hSet
        running := fun _ => SignalState.withSet_not_empty
        checked := nofun
        writing := nofun }
  · intro hAnnounced
    exact
      { signal := hAnnounced.withSet hFewer
        writing := nofun }
  · intro other
    constructor
    · rintro ⟨hOther, hOtherLimit, hOtherHas⟩
      have hBoth := hRest other hOther hOtherLimit
      rw [show set.has other = true from hOtherHas] at hBoth
      have hParts := Bool.and_eq_true_iff.mp hBoth.symm
      exact
        ⟨⟨hOther, hOtherLimit, hParts.1⟩,
          of_decide_eq_true hParts.2⟩
    · rintro ⟨⟨hOther, hOtherLimit, hOtherHas⟩, hNe⟩
      refine ⟨hOther, hOtherLimit, ?_⟩
      have hBoth := hRest other hOther hOtherLimit
      rw [hOtherHas, Bool.true_and] at hBoth
      exact hBoth.trans (decide_eq_true hNe)

/- A checked state has a signal to pop. -/
theorem pending_of_checked
    (hState : SignalsConsistent nsig state)
    (hChecked : state.phase = .checked) :
    ∃ sigNum, state.IsPending sigNum :=
  state.set.empty_eq_false_iff.mp (hState.checked hChecked)

theorem signalHandler_isPending
    {sigNum other : Nat}
    (hPos : 0 < sigNum)
    (hLimit : sigNum ≤ 64) :
    (state.signalHandler sigNum).IsPending other ↔
      state.IsPending other ∨ other = sigNum := by
  unfold SignalState.IsPending
  constructor
  · rintro ⟨hOther, hOtherLimit, hHas⟩
    have hAdd :=
      state.set.has_add hPos hOther hLimit hOtherLimit
    rw [show (state.set.add sigNum).has other = true from hHas]
      at hAdd
    rcases Bool.or_eq_true_iff.mp hAdd.symm with hOld | hSame
    · exact Or.inl ⟨hOther, hOtherLimit, hOld⟩
    · exact Or.inr (of_decide_eq_true hSame)
  · rintro (⟨hOther, hOtherLimit, hHas⟩ | rfl)
    · refine ⟨hOther, hOtherLimit, ?_⟩
      have hAdd :=
        state.set.has_add hPos hOther hLimit hOtherLimit
      rw [hHas, Bool.true_or] at hAdd
      exact hAdd
    · refine ⟨hPos, hLimit, ?_⟩
      have hAdd := state.set.has_add hPos hPos hLimit hLimit
      rw [decide_eq_true rfl, Bool.or_true] at hAdd
      exact hAdd

/- A signal that is not cleared stays pending. -/
theorem clearPendingSignal_isPending
    {sigNum other : Nat}
    (hLimit : sigNum ≤ 64) :
    (state.clearPendingSignal sigNum).IsPending other ↔
      state.IsPending other ∧
        (SignalOp.clear sigNum).clears other = false := by
  unfold SignalState.clearPendingSignal SignalState.IsPending
  by_cases hPos : sigNum > 0
  · rw [if_pos hPos]
    have hClears :
        (SignalOp.clear sigNum).clears other = false ↔
          other ≠ sigNum := by
      have hNe : (sigNum == 0) = false :=
        beq_eq_false_iff_ne.mpr (Nat.ne_of_gt hPos)
      simp only [SignalOp.clears, hNe, Bool.false_or]
      exact beq_eq_false_iff_ne.trans ne_comm
    rw [hClears]
    constructor
    · rintro ⟨hOther, hOtherLimit, hHas⟩
      have hDel :=
        state.set.has_del hPos hOther hLimit hOtherLimit
      rw [show (state.set.del sigNum).has other = true
        from hHas] at hDel
      have hParts := Bool.and_eq_true_iff.mp hDel.symm
      exact
        ⟨⟨hOther, hOtherLimit, hParts.1⟩,
          of_decide_eq_true hParts.2⟩
    · rintro ⟨⟨hOther, hOtherLimit, hHas⟩, hNe⟩
      refine ⟨hOther, hOtherLimit, ?_⟩
      have hDel :=
        state.set.has_del hPos hOther hLimit hOtherLimit
      rw [hHas, Bool.true_and] at hDel
      exact hDel.trans (decide_eq_true hNe)
  · rw [if_neg hPos]
    have hZero : sigNum = 0 := by omega
    subst hZero
    constructor
    · rintro ⟨_, hOtherLimit, hHas⟩
      have hNone : SigSet.init.has other = true := hHas
      rw [SigSet.has_init hOtherLimit] at hNone
      cases hNone
    · rintro ⟨_, hClears⟩
      cases hClears

/- A clear changes the set and the bit with it. -/
theorem clearPendingSignal_eq_withSet
    (hSignals : 1 < nsig)
    (hState : SignalsConsistent nsig state)
    {sigNum : Nat}
    (hLimit : sigNum ≤ 64) :
    ∃ set : SigSet,
      state.clearPendingSignal sigNum = state.withSet set ∧
        set.WellFormed nsig ∧
        (set.empty = false → state.set.empty = false) := by
  have hFewer :
      (state.clearPendingSignal sigNum).set.empty = false →
      state.set.empty = false := by
    apply empty_of_fewer
    intro other hOther hOtherLimit hHas
    exact
      ((clearPendingSignal_isPending hLimit).mp
        ⟨hOther, hOtherLimit, hHas⟩).1.2.2
  unfold SignalState.clearPendingSignal at hFewer ⊢
  by_cases hPos : sigNum > 0
  · rw [if_pos hPos] at hFewer ⊢
    exact ⟨_, rfl, hState.set.del hPos hLimit, hFewer⟩
  · rw [if_neg hPos] at hFewer ⊢
    exact ⟨_, rfl, .init hSignals, hFewer⟩

theorem signalHandler_not_empty
    {sigNum : Nat}
    (hPos : 0 < sigNum)
    (hLimit : sigNum ≤ 64) :
    (state.signalHandler sigNum).set.empty = false :=
  SignalState.IsPending.not_empty
    ((signalHandler_isPending hPos hLimit).mpr (Or.inr rfl))

theorem SignalsConsistent.step
    (hSignals : 1 < nsig)
    (hLimit : nsig ≤ 65)
    (hState : SignalsConsistent nsig state)
    {op : SignalOp}
    (hStep : state.step nsig op = some next) :
    SignalsConsistent nsig next := by
  cases op with
  | signalHandler sigNum =>
      rcases Option.ite_none_right_eq_some.mp hStep with
        ⟨⟨hPos, hBelow⟩, hNext⟩
      cases hNext
      have hSigLimit : sigNum ≤ 64 := by omega
      have hEmpty :
          (state.signalHandler sigNum).set.empty = false :=
        signalHandler_not_empty hPos hSigLimit
      exact
        { set := hState.set.add hPos hBelow hSigLimit
          running := fun _ _ => hEmpty
          checked := fun _ => hEmpty
          writing := fun _ _ => hEmpty }
  | check =>
      rcases Option.ite_none_right_eq_some.mp hStep with
        ⟨hRunning, hNext⟩
      cases hNext
      cases hSignal : state.signal && !state.mask with
      | false => exact hState
      | true =>
          have hBit := (Bool.and_eq_true_iff.mp hSignal).1
          exact
            { set := hState.set
              running := nofun
              checked := fun _ => hState.running hRunning hBit
              writing := nofun }
  | pop =>
      rcases Option.ite_none_right_eq_some.mp hStep with
        ⟨hChecked, hNext⟩
      rcases pending_of_checked hState hChecked with
        ⟨member, hMember⟩
      rcases popPendingSignal_of_pending hLimit hState hMember
        with ⟨sigNum, popped, hPop, _, hPopped, _⟩
      rw [hPop] at hNext
      cases hNext
      exact hPopped
  | clear sigNum =>
      rcases Option.ite_none_right_eq_some.mp hStep with
        ⟨⟨hRunning, hBelow⟩, hNext⟩
      rcases
          clearPendingSignal_eq_withSet hSignals hState
            (show sigNum ≤ 64 by omega) with
        ⟨set, hEq, hSet, _⟩
      rw [hEq] at hNext
      cases hNext
      have hNot :
          ∀ phase, phase ≠ .running →
            (state.withSet set).phase ≠ phase :=
        fun _ hNe hSame => hNe (hSame.symm.trans hRunning)
      exact
        { set := hSet
          running := fun _ => SignalState.withSet_not_empty
          checked := fun hSame => absurd hSame (hNot _ nofun)
          writing :=
            fun _ hSame => absurd hSame (hNot _ nofun) }
  | setMask mask =>
      rcases Option.ite_none_right_eq_some.mp hStep with ⟨_, ⟨⟩⟩
      exact
        { set := hState.set
          running := hState.running
          checked := hState.checked
          writing := hState.writing }
  | clearSet =>
      rcases Option.ite_none_right_eq_some.mp hStep with ⟨_, ⟨⟩⟩
      exact
        { set := .init hSignals
          running := nofun
          checked := nofun
          writing := nofun }
  | testEmpty =>
      rcases Option.ite_none_right_eq_some.mp hStep with ⟨_, ⟨⟩⟩
      cases hEmpty : state.set.empty with
      | true =>
          exact
            { set := hState.set
              running := nofun
              checked := nofun
              writing := nofun }
      | false =>
          exact
            { set := hState.set
              running := fun _ _ => hEmpty
              checked := nofun
              writing := nofun }
  | readEvent mask =>
      rcases Option.ite_none_right_eq_some.mp hStep with
        ⟨hRunning, hNext⟩
      cases hNext
      refine ⟨hState.set, nofun, nofun, ?_⟩
      intro _ hPhase
      cases hSignal : state.signal with
      | true => exact hState.running hRunning hSignal
      | false =>
          rw [hSignal] at hPhase
          cases hPhase
  | writeEvent =>
      simp only [SignalState.step] at hStep
      split at hStep
      · rename_i signal mask hPhase
        cases hStep
        refine ⟨hState.set, ?_, nofun, nofun⟩
        rintro _ rfl
        exact hState.writing mask hPhase
      · cases hStep

/- Only a handler in the wrong moment may lose the bit. -/
theorem SignalsAnnounced.step
    (hSignals : 1 < nsig)
    (hLimit : nsig ≤ 65)
    (hConsistent : SignalsConsistent nsig state)
    (hState : SignalsAnnounced state)
    {op : SignalOp}
    (hKept : state.BitKept op)
    (hStep : state.step nsig op = some next) :
    SignalsAnnounced next := by
  cases op with
  | signalHandler sigNum =>
      rcases Option.ite_none_right_eq_some.mp hStep with ⟨_, ⟨⟩⟩
      exact
        { signal := fun _ => rfl
          writing :=
            fun mask hPhase =>
              absurd hPhase (hKept sigNum mask rfl) }
  | check =>
      rcases Option.ite_none_right_eq_some.mp hStep with ⟨_, ⟨⟩⟩
      split
      · exact ⟨hState.signal, nofun⟩
      · exact hState
  | pop =>
      rcases Option.ite_none_right_eq_some.mp hStep with
        ⟨hChecked, hNext⟩
      rcases pending_of_checked hConsistent hChecked with
        ⟨member, hMember⟩
      rcases
          popPendingSignal_of_pending hLimit hConsistent hMember
        with ⟨sigNum, popped, hPop, _, _, hPopped, _⟩
      rw [hPop] at hNext
      cases hNext
      exact hPopped hState
  | clear sigNum =>
      rcases Option.ite_none_right_eq_some.mp hStep with
        ⟨⟨hRunning, hBelow⟩, hNext⟩
      rcases
          clearPendingSignal_eq_withSet hSignals hConsistent
            (show sigNum ≤ 64 by omega) with
        ⟨set, hEq, _, hFewer⟩
      rw [hEq] at hNext
      cases hNext
      refine ⟨hState.withSet hFewer, ?_⟩
      intro mask hPhase
      cases hRunning.symm.trans hPhase
  | setMask mask =>
      rcases Option.ite_none_right_eq_some.mp hStep with ⟨_, ⟨⟩⟩
      exact ⟨hState.signal, hState.writing⟩
  | clearSet =>
      rcases Option.ite_none_right_eq_some.mp hStep with ⟨_, ⟨⟩⟩
      exact ⟨nofun, nofun⟩
  | testEmpty =>
      rcases Option.ite_none_right_eq_some.mp hStep with ⟨_, ⟨⟩⟩
      cases hEmpty : state.set.empty with
      | true => exact ⟨hState.signal, fun _ _ => hEmpty⟩
      | false => exact ⟨hState.signal, nofun⟩
  | readEvent mask =>
      rcases Option.ite_none_right_eq_some.mp hStep with ⟨_, ⟨⟩⟩
      refine ⟨hState.signal, ?_⟩
      intro _ hPhase
      cases hEmpty : state.set.empty with
      | true => rfl
      | false =>
          rw [hState.signal hEmpty] at hPhase
          cases hPhase
  | writeEvent =>
      simp only [SignalState.step] at hStep
      split at hStep
      · rename_i signal mask hPhase
        cases hStep
        refine ⟨?_, nofun⟩
        intro hSet
        cases signal with
        | true => rfl
        | false =>
            rw [hState.writing mask hPhase] at hSet
            cases hSet
      · cases hStep

/-
  A pending signal that is not cleared is returned by the step,
  or stays pending and gets closer to the index by a pop.
-/
theorem step_pending
    (hLimit : nsig ≤ 65)
    (hState : SignalsConsistent nsig state)
    {op : SignalOp}
    (hStep : state.step nsig op = some next)
    {sigNum : Nat}
    (hPending : state.IsPending sigNum)
    (hClears : op.clears sigNum = false) :
    state.popped nsig op = some sigNum ∨
      (next.IsPending sigNum ∧
        distance 1 nsig next.set.pendingIndex sigNum +
            (if op.isPop then 1 else 0) ≤
          distance 1 nsig state.set.pendingIndex sigNum) := by
  cases op with
  | signalHandler other =>
      rcases Option.ite_none_right_eq_some.mp hStep with
        ⟨⟨hPos, hBelow⟩, hNext⟩
      cases hNext
      refine Or.inr ⟨?_, Nat.le_refl _⟩
      exact
        (signalHandler_isPending hPos (by omega)).mpr
          (Or.inl hPending)
  | check =>
      rcases Option.ite_none_right_eq_some.mp hStep with ⟨_, ⟨⟩⟩
      split
      · exact Or.inr ⟨hPending, Nat.le_refl _⟩
      · exact Or.inr ⟨hPending, Nat.le_refl _⟩
  | pop =>
      rcases Option.ite_none_right_eq_some.mp hStep with
        ⟨hChecked, hNext⟩
      rcases popPendingSignal_of_pending hLimit hState hPending
        with ⟨found, popped, hPop, _, _, _, hRest, hCloser⟩
      rw [hPop] at hNext
      cases hNext
      by_cases hSame : found = sigNum
      · subst hSame
        refine Or.inl ?_
        simp only [SignalState.popped, SignalOp.isPop, hChecked,
          hPop, beq_self_eq_true, Bool.and_self, if_true,
          Option.map_some]
      · refine
          Or.inr
            ⟨(hRest sigNum).mpr ⟨hPending, Ne.symm hSame⟩, ?_⟩
        exact hCloser hSame
  | clear other =>
      rcases Option.ite_none_right_eq_some.mp hStep with
        ⟨⟨_, hBelow⟩, hNext⟩
      cases hNext
      have hOther : other ≤ 64 := by omega
      refine
        Or.inr
          ⟨(clearPendingSignal_isPending hOther).mpr
            ⟨hPending, hClears⟩, ?_⟩
      have hPos : other > 0 := by
        by_contra hZero
        have hIs : other = 0 := by omega
        subst hIs
        cases hClears
      rw [SignalState.clearPendingSignal, if_pos hPos]
      exact Nat.le_refl _
  | setMask mask | testEmpty | readEvent mask =>
      rcases Option.ite_none_right_eq_some.mp hStep with ⟨_, ⟨⟩⟩
      exact Or.inr ⟨hPending, Nat.le_refl _⟩
  | clearSet => cases hClears
  | writeEvent =>
      simp only [SignalState.step] at hStep
      split at hStep
      · cases hStep
        exact Or.inr ⟨hPending, Nat.le_refl _⟩
      · cases hStep

----
-- Runs
----

/-
  Along a run without a clear, a signal is returned or stays
  pending; each pop that does not return it brings it closer.
-/
theorem run_pending
    (hSignals : 1 < nsig)
    (hLimit : nsig ≤ 65)
    {ops : List SignalOp}
    {last : SignalState}
    {sigNum : Nat}
    (hState : SignalsConsistent nsig state)
    (hPending : state.IsPending sigNum)
    (hRun : exec (SignalState.step nsig) state ops = some last)
    (hClears : ∀ op ∈ ops, op.clears sigNum = false) :
    sigNum ∈ state.returned nsig ops ∨
      (last.IsPending sigNum ∧
        distance 1 nsig last.set.pendingIndex sigNum +
            ops.countP SignalOp.isPop ≤
          distance 1 nsig state.set.pendingIndex sigNum) := by
  induction ops generalizing state with
  | nil =>
      cases hRun
      exact Or.inr ⟨hPending, Nat.le_refl _⟩
  | cons op ops ih =>
      rcases exec_cons_eq_some.mp hRun with
        ⟨middle, hStep, hRest⟩
      have hReturned :
          state.returned nsig (op :: ops) =
            (state.popped nsig op).toList ++
              middle.returned nsig ops := by
        simp only [SignalState.returned, hStep]
      rw [hReturned, List.mem_append]
      rcases step_pending hLimit hState hStep hPending
          (hClears op List.mem_cons_self) with
        hPopped | ⟨hMiddle, hCloser⟩
      · left
        left
        rw [hPopped]
        exact List.mem_singleton_self sigNum
      · have hConsistent := hState.step hSignals hLimit hStep
        rcases ih hConsistent hMiddle hRest
            (fun other hOther =>
              hClears other (List.mem_cons_of_mem op hOther))
          with hLater | ⟨hLast, hDistance⟩
        · exact Or.inl (Or.inr hLater)
        · refine Or.inr ⟨hLast, ?_⟩
          rw [List.countP_cons]
          omega

theorem SignalsConsistent.faithful
    (hSignals : 1 < nsig)
    (hLimit : nsig ≤ 65)
    (hState : SignalsConsistent nsig state)
    (hAnnounced : SignalsAnnounced state) :
    SignalsFaithful nsig state where
  announced := fun _ hPending =>
    hAnnounced.signal hPending.not_empty
  quiet := fun hRunning hSignal =>
    state.set.empty_eq_false_iff.mp
      (hState.running hRunning hSignal)
  added := by
    intro sigNum next hStep
    rcases Option.ite_none_right_eq_some.mp hStep with
      ⟨⟨hPos, hBelow⟩, hNext⟩
    cases hNext
    exact
      (signalHandler_isPending hPos (by omega)).mpr
        (Or.inr rfl)
  pop := by
    intro hChecked
    rcases pending_of_checked hState hChecked with
      ⟨member, hMember⟩
    rcases popPendingSignal_of_pending hLimit hState hMember
      with ⟨sigNum, next, hPop, hPending, _, _, hRest, _⟩
    refine ⟨sigNum, next, ?_, ?_, hPending, hRest⟩
    · simp only [SignalState.step, hChecked, if_true, hPop,
        Option.map_some]
    · simp only [SignalState.popped, SignalOp.isPop, hChecked,
        beq_self_eq_true, Bool.and_self, if_true, hPop,
        Option.map_some]
  kept := by
    intro sigNum ops last hPending hRun hClears
    rcases run_pending hSignals hLimit hState hPending hRun
        hClears with hReturned | ⟨hLast, _⟩
    · exact Or.inr hReturned
    · exact Or.inl hLast
  fair := by
    intro sigNum ops last hPending hRun hClears hPops
    rcases run_pending hSignals hLimit hState hPending hRun
        hClears with hReturned | ⟨_, hDistance⟩
    · exact hReturned
    · have hBelow :=
        hState.set.below sigNum hPending.1 hPending.2.1
          hPending.2.2
      have hNear :=
        distance_lt hState.set.indexPos hState.set.indexBelow
          hPending.1 hBelow
      omega

end

/-
  As long as no signal arrives in the wrong moment, every state
  reached is faithful.
-/
theorem signalsFaithful_of_run
    {nsig : Nat}
    (hSignals : 1 < nsig)
    (hLimit : nsig ≤ 65)
    {state : SignalState}
    {ops : List SignalOp}
    (hRun :
      GuardedRun (SignalState.step nsig) SignalState.BitKept
        .init ops state) :
    SignalsFaithful nsig state := by
  have hBoth :
      SignalsConsistent nsig state ∧ SignalsAnnounced state :=
    GuardedRun.invariant
      (I := fun state =>
        SignalsConsistent nsig state ∧ SignalsAnnounced state)
      (fun _ _ _ hState hKept hStep =>
        ⟨hState.1.step hSignals hLimit hStep,
          hState.2.step hSignals hLimit hState.1 hKept hStep⟩)
      hRun ⟨.init hSignals, .init⟩
  exact hBoth.1.faithful hSignals hLimit hBoth.2

/- Two signals arrive, one while the mask is changed, and one
   of them is popped. -/
theorem signalsFaithful_twoSignals :
    SignalsFaithful 65
      { set := { value := 2#64, pendingIndex := 2 }
        signal := true
        mask := false
        phase := .running } := by
  have hRun :
      GuardedRun (SignalState.step 65) SignalState.BitKept .init
        [.signalHandler 1, .readEvent false, .signalHandler 2,
          .writeEvent, .check, .pop]
        { set := { value := 2#64, pendingIndex := 2 }
          signal := true
          mask := false
          phase := .running } :=
    .cons nofun rfl
      (.cons nofun rfl
        (.cons nofun rfl
          (.cons nofun rfl
            (.cons nofun rfl (.cons nofun rfl (.nil _))))))
  exact signalsFaithful_of_run (by decide) (by decide) hRun

/- The signal arrives between the test and the write. -/
theorem not_signalsFaithful_fork :
    ∃ state,
      exec (SignalState.step 65) .init
          [.clearSet, .testEmpty, .signalHandler 15,
            .writeEvent] =
        some state ∧
      state.IsPending 15 ∧
      state.signal = false ∧
      ¬ SignalsFaithful 65 state := by
  refine
    ⟨{ set := { value := 0x4000#64, pendingIndex := 1 }
       signal := false
       mask := false
       phase := .running }, by decide, ?_, rfl, ?_⟩
  · unfold SignalState.IsPending
    decide
  · intro hFaithful
    have hSignal :=
      hFaithful.announced 15
        (by unfold SignalState.IsPending; decide)
    cases hSignal

end Ydsh
