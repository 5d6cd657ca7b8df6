import Mathlib.Tactic.Common
import Ydsh.Library.RoundRobin

/-
  The set of signals that have arrived.

  A set is a word with one bit for each signal number from one
  on, below the limit `nsig` of the platform.  A pop returns
  the first member from a rotating index on.

  Main declarations:
    * `SigSet`
    * `SigSet.add`
    * `SigSet.del`
    * `SigSet.has`
    * `SigSet.popPendingSig`
    * `SigSet.popPendingSig_of_has`
-/

----
-- Sets
----

namespace Ydsh

open Library

structure SigSet where
  value : BitVec 64
  pendingIndex : Nat
  deriving DecidableEq, Repr

namespace SigSet

def init : SigSet := { value := 0, pendingIndex := 1 }

def bit (sigNum : Nat) : BitVec 64 :=
  1#64 <<< (sigNum - 1)

def add (set : SigSet) (sigNum : Nat) : SigSet :=
  { set with value := set.value ||| bit sigNum }

def del (set : SigSet) (sigNum : Nat) : SigSet :=
  { set with value := set.value &&& ~~~bit sigNum }

def has (set : SigSet) (sigNum : Nat) : Bool :=
  set.value &&& bit sigNum == bit sigNum

def empty (set : SigSet) : Bool :=
  set.value == 0

def clear (_set : SigSet) : SigSet := init

/-
  The index is advanced before the number at it is tested.  A
  set without members would be searched for ever.
-/
def popPendingSig
    (nsig : Nat)
    (set : SigSet) : Option (Nat × SigSet) :=
  match
    roundRobin set.has 1 nsig (nsig - 1) set.pendingIndex with
  | none => none
  | some (sigNum, pendingIndex) =>
      some (sigNum, { set with pendingIndex }.del sigNum)

----
-- Membership
----

theorem getLsbD_bit (sigNum i : Nat) :
    (bit sigNum).getLsbD i =
      (decide (i < 64) && decide (i = sigNum - 1)) := by
  unfold bit
  rw [BitVec.getLsbD_shiftLeft, BitVec.getLsbD_one]
  by_cases hSame : i = sigNum - 1
  · subst hSame
    simp
  · simp only [hSame, decide_false, Bool.and_false]
    by_cases hBelow : i < sigNum - 1
    · simp [hBelow]
    · have hAbove : i - (sigNum - 1) ≠ 0 := by omega
      simp [hAbove]

/- A signal number stands for a bit of the word. -/
theorem has_eq_getLsbD
    (set : SigSet)
    {sigNum : Nat}
    (hLimit : sigNum ≤ 64) :
    set.has sigNum = set.value.getLsbD (sigNum - 1) := by
  have hIndex : sigNum - 1 < 64 := by omega
  unfold has
  rw [Bool.eq_iff_iff, beq_iff_eq]
  constructor
  · intro hAnd
    have hBit := congrArg (·.getLsbD (sigNum - 1)) hAnd
    simp only [BitVec.getLsbD_and, getLsbD_bit] at hBit
    simpa [hIndex] using hBit
  · intro hBit
    apply BitVec.eq_of_getLsbD_eq
    intro i hI
    rw [BitVec.getLsbD_and, getLsbD_bit]
    by_cases hSame : i = sigNum - 1
    · subst hSame
      simp [hBit]
    · simp [hSame]

theorem has_add
    (set : SigSet)
    {sigNum other : Nat}
    (hPos : 0 < sigNum)
    (hOther : 0 < other)
    (hLimit : sigNum ≤ 64)
    (hOtherLimit : other ≤ 64) :
    (set.add sigNum).has other =
      (set.has other || decide (other = sigNum)) := by
  have hIndex : other - 1 < 64 := by omega
  have hSame : other - 1 = sigNum - 1 ↔ other = sigNum := by
    omega
  rw [has_eq_getLsbD _ hOtherLimit, has_eq_getLsbD _ hOtherLimit]
  unfold add
  rw [BitVec.getLsbD_or, getLsbD_bit]
  simp only [hIndex, hSame, decide_true, Bool.true_and]

theorem has_del
    (set : SigSet)
    {sigNum other : Nat}
    (hPos : 0 < sigNum)
    (hOther : 0 < other)
    (hLimit : sigNum ≤ 64)
    (hOtherLimit : other ≤ 64) :
    (set.del sigNum).has other =
      (set.has other && decide (other ≠ sigNum)) := by
  have hIndex : other - 1 < 64 := by omega
  have hSame : other - 1 = sigNum - 1 ↔ other = sigNum := by
    omega
  rw [has_eq_getLsbD _ hOtherLimit, has_eq_getLsbD _ hOtherLimit]
  unfold del
  rw [BitVec.getLsbD_and, BitVec.getLsbD_not, getLsbD_bit]
  simp only [hIndex, hSame, decide_true, Bool.true_and,
    decide_not]

theorem has_init
    {sigNum : Nat}
    (hLimit : sigNum ≤ 64) :
    init.has sigNum = false := by
  rw [has_eq_getLsbD _ hLimit]
  simp [init]

/- A set without members is the zero word. -/
theorem empty_eq_false_iff (set : SigSet) :
    set.empty = false ↔
      ∃ sigNum, 0 < sigNum ∧ sigNum ≤ 64 ∧
        set.has sigNum = true := by
  unfold empty
  rw [beq_eq_false_iff_ne]
  constructor
  · intro hNe
    by_contra hNone
    apply hNe
    apply BitVec.eq_of_getLsbD_eq
    intro i hI
    have hBit : set.value.getLsbD i = false := by
      by_contra hSet
      refine hNone ⟨i + 1, Nat.succ_pos i, by omega, ?_⟩
      rw [has_eq_getLsbD _ (by omega)]
      simpa using hSet
    simp [hBit]
  · rintro ⟨sigNum, _, hLimit, hHas⟩ hZero
    rw [has_eq_getLsbD _ hLimit, hZero] at hHas
    simp at hHas

----
-- Pops
----

/- The signals of the platform and the index among them. -/
structure WellFormed (nsig : Nat) (set : SigSet) : Prop where
  below :
    ∀ sigNum, 0 < sigNum → sigNum ≤ 64 →
      set.has sigNum = true →
      sigNum < nsig
  indexPos : 1 ≤ set.pendingIndex
  indexBelow : set.pendingIndex < nsig

section

variable {nsig : Nat}
variable {set : SigSet}

theorem WellFormed.init (hSignals : 1 < nsig) :
    WellFormed nsig SigSet.init where
  below := by
    intro sigNum _ hLimit hHas
    rw [has_init hLimit] at hHas
    cases hHas
  indexPos := Nat.le_refl 1
  indexBelow := hSignals

theorem WellFormed.add
    (hSet : WellFormed nsig set)
    {sigNum : Nat}
    (hPos : 0 < sigNum)
    (hBelow : sigNum < nsig)
    (hLimit : sigNum ≤ 64) :
    WellFormed nsig (set.add sigNum) where
  below := by
    intro other hOther hOtherLimit hHas
    rw [has_add set hPos hOther hLimit hOtherLimit,
      Bool.or_eq_true, decide_eq_true_iff] at hHas
    rcases hHas with hOld | rfl
    · exact hSet.below other hOther hOtherLimit hOld
    · exact hBelow
  indexPos := hSet.indexPos
  indexBelow := hSet.indexBelow

theorem WellFormed.del
    (hSet : WellFormed nsig set)
    {sigNum : Nat}
    (hPos : 0 < sigNum)
    (hLimit : sigNum ≤ 64) :
    WellFormed nsig (set.del sigNum) where
  below := by
    intro other hOther hOtherLimit hHas
    rw [has_del set hPos hOther hLimit hOtherLimit,
      Bool.and_eq_true] at hHas
    exact hSet.below other hOther hOtherLimit hHas.1
  indexPos := hSet.indexPos
  indexBelow := hSet.indexBelow

/-
  A pop returns a member and removes it.  Another member gets
  closer to the index.
-/
theorem popPendingSig_of_has
    (hSignals : nsig ≤ 65)
    (hSet : WellFormed nsig set)
    {member : Nat}
    (hPos : 0 < member)
    (hLimit : member ≤ 64)
    (hHas : set.has member = true) :
    ∃ sigNum next,
      set.popPendingSig nsig = some (sigNum, next) ∧
        0 < sigNum ∧ sigNum ≤ 64 ∧
        set.has sigNum = true ∧
        WellFormed nsig next ∧
        (∀ other, 0 < other → other ≤ 64 →
          next.has other =
            (set.has other && decide (other ≠ sigNum))) ∧
        (sigNum ≠ member →
          distance 1 nsig next.pendingIndex member <
            distance 1 nsig set.pendingIndex member) := by
  have hBelow := hSet.below member hPos hLimit hHas
  have hFuel :=
    distance_lt hSet.indexPos hSet.indexBelow hPos hBelow
  rcases
    roundRobin_of_mem hSet.indexPos hSet.indexBelow hPos hBelow
      hHas hFuel with
    ⟨sigNum, hFound, hFoundHas, hFoundPos, hFoundBelow,
      hCloser⟩
  have hFoundLimit : sigNum ≤ 64 := by omega
  rcases nextIndex_mem hFoundPos hFoundBelow with
    ⟨hNext, hNextBelow⟩
  have hMoved :
      WellFormed nsig
        { set with pendingIndex := nextIndex 1 nsig sigNum } :=
    { below := hSet.below
      indexPos := hNext
      indexBelow := hNextBelow }
  refine
    ⟨sigNum, _, ?_, hFoundPos, hFoundLimit, hFoundHas,
      hMoved.del hFoundPos hFoundLimit, ?_, hCloser⟩
  · rw [popPendingSig, hFound]
  · intro other hOther hOtherLimit
    exact has_del _ hFoundPos hOther hFoundLimit hOtherLimit

end

end SigSet

end Ydsh
