import Mathlib.Tactic.Common

/-
  Round-robin search.

  A search starts at an index of a half-open interval and wraps
  around at its end until a predicate holds.  An index at which
  the predicate keeps holding comes closer with every search
  that stops somewhere else.

  Main declarations:
    * `nextIndex`
    * `distance`
    * `roundRobin`
    * `roundRobin_of_mem`
-/

----
-- Distance
----

namespace Ydsh

namespace Library

/- The index after another one, wrapping around at `hi`. -/
def nextIndex (lo hi i : Nat) : Nat :=
  if i + 1 = hi then lo else i + 1

/- The number of steps from one index to another one. -/
def distance (lo hi i j : Nat) : Nat :=
  if i ≤ j then j - i else (hi - i) + (j - lo)

theorem nextIndex_mem
    {lo hi i : Nat}
    (hLo : lo ≤ i)
    (hHi : i < hi) :
    lo ≤ nextIndex lo hi i ∧ nextIndex lo hi i < hi := by
  unfold nextIndex
  split <;> omega

theorem distance_lt
    {lo hi i j : Nat}
    (hI : lo ≤ i)
    (hIHi : i < hi)
    (hJ : lo ≤ j)
    (hJHi : j < hi) :
    distance lo hi i j < hi - lo := by
  unfold distance
  split <;> omega

/- One step forward is one step closer. -/
theorem distance_nextIndex
    {lo hi i j : Nat}
    (hI : lo ≤ i)
    (hIHi : i < hi)
    (hJ : lo ≤ j)
    (hJHi : j < hi)
    (hNe : i ≠ j) :
    distance lo hi (nextIndex lo hi i) j + 1 =
      distance lo hi i j := by
  unfold nextIndex distance
  by_cases hEnd : i + 1 = hi
  · rw [if_pos hEnd, if_pos hJ]
    split <;> omega
  · rw [if_neg hEnd]
    split <;> split <;> omega

----
-- Search
----

/- The index found and the one the next search starts at. -/
def roundRobin
    (p : Nat → Bool)
    (lo hi : Nat) : Nat → Nat → Option (Nat × Nat)
  | 0, _ => none
  | fuel + 1, i =>
      if p i then
        some (i, nextIndex lo hi i)
      else
        roundRobin p lo hi fuel (nextIndex lo hi i)

/-
  With an index at which the predicate holds, the search finds
  one; when it finds another one, that index is closer to the
  start of the next search.
-/
theorem roundRobin_of_mem
    {p : Nat → Bool}
    {lo hi i target : Nat}
    (hI : lo ≤ i)
    (hIHi : i < hi)
    (hTarget : lo ≤ target)
    (hTargetHi : target < hi)
    (hP : p target = true)
    {fuel : Nat}
    (hFuel : distance lo hi i target < fuel) :
    ∃ found,
      roundRobin p lo hi fuel i =
          some (found, nextIndex lo hi found) ∧
        p found = true ∧ lo ≤ found ∧ found < hi ∧
        (found ≠ target →
          distance lo hi (nextIndex lo hi found) target <
            distance lo hi i target) := by
  induction fuel generalizing i with
  | zero => exact absurd hFuel (Nat.not_lt_zero _)
  | succ fuel ih =>
      by_cases hHere : p i = true
      · refine ⟨i, ?_, hHere, hI, hIHi, ?_⟩
        · rw [roundRobin, if_pos hHere]
        · intro hNe
          have hCloser :=
            distance_nextIndex hI hIHi hTarget hTargetHi hNe
          omega
      · have hNe : i ≠ target := by
          rintro rfl
          exact hHere hP
        have hCloser :=
          distance_nextIndex hI hIHi hTarget hTargetHi hNe
        rcases nextIndex_mem hI hIHi with ⟨hNext, hNextHi⟩
        rcases ih hNext hNextHi (by omega) with
          ⟨found, hFound, hHolds, hLo, hHi, hDistance⟩
        refine ⟨found, ?_, hHolds, hLo, hHi, ?_⟩
        · rw [roundRobin, if_neg hHere, hFound]
        · intro hOther
          have hStep := hDistance hOther
          omega

end Library

end Ydsh
