import Mathlib.Tactic.ByContra
import Mathlib.Tactic.SplitIfs
import Ydsh.Glob.Matcher

/-
  Iterators the matcher cannot tell apart.

  When related iterators answer alike and move to related
  iterators, the matcher does the same with both.

  Main declarations:
    * `Simulates`
    * `Simulates.wildMatch`
    * `Simulates.globMatch`
-/

----
-- Related Iterators
----

namespace Ydsh

namespace Glob

open Library
open Library.Faulting

variable {ι κ α : Type}

/- The end is dereferenced, but never passed. -/
structure Simulates
    (R : ι → κ → Prop)
    (P : Pattern ι)
    (Q : Pattern κ) : Prop where
  last : R P.last Q.last
  isEnd : ∀ i j, R i j → P.isEnd i = Q.isEnd j
  isAny : ∀ i j, R i j → P.isAny i = Q.isAny j
  isZeroOrMore :
    ∀ i j, R i j → P.isZeroOrMore i = Q.isZeroOrMore j
  deref : ∀ i j, R i j → Agree Eq (P.deref i) (Q.deref j)
  derefEnd : ∀ i, P.isEnd i = true → P.deref i = .done 0
  next :
    ∀ i j, R i j → P.isEnd i = false →
      Agree R (P.next i) (Q.next j)

/- The same value and related iterators. -/
def RelIter
    (R : ι → κ → Prop)
    (x : α × ι)
    (y : α × κ) : Prop :=
  x.1 = y.1 ∧ R x.2 y.2

namespace Simulates

variable {R : ι → κ → Prop}
variable {P : Pattern ι}
variable {Q : Pattern κ}
variable {i : ι}
variable {j : κ}
variable (hSim : Simulates R P Q)

include hSim

/- The iterator can move on when it is at neither. -/
theorem isEndOrSep
    (hRel : R i j) :
    Agree (fun x y => x = y ∧ (x = false → P.isEnd i = false))
      (isEndOrSep P i) (isEndOrSep Q j) := by
  unfold Glob.isEndOrSep
  rw [← hSim.isEnd i j hRel]
  cases hEnd : P.isEnd i with
  | true => exact .done ⟨rfl, fun h => h⟩
  | false =>
      apply (hSim.deref i j hRel).map
      intro x y hEq
      rw [hEq]
      exact ⟨rfl, fun _ => rfl⟩

/- An iterator at a byte other than null is not at the end. -/
theorem not_end
    {ch : UInt8}
    (hDeref : P.deref i = .done ch)
    (hNe : ch ≠ 0) :
    P.isEnd i = false := by
  by_contra hEnd
  rw [Bool.not_eq_false] at hEnd
  rw [hSim.derefEnd i hEnd] at hDeref
  cases hDeref
  exact hNe rfl

/- What is read at related iterators, with its origin. -/
theorem deref_origin
    (hRel : R i j) :
    Agree (fun x y => x = y ∧ P.deref i = .done x)
      (P.deref i) (Q.deref j) := by
  have hDeref := hSim.deref i j hRel
  generalize P.deref i = x at hDeref
  generalize Q.deref j = y at hDeref
  cases hDeref with
  | done hEq => exact .done ⟨hEq, rfl⟩
  | timeout => exact .timeout

theorem consumeSeps
    (bound : Nat)
    (hRel : R i j) :
    Agree (RelIter R) (consumeSeps P bound i)
      (consumeSeps Q bound j) := by
  induction bound generalizing i j with
  | zero => exact .timeout
  | succ bound ih =>
      unfold Glob.consumeSeps
      rw [← hSim.isEnd i j hRel]
      cases hEnd : P.isEnd i with
      | true => exact .done ⟨rfl, hRel⟩
      | false =>
          apply (hSim.deref i j hRel).bind
          intro x y hEq
          rw [hEq]
          apply Agree.ite
          · intro _
            apply (hSim.next i j hRel hEnd).bind
            intro after after' hAfter
            apply (ih hAfter).map
            intro found found' hFound
            exact ⟨congrArg (· + 1) hFound.1, hFound.2⟩
          · intro _
            exact .done ⟨rfl, hRel⟩

theorem consumeDot
    (hRel : R i j) :
    Agree (RelIter R) (consumeDot P i) (consumeDot Q j) := by
  unfold Glob.consumeDot
  rw [← hSim.isEnd i j hRel]
  cases hEnd : P.isEnd i with
  | true => exact .done ⟨rfl, hRel⟩
  | false =>
      apply (hSim.deref i j hRel).bind
      intro x y hEq
      rw [hEq]
      apply Agree.ite
      · intro _
        apply (hSim.next i j hRel hEnd).bind
        intro after after' hAfter
        apply (hSim.isEndOrSep hAfter).map
        rintro found found' ⟨hFound, -⟩
        rw [hFound]
        cases found' with
        | true => exact ⟨rfl, hAfter⟩
        | false => exact ⟨rfl, hRel⟩
      · intro _
        exact .done ⟨rfl, hRel⟩

theorem matchSecondDot
    (name : List UInt8)
    {old i : ι}
    {old' j : κ}
    (hOld : R old old')
    (hRel : R i j) :
    Agree (RelIter R) (matchSecondDot P name old i)
      (matchSecondDot Q name old' j) := by
  unfold Glob.matchSecondDot
  apply Agree.ite
  · intro _
    apply (hSim.deref_origin hRel).bind
    rintro x y ⟨hEq, hDeref⟩
    rw [← hEq]
    apply Agree.ite
    · intro hDot
      have hEnd : P.isEnd i = false := by
        apply hSim.not_end hDeref
        rw [hDot]
        decide
      apply (hSim.next i j hRel hEnd).bind
      intro after after' hAfter
      apply Agree.ite
      · intro _
        apply (hSim.isEndOrSep hAfter).map
        rintro found found' ⟨hFound, -⟩
        rw [hFound]
        cases found' with
        | true => exact ⟨rfl, hAfter⟩
        | false => exact ⟨rfl, hOld⟩
      · intro _
        exact .done ⟨rfl, hOld⟩
    · intro _
      exact .done ⟨rfl, hOld⟩
  · intro _
    exact .done ⟨rfl, hOld⟩

theorem matchDots
    (name : List UInt8)
    (hRel : R i j) :
    Agree (RelIter R) (matchDots P name i)
      (matchDots Q name j) := by
  unfold Glob.matchDots
  apply Agree.ite
  · intro _
    apply (hSim.deref_origin hRel).bind
    rintro x y ⟨hEq, hDeref⟩
    rw [← hEq]
    apply Agree.ite
    · intro hDot
      have hEnd : P.isEnd i = false := by
        apply hSim.not_end hDeref
        rw [hDot]
        decide
      apply (hSim.next i j hRel hEnd).bind
      intro after after' hAfter
      apply Agree.ite
      · intro _
        apply (hSim.isEndOrSep hAfter).bind
        rintro found found' ⟨hFound, -⟩
        rw [hFound]
        cases found' with
        | true => exact .done ⟨rfl, hAfter⟩
        | false => exact hSim.matchSecondDot _ hRel hAfter
      · intro _
        exact hSim.matchSecondDot _ hRel hAfter
    · intro _
      exact .done ⟨rfl, hRel⟩
  · intro _
    exact .done ⟨rfl, hRel⟩

----
-- Names
----

theorem finishMatch
    (bound : Nat)
    (hRel : R i j) :
    Agree (RelIter R) (finishMatch P bound i)
      (finishMatch Q bound j) := by
  induction bound generalizing i j with
  | zero => exact .timeout
  | succ bound ih =>
      unfold Glob.finishMatch
      apply (hSim.isEndOrSep hRel).bind
      rintro found found' ⟨hFound, hEnd⟩
      rw [← hFound, ← hSim.isZeroOrMore i j hRel]
      cases found with
      | true => exact .done ⟨rfl, hRel⟩
      | false =>
          apply Agree.ite
          · intro hFalse
            cases hFalse
          · intro _
            apply Agree.ite
            · intro _
              apply (hSim.next i j hRel (hEnd rfl)).bind
              intro after after' hAfter
              exact ih hAfter
            · intro _
              exact .done ⟨rfl, hRel⟩

theorem matchAfterStar
    (bound : Nat)
    (name cp : List UInt8)
    {old i : ι}
    {old' j : κ}
    (hOld : R old old')
    (hRel : R i j) :
    Agree (RelIter R) (matchAfterStar P bound name cp old i)
      (matchAfterStar Q bound name cp old' j) := by
  induction bound generalizing name cp old i old' j with
  | zero =>
      unfold Glob.matchAfterStar
      exact .timeout
  | succ bound ih =>
      cases name with
      | nil =>
          unfold Glob.matchAfterStar
          exact hSim.finishMatch bound hRel
      | cons ch name =>
          unfold Glob.matchAfterStar
          apply (hSim.isEndOrSep hRel).bind
          rintro found found' ⟨hFound, hEnd⟩
          rw [← hFound, ← hSim.isZeroOrMore i j hRel,
            ← hSim.isAny i j hRel]
          cases found with
          | true => exact ih cp cp.tail hOld hOld
          | false =>
              have hNext :=
                hSim.next i j hRel (hEnd rfl)
              apply Agree.ite
              · intro hFalse
                cases hFalse
              · intro _
                apply (hSim.deref i j hRel).bind
                intro x y hEq
                rw [hEq]
                apply Agree.ite
                · intro _
                  apply hNext.bind
                  intro after after' hAfter
                  exact ih name cp hOld hAfter
                · intro _
                  apply Agree.ite
                  · intro _
                    apply hNext.bind
                    intro after after' hAfter
                    apply (hSim.isEndOrSep hAfter).bind
                    rintro ends ends' ⟨hEnds, -⟩
                    rw [hEnds]
                    cases ends' with
                    | true => exact .done ⟨rfl, hAfter⟩
                    | false =>
                        exact ih (ch :: name) name hAfter hAfter
                  · intro _
                    exact ih cp cp.tail hOld hOld

theorem matchBeforeStar
    (bound : Nat)
    (name : List UInt8)
    (hRel : R i j) :
    Agree (RelIter R) (matchBeforeStar P bound name i)
      (matchBeforeStar Q bound name j) := by
  induction name generalizing i j with
  | nil => exact hSim.finishMatch bound hRel
  | cons ch name ih =>
      unfold Glob.matchBeforeStar
      apply (hSim.isEndOrSep hRel).bind
      rintro found found' ⟨hFound, hEnd⟩
      rw [← hFound, ← hSim.isZeroOrMore i j hRel,
        ← hSim.isAny i j hRel]
      cases found with
      | true => exact .done ⟨rfl, hRel⟩
      | false =>
          apply Agree.ite
          · intro hFalse
            cases hFalse
          · intro _
            apply Agree.ite
            · intro _
              exact
                hSim.matchAfterStar bound _ _ hSim.last hRel
            · intro _
              apply (hSim.deref i j hRel).bind
              intro x y hEq
              rw [hEq]
              apply Agree.ite
              · intro _
                exact .done ⟨rfl, hRel⟩
              · intro _
                apply (hSim.next i j hRel (hEnd rfl)).bind
                intro after after' hAfter
                exact ih hAfter

theorem hidesDot
    (option : GlobMatchOption)
    (hRel : R i j) :
    Agree Eq (hidesDot P option i) (hidesDot Q option j) := by
  unfold Glob.hidesDot
  apply (hSim.isEndOrSep hRel).bind
  rintro found found' ⟨hFound, -⟩
  rw [hFound]
  cases found' with
  | true => exact .done rfl
  | false =>
      apply (hSim.deref i j hRel).map
      intro x y hEq
      rw [hEq]

theorem wildMatch
    (option : GlobMatchOption)
    (bound : Nat)
    (name : List UInt8)
    (hRel : R i j) :
    Agree (RelIter R) (wildMatch P option bound name i)
      (wildMatch Q option bound name j) := by
  unfold Glob.wildMatch
  apply Agree.ite
  · intro _
    apply (hSim.matchDots name hRel).map
    rintro ⟨count, after⟩ ⟨count', after'⟩ ⟨hCount, hAfter⟩
    have hEq : count = count' := hCount
    rw [hEq]
    split_ifs
    · exact ⟨rfl, hAfter⟩
    · exact ⟨rfl, hAfter⟩
    · exact ⟨rfl, hAfter⟩
  · intro _
    apply Agree.ite
    · intro _
      apply (hSim.hidesDot option hRel).bind
      intro hidden hidden' hEq
      rw [hEq]
      cases hidden' with
      | true => exact .done ⟨rfl, hRel⟩
      | false => exact hSim.matchBeforeStar bound name hRel
    · intro _
      exact hSim.matchBeforeStar bound name hRel

----
-- Directories
----

theorem consumeTail
    (bound : Nat)
    (name : Path)
    (hRel : R i j) :
    Agree (RelIter R) (consumeTail P bound name i)
      (consumeTail Q bound name j) := by
  induction bound generalizing name i j with
  | zero => exact .timeout
  | succ bound ih =>
      unfold Glob.consumeTail
      apply (hSim.consumeSeps bound hRel).bind
      rintro ⟨count, seps⟩ ⟨count', seps'⟩ ⟨hCount, hSeps⟩
      have hEq : count = count' := hCount
      rw [hEq]
      apply (hSim.consumeDot hSeps).bind
      rintro ⟨dot, after⟩ ⟨dot', after'⟩ ⟨hDot, hAfter⟩
      have hDotEq : dot = dot' := hDot
      rw [hDotEq]
      cases dot' with
      | true => exact ih _ hAfter
      | false => exact .done ⟨rfl, hAfter⟩

/- Two states of the traversal that only differ in iterators. -/
def RelState
    (R : ι → κ → Prop)
    (x : MatchState ι)
    (y : MatchState κ) : Prop :=
  x.status = y.status ∧ R x.iter y.iter ∧ x.paths = y.paths

/- One step for a directory and one for its entries. -/
theorem matchDir_and_entries
    (env : GlobEnv)
    (bound : Nat) :
    (∀ dir i j paths, R i j →
        Agree (RelState R) (matchDir P env bound dir i paths)
          (matchDir Q env bound dir j paths)) ∧
      ∀ dir all entries i j paths, R i j →
        Agree (RelState R)
          (matchEntries P env bound dir all entries i paths)
          (matchEntries Q env bound dir all entries j paths) := by
  induction bound with
  | zero =>
      constructor
      · intro dir i j paths _
        unfold Glob.matchDir
        exact .timeout
      · intro dir all entries i j paths _
        unfold Glob.matchEntries
        exact .timeout
  | succ bound ih =>
      rcases ih with ⟨ihDir, ihEntries⟩
      constructor
      · intro dir i j paths hRel
        unfold Glob.matchDir
        cases entriesOf env dir with
        | none => exact .done ⟨rfl, hRel, rfl⟩
        | some entries => exact ihEntries _ _ _ _ _ _ hRel
      · intro dir all entries i j paths hRel
        cases entries with
        | nil =>
            unfold Glob.matchEntries
            exact .done ⟨rfl, hRel, rfl⟩
        | cons entry entries =>
            unfold Glob.matchEntries
            apply
              (hSim.wildMatch env.option bound entry hRel).bind
            rintro ⟨result, after⟩ ⟨result', after'⟩
              ⟨hResult, hAfter⟩
            have hEq : result = result' := hResult
            rw [hEq]
            apply Agree.ite
            · intro _
              exact ihEntries _ _ _ _ _ _ hRel
            · intro _
              have hTarget :
                  Agree (RelIter R)
                    (if env.fs.isDirectory (joinPath dir entry)
                          entry then
                        Glob.consumeTail P bound
                          (joinPath dir entry) after
                      else
                        .done (joinPath dir entry, after))
                    (if env.fs.isDirectory (joinPath dir entry)
                          entry then
                        Glob.consumeTail Q bound
                          (joinPath dir entry) after'
                      else
                        .done (joinPath dir entry, after')) := by
                apply Agree.ite
                · intro _
                  exact hSim.consumeTail bound _ hAfter
                · intro _
                  exact .done ⟨rfl, hAfter⟩
              apply hTarget.bind
              rintro ⟨path, it⟩ ⟨path', it'⟩ ⟨hPath, hIt⟩
              have hPathEq : path = path' := hPath
              have hItRel : R it it' := hIt
              simp only [hPathEq, ← hSim.isEnd it it' hItRel]
              apply Agree.ite
              · intro _
                apply Agree.ite
                · intro _
                  exact .done ⟨rfl, hIt, rfl⟩
                · intro _
                  apply (ihDir path' it it' paths hItRel).bind
                  rintro ⟨status, inner, found⟩
                    ⟨status', inner', found'⟩
                    ⟨hStatus, hInner, hFound⟩
                  have hStatusEq : status = status' := hStatus
                  have hFoundEq : found = found' := hFound
                  rw [hStatusEq, hFoundEq]
                  cases status' with
                  | LIMIT => exact .done ⟨rfl, hRel, rfl⟩
                  | UP => exact ihEntries _ _ _ _ _ _ hInner
                  | OK =>
                      apply Agree.ite
                      · intro _
                        exact ihEntries _ _ _ _ _ _ hRel
                      · intro _
                        exact .done ⟨rfl, hRel, rfl⟩
              · intro _
                apply Agree.ite
                · intro _
                  apply Agree.ite
                  · intro _
                    exact .done ⟨rfl, hRel, rfl⟩
                  · intro _
                    apply Agree.ite
                    · intro _
                      exact ihEntries _ _ _ _ _ _ hRel
                    · intro _
                      exact .done ⟨rfl, hRel, rfl⟩
                · intro _
                  apply Agree.ite
                  · intro _
                    exact ihEntries _ _ _ _ _ _ hRel
                  · intro _
                    exact .done ⟨rfl, hRel, rfl⟩

----
-- Whole Matches
----

theorem scanBase
    (bound : Nat)
    (hRel : R i j)
    (baseDir : Path)
    {sep : Option ι}
    {sep' : Option κ}
    (hSep :
      Option.Rel (fun x y => R x y ∧ P.isEnd x = false) sep
        sep') :
    Agree
      (fun x y =>
        x.1 = y.1 ∧
          Option.Rel (fun x y => R x y ∧ P.isEnd x = false) x.2
            y.2)
      (scanBase P bound i baseDir sep)
      (scanBase Q bound j baseDir sep') := by
  induction bound generalizing i j baseDir sep sep' with
  | zero => exact .timeout
  | succ bound ih =>
      unfold Glob.scanBase
      rw [← hSim.isEnd i j hRel, ← hSim.isZeroOrMore i j hRel,
        ← hSim.isAny i j hRel]
      apply Agree.ite
      · intro _
        exact .done ⟨rfl, hSep⟩
      · intro hStop
        have hEnd : P.isEnd i = false := by
          cases hEnd : P.isEnd i with
          | true => exact absurd (by rw [hEnd]; rfl) hStop
          | false => rfl
        apply (hSim.deref i j hRel).bind
        intro x y hEq
        rw [hEq]
        apply (hSim.next i j hRel hEnd).bind
        intro after after' hAfter
        apply ih hAfter
        by_cases hSlash : y = SLASH
        · rw [if_pos hSlash, if_pos hSlash]
          exact .some ⟨hRel, hEnd⟩
        · rw [if_neg hSlash, if_neg hSlash]
          exact hSep

theorem resolveBaseDir
    (env : GlobEnv)
    (base : Option Path)
    (bound : Nat)
    (hRel : R i j) :
    Agree (RelIter R) (resolveBaseDir P env base bound i)
      (resolveBaseDir Q env base bound j) := by
  unfold Glob.resolveBaseDir
  apply (hSim.scanBase bound hRel [] .none).bind
  rintro ⟨baseDir, sep⟩ ⟨baseDir', sep'⟩ ⟨hBase, hSep⟩
  have hEq : baseDir = baseDir' := hBase
  rw [hEq]
  cases hSep with
  | none => exact .done ⟨rfl, hRel⟩
  | some hRelSep =>
      apply (hSim.next _ _ hRelSep.1 hRelSep.2).map
      intro after after' hAfter
      exact ⟨rfl, hAfter⟩

theorem invoke
    (env : GlobEnv)
    (bound : Nat)
    (baseDir : Path)
    (hRel : R i j)
    (paths : List Path) :
    Agree Eq (invoke P env bound baseDir i paths)
      (invoke Q env bound baseDir j paths) := by
  induction bound generalizing baseDir i j paths with
  | zero => exact .timeout
  | succ bound ih =>
      unfold Glob.invoke
      apply
        ((hSim.matchDir_and_entries env bound).1 baseDir i j
          paths hRel).bind
      rintro ⟨status, it, found⟩ ⟨status', it', found'⟩
        ⟨hStatus, hIt, hFound⟩
      have hStatusEq : status = status' := hStatus
      have hFoundEq : found = found' := hFound
      rw [hStatusEq, hFoundEq]
      cases status' with
      | UP => exact ih _ hIt _
      | LIMIT => exact .done rfl
      | OK =>
          apply Agree.ite
          · intro _
            exact .done rfl
          · intro _
            exact .done rfl

theorem globMatch
    (env : GlobEnv)
    (base : Option Path)
    (bound : Nat)
    (hRel : R i j) :
    Agree Eq (globMatch P env base bound i)
      (globMatch Q env base bound j) := by
  unfold Glob.globMatch
  apply (hSim.resolveBaseDir env base bound hRel).bind
  rintro ⟨baseDir, it⟩ ⟨baseDir', it'⟩ ⟨hBase, hIt⟩
  have hEq : baseDir = baseDir' := hBase
  rw [hEq]
  exact hSim.invoke env bound _ hIt _

end Simulates

end Glob

end Ydsh
