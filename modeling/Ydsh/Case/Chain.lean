import Ydsh.Case.Running

/-
  Running the chain of tests.

  The subject stays on the stack below the result of a test
  until an arm is chosen.

  Main declarations:
    * `tailPatterns_runs`
    * `ifElseArm_ends`
    * `chain_ends`
-/

----
-- Tests
----

namespace Ydsh

namespace Case

open Library.ForwardCode

variable
  {T Re V : Type}
  {pool : TypePool T}
  {engine : Engine Re V}

section Tests

variable
  {subject : Option Scalar}
  {bytes : List UInt8}
  {executed : List Nat}
  {below : List (Slot Re V)}

/- All patterns of an arm are for strings. -/
def ForStrings (patterns : List (Pattern Re)) : Prop :=
  ∀ pattern ∈ patterns, pattern.type = .String

/- The subject with a string as its value. -/
def stringSlot (bytes : List UInt8) : Slot Re V :=
  .subject (some (.string bytes))

/- One test leaves its result above the subject. -/
theorem testCode_runs
    {pattern : Pattern Re}
    {rest : Code Re V}
    {outcome : Outcome Re V}
    (hString : pattern.type = .String)
    (hRaised :
      pattern.holds engine (.string bytes) = none →
        outcome = .raised)
    (hHolds :
      ∀ holds,
        pattern.holds engine (.string bytes) = some holds →
          Runs engine subject
            ⟨rest, executed,
              .bool holds :: stringSlot bytes :: below⟩
            outcome) :
    Runs engine subject
      ⟨testCode pattern ++ rest, executed,
        stringSlot bytes :: below⟩
      outcome := by
  unfold testCode
  apply Runs.of_step rfl
  apply Runs.of_step rfl
  cases pattern with
  | literal own =>
      rcases own with ⟨value, hNaN⟩
      cases value with
      | string other =>
          apply Runs.of_step rfl
          have hEq := hHolds (other == bytes) rfl
          rwa [Bool.beq_comm] at hEq
      | int value => cases hString
      | float bits => cases hString
      | signal value => cases hString
  | regex re =>
      cases hSearch : engine.search re bytes with
      | none =>
          rw [hRaised hSearch]
          apply Runs.of_end
          simp only [step, stringSlot, stringMatch, hSearch,
            Pattern.isRegex, if_true]
      | some holds =>
          apply Runs.of_step _ (hHolds holds hSearch)
          simp only [step, stringSlot, stringMatch, hSearch,
            Pattern.isRegex, if_true, List.append_eq,
            List.nil_append]

theorem labels_testCode (pattern : Pattern Re) :
    labels (testCode pattern : Code Re V) = [] :=
  rfl

/- The labels inside the tests of an arm. -/
theorem labels_armPatterns
    (arm index : Nat)
    (patterns : List (Pattern Re))
    {label : Label}
    (hMem :
      label ∈ labels (armPatterns arm index patterns : Code Re V)) :
    ∃ position, label = .next arm position := by
  induction patterns generalizing index with
  | nil => cases hMem
  | cons pattern patterns ih =>
      unfold armPatterns at hMem
      rw [labels_append, labels_append, labels_testCode,
        List.append_nil] at hMem
      rcases List.mem_append.mp hMem with hMem | hMem
      · by_cases hIndex : 0 < index
        · rw [if_pos hIndex] at hMem
          exact ⟨index, List.mem_singleton.mp hMem⟩
        · rw [if_neg hIndex] at hMem
          cases hMem
      · exact ih (index + 1) hMem

/- The result of the tests so far and of those to come. -/
def orHolds
    (holds : Bool)
    (engine : Engine Re V)
    (bytes : List UInt8)
    (patterns : List (Pattern Re)) : Option Bool :=
  if holds then
    some true
  else
    anyHolds engine (.string bytes) patterns

/- The tests behind the first one. -/
theorem tailPatterns_runs
    {arm index : Nat}
    {patterns : List (Pattern Re)}
    {rest : Code Re V}
    {outcome : Outcome Re V}
    (hString : ForStrings patterns)
    (hIndex : 0 < index)
    (holds : Bool)
    (hRaised :
      orHolds holds engine bytes patterns = none →
        outcome = .raised)
    (hHolds :
      ∀ result,
        orHolds holds engine bytes patterns = some result →
          Runs engine subject
            ⟨rest, executed,
              .bool result :: stringSlot bytes :: below⟩
            outcome) :
    Runs engine subject
      ⟨armPatterns arm index patterns ++
          .mark (.armMerge arm) :: rest,
        executed, .bool holds :: stringSlot bytes :: below⟩
      outcome := by
  induction patterns generalizing index holds with
  | nil =>
      apply Runs.of_mark
      apply hHolds holds
      cases holds with
      | true => rfl
      | false => rfl
  | cons pattern patterns ih =>
      unfold armPatterns
      rw [if_pos hIndex, List.append_assoc, List.append_assoc]
      cases holds with
      | true =>
          apply Runs.of_step rfl
          apply Runs.of_step rfl
          apply Runs.of_goto _ (hHolds true rfl)
          -- The jump passes over the remaining tests.
          have hNot :
              Label.armMerge arm ∉
                labels
                  (testCode pattern ++
                    armPatterns arm (index + 1) patterns :
                      Code Re V) := by
            rw [labels_append, labels_testCode, List.nil_append]
            intro hMem
            rcases labels_armPatterns arm (index + 1) patterns hMem
              with ⟨position, hEq⟩
            cases hEq
          have hJump := skipTo_label hNot rest
          rw [List.append_assoc] at hJump
          exact hJump
      | false =>
          have hTests :
              Runs engine subject
                ⟨testCode pattern ++
                    (armPatterns arm (index + 1) patterns ++
                      .mark (.armMerge arm) :: rest),
                  executed, stringSlot bytes :: below⟩
                outcome := by
            apply testCode_runs (hString pattern List.mem_cons_self)
            · intro hNone
              apply hRaised
              simp [orHolds, anyHolds, hNone]
            · intro found hFound
              apply ih
              · intro other hMem
                exact hString other (List.mem_cons_of_mem _ hMem)
              · exact Nat.succ_pos index
              · intro hNone
                apply hRaised
                cases found with
                | true => cases hNone
                | false =>
                    simp only [orHolds] at hNone ⊢
                    simpa [anyHolds, hFound] using hNone
              · intro result hResult
                apply hHolds
                cases found with
                | true =>
                    rcases hResult with ⟨⟩
                    simp [orHolds, anyHolds, hFound]
                | false =>
                    simp only [orHolds] at hResult ⊢
                    simpa [anyHolds, hFound] using hResult
          apply Runs.of_step _ hTests
          simp [step, jump, skipTo]

/- All tests of an arm. -/
theorem armPatterns_runs
    {arm : Nat}
    {patterns : List (Pattern Re)}
    {rest : Code Re V}
    {outcome : Outcome Re V}
    (hString : ForStrings patterns)
    (hNonempty : patterns ≠ [])
    (hRaised :
      anyHolds engine (.string bytes) patterns = none →
        outcome = .raised)
    (hHolds :
      ∀ result,
        anyHolds engine (.string bytes) patterns = some result →
          Runs engine subject
            ⟨rest, executed,
              .bool result :: stringSlot bytes :: below⟩
            outcome) :
    Runs engine subject
      ⟨armPatterns arm 0 patterns ++ .mark (.armMerge arm) :: rest,
        executed, stringSlot bytes :: below⟩
      outcome := by
  cases patterns with
  | nil => exact absurd rfl hNonempty
  | cons pattern patterns =>
      unfold armPatterns
      rw [if_neg (Nat.lt_irrefl 0), List.nil_append,
        List.append_assoc]
      apply testCode_runs (hString pattern List.mem_cons_self)
      · intro hNone
        apply hRaised
        simp [anyHolds, hNone]
      · intro found hFound
        have hEq :
            orHolds found engine bytes patterns =
              anyHolds engine (.string bytes)
                (pattern :: patterns) := by
          simp [orHolds, anyHolds, hFound]
        apply tailPatterns_runs
        · intro other hMem
          exact hString other (List.mem_cons_of_mem _ hMem)
        · exact Nat.succ_pos 0
        · rw [hEq]
          exact hRaised
        · rw [hEq]
          exact hHolds

end Tests

----
-- Arms
----

section Arms

variable
  {subject : Option Scalar}
  {bytes : List UInt8}
  {below unmatched : List (Slot Re V)}
  [DecidableEq T]

theorem labels_ifElseArms
    (type : T)
    (index : Nat)
    (arms : List (ArmNode pool Re V)) :
    Label.merge ∉ labels (ifElseArms type index arms) := by
  induction arms generalizing index with
  | nil => exact List.not_mem_nil
  | cons arm arms ih =>
      unfold ifElseArms
      rw [labels_append]
      intro hMem
      rcases List.mem_append.mp hMem with hMem | hMem
      · by_cases hDefault : arm.isDefault = true
        · rw [if_pos hDefault] at hMem
          cases hMem
        · rw [if_neg hDefault] at hMem
          unfold generateIfElseArm at hMem
          rw [labels_append] at hMem
          rcases List.mem_append.mp hMem with hMem | hMem
          · rcases labels_armPatterns index 0 arm.patternNodes
              hMem with ⟨position, hEq⟩
            cases hEq
          · simp [labels, armCode] at hMem
      · exact ih (index + 1) hMem

theorem labels_ifElseDefault
    (type : T)
    (arms : List (ArmNode pool Re V)) :
    labels (ifElseDefault type arms) = [] := by
  unfold ifElseDefault
  cases defaultIndex 0 arms with
  | none => rfl
  | some found => rfl

/-
  One arm of the chain: an error, the arm, or the code behind it
  with the subject still on the stack.
-/
theorem ifElseArm_ends
    {type : T}
    {index : Nat}
    {arm : ArmNode pool Re V}
    {rest : Code Re V}
    {result : Result V}
    (hString : ForStrings arm.patternNodes)
    (hDefault : arm.isDefault = false)
    (hMerge : Label.merge ∉ labels rest)
    (hRaised :
      anyHolds engine (.string bytes) arm.patternNodes = none →
        result = .raised)
    (hHolds :
      anyHolds engine (.string bytes) arm.patternNodes =
          some true →
        result = finish engine type index arm)
    (hFails :
      anyHolds engine (.string bytes) arm.patternNodes =
          some false →
        Ends engine subject
          ⟨rest ++ [.mark .merge], [], stringSlot bytes :: below⟩
          below unmatched result) :
    Ends engine subject
      ⟨generateIfElseArm type index arm ++
          (rest ++ [.mark .merge]),
        [], stringSlot bytes :: below⟩
      below unmatched result := by
  have hNonempty : arm.patternNodes ≠ [] := by
    intro hNil
    unfold ArmNode.isDefault at hDefault
    rw [hNil] at hDefault
    cases hDefault
  unfold generateIfElseArm
  rw [List.append_assoc]
  cases hAny :
    anyHolds engine (.string bytes) arm.patternNodes with
  | none =>
      rw [hRaised hAny]
      apply Exists.intro Outcome.raised
      constructor
      · apply armPatterns_runs hString hNonempty
        · exact fun _ => rfl
        · intro found hFound
          rw [hAny] at hFound
          cases hFound
      · rfl
  | some found =>
      cases found with
      | true =>
          rw [hHolds hAny]
          have hArm :
              Ends engine subject
                ⟨armCode type index arm ::
                    .ins (.GOTO .merge) ::
                      .mark (.armElse index) ::
                        (rest ++ [.mark .merge]),
                  [], below⟩
                below unmatched (finish engine type index arm) := by
            apply armCode_ends
            intro _ stack
            apply Runs.of_goto _ (Runs.of_nil [index] stack)
            have hJump := jump_merge hMerge
            unfold jump at hJump ⊢
            rw [skipTo, if_neg (by simp)]
            exact hJump
          apply hArm.of_runs
          intro outcome hRuns
          apply armPatterns_runs hString hNonempty
          · intro hNone
            rw [hAny] at hNone
            cases hNone
          · intro found hFound
            rw [hAny] at hFound
            rcases hFound with ⟨⟩
            apply Runs.of_step rfl
            exact Runs.of_step rfl hRuns
      | false =>
          apply (hFails hAny).of_runs
          intro outcome hRuns
          apply armPatterns_runs hString hNonempty
          · intro hNone
            rw [hAny] at hNone
            cases hNone
          · intro found hFound
            rw [hAny] at hFound
            rcases hFound with ⟨⟩
            apply Runs.of_step _ hRuns
            simp [step, jump, skipTo, armCode]

/- The arms of the chain, followed by the default arm. -/
theorem chain_ends
    {type : T}
    (index : Nat)
    {arms : List (ArmNode pool Re V)}
    {rest : Code Re V}
    {result : Result V}
    (hString : ∀ arm ∈ arms, ForStrings arm.patternNodes)
    (hMerge : Label.merge ∉ labels rest)
    (hRaised :
      selectArm engine (.string bytes) index arms = none →
        result = .raised)
    (hFound :
      ∀ position arm,
        selectArm engine (.string bytes) index arms =
            some (some (index + position)) →
          arms[position]? = some arm →
            result = finish engine type (index + position) arm)
    (hNone :
      selectArm engine (.string bytes) index arms = some none →
        Ends engine subject
          ⟨rest ++ [.mark .merge], [], stringSlot bytes :: below⟩
          below unmatched result) :
    Ends engine subject
      ⟨ifElseArms type index arms ++ (rest ++ [.mark .merge]), [],
        stringSlot bytes :: below⟩
      below unmatched result := by
  induction arms generalizing index with
  | nil => exact hNone rfl
  | cons arm arms ih =>
      have hStringArm := hString arm List.mem_cons_self
      -- What is left to do once this arm has not been chosen.
      have hNext :
          anyHolds engine (.string bytes) arm.patternNodes =
              some false →
            Ends engine subject
              ⟨ifElseArms type (index + 1) arms ++
                  (rest ++ [.mark .merge]),
                [], stringSlot bytes :: below⟩
              below unmatched result := by
        intro hFails
        have hSelect :
            selectArm engine (.string bytes) index
                (arm :: arms) =
              selectArm engine (.string bytes) (index + 1)
                arms := by
          simp [selectArm, hFails]
        rw [hSelect] at hRaised hNone
        apply ih (index + 1)
        · intro other hMem
          exact hString other (List.mem_cons_of_mem _ hMem)
        · exact hRaised
        · intro position other hSome hOther
          rw [Nat.add_assoc, Nat.add_comm 1 position] at hSome ⊢
          apply hFound (position + 1) other _ hOther
          rw [hSelect]
          exact hSome
        · exact hNone
      unfold ifElseArms
      by_cases hDefault : arm.isDefault = true
      · rw [if_pos hDefault, List.nil_append]
        apply hNext
        have hNil : arm.patternNodes = [] :=
          List.isEmpty_iff.mp hDefault
        rw [hNil]
        rfl
      · rw [if_neg hDefault, List.append_assoc]
        have hMergeRest :
            Label.merge ∉
              labels (ifElseArms type (index + 1) arms ++ rest) := by
          rw [labels_append]
          intro hMem
          rcases List.mem_append.mp hMem with hMem | hMem
          · exact labels_ifElseArms type (index + 1) arms hMem
          · exact hMerge hMem
        rw [← List.append_assoc (ifElseArms type (index + 1) arms)]
        apply ifElseArm_ends hStringArm
          (Bool.not_eq_true _ ▸ hDefault) hMergeRest
        · intro hAny
          apply hRaised
          simp [selectArm, hAny]
        · intro hAny
          have hSelect :
              selectArm engine (.string bytes) index
                  (arm :: arms) =
                some (some (index + 0)) := by
            simp [selectArm, hAny]
          exact hFound 0 arm hSelect rfl
        · intro hAny
          rw [List.append_assoc]
          exact hNext hAny

end Arms

end Case

end Ydsh
