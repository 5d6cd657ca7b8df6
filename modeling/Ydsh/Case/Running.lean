import Ydsh.Case.Meaning

/-
  Running the two forms.

  Main declarations:
    * `Runs`
-/

----
-- Runs
----

namespace Ydsh

namespace Case

open Library.ForwardCode

variable
  {T Re V : Type}
  {pool : TypePool T}

section Runs

variable
  {engine : Engine Re V}
  {subject : Option Scalar}

/- The run ends so, with as much fuel as there is code. -/
def Runs
    (engine : Engine Re V)
    (subject : Option Scalar)
    (config : Config Re V)
    (outcome : Outcome Re V) : Prop :=
  ∀ fuel,
    config.code.length < fuel →
      run engine subject fuel config = outcome

theorem jump_length
    {label : Label}
    {code rest : Code Re V}
    (hJump : jump label code = some rest) :
    rest.length ≤ code.length :=
  Nat.le_of_lt (skipTo_length hJump)

/- No instruction goes back. -/
theorem step_length
    {ins : Ins Re V}
    {code : Code Re V}
    {executed : List Nat}
    {stack : List (Slot Re V)}
    {config : Config Re V}
    (hStep :
      step engine subject ins code executed stack =
        .inr config) :
    config.code.length ≤ code.length := by
  unfold step at hStep
  split at hStep
  case h_3 =>
      split at hStep
      · rcases hStep with ⟨⟩
        exact Nat.le_refl _
      · split at hStep
        · cases hStep
        · rename_i hJump
          rcases hStep with ⟨⟩
          exact jump_length hJump
  case h_4 =>
      split at hStep
      · cases hStep
      · rename_i hJump
        rcases hStep with ⟨⟩
        exact jump_length hJump
  case h_5 =>
      split at hStep
      · rcases hStep with ⟨⟩
        exact Nat.le_refl _
      · split at hStep
        · cases hStep
        · rename_i hJump
          rcases hStep with ⟨⟩
          exact jump_length hJump
  all_goals
    first
    | (rcases hStep with ⟨⟩; exact Nat.le_refl _)
    | (split at hStep <;> rcases hStep with ⟨⟩ <;>
        exact Nat.le_refl _)
    | cases hStep

namespace Runs

theorem of_nil
    (executed : List Nat)
    (stack : List (Slot Re V)) :
    Runs engine subject ⟨[], executed, stack⟩
      (.done executed stack) := by
  intro fuel hFuel
  cases fuel with
  | zero => cases hFuel
  | succ fuel => rfl

theorem of_mark
    {label : Label}
    {code : Code Re V}
    {executed : List Nat}
    {stack : List (Slot Re V)}
    {outcome : Outcome Re V}
    (hRuns : Runs engine subject ⟨code, executed, stack⟩ outcome) :
    Runs engine subject ⟨.mark label :: code, executed, stack⟩
      outcome := by
  intro fuel hFuel
  cases fuel with
  | zero => cases hFuel
  | succ fuel => exact hRuns fuel (Nat.lt_of_succ_lt_succ hFuel)

theorem of_step
    {ins : Ins Re V}
    {code : Code Re V}
    {executed : List Nat}
    {stack : List (Slot Re V)}
    {config : Config Re V}
    {outcome : Outcome Re V}
    (hStep :
      step engine subject ins code executed stack =
        .inr config)
    (hRuns : Runs engine subject config outcome) :
    Runs engine subject ⟨.ins ins :: code, executed, stack⟩
      outcome := by
  intro fuel hFuel
  cases fuel with
  | zero => cases hFuel
  | succ fuel =>
      unfold run
      simp only [hStep]
      apply hRuns fuel
      exact Nat.lt_of_le_of_lt (step_length hStep)
        (Nat.lt_of_succ_lt_succ hFuel)

theorem of_end
    {ins : Ins Re V}
    {code : Code Re V}
    {executed : List Nat}
    {stack : List (Slot Re V)}
    {outcome : Outcome Re V}
    (hStep :
      step engine subject ins code executed stack =
        .inl outcome) :
    Runs engine subject ⟨.ins ins :: code, executed, stack⟩
      outcome := by
  intro fuel hFuel
  cases fuel with
  | zero => cases hFuel
  | succ fuel =>
      unfold run
      simp only [hStep]

theorem of_goto
    {label : Label}
    {code rest : Code Re V}
    {executed : List Nat}
    {stack : List (Slot Re V)}
    {outcome : Outcome Re V}
    (hJump : jump label code = some rest)
    (hRuns : Runs engine subject ⟨rest, executed, stack⟩ outcome) :
    Runs engine subject
      ⟨.ins (.GOTO label) :: code, executed, stack⟩
      outcome := by
  apply of_step _ hRuns
  simp only [step, hJump]

end Runs

/- The run ends as the case does. -/
def Ends
    (engine : Engine Re V)
    (subject : Option Scalar)
    (config : Config Re V)
    (below unmatched : List (Slot Re V))
    (result : Result V) : Prop :=
  ∃ outcome,
    Runs engine subject config outcome ∧
      Yields below unmatched outcome result

theorem Ends.of_runs
    {config config' : Config Re V}
    {below unmatched : List (Slot Re V)}
    {result : Result V}
    (hEnds : Ends engine subject config below unmatched result)
    (hRuns :
      ∀ outcome,
        Runs engine subject config outcome →
          Runs engine subject config' outcome) :
    Ends engine subject config' below unmatched result := by
  rcases hEnds with ⟨outcome, hOutcome, hYields⟩
  exact ⟨outcome, hRuns outcome hOutcome, hYields⟩

end Runs

section Forms

variable
  {engine : Engine Re V}
  {unmatched : List (Slot Re V)}
  {subject : Option Scalar}
  [DecidableEq T]

/- The expression of an arm, followed by code that ends. -/
theorem armCode_ends
    {type : T}
    {index : Nat}
    {arm : ArmNode pool Re V}
    {rest : Code Re V}
    {below : List (Slot Re V)}
    (hRest :
      arm.actionNode.completion ≠ .left →
        ∀ stack,
          Runs engine subject ⟨rest, [index], stack⟩
            (.done [index] stack)) :
    Ends engine subject ⟨armCode type index arm :: rest, [], below⟩
      below unmatched (finish engine type index arm) := by
  unfold armCode finish
  cases hCompletion : arm.actionNode.completion with
  | left =>
      exact ⟨.left [index], Runs.of_end rfl, rfl⟩
  | empty =>
      have hDone := hRest (by rw [hCompletion]; simp) below
      exact ⟨_, Runs.of_step rfl hDone, rfl⟩
  | value value =>
      have hDone :=
        hRest (by rw [hCompletion]; simp)
          (pushResult
            (coerce engine value
              (resolveCoercion pool type arm.actionNode.type))
            below)
      exact ⟨_, Runs.of_step rfl hDone, rfl⟩

/- An arm of a case that never completes does not either. -/
theorem left_of_nothing
    {type : T}
    {arm : ArmNode pool Re V}
    (hType : type = pool.nothing)
    (hFits : accepts pool type arm.actionNode.type = true) :
    arm.actionNode.completion = .left := by
  apply arm.actionNode.leaves
  apply pool.nothing_below
  rw [hType] at hFits
  unfold accepts checkCoercion at hFits
  rw [if_neg pool.nothing_ne_void,
    decide_eq_false pool.nothing_ne_boolean] at hFits
  simpa using hFits

----
-- Arms Behind a Table
----

/- The label in front of an arm. -/
def armLabel
    (index : Nat)
    (arm : ArmNode pool Re V) : Label :=
  if arm.isDefault then .els else .arm index

theorem labels_mapCaseArms
    (type : T)
    (index : Nat)
    (arms : List (ArmNode pool Re V)) :
    Label.merge ∉ labels (mapCaseArms type index arms) := by
  induction arms generalizing index with
  | nil => exact List.not_mem_nil
  | cons arm arms ih =>
      unfold mapCaseArms
      rw [labels_append]
      intro hMem
      rcases List.mem_append.mp hMem with hMem | hMem
      · by_cases hIndex : 0 < index ∧ type ≠ pool.nothing
        · rw [if_pos hIndex] at hMem
          cases hMem
        · rw [if_neg hIndex] at hMem
          cases hMem
      · rcases List.mem_cons.mp hMem with hEq | hMem
        · by_cases hDefault : arm.isDefault = true
          · rw [if_pos hDefault] at hEq
            cases hEq
          · rw [if_neg hDefault] at hEq
            cases hEq
        · exact ih (index + 1) hMem

/- The jump between two arms has no label. -/
theorem jump_goto
    (label : Label)
    (condition : Prop)
    [Decidable condition]
    (code : Code Re V) :
    jump label
        ((if condition then [.ins (.GOTO .merge)] else []) ++
          code) =
      jump label code := by
  by_cases hCondition : condition
  · rw [if_pos hCondition]
    rfl
  · rw [if_neg hCondition]
    rfl

/- A jump to an arm passes over those before it. -/
theorem jump_mapCaseArms
    (type : T)
    (index : Nat)
    (label : Label)
    (before : List (ArmNode pool Re V))
    (arm : ArmNode pool Re V)
    (after : List (ArmNode pool Re V))
    (rest : Code Re V)
    (hBefore :
      ∀ position earlier,
        before[position]? = some earlier →
          armLabel (index + position) earlier ≠ label)
    (hLabel : armLabel (index + before.length) arm = label) :
    jump label
        (mapCaseArms type index (before ++ arm :: after) ++
          rest) =
      some
        (armCode type (index + before.length) arm ::
          (mapCaseArms type (index + before.length + 1) after ++
            rest)) := by
  induction before generalizing index with
  | nil =>
      rw [List.nil_append, mapCaseArms, List.append_assoc,
        jump_goto]
      unfold armLabel at hLabel
      simp only [List.length_nil, Nat.add_zero] at hLabel ⊢
      rw [hLabel]
      exact skipTo_mark label _
  | cons first before ih =>
      have hFirst := hBefore 0 first rfl
      rw [Nat.add_zero] at hFirst
      unfold armLabel at hFirst
      rw [List.cons_append, mapCaseArms, List.append_assoc,
        jump_goto]
      simp only [List.cons_append, jump, skipTo, armCode]
      rw [if_neg hFirst]
      have hRest := ih (index + 1)
      have hShift :
          index + 1 + before.length =
            index + (first :: before).length := by
        rw [List.length_cons]
        omega
      rw [hShift] at hRest
      apply hRest
      · intro position earlier hEarlier
        have hNext := hBefore (position + 1) earlier hEarlier
        rwa [show index + (position + 1) = index + 1 + position by
          omega] at hNext
      · exact hLabel

theorem jump_merge
    {code : Code Re V}
    (hNot : Label.merge ∉ labels code) :
    jump .merge (code ++ [.mark .merge]) = some [] :=
  skipTo_label hNot []

/- Behind an arm that completes, the others are jumped over. -/
theorem mapRest_runs
    {type : T}
    (hType : type ≠ pool.nothing)
    (index : Nat)
    (after : List (ArmNode pool Re V))
    (executed : List Nat)
    (stack : List (Slot Re V)) :
    Runs engine subject
      ⟨mapCaseArms type (index + 1) after ++ [.mark .merge],
        executed, stack⟩
      (.done executed stack) := by
  cases after with
  | nil => exact Runs.of_mark (Runs.of_nil executed stack)
  | cons arm after =>
      unfold mapCaseArms
      rw [if_pos ⟨Nat.succ_pos index, hType⟩]
      apply Runs.of_goto _ (Runs.of_nil executed stack)
      have hNot := labels_mapCaseArms type (index + 1) (arm :: after)
      unfold mapCaseArms at hNot
      rw [if_pos ⟨Nat.succ_pos index, hType⟩] at hNot
      exact jump_merge hNot

/- From the label of an arm to the end of the case. -/
theorem mapArm_ends
    {type : T}
    (index : Nat)
    {arm : ArmNode pool Re V}
    (after : List (ArmNode pool Re V))
    (hFits : accepts pool type arm.actionNode.type = true)
    (below : List (Slot Re V)) :
    Ends engine subject
      ⟨armCode type index arm ::
          (mapCaseArms type (index + 1) after ++ [.mark .merge]),
        [], below⟩
      below unmatched (finish engine type index arm) := by
  apply armCode_ends
  intro hCompletes stack
  apply mapRest_runs
  intro hType
  exact hCompletes (left_of_nothing hType hFits)

/- The table and the subject, up to the lookup. -/
theorem mapLookup_runs
    {type : T}
    {arms : List (ArmNode pool Re V)}
    {below : List (Slot Re V)}
    {config : Config Re V}
    {outcome : Outcome Re V}
    (hLookup :
      step engine subject .LOOKUP_HASH
          (.ins
              (.GOTO
                (if arms.any ArmNode.isDefault then
                    .els
                  else .merge)) ::
            (mapCaseArms type 0 arms ++ [.mark .merge]))
          []
          (.subject subject :: .map (caseTable 0 arms []) ::
            below) =
        .inr config)
    (hRuns : Runs engine subject config outcome) :
    Runs engine subject
      ⟨generateMapCase type arms, [], below⟩ outcome := by
  unfold generateMapCase
  apply Runs.of_step rfl
  apply Runs.of_step rfl
  exact Runs.of_step hLookup hRuns

/- The key is found in the table. -/
theorem map_hit
    {type : T}
    {before : List (ArmNode pool Re V)}
    {arm : ArmNode pool Re V}
    {after : List (ArmNode pool Re V)}
    (hFits : accepts pool type arm.actionNode.type = true)
    (hDefault : arm.isDefault = false)
    (hFind :
      (subject.bind fun key =>
          MapObject.find key
            (caseTable 0 (before ++ arm :: after) [])) =
        some (.arm before.length))
    (below : List (Slot Re V)) :
    Ends engine subject
      ⟨generateMapCase type (before ++ arm :: after), [], below⟩
      below unmatched (finish engine type before.length arm) := by
  apply (mapArm_ends before.length after hFits below).of_runs
  intro outcome hRuns
  apply mapLookup_runs _ hRuns
  have hJump :=
    jump_mapCaseArms type 0 (.arm before.length) before arm after
      [.mark .merge]
  rw [Nat.zero_add] at hJump
  unfold step
  simp only [hFind]
  have hTarget :
      jump (.arm before.length)
          (.ins
              (.GOTO
                (if
                    (before ++ arm :: after).any
                      ArmNode.isDefault then
                    .els
                  else .merge)) ::
            (mapCaseArms type 0 (before ++ arm :: after) ++
              [.mark .merge])) =
        some
          (armCode type before.length arm ::
            (mapCaseArms type (before.length + 1) after ++
              [.mark .merge])) := by
    apply hJump
    · intro position earlier hEarlier
      unfold armLabel
      by_cases hEls : earlier.isDefault = true
      · rw [if_pos hEls]
        simp
      · rw [if_neg hEls]
        have hLt := (List.getElem?_eq_some_iff.mp hEarlier).1
        simp only [ne_eq, Label.arm.injEq]
        omega
    · unfold armLabel
      rw [hDefault]
      rfl
  rw [hTarget]

/- The key is not there, and there is a default arm. -/
theorem map_default
    {type : T}
    {before : List (ArmNode pool Re V)}
    {arm : ArmNode pool Re V}
    {after : List (ArmNode pool Re V)}
    (hFits : accepts pool type arm.actionNode.type = true)
    (hBefore : ∀ earlier ∈ before, earlier.isDefault = false)
    (hDefault : arm.isDefault = true)
    (hFind :
      (subject.bind fun key =>
          MapObject.find key
            (caseTable 0 (before ++ arm :: after) [])) =
        none)
    (below : List (Slot Re V)) :
    Ends engine subject
      ⟨generateMapCase type (before ++ arm :: after), [], below⟩
      below unmatched (finish engine type before.length arm) := by
  apply (mapArm_ends before.length after hFits below).of_runs
  intro outcome hRuns
  have hAny :
      (before ++ arm :: after).any ArmNode.isDefault = true := by
    rw [List.any_append, List.any_cons, hDefault, Bool.true_or,
      Bool.or_true]
  apply mapLookup_runs
  · unfold step
    simp only [hFind]
    rfl
  · have hJump :=
      jump_mapCaseArms type 0 .els before arm after
        [.mark .merge]
    rw [Nat.zero_add] at hJump
    rw [hAny, if_pos rfl]
    apply Runs.of_goto _ hRuns
    apply hJump
    · intro position earlier hEarlier
      have hMem := List.mem_of_getElem? hEarlier
      unfold armLabel
      rw [hBefore earlier hMem]
      simp
    · unfold armLabel
      rw [hDefault]
      rfl

/- The key is not there, and neither is a default arm. -/
theorem map_nothing
    {type : T}
    {arms : List (ArmNode pool Re V)}
    (hNone : arms.any ArmNode.isDefault = false)
    (hFind :
      (subject.bind fun key =>
          MapObject.find key (caseTable 0 arms [])) =
        none)
    (below : List (Slot Re V)) :
    Runs engine subject ⟨generateMapCase type arms, [], below⟩
      (.done [] below) := by
  apply mapLookup_runs
  · unfold step
    simp only [hFind]
    rfl
  · rw [hNone]
    apply Runs.of_goto _ (Runs.of_nil [] below)
    exact jump_merge (labels_mapCaseArms type 0 arms)

end Forms

end Case

end Ydsh
