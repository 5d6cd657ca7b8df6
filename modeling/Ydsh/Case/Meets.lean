import Ydsh.Case.Exact

/-
  When a case expression behaves as it reads.

  Main declarations:
    * `CaseNode.Plain`
    * `CaseNode.exact_of_plain`
    * `CaseNode.plain_of_exact`
    * `CaseNode.meets_iff`
-/

----
-- Plain Cases
----

namespace Ydsh

namespace Case

variable
  {T Re V : Type}
  {pool : TypePool T}
  {engine : Engine Re V}

namespace CaseNode

/-
  The patterns are no floats, and there are no regular
  expressions if the subject is an option.
-/
structure Plain (node : CaseNode pool Re V) : Prop where
  noFloat :
    ∀ pattern ∈ patternsOf node.armNodes,
      pattern.type ≠ .Float
  noRegex :
    node.exprType.isOption = true →
      ∀ pattern ∈ patternsOf node.armNodes,
        pattern.isRegex = false

variable [DecidableEq T]

/-
  The case is exact in every form the checker lets through, and
  duplicates are reported only where there are any.
-/
def Meets
    (engine : Engine Re V)
    (node : CaseNode pool Re V) : Prop :=
  (∀ kind, node.visitCaseNode = .ok kind →
      node.Exact engine kind) ∧
    node.Duplicates

theorem kindOf_map
    {patterns : List (Pattern Re)}
    (hKind : CaseKind.MAP = kindOf patterns) :
    ∀ pattern ∈ patterns, pattern.isRegex = false := by
  intro pattern hMem
  unfold kindOf at hKind
  by_cases hAny : patterns.any Pattern.isRegex = true
  · rw [if_pos hAny] at hKind
    cases hKind
  · cases hRegex : pattern.isRegex with
    | false => rfl
    | true =>
        exact absurd (List.any_eq_true.mpr ⟨pattern, hMem, hRegex⟩)
          hAny

theorem kindOf_ifElse
    {patterns : List (Pattern Re)}
    (hKind : CaseKind.IF_ELSE = kindOf patterns) :
    ∃ pattern ∈ patterns, pattern.isRegex = true := by
  unfold kindOf at hKind
  by_cases hAny : patterns.any Pattern.isRegex = true
  · exact List.any_eq_true.mp hAny
  · rw [if_neg hAny] at hKind
    cases hKind

/- A constant that is no float is its own key. -/
theorem isKey_of
    {pattern : Pattern Re}
    (hRegex : pattern.isRegex = false)
    (hFloat : pattern.type ≠ .Float) :
    IsKey pattern := by
  cases pattern with
  | regex re => cases hRegex
  | literal constant =>
      rcases constant with ⟨value, hNaN⟩
      cases value with
      | int number => exact ⟨_, rfl, rfl⟩
      | float bits => exact absurd rfl hFloat
      | signal number => exact ⟨_, rfl, rfl⟩
      | string bytes => exact ⟨_, rfl, rfl⟩

/- With a regular expression all patterns are for strings. -/
theorem forStrings_of
    {patterns : List (Pattern Re)}
    (hSame : SameType patterns)
    (hKind : CaseKind.IF_ELSE = kindOf patterns) :
    ForStrings patterns ∧ typeOf patterns = some .String := by
  rcases kindOf_ifElse hKind with ⟨regex, hRegex, hIs⟩
  have hType : regex.type = .String := by
    cases regex with
    | literal constant => cases hIs
    | regex re => rfl
  constructor
  · intro pattern hMem
    rw [hSame _ hMem _ hRegex, hType]
  · rw [typeOf_eq hSame hRegex, hType]

theorem exact_of_plain
    {node : CaseNode pool Re V}
    {kind : CaseKind}
    (hAccepted : node.Accepted kind)
    (hPlain : node.Plain) :
    node.Exact engine kind := by
  intro subject below hHas
  have hKind := hAccepted.kind_eq
  cases kind with
  | MAP =>
      refine ⟨_, rfl, ?_⟩
      apply Ends.exact
      apply map_exact hAccepted
      intro pattern hMem
      exact isKey_of (kindOf_map hKind pattern hMem)
        (hPlain.noFloat pattern hMem)
  | IF_ELSE =>
      rcases forStrings_of hAccepted.fine.same hKind with
        ⟨hStrings, hTypeOf⟩
      rcases hAccepted.element with ⟨type, hType, hElement⟩
      rw [hTypeOf] at hType
      rcases hType with ⟨⟩
      -- An option as the subject would exclude the tests.
      have hOption : node.exprType.isOption = false := by
        cases hIs : node.exprType.isOption with
        | false => rfl
        | true =>
            rcases kindOf_ifElse hKind with ⟨regex, hMem, hRegex⟩
            rw [hPlain.noRegex hIs regex hMem] at hRegex
            cases hRegex
      have hString :
          ∃ bytes, subject = some (.string bytes) := by
        cases hExpr : node.exprType with
        | plain found =>
            rw [hExpr] at hHas hElement
            rcases hElement with ⟨⟩
            rcases hHas with ⟨present, hPresent, hIs⟩
            cases present with
            | int number => cases hIs
            | float bits => cases hIs
            | signal number => cases hIs
            | string bytes => exact ⟨bytes, hPresent⟩
        | option found =>
            rw [hExpr] at hOption
            cases hOption
        | other =>
            rw [hExpr] at hElement
            cases hElement
      rcases hString with ⟨bytes, hSubject⟩
      subst hSubject
      refine ⟨generateIfElseCase node.type node.armNodes, ?_, ?_⟩
      · rw [compile, hOption]
        rfl
      · apply Ends.exact
        exact chain_exact hAccepted hStrings bytes below

----
-- Other Cases
----

/- The arms a run has executed. -/
def executedOf : Outcome Re V → List Nat
  | .done executed _ => executed
  | .left executed => executed
  | .raised => []
  | .stuck => []

theorem executedOf_finish
    {type : T}
    {index : Nat}
    {arm : ArmNode pool Re V}
    {below unmatched : List (Slot Re V)}
    {outcome : Outcome Re V}
    (hYields :
      Yields below unmatched outcome
        (finish engine type index arm)) :
    executedOf outcome = [index] := by
  unfold finish at hYields
  cases hCompletion : arm.actionNode.completion with
  | left | empty | value value =>
      rw [hCompletion] at hYields
      rw [hYields, executedOf]

/- What is run where nothing was selected. -/
theorem executedOf_default
    {type : T}
    {arms : List (ArmNode pool Re V)}
    {below unmatched : List (Slot Re V)}
    {outcome : Outcome Re V}
    {index : Nat}
    (hYields :
      Yields below unmatched outcome
        (finishFound engine type arms none))
    (hExecuted : executedOf outcome = [index]) :
    ∃ arm, arms[index]? = some arm ∧ arm.isDefault = true := by
  unfold finishFound at hYields
  cases hDefault : arms.findIdx? ArmNode.isDefault with
  | none =>
      rw [hDefault] at hYields
      have hEq : outcome = .done [] unmatched := hYields
      rw [hEq] at hExecuted
      cases hExecuted
  | some position =>
      rcases findDefault_split hDefault with
        ⟨before, arm, after, hArms, hPosition, hArm, _⟩
      subst hArms
      simp only [hDefault] at hYields
      rw [hPosition, finishAt_append] at hYields
      rw [executedOf_finish hYields] at hExecuted
      rcases hExecuted with ⟨⟩
      refine ⟨arm, ?_, hArm⟩
      rw [List.getElem?_append_right (Nat.le_refl _), Nat.sub_self]
      rfl

/- A float is no key of a table. -/
omit [DecidableEq T] in
theorem find_float
    (bits : BitVec 64)
    (index : Nat)
    (arms : List (ArmNode pool Re V))
    (hFloat :
      ∀ pattern ∈ patternsOf arms, pattern.type = .Float) :
    MapObject.find (.float bits) (entriesOf index arms) = none := by
  induction arms generalizing index with
  | nil => rfl
  | cons arm arms ih =>
      rw [entriesOf, find_append,
        ih (index + 1)
          (fun pattern hMem => hFloat pattern
            (List.mem_append_right _ hMem)),
        Option.or_none]
      unfold MapObject.find
      rw [Option.map_eq_none_iff, List.find?_eq_none]
      intro entry hEntry hEquals
      rcases List.mem_map.mp hEntry with ⟨constant, hMem, hEq⟩
      have hType : constant.type = .Float :=
        hFloat (.literal constant)
          (List.mem_append_left _ (mem_literalsOf.mp hMem))
      rw [← hEq] at hEquals
      rcases constant with ⟨value, hNaN⟩
      cases value with
      | int number => cases hType
      | float own => cases hEquals
      | signal number => cases hType
      | string bytes => cases hType

theorem anyHolds_self
    {constant : Literal}
    {patterns : List (Pattern Re)}
    (hMem : Pattern.literal constant ∈ patterns)
    (hRegex : ∀ pattern ∈ patterns, pattern.isRegex = false) :
    anyHolds engine constant.value patterns = some true := by
  induction patterns with
  | nil => cases hMem
  | cons pattern patterns ih =>
      cases pattern with
      | regex re =>
          have hNot := hRegex _ List.mem_cons_self
          cases hNot
      | literal own =>
          unfold anyHolds
          cases hEquals : own.value.equals constant.value with
          | true => simp [Pattern.holds, hEquals]
          | false =>
              have hTail : Pattern.literal constant ∈ patterns := by
                rcases List.mem_cons.mp hMem with hHead | hTail
                · rcases hHead with ⟨⟩
                  rw [constant.equals_self] at hEquals
                  cases hEquals
                · exact hTail
              have hRest :=
                ih hTail
                  (fun other hOther => hRegex other
                    (List.mem_cons_of_mem _ hOther))
              simp [Pattern.holds, hEquals, hRest]

/- Without regular expressions no test raises an error. -/
theorem anyHolds_isSome
    (engine : Engine Re V)
    (value : Scalar)
    {patterns : List (Pattern Re)}
    (hRegex : ∀ pattern ∈ patterns, pattern.isRegex = false) :
    ∃ holds, anyHolds engine value patterns = some holds := by
  induction patterns with
  | nil => exact ⟨false, rfl⟩
  | cons pattern patterns ih =>
      rcases ih (fun other hOther =>
        hRegex other (List.mem_cons_of_mem _ hOther)) with
        ⟨holds, hHolds⟩
      cases pattern with
      | regex re =>
          have hNot := hRegex _ List.mem_cons_self
          cases hNot
      | literal own =>
          unfold anyHolds
          cases hEquals : own.value.equals value with
          | true =>
              exact ⟨true, by simp [Pattern.holds, hEquals]⟩
          | false =>
              exact ⟨holds, by
                simp [Pattern.holds, hEquals, hHolds]⟩

/- Some arm is selected for a value that is a pattern. -/
omit [DecidableEq T] in
theorem selectArm_self
    (engine : Engine Re V)
    {constant : Literal}
    (index : Nat)
    {arms : List (ArmNode pool Re V)}
    (hMem : Pattern.literal constant ∈ patternsOf arms)
    (hRegex :
      ∀ pattern ∈ patternsOf arms, pattern.isRegex = false) :
    ∃ position,
      selectArm engine constant.value index arms =
        some (some position) := by
  induction arms generalizing index with
  | nil => cases hMem
  | cons arm arms ih =>
      unfold selectArm
      have hRegexArm :
          ∀ pattern ∈ arm.patternNodes,
            pattern.isRegex = false :=
        fun pattern hPattern =>
          hRegex pattern (List.mem_append_left _ hPattern)
      rcases List.mem_append.mp hMem with hHere | hLater
      · rw [anyHolds_self hHere hRegexArm]
        exact ⟨index, rfl⟩
      · rcases ih (index + 1) hLater
          (fun pattern hPattern =>
            hRegex pattern (List.mem_append_right _ hPattern))
          with ⟨position, hPosition⟩
        rcases anyHolds_isSome engine constant.value hRegexArm with
          ⟨holds, hHolds⟩
        rw [hHolds]
        cases holds with
        | true => exact ⟨index, rfl⟩
        | false => exact ⟨position, hPosition⟩

theorem float_value
    {constant : Literal}
    (hType : constant.type = .Float) :
    ∃ bits, constant.value = .float bits := by
  rcases constant with ⟨value, hNaN⟩
  cases value with
  | int number => cases hType
  | float bits => exact ⟨bits, rfl⟩
  | signal number => cases hType
  | string bytes => cases hType

/- A case with floats misses the arm of its first pattern. -/
theorem noFloat_of_exact
    {node : CaseNode pool Re V}
    {kind : CaseKind}
    (hAccepted : node.Accepted kind)
    (hExact : node.Exact engine kind) :
    ∀ pattern ∈ patternsOf node.armNodes,
      pattern.type ≠ .Float := by
  intro pattern hMem hFloat
  have hSame := hAccepted.fine.same
  have hAll :
      ∀ other ∈ patternsOf node.armNodes,
        other.type = .Float := by
    intro other hOther
    rw [hSame _ hOther _ hMem, hFloat]
  have hRegex :
      ∀ other ∈ patternsOf node.armNodes,
        other.isRegex = false := by
    intro other hOther
    cases other with
    | literal constant => rfl
    | regex re =>
        have hType := hAll _ hOther
        cases hType
  cases pattern with
  | regex re => cases hFloat
  | literal constant =>
      rcases hAccepted.element with ⟨type, hTypeOf, hElement⟩
      rw [typeOf_eq hSame hMem, hFloat] at hTypeOf
      rcases hTypeOf with ⟨⟩
      have hHas : node.exprType.Has (some constant.value) := by
        cases hExpr : node.exprType with
        | plain found =>
            rw [hExpr] at hElement
            rcases hElement with ⟨⟩
            exact ⟨constant.value, rfl, hFloat⟩
        | option found =>
            rw [hExpr] at hElement
            rcases hElement with ⟨⟩
            rintro present ⟨⟩
            exact hFloat
        | other =>
            rw [hExpr] at hElement
            cases hElement
      rcases hExact (some constant.value) [] hHas with
        ⟨code, hCode, hYields⟩
      have hMap : kind = .MAP := by
        cases kind with
        | MAP => rfl
        | IF_ELSE =>
            rcases kindOf_ifElse hAccepted.kind_eq with
              ⟨regex, hOther, hIs⟩
            rw [hRegex regex hOther] at hIs
            cases hIs
      subst hMap
      rcases hCode with ⟨⟩
      rcases float_value hFloat with ⟨bits, hBits⟩
      have hMisses :
          Ends engine (some constant.value)
            ⟨generateMapCase node.type node.armNodes, [], []⟩ [] []
            (finishFound engine node.type node.armNodes none) := by
        apply map_ends hAccepted.fits
        · rw [caseTable_eq hAccepted.fine, hBits]
          exact find_float bits 0 node.armNodes hAll
        · intro index hEq
          cases hEq
      rcases selectArm_self engine 0 hMem hRegex with
        ⟨position, hSelect⟩
      have hRun :=
        hYields
          ((generateMapCase node.type node.armNodes).length + 1)
          (Nat.lt_succ_self _)
      have hRun' := hMisses.exact _ (Nat.lt_succ_self _)
      unfold meaning select at hRun
      simp only [hSelect, finishFound] at hRun
      rcases selectArm_split hSelect with
        ⟨before, arm, after, hArms, hPosition, hDefault⟩
      rw [Nat.zero_add] at hPosition
      rw [hPosition, hArms, finishAt_append] at hRun
      rw [hArms] at hRun'
      have hExecuted := executedOf_finish hRun
      rcases executedOf_default hRun' hExecuted with
        ⟨found, hFound, hIs⟩
      rw [List.getElem?_append_right (Nat.le_refl _),
        Nat.sub_self] at hFound
      rcases hFound with ⟨⟩
      rw [hDefault] at hIs
      cases hIs

theorem plain_of_exact
    {node : CaseNode pool Re V}
    {kind : CaseKind}
    (hAccepted : node.Accepted kind)
    (hExact : node.Exact engine kind) :
    node.Plain where
  noFloat := noFloat_of_exact hAccepted hExact
  noRegex := by
    intro hOption pattern hMem
    cases hRegex : pattern.isRegex with
    | false => rfl
    | true =>
        exfalso
        have hKind : kind = .IF_ELSE := by
          rw [hAccepted.kind_eq, kindOf, if_pos]
          exact List.any_eq_true.mpr ⟨pattern, hMem, hRegex⟩
        have hHas : node.exprType.Has none := by
          cases hExpr : node.exprType with
          | plain found | other =>
              rw [hExpr] at hOption
              cases hOption
          | option found =>
              rintro present ⟨⟩
        rcases hExact none [] hHas with ⟨code, hCode, _⟩
        rw [hKind, compile, if_pos hOption] at hCode
        cases hCode

/-
  A case behaves as it reads if and only if it is plain, once
  it is accepted, and none of its strings clash in the set of
  the checker.
-/
theorem meets_iff
    (engine : Engine Re V)
    (node : CaseNode pool Re V) :
    node.Meets engine ↔
      (∀ kind, node.visitCaseNode = .ok kind → node.Plain) ∧
        node.NoClash := by
  unfold Meets
  rw [node.duplicates_iff]
  constructor
  · rintro ⟨hExact, hClear⟩
    refine ⟨?_, hClear⟩
    intro kind hVisit
    exact plain_of_exact (visitCaseNode_ok hVisit)
      (hExact kind hVisit)
  · rintro ⟨hPlain, hClear⟩
    refine ⟨?_, hClear⟩
    intro kind hVisit
    exact exact_of_plain (visitCaseNode_ok hVisit)
      (hPlain kind hVisit)

end CaseNode

----
-- Strings with Zero Bytes
----

def stringLiteral (bytes : List UInt8) : Literal :=
  { value := .string bytes
    notNaN := by
      intro bits hEq
      cases hEq }

/- No types but the three the checker knows by name. -/
def threeTypes : TypePool (Option Bool) :=
  { void := none
    nothing := some false
    boolean := some true
    isSameOrBaseTypeOf := fun type other => type == other
    isOptionType := fun _ => false
    hasBoolMethod := fun _ => false
    nothing_below := fun _ hEq => (beq_iff_eq.mp hEq).symm
    nothing_ne_void := by decide
    nothing_ne_boolean := by decide }

/- An arm that does nothing. -/
def emptyArm
    (patterns : List (Pattern Unit)) :
    ArmNode threeTypes Unit Unit :=
  { patternNodes := patterns
    actionNode :=
      { type := none
        completion := .empty
        leaves := by
          intro hType
          cases hType
        isEmpty := by
          intro _ value hEq
          cases hEq
        hasValue := fun hType => absurd rfl hType } }

def noMatches : Engine Unit Unit :=
  { search := fun _ _ => some false
    unwraps := id
    toBool := id }

/- Two strings that differ behind a zero byte only. -/
def zeroByteCase : CaseNode threeTypes Unit Unit :=
  { exprType := .plain .String
    armNodes :=
      [emptyArm [.literal (stringLiteral [0x61, 0, 0x62])],
        emptyArm [.literal (stringLiteral [0x61, 0, 0x63])]] }

theorem not_meets_zeroByte : ¬ zeroByteCase.Meets noMatches := by
  rintro ⟨_, hDuplicates⟩
  rcases (hDuplicates
    [emptyArm [.literal (stringLiteral [0x61, 0, 0x62])]]
    (emptyArm [.literal (stringLiteral [0x61, 0, 0x63])]) []
    rfl).2 [] (.literal (stringLiteral [0x61, 0, 0x63])) [] rfl
    rfl with ⟨constant, earlier, hConstant, hMem, hEquals⟩
  rcases hConstant with ⟨⟩
  rcases List.mem_singleton.mp hMem with ⟨⟩
  exact absurd hEquals (by decide)

end Case

end Ydsh
