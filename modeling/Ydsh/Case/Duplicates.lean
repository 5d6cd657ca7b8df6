import Ydsh.Case.Collecting
import Ydsh.Case.Meaning
import Mathlib.Data.List.Nodup
import Mathlib.Tactic.SplitIfs

/-
  When a pattern is reported as a duplicate.

  The checker walks the arms as long as their patterns have one
  type, no constant is in the set already and there is one
  default arm at most.

  Main declarations:
    * `CaseNode.NoClash`
    * `Fine`
    * `checkArms_fine`, `checkArms_error`
    * `CaseNode.visitCaseNode_ok`
    * `CaseNode.duplicates_iff`
-/

----
-- Arms
----

namespace Ydsh

namespace Case

variable
  {T Re V : Type}
  {pool : TypePool T}

def patternsOf
    (arms : List (ArmNode pool Re V)) : List (Pattern Re) :=
  arms.flatMap ArmNode.patternNodes

theorem patternsOf_snoc
    (arms : List (ArmNode pool Re V))
    (arm : ArmNode pool Re V) :
    patternsOf (arms ++ [arm]) =
      patternsOf arms ++ arm.patternNodes := by
  simp [patternsOf]

def armsCollector
    (arms : List (ArmNode pool Re V)) : Collector :=
  collectorOf (patternsOf arms) (literalsOf (patternsOf arms))
    (arms.any ArmNode.isDefault)

/- The checker finds nothing wrong with these arms. -/
structure Fine (arms : List (ArmNode pool Re V)) : Prop where
  same : SameType (patternsOf arms)
  distinct : (setKeys (literalsOf (patternsOf arms))).Nodup
  oneElse : arms.countP ArmNode.isDefault ≤ 1

theorem Fine.of_append
    {arms arms' : List (ArmNode pool Re V)}
    (hFine : Fine (arms ++ arms')) :
    Fine arms where
  same := by
    apply hFine.same.sublist
    intro pattern hMem
    rw [patternsOf, List.flatMap_append]
    exact List.mem_append_left _ hMem
  distinct := by
    have hDistinct := hFine.distinct
    rw [patternsOf, List.flatMap_append, literalsOf_append,
      setKeys, List.map_append, List.nodup_append] at hDistinct
    exact hDistinct.1
  oneElse := by
    have hElse := hFine.oneElse
    rw [List.countP_append] at hElse
    omega

theorem any_of_countP
    {arms : List (ArmNode pool Re V)} :
    arms.any ArmNode.isDefault = true ↔
      0 < arms.countP ArmNode.isDefault := by
  rw [List.any_eq_true, List.countP_pos_iff]

theorem countP_snoc
    (arms : List (ArmNode pool Re V))
    (arm : ArmNode pool Re V) :
    (arms ++ [arm]).countP ArmNode.isDefault =
      arms.countP ArmNode.isDefault +
        if arm.isDefault = true then 1 else 0 := by
  rw [List.countP_append, List.countP_singleton]

/- The default arm is new, or this is none. -/
theorem checkElse_ok
    (index : Nat)
    {arms : List (ArmNode pool Re V)}
    {arm : ArmNode pool Re V}
    (hElse :
      ¬ (arm.isDefault = true ∧
          arms.any ArmNode.isDefault = true)) :
    checkElse index arm.patternNodes (armsCollector arms) =
      .ok
        (collectorOf (patternsOf arms)
          (literalsOf (patternsOf arms))
          ((arms ++ [arm]).any ArmNode.isDefault)) := by
  unfold checkElse armsCollector collectorOf
  by_cases hDefault : arm.isDefault = true
  · have hNone : arms.any ArmNode.isDefault = false := by
      cases hAny : arms.any ArmNode.isDefault with
      | false => rfl
      | true => exact absurd ⟨hDefault, hAny⟩ hElse
    have hEmpty : arm.patternNodes.isEmpty = true := hDefault
    simp [hEmpty, hNone, hDefault]
  · have hEmpty : arm.patternNodes.isEmpty = false :=
      Bool.not_eq_true _ ▸ hDefault
    simp [hEmpty, hDefault]

theorem checkPatternType_ok
    (index : Nat)
    {arms : List (ArmNode pool Re V)}
    {arm : ArmNode pool Re V}
    (hFine : Fine (arms ++ [arm])) :
    checkPatternType index arm.patternNodes (armsCollector arms) =
      .ok (armsCollector (arms ++ [arm])) := by
  have hElse :
      ¬ (arm.isDefault = true ∧
          arms.any ArmNode.isDefault = true) := by
    rintro ⟨hDefault, hAny⟩
    have hOne := hFine.oneElse
    rw [countP_snoc, if_pos hDefault] at hOne
    have hPos := any_of_countP.mp hAny
    omega
  have hSame := hFine.same
  have hDistinct := hFine.distinct
  rw [patternsOf_snoc] at hSame hDistinct
  rw [literalsOf_append] at hDistinct
  unfold checkPatternType
  rw [checkElse_ok index hElse, Except.bind,
    checkTypes_ok index 0 _ _ hSame, Except.bind]
  have hCollect :=
    collectAll_append hSame index 0 []
      ((arms ++ [arm]).any ArmNode.isDefault)
      (fun other hOther =>
        List.mem_append_left _ (mem_literalsOf.mp hOther))
      (List.subset_append_right _ _) hDistinct
  rw [List.append_nil, collectAll] at hCollect
  rw [hCollect]
  unfold armsCollector
  rw [patternsOf_snoc, literalsOf_append]

/- The constant at which the checker stops. -/
structure Clash
    (before : List (ArmNode pool Re V))
    (arm : ArmNode pool Re V)
    (patterns : List (Pattern Re))
    (constant : Literal) : Prop where
  reached : ∃ rest, arm.patternNodes = patterns ++ .literal constant :: rest
  oneElse : before.countP ArmNode.isDefault ≤ 1
  same : SameType (patternsOf before ++ arm.patternNodes)
  distinct :
    (setKeys (literalsOf (patternsOf before ++ patterns))).Nodup
  known :
    constant.setKey ∈
      setKeys (literalsOf (patternsOf before ++ patterns))

/- The arm that is reported, and why. -/
theorem checkPatternType_error
    (index : Nat)
    {arms : List (ArmNode pool Re V)}
    {arm : ArmNode pool Re V}
    (hFine : Fine arms)
    (hNot : ¬ Fine (arms ++ [arm])) :
    (checkPatternType index arm.patternNodes
            (armsCollector arms) =
          .error (.dupElse index) ∧
        arm.isDefault = true ∧
        arms.any ArmNode.isDefault = true) ∨
      (∃ position,
        checkPatternType index arm.patternNodes
            (armsCollector arms) =
          .error (.required index position)) ∨
      ∃ patterns constant,
        checkPatternType index arm.patternNodes
              (armsCollector arms) =
            .error (.dupPattern index patterns.length) ∧
          Clash arms arm patterns constant := by
  unfold checkPatternType
  by_cases hElse :
    arm.isDefault = true ∧ arms.any ArmNode.isDefault = true
  · left
    rcases hElse with ⟨hDefault, hAny⟩
    refine ⟨?_, hDefault, hAny⟩
    have hEmpty : arm.patternNodes.isEmpty = true := hDefault
    have hKnown : (armsCollector arms).elsePattern = true := hAny
    rw [checkElse, if_pos hEmpty, if_pos hKnown]
    rfl
  · right
    rw [checkElse_ok index hElse, Except.bind]
    by_cases hSame :
      SameType (patternsOf arms ++ arm.patternNodes)
    · right
      rw [checkTypes_ok index 0 _ _ hSame, Except.bind]
      have hRepeated :
          ¬ (setKeys
              (literalsOf (patternsOf arms) ++
                literalsOf arm.patternNodes)).Nodup := by
        intro hDistinct
        apply hNot
        constructor
        · rwa [patternsOf_snoc]
        · rwa [patternsOf_snoc, literalsOf_append]
        · rw [countP_snoc]
          by_cases hDefault : arm.isDefault = true
          · rw [if_pos hDefault]
            have hZero :
                ¬ 0 < arms.countP ArmNode.isDefault := by
              intro hPos
              exact hElse ⟨hDefault, any_of_countP.mpr hPos⟩
            omega
          · rw [if_neg hDefault]
            have hOne := hFine.oneElse
            omega
      rcases collectAll_dup hSame index 0
        ((arms ++ [arm]).any ArmNode.isDefault)
        (fun other hOther =>
          List.mem_append_left _ (mem_literalsOf.mp hOther))
        (List.subset_append_right _ _) hFine.distinct hRepeated
        with ⟨patterns, constant, rest, hEq, hDistinct, hKnown,
          hError⟩
      rw [← literalsOf_append] at hDistinct hKnown
      rw [Nat.zero_add] at hError
      exact ⟨patterns, constant, hError, ⟨rest, hEq⟩,
        hFine.oneElse, hSame, hDistinct, hKnown⟩
    · left
      rcases checkTypes_required index 0
        (literalsOf (patternsOf arms))
        ((arms ++ [arm]).any ArmNode.isDefault) hFine.same hSame
        with ⟨position, hError⟩
      exact ⟨position, by rw [hError]; rfl⟩

/- A clash is reported at its place. -/
theorem checkPatternType_clash
    (index : Nat)
    {arms : List (ArmNode pool Re V)}
    {arm : ArmNode pool Re V}
    {patterns : List (Pattern Re)}
    {constant : Literal}
    (hClash : Clash arms arm patterns constant) :
    checkPatternType index arm.patternNodes (armsCollector arms) =
      .error (.dupPattern index patterns.length) := by
  rcases hClash with
    ⟨⟨rest, hPatterns⟩, _, hSame, hDistinct, hKnown⟩
  have hElse :
      ¬ (arm.isDefault = true ∧
          arms.any ArmNode.isDefault = true) := by
    rintro ⟨hDefault, _⟩
    have hEmpty : arm.patternNodes = [] :=
      List.isEmpty_iff.mp hDefault
    rw [hPatterns] at hEmpty
    exact absurd hEmpty (by simp)
  unfold checkPatternType
  rw [checkElse_ok index hElse, Except.bind,
    checkTypes_ok index 0 _ _ hSame, Except.bind]
  rw [literalsOf_append] at hDistinct hKnown
  have hSubset :
      patterns ⊆ patternsOf arms ++ arm.patternNodes := by
    intro pattern hMem
    rw [hPatterns]
    exact List.mem_append_right _ (List.mem_append_left _ hMem)
  have hEarlier :
      ∀ other ∈ literalsOf (patternsOf arms),
        Pattern.literal other ∈
          patternsOf arms ++ arm.patternNodes :=
    fun other hOther =>
      List.mem_append_left _ (mem_literalsOf.mp hOther)
  have hCollect :=
    collectAll_append hSame index 0 (.literal constant :: rest)
      ((arms ++ [arm]).any ArmNode.isDefault) hEarlier hSubset
      hDistinct
  rw [← hPatterns, Nat.zero_add] at hCollect
  rw [hCollect]
  rw [collectAll_cons hSame]
  · rw [if_pos hKnown]
  · intro other hOther
    rcases List.mem_append.mp hOther with hOld | hNew
    · exact hEarlier other hOld
    · exact hSubset (mem_literalsOf.mp hNew)
  · rw [hPatterns]
    exact List.mem_append_right _
      (List.mem_append_right _ List.mem_cons_self)

----
-- All Arms
----

theorem checkArms_fine
    (index : Nat)
    {done arms : List (ArmNode pool Re V)}
    (rest : List (ArmNode pool Re V))
    (hFine : Fine (done ++ arms)) :
    checkArms index (arms ++ rest) (armsCollector done) =
      checkArms (index + arms.length) rest
        (armsCollector (done ++ arms)) := by
  induction arms generalizing done index with
  | nil =>
      rw [List.append_nil]
      rfl
  | cons arm arms ih =>
      rw [List.append_cons] at hFine ⊢
      rw [List.cons_append, checkArms,
        checkPatternType_ok index hFine.of_append, Except.bind,
        ih (index + 1) hFine, List.length_cons, Nat.add_assoc,
        Nat.add_comm 1]

theorem armsCollector_nil :
    armsCollector ([] : List (ArmNode pool Re V)) =
      Collector.init :=
  rfl

theorem fine_nil : Fine ([] : List (ArmNode pool Re V)) where
  same := by
    intro pattern hMem
    cases hMem
  distinct := List.nodup_nil
  oneElse := Nat.zero_le 1

/- The first arm the checker finds something wrong with. -/
theorem exists_first
    {done arms : List (ArmNode pool Re V)}
    (hDone : Fine done)
    (hNot : ¬ Fine (done ++ arms)) :
    ∃ before arm after,
      arms = before ++ arm :: after ∧
        Fine (done ++ before) ∧
        ¬ Fine (done ++ before ++ [arm]) := by
  induction arms generalizing done with
  | nil =>
      rw [List.append_nil] at hNot
      exact absurd hDone hNot
  | cons arm arms ih =>
      by_cases hFine : Fine (done ++ [arm])
      · rw [List.append_cons] at hNot
        rcases ih hFine hNot with
          ⟨before, other, after, hEq, hBefore, hOther⟩
        refine ⟨arm :: before, other, after, ?_, ?_, ?_⟩
        · rw [hEq]
          rfl
        · rwa [List.append_cons]
        · rwa [List.append_cons done arm before]
      · exact ⟨[], arm, arms, rfl, by rwa [List.append_nil],
          by rwa [List.append_nil]⟩

theorem checkArms_error
    {arms : List (ArmNode pool Re V)}
    (hNot : ¬ Fine arms) :
    ∃ before arm after,
      arms = before ++ arm :: after ∧
        Fine before ∧
        ((checkArms 0 arms Collector.init =
                .error (.dupElse before.length) ∧
              arm.isDefault = true ∧
              before.any ArmNode.isDefault = true) ∨
          (∃ position,
            checkArms 0 arms Collector.init =
              .error (.required before.length position)) ∨
          ∃ patterns constant,
            checkArms 0 arms Collector.init =
                .error
                  (.dupPattern before.length patterns.length) ∧
              Clash before arm patterns constant) := by
  rcases exists_first fine_nil hNot with
    ⟨before, arm, after, hEq, hBefore, hArm⟩
  rw [List.nil_append] at hBefore hArm
  have hWalk :
      checkArms 0 arms Collector.init =
        checkArms before.length (arm :: after)
          (armsCollector before) := by
    have hNil : Fine ([] ++ before) := hBefore
    rw [hEq, ← armsCollector_nil,
      checkArms_fine 0 (arm :: after) hNil, Nat.zero_add,
      List.nil_append]
  rw [checkArms] at hWalk
  refine ⟨before, arm, after, hEq, hBefore, ?_⟩
  rcases checkPatternType_error before.length hBefore hArm with
    ⟨hError, hElse⟩ | ⟨position, hError⟩ |
      ⟨patterns, constant, hError, hClash⟩
  · left
    rw [hError] at hWalk
    exact ⟨hWalk, hElse⟩
  · right
    left
    rw [hError] at hWalk
    exact ⟨position, hWalk⟩
  · right
    right
    rw [hError] at hWalk
    exact ⟨patterns, constant, hWalk, hClash⟩

theorem checkArms_ok
    {arms : List (ArmNode pool Re V)}
    (hFine : Fine arms) :
    checkArms 0 arms Collector.init = .ok (armsCollector arms) := by
  have hNil : Fine ([] ++ arms) := hFine
  have hWalk := checkArms_fine 0 [] hNil
  rwa [List.append_nil, armsCollector_nil, List.nil_append] at hWalk

/- A clash behind arms that are fine is what is reported. -/
theorem checkArms_clash
    {before : List (ArmNode pool Re V)}
    {arm : ArmNode pool Re V}
    (after : List (ArmNode pool Re V))
    {patterns : List (Pattern Re)}
    {constant : Literal}
    (hClash : Clash before arm patterns constant) :
    checkArms 0 (before ++ arm :: after) Collector.init =
      .error (.dupPattern before.length patterns.length) := by
  have hFine : Fine before := by
    constructor
    · exact hClash.same.sublist (List.subset_append_left _ _)
    · have hDistinct := hClash.distinct
      rw [literalsOf_append, setKeys, List.map_append,
        List.nodup_append] at hDistinct
      exact hDistinct.1
    · exact hClash.oneElse
  have hNil : Fine ([] ++ before) := hFine
  rw [← armsCollector_nil,
    checkArms_fine 0 (arm :: after) hNil,
    Nat.zero_add, List.nil_append, checkArms,
    checkPatternType_clash before.length hClash]
  rfl

----
-- Cases
----

namespace CaseNode

variable [DecidableEq T]

/- What a case that is accepted satisfies. -/
structure Accepted
    (node : CaseNode pool Re V)
    (kind : CaseKind) : Prop where
  fine : Fine node.armNodes
  kind_eq : kind = kindOf (patternsOf node.armNodes)
  element :
    ∃ type,
      typeOf (patternsOf node.armNodes) = some type ∧
        node.exprType.element = some type
  fits :
    ∀ arm ∈ node.armNodes,
      accepts pool node.type arm.actionNode.type = true

theorem visitCaseNode_fine
    {node : CaseNode pool Re V}
    (hFine : Fine node.armNodes) :
    node.visitCaseNode =
      node.checkCollected (armsCollector node.armNodes) := by
  rw [visitCaseNode, checkArms_ok hFine]
  rfl

theorem visitCaseNode_ok
    {node : CaseNode pool Re V}
    {kind : CaseKind}
    (hVisit : node.visitCaseNode = .ok kind) :
    node.Accepted kind := by
  have hFine : Fine node.armNodes := by
    by_cases hNot : Fine node.armNodes
    · exact hNot
    exfalso
    rcases checkArms_error hNot with
      ⟨before, arm, after, _, _, hError⟩
    unfold visitCaseNode at hVisit
    rcases hError with
      ⟨hError, _⟩ | ⟨position, hError⟩ |
        ⟨patterns, constant, hError, _⟩
    · rw [hError] at hVisit
      cases hVisit
    · rw [hError] at hVisit
      cases hVisit
    · rw [hError] at hVisit
      cases hVisit
  rw [visitCaseNode_fine hFine] at hVisit
  have hType :
      (armsCollector node.armNodes).type =
        typeOf (patternsOf node.armNodes) := rfl
  unfold checkCollected at hVisit
  rw [hType] at hVisit
  cases hTypeOf : typeOf (patternsOf node.armNodes) with
  | none =>
      rw [hTypeOf] at hVisit
      cases hVisit
  | some type =>
      simp only [hTypeOf] at hVisit
      by_cases hElement : node.exprType.element = some type
      · rw [if_pos hElement] at hVisit
        by_cases hAll :
          node.armNodes.all
              (fun arm =>
                accepts pool node.type arm.actionNode.type) =
            true
        · rw [if_pos hAll] at hVisit
          by_cases hDefault :
            node.type ≠ pool.void ∧
              (armsCollector node.armNodes).elsePattern = false
          · rw [if_pos hDefault] at hVisit
            cases hVisit
          · rw [if_neg hDefault] at hVisit
            rcases hVisit with ⟨⟩
            constructor
            · exact hFine
            · rfl
            · exact ⟨type, hTypeOf, hElement⟩
            · exact List.all_eq_true.mp hAll
        · rw [if_neg hAll] at hVisit
          cases hVisit
      · rw [if_neg hElement] at hVisit
        cases hVisit

/- Whatever is wrong later is no duplicate. -/
theorem checkCollected_ne
    (node : CaseNode pool Re V)
    (collector : Collector)
    (arm index : Nat) :
    node.checkCollected collector ≠ .error (.dupElse arm) ∧
      node.checkCollected collector ≠
        .error (.dupPattern arm index) := by
  unfold checkCollected
  cases collector.type with
  | none => simp
  | some type =>
      simp only
      split_ifs <;> simp

----
-- Duplicates
----

/-
  No string that the checker gets to agrees up to its first
  zero byte with an earlier, different one.
-/
def NoClash (node : CaseNode pool Re V) : Prop :=
  ∀ before arm after patterns constant,
    node.armNodes = before ++ arm :: after →
      Clash before arm patterns constant →
        ∀ earlier,
          Pattern.literal earlier ∈
              patternsOf before ++ patterns →
            earlier.setKey = constant.setKey →
              earlier.value = constant.value

/- Constants of one type that are no strings are kept whole. -/
theorem value_eq_of_setKey
    {constant other : Literal}
    (hType : constant.type = other.type)
    (hKey : constant.setKey = other.setKey) :
    constant.value = other.value ∨
      ∃ left right,
        constant.value = .string left ∧
          other.value = .string right := by
  rcases constant with ⟨value, hNaN⟩
  rcases other with ⟨value', hNaN'⟩
  cases value with
  | int number =>
      cases value' with
      | int number' =>
          left
          exact congrArg Scalar.int (SetKey.int.inj hKey)
      | float bits => cases hType
      | signal number' => cases hType
      | string bytes => cases hType
  | float bits =>
      cases value' with
      | int number' => cases hType
      | float bits' =>
          left
          exact congrArg Scalar.float (SetKey.int.inj hKey)
      | signal number' => cases hType
      | string bytes => cases hType
  | signal number =>
      cases value' with
      | int number' => cases hType
      | float bits => cases hType
      | signal number' =>
          left
          exact congrArg Scalar.signal (SetKey.int.inj hKey)
      | string bytes => cases hType
  | string bytes =>
      cases value' with
      | int number' => cases hType
      | float bits => cases hType
      | signal number' => cases hType
      | string bytes' =>
          right
          exact ⟨bytes, bytes', rfl, rfl⟩

theorem equals_string
    {value : Scalar}
    {bytes : List UInt8}
    (hEquals : value.equals (.string bytes) = true) :
    value = .string bytes := by
  cases value with
  | int number => cases hEquals
  | float bits => cases hEquals
  | signal number => cases hEquals
  | string own => rw [beq_iff_eq.mp hEquals]

theorem visitCaseNode_clash
    {node : CaseNode pool Re V}
    {before : List (ArmNode pool Re V)}
    {arm : ArmNode pool Re V}
    {after : List (ArmNode pool Re V)}
    {patterns : List (Pattern Re)}
    {constant : Literal}
    (hArms : node.armNodes = before ++ arm :: after)
    (hClash : Clash before arm patterns constant) :
    node.visitCaseNode =
      .error (.dupPattern before.length patterns.length) := by
  rw [visitCaseNode, hArms, checkArms_clash after hClash]
  rfl

theorem noClash_of_duplicates
    {node : CaseNode pool Re V}
    (hDuplicates : node.Duplicates) :
    node.NoClash := by
  intro before arm after patterns constant hArms hClash earlier
    hEarlier hKey
  rcases hClash.reached with ⟨rest, hPatterns⟩
  have hMemEarlier :
      Pattern.literal earlier ∈
        patternsOf before ++ arm.patternNodes := by
    rw [hPatterns, ← List.append_assoc]
    exact List.mem_append_left _ hEarlier
  have hMemConstant :
      Pattern.literal constant ∈
        patternsOf before ++ arm.patternNodes := by
    rw [hPatterns]
    exact List.mem_append_right _
      (List.mem_append_right _ List.mem_cons_self)
  have hType : earlier.type = constant.type :=
    hClash.same _ hMemEarlier _ hMemConstant
  rcases value_eq_of_setKey hType hKey with
    hValue | ⟨left, right, hLeft, hRight⟩
  · exact hValue
  · rcases (hDuplicates before arm after hArms).2 patterns
      (.literal constant) rest hPatterns
      (visitCaseNode_clash hArms hClash) with
      ⟨found, other, hFound, hOther, hEquals⟩
    rcases hFound with ⟨⟩
    rw [hRight] at hEquals
    have hSame : other.value = constant.value := by
      rw [hRight]
      exact equals_string hEquals
    -- Both are in the set under the same key.
    have hKeys : earlier.setKey = other.setKey := by
      rw [hKey]
      unfold Literal.setKey
      rw [hSame]
    have hEq : earlier = other :=
      List.inj_on_of_nodup_map hClash.distinct
        (mem_literalsOf.mpr hEarlier)
        (mem_literalsOf.mpr hOther) hKeys
    rw [hEq]
    exact hSame

theorem duplicates_of_noClash
    {node : CaseNode pool Re V}
    (hClear : node.NoClash) :
    node.Duplicates := by
  intro before arm after hArms
  by_cases hFine : Fine node.armNodes
  · rw [visitCaseNode_fine hFine]
    have hNe := checkCollected_ne node (armsCollector node.armNodes)
    constructor
    · intro hError
      exact absurd hError (hNe before.length 0).1
    · intro patterns pattern rest _ hError
      exact absurd hError (hNe before.length patterns.length).2
  · rcases checkArms_error hFine with
      ⟨before', arm', after', hArms', _, hError⟩
    -- The arm that is reported is the one at this place.
    have hSplit :
        before'.length = before.length →
          before' = before ∧ arm' = arm := by
      intro hLength
      rw [hArms] at hArms'
      rcases List.append_inj hArms' hLength.symm with
        ⟨hBefore, hRest⟩
      exact ⟨hBefore.symm, (List.cons.inj hRest).1.symm⟩
    unfold visitCaseNode
    rcases hError with
      ⟨hError, hDefault, hAny⟩ | ⟨position, hError⟩ |
        ⟨patterns', constant, hError, hClash⟩
    · rw [hError]
      constructor
      · intro hEq
        have hLength : before'.length = before.length :=
          TypeCheckError.dupElse.inj (Except.error.inj hEq)
        rcases hSplit hLength with ⟨hBefore, hArm⟩
        rw [hBefore] at hAny
        rw [hArm] at hDefault
        exact ⟨hDefault, List.any_eq_true.mp hAny⟩
      · intro patterns pattern rest _ hEq
        cases hEq
    · rw [hError]
      constructor
      · intro hEq
        cases hEq
      · intro patterns pattern rest _ hEq
        cases hEq
    · rw [hError]
      constructor
      · intro hEq
        cases hEq
      · intro patterns pattern rest hPatterns hEq
        have hInj :=
          TypeCheckError.dupPattern.inj (Except.error.inj hEq)
        rcases hSplit hInj.1 with ⟨hBefore, hArm⟩
        rw [hBefore, hArm] at hClash
        rcases hClash.reached with ⟨rest', hPatterns'⟩
        rw [hPatterns] at hPatterns'
        rcases List.append_inj hPatterns' hInj.2.symm with
          ⟨hSame, hRest⟩
        rw [← hSame] at hClash
        rcases List.mem_map.mp hClash.known with
          ⟨earlier, hMem, hKey⟩
        have hMemEarlier := mem_literalsOf.mp hMem
        have hValue :=
          hClear before arm after patterns constant hArms hClash
            earlier hMemEarlier hKey
        refine ⟨constant, earlier, (List.cons.inj hRest).1,
          hMemEarlier, ?_⟩
        rw [hValue]
        exact constant.equals_self

/- Reports of duplicates are right if no strings clash. -/
theorem duplicates_iff (node : CaseNode pool Re V) :
    node.Duplicates ↔ node.NoClash :=
  ⟨noClash_of_duplicates, duplicates_of_noClash⟩

end CaseNode

end Case

end Ydsh
