import Ydsh.Case.Chain
import Ydsh.Case.Duplicates

/-
  When a case does what it means.

  Both forms run the arm the case means, but for two kinds of
  cases: the table holds the bits of a float as an integer,
  which no float equals, and the chain of tests has no methods
  for a subject that is an option.

  Main declarations:
    * `caseTable_eq`
    * `map_exact`, `chain_exact`
-/

----
-- Tables
----

namespace Ydsh

namespace Case

variable
  {T Re V : Type}
  {pool : TypePool T}
  {engine : Engine Re V}

/- The entries of the table in the order of the source. -/
def entriesOf :
    Nat → List (ArmNode pool Re V) → List (Scalar × Label)
  | _, [] => []
  | index, arm :: arms =>
      (literalsOf arm.patternNodes).map
          (fun constant => (newObject constant, .arm index)) ++
        entriesOf (index + 1) arms

theorem newObject_ne_float
    (constant : Literal)
    (bits : BitVec 64) :
    newObject constant ≠ .float bits := by
  unfold newObject
  cases constant.value <;> simp

/- Keys of a table are equal only if they are the same. -/
theorem newObject_equals
    {constant other : Literal}
    (hEquals :
      (newObject constant).equals (newObject other) = true) :
    newObject constant = newObject other := by
  have hLeft := newObject_ne_float constant
  revert hLeft hEquals
  generalize newObject constant = left
  generalize newObject other = right
  intro hEquals hLeft
  cases left with
  | float bits => exact absurd rfl (hLeft bits)
  | int value | signal value | string bytes =>
      cases right <;> simp_all [Scalar.equals]

/- Constants of equal keys are equal in the checker's set. -/
theorem setKey_of_newObject
    {constant other : Literal}
    (hEq : newObject constant = newObject other) :
    constant.setKey = other.setKey := by
  unfold newObject at hEq
  unfold Literal.setKey
  cases hLeft : constant.value <;> cases hRight : other.value <;>
    simp_all

theorem set_new
    {key : Scalar}
    {label : Label}
    {map : List (Scalar × Label)}
    (hNew : ∀ entry ∈ map, entry.1.equals key = false) :
    MapObject.set key label map = map ++ [(key, label)] := by
  induction map with
  | nil => rfl
  | cons entry map ih =>
      rw [MapObject.set, hNew entry List.mem_cons_self,
        if_neg Bool.false_ne_true,
        ih (fun other hMem => hNew other (List.mem_cons_of_mem _ hMem))]
      rfl

/- The constants whose entries a table holds already. -/
def Holds
    (map : List (Scalar × Label))
    (constants : List Literal) : Prop :=
  map.map Prod.fst = constants.map newObject

theorem Holds.new
    {map : List (Scalar × Label)}
    {constants : List Literal}
    {constant : Literal}
    (hHolds : Holds map constants)
    (hNot : constant.setKey ∉ setKeys constants) :
    ∀ entry ∈ map,
      entry.1.equals (newObject constant) = false := by
  intro entry hMem
  have hKey : entry.1 ∈ constants.map newObject := by
    rw [← hHolds]
    exact List.mem_map_of_mem hMem
  rcases List.mem_map.mp hKey with ⟨other, hOther, hEq⟩
  rw [← hEq]
  cases hEquals : (newObject other).equals (newObject constant) with
  | false => rfl
  | true =>
      exfalso
      apply hNot
      rw [← setKey_of_newObject (newObject_equals hEquals)]
      exact List.mem_map_of_mem hOther

theorem generateCaseLabels_eq
    (label : Label)
    {patterns : List (Pattern Re)}
    {map : List (Scalar × Label)}
    {constants : List Literal}
    (hHolds : Holds map constants)
    (hDistinct :
      (setKeys (constants ++ literalsOf patterns)).Nodup) :
    generateCaseLabels label patterns map =
      map ++
        (literalsOf patterns).map
          (fun constant => (newObject constant, label)) := by
  induction patterns generalizing map constants with
  | nil => simp [generateCaseLabels, literalsOf]
  | cons pattern patterns ih =>
      cases pattern with
      | regex re => exact ih hHolds hDistinct
      | literal constant =>
          have hKeep :
              constants ++ literalsOf (.literal constant :: patterns) =
                constants ++ [constant] ++ literalsOf patterns := by
            rw [List.append_assoc]
            rfl
          rw [hKeep] at hDistinct
          have hNot : constant.setKey ∉ setKeys constants := by
            have hHead := hDistinct
            unfold setKeys at hHead ⊢
            rw [List.map_append, List.map_append,
              List.nodup_append] at hHead
            have hFront := hHead.1
            rw [List.nodup_append] at hFront
            intro hMem
            exact hFront.2.2 _ hMem _ List.mem_cons_self rfl
          have hNext :
              Holds (map ++ [(newObject constant, label)])
                (constants ++ [constant]) := by
            unfold Holds at hHolds ⊢
            rw [List.map_append, List.map_append, hHolds]
            rfl
          have hRest := ih hNext hDistinct
          have hStep :
              generateCaseLabels label
                  (.literal constant :: patterns) map =
                generateCaseLabels label patterns
                  (MapObject.set (newObject constant) label
                    map) := rfl
          rw [hStep, set_new (hHolds.new hNot), hRest,
            List.append_assoc]
          rfl

theorem caseTable_append
    (index : Nat)
    {arms : List (ArmNode pool Re V)}
    {map : List (Scalar × Label)}
    {constants : List Literal}
    (hHolds : Holds map constants)
    (hDistinct :
      (setKeys
        (constants ++ literalsOf (patternsOf arms))).Nodup) :
    caseTable index arms map = map ++ entriesOf index arms := by
  induction arms generalizing index map constants with
  | nil => simp [caseTable, entriesOf]
  | cons arm arms ih =>
      have hKeep :
          constants ++ literalsOf (patternsOf (arm :: arms)) =
            constants ++ literalsOf arm.patternNodes ++
              literalsOf (patternsOf arms) := by
        rw [List.append_assoc, ← literalsOf_append]
        rfl
      rw [hKeep] at hDistinct
      have hHead :
          (setKeys
            (constants ++ literalsOf arm.patternNodes)).Nodup := by
        have hAll := hDistinct
        unfold setKeys at hAll ⊢
        rw [List.map_append, List.nodup_append] at hAll
        exact hAll.1
      rw [caseTable, generateCaseLabels_eq _ hHolds hHead]
      have hNext :
          Holds
            (map ++
              (literalsOf arm.patternNodes).map
                (fun constant =>
                  (newObject constant, Label.arm index)))
            (constants ++ literalsOf arm.patternNodes) := by
        unfold Holds at hHolds ⊢
        rw [List.map_append, List.map_append, hHolds,
          List.map_map]
        rfl
      rw [ih (index + 1) hNext hDistinct, entriesOf,
        List.append_assoc]

/- The table of arms that are fine has all their constants. -/
theorem caseTable_eq
    {arms : List (ArmNode pool Re V)}
    (hFine : Fine arms) :
    caseTable 0 arms [] = entriesOf 0 arms := by
  have hDistinct := hFine.distinct
  have hHolds : Holds [] [] := rfl
  rw [caseTable_append 0 hHolds hDistinct, List.nil_append]

----
-- Lookup
----

/- A constant that is its own key. -/
def IsKey (pattern : Pattern Re) : Prop :=
  ∃ constant,
    pattern = .literal constant ∧
      newObject constant = constant.value

/- The lookup among the entries of one arm. -/
theorem find_arm
    (engine : Engine Re V)
    (value : Scalar)
    (label : Label)
    {patterns : List (Pattern Re)}
    (hKeys : ∀ pattern ∈ patterns, IsKey pattern) :
    ∃ holds,
      anyHolds engine value patterns = some holds ∧
        MapObject.find value
            ((literalsOf patterns).map
              (fun constant => (newObject constant, label))) =
          if holds then some label else none := by
  induction patterns with
  | nil => exact ⟨false, rfl, rfl⟩
  | cons pattern patterns ih =>
      rcases hKeys pattern List.mem_cons_self with
        ⟨constant, hEq, hKey⟩
      rcases ih
        (fun other hMem => hKeys other (List.mem_cons_of_mem _ hMem))
        with ⟨holds, hHolds, hFind⟩
      subst hEq
      cases hEquals : constant.value.equals value with
      | true =>
          refine ⟨true, ?_, ?_⟩
          · simp [anyHolds, Pattern.holds, hEquals]
          · simp [literalsOf, Pattern.toLiteral, MapObject.find,
              hKey, hEquals]
      | false =>
          refine ⟨holds, ?_, ?_⟩
          · simp [anyHolds, Pattern.holds, hEquals, hHolds]
          · rw [← hFind]
            simp [literalsOf, Pattern.toLiteral, MapObject.find,
              hKey, hEquals]

theorem find_append
    (value : Scalar)
    (map map' : List (Scalar × Label)) :
    MapObject.find value (map ++ map') =
      (MapObject.find value map).or
        (MapObject.find value map') := by
  unfold MapObject.find
  rw [List.find?_append]
  cases map.find? fun entry => entry.1.equals value with
  | none => rfl
  | some entry => rfl

/- The lookup finds the first arm with an equal pattern. -/
theorem find_entriesOf
    (engine : Engine Re V)
    (value : Scalar)
    (index : Nat)
    {arms : List (ArmNode pool Re V)}
    (hKeys : ∀ pattern ∈ patternsOf arms, IsKey pattern) :
    ∃ found,
      selectArm engine value index arms = some found ∧
        MapObject.find value (entriesOf index arms) =
          found.map Label.arm := by
  induction arms generalizing index with
  | nil => exact ⟨none, rfl, rfl⟩
  | cons arm arms ih =>
      rcases find_arm engine value (.arm index)
        (fun pattern hMem => hKeys pattern
          (List.mem_append_left _ hMem)) with
        ⟨holds, hHolds, hFind⟩
      rcases ih (index + 1)
        (fun pattern hMem => hKeys pattern
          (List.mem_append_right _ hMem)) with
        ⟨found, hSelect, hRest⟩
      rw [entriesOf, find_append, hFind]
      cases holds with
      | true =>
          refine ⟨some index, ?_, rfl⟩
          simp [selectArm, hHolds]
      | false =>
          refine ⟨found, ?_, ?_⟩
          · simp [selectArm, hHolds, hSelect]
          · rw [hRest]
            rfl

----
-- Arms
----

/- An arm without patterns is never selected. -/
theorem selectArm_split
    {value : Scalar}
    {index position : Nat}
    {arms : List (ArmNode pool Re V)}
    (hSelect :
      selectArm engine value index arms = some (some position)) :
    ∃ before arm after,
      arms = before ++ arm :: after ∧
        position = index + before.length ∧
        arm.isDefault = false := by
  induction arms generalizing index with
  | nil => cases hSelect
  | cons arm arms ih =>
      unfold selectArm at hSelect
      cases hAny : anyHolds engine value arm.patternNodes with
      | none =>
          rw [hAny] at hSelect
          cases hSelect
      | some holds =>
          rw [hAny] at hSelect
          cases holds with
          | true =>
              rcases hSelect with ⟨⟩
              refine ⟨[], arm, arms, rfl, rfl, ?_⟩
              cases hDefault : arm.isDefault with
              | false => rfl
              | true =>
                  have hNil : arm.patternNodes = [] :=
                    List.isEmpty_iff.mp hDefault
                  rw [hNil] at hAny
                  cases hAny
          | false =>
              rcases ih hSelect with
                ⟨before, other, after, hEq, hPosition, hDefault⟩
              refine ⟨arm :: before, other, after, ?_, ?_, hDefault⟩
              · rw [hEq]
                rfl
              · rw [hPosition, List.length_cons]
                omega

theorem findDefault_split
    {arms : List (ArmNode pool Re V)}
    {position : Nat}
    (hFind : arms.findIdx? ArmNode.isDefault = some position) :
    ∃ before arm after,
      arms = before ++ arm :: after ∧
        position = before.length ∧
        arm.isDefault = true ∧
        ∀ earlier ∈ before, earlier.isDefault = false := by
  induction arms generalizing position with
  | nil => cases hFind
  | cons arm arms ih =>
      rw [List.findIdx?_cons] at hFind
      cases hDefault : arm.isDefault with
      | true =>
          rw [hDefault, if_pos rfl] at hFind
          rcases hFind with ⟨⟩
          refine ⟨[], arm, arms, rfl, rfl, hDefault, ?_⟩
          intro earlier hMem
          cases hMem
      | false =>
          rw [hDefault, if_neg Bool.false_ne_true] at hFind
          rcases Option.map_eq_some_iff.mp hFind with
            ⟨before, hBefore, hEq⟩
          rcases ih hBefore with
            ⟨earlier, found, after, hArms, hLength, hFound, hAll⟩
          refine ⟨arm :: earlier, found, after, ?_, ?_, hFound, ?_⟩
          · rw [hArms]
            rfl
          · rw [← hEq, hLength, List.length_cons]
          · intro other hMem
            rcases List.mem_cons.mp hMem with hHead | hTail
            · rw [hHead]
              exact hDefault
            · exact hAll other hTail

theorem findDefault_none
    {arms : List (ArmNode pool Re V)}
    (hFind : arms.findIdx? ArmNode.isDefault = none) :
    arms.any ArmNode.isDefault = false := by
  rw [List.findIdx?_eq_none_iff] at hFind
  rw [List.any_eq_false]
  intro arm hMem
  rw [hFind arm hMem]
  exact Bool.false_ne_true

theorem finishAt_append
    [DecidableEq T]
    (type : T)
    (before : List (ArmNode pool Re V))
    (arm : ArmNode pool Re V)
    (after : List (ArmNode pool Re V)) :
    finishAt engine type (before ++ arm :: after) before.length =
      finish engine type before.length arm := by
  unfold finishAt
  rw [List.getElem?_append_right (Nat.le_refl _), Nat.sub_self]
  rfl

/- Of arms that are fine the last default arm is the first. -/
theorem defaultIndex_none
    (index : Nat)
    {arms : List (ArmNode pool Re V)}
    (hNone : arms.countP ArmNode.isDefault = 0) :
    defaultIndex index arms = none := by
  induction arms generalizing index with
  | nil => rfl
  | cons arm arms ih =>
      rw [List.countP_cons] at hNone
      have hRest : arms.countP ArmNode.isDefault = 0 := by omega
      have hArm : arm.isDefault = false := by
        cases hDefault : arm.isDefault with
        | false => rfl
        | true =>
            rw [if_pos hDefault] at hNone
            omega
      rw [defaultIndex, ih (index + 1) hRest, hArm]
      rfl

theorem defaultIndex_some
    (index : Nat)
    {before : List (ArmNode pool Re V)}
    {arm : ArmNode pool Re V}
    {after : List (ArmNode pool Re V)}
    (hDefault : arm.isDefault = true)
    (hOne :
      (before ++ arm :: after).countP ArmNode.isDefault ≤ 1) :
    defaultIndex index (before ++ arm :: after) =
      some (index + before.length, arm) := by
  induction before generalizing index with
  | nil =>
      rw [List.nil_append, List.countP_cons, if_pos hDefault]
        at hOne
      have hRest : after.countP ArmNode.isDefault = 0 := by omega
      rw [List.nil_append, defaultIndex,
        defaultIndex_none (index + 1) hRest, hDefault]
      rfl
  | cons first before ih =>
      rw [List.cons_append, List.countP_cons] at hOne
      have hRest :
          (before ++ arm :: after).countP ArmNode.isDefault ≤ 1 := by
        omega
      rw [List.cons_append, defaultIndex, ih (index + 1) hRest,
        List.length_cons]
      simp only [Option.orElse]
      congr 2
      omega

----
-- Exactness
----

section Exactness

variable [DecidableEq T]

theorem Ends.exact
    {subject : Option Scalar}
    {code : Code Re V}
    {below unmatched : List (Slot Re V)}
    {result : Result V}
    (hEnds :
      Ends engine subject ⟨code, [], below⟩ below unmatched result)
    (fuel : Nat)
    (hFuel : code.length < fuel) :
    Yields below unmatched
      (run engine subject fuel ⟨code, [], below⟩) result := by
  rcases hEnds with ⟨outcome, hRuns, hYields⟩
  rw [hRuns fuel hFuel]
  exact hYields

/- What the table does for a key that is in it or not. -/
theorem map_ends
    {type : T}
    {arms : List (ArmNode pool Re V)}
    {subject : Option Scalar}
    {found : Option Nat}
    (hFits :
      ∀ arm ∈ arms, accepts pool type arm.actionNode.type = true)
    (hFind :
      (subject.bind fun key =>
          MapObject.find key (caseTable 0 arms [])) =
        found.map Label.arm)
    (hFound :
      ∀ index,
        found = some index →
          ∃ before arm after,
            arms = before ++ arm :: after ∧
              index = before.length ∧ arm.isDefault = false)
    (below : List (Slot Re V)) :
    Ends engine subject ⟨generateMapCase type arms, [], below⟩
      below below (finishFound engine type arms found) := by
  cases found with
  | some index =>
      rcases hFound index rfl with
        ⟨before, arm, after, hArms, hIndex, hDefault⟩
      subst hArms
      rw [finishFound, hIndex, finishAt_append]
      apply map_hit (hFits arm (by simp)) hDefault
      rw [hFind, hIndex]
      rfl
  | none =>
      rw [finishFound]
      cases hDefault : arms.findIdx? ArmNode.isDefault with
      | none =>
          exact ⟨.done [] below,
            map_nothing (findDefault_none hDefault) hFind below,
            rfl⟩
      | some index =>
          rcases findDefault_split hDefault with
            ⟨before, arm, after, hArms, hIndex, hArm, hBefore⟩
          subst hArms
          simp only
          rw [hIndex, finishAt_append]
          exact map_default (hFits arm (by simp)) hBefore hArm hFind
            below

/- The arms behind a table run as the case means. -/
theorem map_exact
    {node : CaseNode pool Re V}
    (hAccepted : node.Accepted .MAP)
    (hKeys : ∀ pattern ∈ patternsOf node.armNodes, IsKey pattern)
    (subject : Option Scalar)
    (below : List (Slot Re V)) :
    Ends engine subject
      ⟨generateMapCase node.type node.armNodes, [], below⟩ below
      below (node.meaning engine subject) := by
  have hTable := caseTable_eq hAccepted.fine
  unfold CaseNode.meaning select
  cases subject with
  | none =>
      apply map_ends hAccepted.fits rfl
      intro index hEq
      cases hEq
  | some value =>
      rcases find_entriesOf engine value 0 hKeys with
        ⟨found, hSelect, hFind⟩
      simp only [hSelect]
      apply map_ends hAccepted.fits
      · rw [hTable]
        exact hFind
      · intro index hEq
        rw [hEq] at hSelect
        rcases selectArm_split hSelect with
          ⟨before, arm, after, hArms, hIndex, hDefault⟩
        rw [Nat.zero_add] at hIndex
        exact ⟨before, arm, after, hArms, hIndex, hDefault⟩

/- The default arm behind the chain. -/
theorem ifElseDefault_ends
    {type : T}
    {arms : List (ArmNode pool Re V)}
    {subject : Option Scalar}
    (hOne : arms.countP ArmNode.isDefault ≤ 1)
    (slot : Slot Re V)
    (below : List (Slot Re V)) :
    Ends engine subject
      ⟨ifElseDefault type arms ++ [.mark .merge], [],
        slot :: below⟩
      below (slot :: below)
      (finishFound engine type arms none) := by
  unfold finishFound ifElseDefault
  cases hDefault : arms.findIdx? ArmNode.isDefault with
  | none =>
      have hCount : arms.countP ArmNode.isDefault = 0 := by
        have hAny := findDefault_none hDefault
        by_cases hZero : arms.countP ArmNode.isDefault = 0
        · exact hZero
        · rw [any_of_countP.mpr (Nat.pos_of_ne_zero hZero)] at hAny
          cases hAny
      rw [defaultIndex_none 0 hCount]
      exact ⟨.done [] (slot :: below),
        Runs.of_mark (Runs.of_nil [] (slot :: below)), rfl⟩
  | some index =>
      rcases findDefault_split hDefault with
        ⟨before, arm, after, hArms, hIndex, hArm, _⟩
      subst hArms
      simp only
      rw [defaultIndex_some 0 hArm hOne, hIndex, finishAt_append,
        Nat.zero_add]
      have hCode :
          Ends engine subject
            ⟨[armCode type before.length arm, .mark .merge], [],
              below⟩
            below (slot :: below)
            (finish engine type before.length arm) := by
        apply armCode_ends
        intro _ stack
        exact Runs.of_mark (Runs.of_nil [before.length] stack)
      apply hCode.of_runs
      intro outcome hRuns
      exact Runs.of_step rfl hRuns

/- The chain of tests runs as the case means. -/
theorem chain_exact
    {node : CaseNode pool Re V}
    {kind : CaseKind}
    (hAccepted : node.Accepted kind)
    (hStrings : ForStrings (patternsOf node.armNodes))
    (bytes : List UInt8)
    (below : List (Slot Re V)) :
    Ends engine (some (.string bytes))
      ⟨generateIfElseCase node.type node.armNodes, [], below⟩
      below (stringSlot bytes :: below)
      (node.meaning engine (some (.string bytes))) := by
  have hLabels := labels_ifElseDefault node.type node.armNodes
  have hChain :
      Ends engine (some (.string bytes))
        ⟨ifElseArms node.type 0 node.armNodes ++
            (ifElseDefault node.type node.armNodes ++
              [.mark .merge]),
          [], stringSlot bytes :: below⟩
        below (stringSlot bytes :: below)
        (node.meaning engine (some (.string bytes))) := by
    unfold CaseNode.meaning select
    apply chain_ends 0
    · intro arm hArm pattern hMem
      apply hStrings
      exact List.mem_flatMap.mpr ⟨arm, hArm, hMem⟩
    · rw [hLabels]
      exact List.not_mem_nil
    · intro hNone
      simp only [hNone]
    · intro position arm hSome hArm
      simp only [hSome, finishFound, finishAt]
      rw [Nat.zero_add, hArm]
    · intro hNone
      simp only [hNone]
      exact ifElseDefault_ends hAccepted.fine.oneElse _ below
  apply hChain.of_runs
  intro outcome hRuns
  unfold generateIfElseCase
  rw [List.append_assoc]
  exact Runs.of_step rfl hRuns

end Exactness

end Case

end Ydsh
