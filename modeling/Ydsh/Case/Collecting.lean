import Ydsh.Case.Checker

/-
  What the checker has collected.

  After the patterns `typed` have been looked at and the
  constants `constants` collected, the collector depends on
  these lists only.

  Main declarations:
    * `SameType`, `literalsOf`
    * `collectorOf`
-/

----
-- Collectors
----

namespace Ydsh

namespace Case

variable {Re : Type}

def SameType (patterns : List (Pattern Re)) : Prop :=
  ∀ pattern ∈ patterns,
    ∀ other ∈ patterns, pattern.type = other.type

theorem SameType.sublist
    {patterns patterns' : List (Pattern Re)}
    (hSame : SameType patterns')
    (hSub : patterns ⊆ patterns') :
    SameType patterns :=
  fun _ hMem _ hOther => hSame _ (hSub hMem) _ (hSub hOther)

def Pattern.toLiteral : Pattern Re → Option Literal
  | .literal own => some own
  | .regex _ => none

def literalsOf (patterns : List (Pattern Re)) : List Literal :=
  patterns.filterMap Pattern.toLiteral

theorem literalsOf_append
    (patterns patterns' : List (Pattern Re)) :
    literalsOf (patterns ++ patterns') =
      literalsOf patterns ++ literalsOf patterns' :=
  List.filterMap_append

theorem mem_literalsOf
    {patterns : List (Pattern Re)}
    {constant : Literal} :
    constant ∈ literalsOf patterns ↔
      Pattern.literal constant ∈ patterns := by
  unfold literalsOf
  rw [List.mem_filterMap]
  constructor
  · rintro ⟨pattern, hMem, hLiteral⟩
    cases pattern with
    | literal own =>
        rcases hLiteral with ⟨⟩
        exact hMem
    | regex re => cases hLiteral
  · intro hMem
    exact ⟨.literal constant, hMem, rfl⟩

def setKeys (constants : List Literal) : List SetKey :=
  constants.map Literal.setKey

def mapOf : List Literal → Option PatternMap
  | [] => none
  | constant :: constants =>
      some
        { number := constant.isNumber
          set := setKeys (constant :: constants) }

def kindOf (patterns : List (Pattern Re)) : CaseKind :=
  if patterns.any Pattern.isRegex then .IF_ELSE else .MAP

def typeOf (patterns : List (Pattern Re)) : Option ScalarType :=
  patterns.head?.map Pattern.type

def collectorOf
    (typed : List (Pattern Re))
    (constants : List Literal)
    (elsePattern : Bool) : Collector :=
  { kind := kindOf typed
    map := mapOf constants
    elsePattern := elsePattern
    type := typeOf typed }

theorem typeOf_eq
    {patterns : List (Pattern Re)}
    {pattern : Pattern Re}
    (hSame : SameType patterns)
    (hMem : pattern ∈ patterns) :
    typeOf patterns = some pattern.type := by
  cases patterns with
  | nil => cases hMem
  | cons first patterns =>
      exact congrArg some (hSame _ List.mem_cons_self _ hMem)

----
-- Types of Patterns
----

/- A pattern agrees with the ones before it. -/
def agrees
    (typed : List (Pattern Re))
    (pattern : Pattern Re) : Prop :=
  (typeOf typed).getD pattern.type = pattern.type

instance
    (typed : List (Pattern Re))
    (pattern : Pattern Re) :
    Decidable (agrees typed pattern) := by
  unfold agrees
  infer_instance

theorem agrees_of_sameType
    {typed : List (Pattern Re)}
    {pattern : Pattern Re}
    (hSame : SameType (typed ++ [pattern])) :
    agrees typed pattern := by
  cases typed with
  | nil => rfl
  | cons first typed =>
      exact hSame _ List.mem_cons_self _
        (List.mem_append_right _ List.mem_cons_self)

theorem sameType_of_agrees
    {typed : List (Pattern Re)}
    {pattern : Pattern Re}
    (hTyped : SameType typed)
    (hAgrees : agrees typed pattern) :
    SameType (typed ++ [pattern]) := by
  have hAll : ∀ other ∈ typed, other.type = pattern.type := by
    intro other hOther
    unfold agrees at hAgrees
    rwa [typeOf_eq hTyped hOther] at hAgrees
  intro left hLeft right hRight
  rcases List.mem_append.mp hLeft with hLeft | hLeft
  · rcases List.mem_append.mp hRight with hRight | hRight
    · exact hTyped left hLeft right hRight
    · rw [List.mem_singleton.mp hRight]
      exact hAll left hLeft
  · rw [List.mem_singleton.mp hLeft]
    rcases List.mem_append.mp hRight with hRight | hRight
    · exact (hAll right hRight).symm
    · rw [List.mem_singleton.mp hRight]

/- One round of the loop over the types. -/
theorem checkTypes_cons
    (arm index : Nat)
    (typed : List (Pattern Re))
    (pattern : Pattern Re)
    (patterns : List (Pattern Re))
    (constants : List Literal)
    (elsePattern : Bool) :
    checkTypes arm index (pattern :: patterns)
        (collectorOf typed constants elsePattern) =
      if agrees typed pattern then
        checkTypes arm (index + 1) patterns
          (collectorOf (typed ++ [pattern]) constants elsePattern)
      else
        .error (.required arm index) := by
  rw [checkTypes]
  by_cases hAgrees : agrees typed pattern
  · have hHead :
        (collectorOf typed constants elsePattern).type.getD
            pattern.type =
          pattern.type := hAgrees
    simp only [if_pos hAgrees, hHead, if_true]
    congr 1
    unfold collectorOf
    congr 1
    · cases hRegex : pattern.isRegex with
      | true => simp [kindOf, hRegex]
      | false => simp [kindOf, hRegex]
    · cases typed with
      | nil => rfl
      | cons first typed => exact congrArg some hHead.symm
  · have hHead :
        ¬ (collectorOf typed constants elsePattern).type.getD
            pattern.type =
          pattern.type := hAgrees
    rw [if_neg hAgrees, if_neg hHead]

theorem checkTypes_ok
    (arm index : Nat)
    {typed patterns : List (Pattern Re)}
    (constants : List Literal)
    (elsePattern : Bool)
    (hSame : SameType (typed ++ patterns)) :
    checkTypes arm index patterns
        (collectorOf typed constants elsePattern) =
      .ok (collectorOf (typed ++ patterns) constants
        elsePattern) := by
  induction patterns generalizing typed index with
  | nil => rw [List.append_nil, checkTypes]
  | cons pattern patterns ih =>
      rw [List.append_cons] at hSame ⊢
      have hAgrees : agrees typed pattern := by
        apply agrees_of_sameType
        exact hSame.sublist (List.subset_append_left _ _)
      rw [checkTypes_cons, if_pos hAgrees]
      exact ih (index + 1) hSame

theorem checkTypes_required
    (arm index : Nat)
    {typed patterns : List (Pattern Re)}
    (constants : List Literal)
    (elsePattern : Bool)
    (hTyped : SameType typed)
    (hNot : ¬ SameType (typed ++ patterns)) :
    ∃ position,
      checkTypes arm index patterns
          (collectorOf typed constants elsePattern) =
        .error (.required arm position) := by
  induction patterns generalizing typed index with
  | nil =>
      rw [List.append_nil] at hNot
      exact absurd hTyped hNot
  | cons pattern patterns ih =>
      rw [checkTypes_cons]
      by_cases hAgrees : agrees typed pattern
      · rw [if_pos hAgrees]
        apply ih (index + 1) (sameType_of_agrees hTyped hAgrees)
        rwa [← List.append_cons]
      · rw [if_neg hAgrees]
        exact ⟨index, rfl⟩

----
-- Constants
----

/- One constant put into the set. -/
theorem collect_eq
    (typed : List (Pattern Re))
    {constants : List Literal}
    {constant : Literal}
    (elsePattern : Bool)
    (hNumber :
      ∀ other ∈ constants,
        constant.isNumber = other.isNumber) :
    (collectorOf typed constants elsePattern).collect constant =
      if constant.setKey ∈ setKeys constants then
        none
      else
        some
          (collectorOf typed (constants ++ [constant])
            elsePattern) := by
  unfold Collector.collect PatternMap.collect collectorOf
  cases constants with
  | nil => simp [mapOf, setKeys]
  | cons first constants =>
      have hFirst := hNumber first List.mem_cons_self
      by_cases hMem : constant.setKey ∈ setKeys (first :: constants)
      · simp [mapOf, hFirst, hMem]
      · rw [if_neg hMem]
        simp [mapOf, hFirst, hMem]
        simp [setKeys]

/- Whether the constants are numbers goes by their type. -/
theorem isNumber_eq
    {typed : List (Pattern Re)}
    (hSame : SameType typed)
    {constant other : Literal}
    (hConstant : Pattern.literal constant ∈ typed)
    (hOther : Pattern.literal other ∈ typed) :
    constant.isNumber = other.isNumber := by
  have hType : constant.type = other.type :=
    hSame _ hConstant _ hOther
  unfold Literal.isNumber
  rw [hType]

section Collect

variable
  {typed : List (Pattern Re)}
  (hSame : SameType typed)

include hSame

theorem collectAll_cons
    (arm index : Nat)
    {constants : List Literal}
    {constant : Literal}
    (patterns : List (Pattern Re))
    (elsePattern : Bool)
    (hConstants :
      ∀ other ∈ constants, Pattern.literal other ∈ typed)
    (hConstant : Pattern.literal constant ∈ typed) :
    collectAll arm index (.literal constant :: patterns)
        (collectorOf typed constants elsePattern) =
      if constant.setKey ∈ setKeys constants then
        .error (.dupPattern arm index)
      else
        collectAll arm (index + 1) patterns
          (collectorOf typed (constants ++ [constant])
            elsePattern) := by
  rw [collectAll,
    collect_eq typed elsePattern
      (fun other hOther =>
        isNumber_eq hSame hConstant (hConstants other hOther))]
  by_cases hMem : constant.setKey ∈ setKeys constants
  · rw [if_pos hMem, if_pos hMem]
  · rw [if_neg hMem, if_neg hMem]

theorem collectAll_append
    (arm index : Nat)
    {constants : List Literal}
    {patterns : List (Pattern Re)}
    (rest : List (Pattern Re))
    (elsePattern : Bool)
    (hConstants :
      ∀ other ∈ constants, Pattern.literal other ∈ typed)
    (hPatterns : patterns ⊆ typed)
    (hDistinct :
      (setKeys (constants ++ literalsOf patterns)).Nodup) :
    collectAll arm index (patterns ++ rest)
        (collectorOf typed constants elsePattern) =
      collectAll arm (index + patterns.length) rest
        (collectorOf typed (constants ++ literalsOf patterns)
          elsePattern) := by
  induction patterns generalizing constants index with
  | nil => simp [literalsOf]
  | cons pattern patterns ih =>
      have hTail : patterns ⊆ typed :=
        fun _ hMem => hPatterns (List.mem_cons_of_mem _ hMem)
      have hLength :
          index + (pattern :: patterns).length =
            index + 1 + patterns.length := by
        rw [List.length_cons]
        omega
      rw [hLength]
      cases pattern with
      | regex re =>
          have hDrop :
              literalsOf (.regex re :: patterns) =
                literalsOf patterns := rfl
          rw [hDrop] at hDistinct ⊢
          exact ih (index + 1) hConstants hTail hDistinct
      | literal constant =>
          have hKeep :
              constants ++ literalsOf (.literal constant :: patterns) =
                constants ++ [constant] ++ literalsOf patterns := by
            rw [List.append_assoc]
            rfl
          rw [hKeep] at hDistinct ⊢
          have hConstant := hPatterns List.mem_cons_self
          have hNot : constant.setKey ∉ setKeys constants := by
            unfold setKeys at hDistinct ⊢
            rw [List.map_append, List.map_append,
              List.nodup_append] at hDistinct
            have hHead := hDistinct.1
            rw [List.nodup_append] at hHead
            intro hMem
            exact hHead.2.2 _ hMem _ List.mem_cons_self rfl
          rw [List.cons_append,
            collectAll_cons hSame arm index _ _ hConstants
              hConstant,
            if_neg hNot]
          apply ih (index + 1) _ hTail hDistinct
          intro other hOther
          rcases List.mem_append.mp hOther with hOld | hNew
          · exact hConstants other hOld
          · rw [List.mem_singleton.mp hNew]
            exact hConstant

/- The first constant that was collected before. -/
theorem collectAll_dup
    (arm index : Nat)
    {constants : List Literal}
    {patterns : List (Pattern Re)}
    (elsePattern : Bool)
    (hConstants :
      ∀ other ∈ constants, Pattern.literal other ∈ typed)
    (hPatterns : patterns ⊆ typed)
    (hDistinct : (setKeys constants).Nodup)
    (hNot :
      ¬ (setKeys (constants ++ literalsOf patterns)).Nodup) :
    ∃ before constant after,
      patterns = before ++ .literal constant :: after ∧
        (setKeys (constants ++ literalsOf before)).Nodup ∧
        constant.setKey ∈
          setKeys (constants ++ literalsOf before) ∧
        collectAll arm index patterns
            (collectorOf typed constants elsePattern) =
          .error (.dupPattern arm (index + before.length)) := by
  induction patterns generalizing constants index with
  | nil =>
      rw [literalsOf, List.filterMap_nil, List.append_nil] at hNot
      exact absurd hDistinct hNot
  | cons pattern patterns ih =>
      have hTail : patterns ⊆ typed :=
        fun _ hMem => hPatterns (List.mem_cons_of_mem _ hMem)
      cases pattern with
      | regex re =>
          rcases ih (index + 1) hConstants hTail hDistinct hNot with
            ⟨before, constant, after, hEq, hBefore, hMem, hError⟩
          refine ⟨.regex re :: before, constant, after, ?_, hBefore,
            hMem, ?_⟩
          · rw [hEq]
            rfl
          · rw [collectAll, hError, List.length_cons,
              Nat.add_assoc, Nat.add_comm 1]
      | literal constant =>
          have hConstant := hPatterns List.mem_cons_self
          by_cases hMem : constant.setKey ∈ setKeys constants
          · refine ⟨[], constant, patterns, rfl, ?_, ?_, ?_⟩
            · rwa [literalsOf, List.filterMap_nil,
                List.append_nil]
            · rwa [literalsOf, List.filterMap_nil,
                List.append_nil]
            · rw [collectAll_cons hSame arm index _ _ hConstants
                hConstant, if_pos hMem]
              rfl
          · have hNext :
                (setKeys (constants ++ [constant])).Nodup := by
              unfold setKeys at hDistinct hMem ⊢
              rw [List.map_append, List.nodup_append]
              refine ⟨hDistinct, List.nodup_cons.mpr ⟨List.not_mem_nil, List.nodup_nil⟩, ?_⟩
              intro left hLeft right hRight hEq
              rw [List.map_singleton, List.mem_singleton] at hRight
              rw [hEq, hRight] at hLeft
              exact hMem hLeft
            have hAll :
                ∀ other ∈ constants ++ [constant],
                  Pattern.literal other ∈ typed := by
              intro other hOther
              rcases List.mem_append.mp hOther with hOld | hNew
              · exact hConstants other hOld
              · rw [List.mem_singleton.mp hNew]
                exact hConstant
            have hKeep :
                ∀ before : List (Pattern Re),
                  constants ++
                      literalsOf (.literal constant :: before) =
                    constants ++ [constant] ++
                      literalsOf before := by
              intro before
              rw [List.append_assoc]
              rfl
            rw [hKeep] at hNot
            rcases ih (index + 1) hAll hTail hNext hNot with
              ⟨before, other, after, hEq, hBefore, hFound, hError⟩
            refine ⟨.literal constant :: before, other, after, ?_, ?_,
              ?_, ?_⟩
            · rw [hEq]
              rfl
            · rwa [hKeep]
            · rwa [hKeep]
            · rw [collectAll_cons hSame arm index _ _ hConstants
                hConstant, if_neg hMem, hError, List.length_cons,
                Nat.add_assoc, Nat.add_comm 1]

end Collect

end Case

end Ydsh
