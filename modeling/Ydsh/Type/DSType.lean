import Mathlib.Tactic.Common

/-
  Types of the language.

  Types are interned, so a type is compared by its id.  Tuple,
  function and module types carry that id; the element types
  of the other templates determine them.

  Main declarations:
    * `DSType`
    * `DSType.superType`
    * `DSType.isSameOrBaseTypeOf`
-/

----
-- Types
----

namespace Ydsh

inductive BuiltinType where
  | procGuard
  | root
  | any
  | void
  | nothing
  | value
  | int
  | float
  | boolean
  | string
  | regex
  | signal
  | signals
  | error
  | job
  | func
  | stringIter
  | unixFD
  | internalStatus
  | shellExit
  | assertFail
  deriving DecidableEq, Repr

/- The predefined error types, all derived from `Error`. -/
inductive ErrorType where
  | arithmeticError
  | outOfRangeError
  | keyNotFoundError
  | typeCastError
  | systemError
  | stackOverflowError
  | regexSyntaxError
  | globbingError
  | unwrappingError
  | illegalAccessError
  | invalidOperationError
  deriving DecidableEq, Repr

inductive DSType where
  | builtin (type : BuiltinType)
  | errorType (type : ErrorType)
  | array (element : DSType)
  | map (key value : DSType)
  | tuple (id : Nat)
  | option (element : DSType)
  | function (id : Nat) (returnType : DSType)
  | module (id : Nat)
  deriving DecidableEq, Repr

namespace DSType

abbrev procGuard : DSType := .builtin .procGuard
abbrev root : DSType := .builtin .root
abbrev any : DSType := .builtin .any
abbrev void : DSType := .builtin .void
abbrev nothing : DSType := .builtin .nothing
abbrev int : DSType := .builtin .int
abbrev float : DSType := .builtin .float
abbrev boolean : DSType := .builtin .boolean
abbrev string : DSType := .builtin .string
abbrev regex : DSType := .builtin .regex
abbrev signal : DSType := .builtin .signal
abbrev error : DSType := .builtin .error
abbrev job : DSType := .builtin .job
abbrev unixFD : DSType := .builtin .unixFD
abbrev shellExit : DSType := .builtin .shellExit

----
-- Subtyping
----

def isOptionType : DSType → Bool
  | .option _ => true
  | _ => false

def isFuncType : DSType → Bool
  | .function _ _ => true
  | _ => false

/- The return type of a function type. -/
def returnType : DSType → DSType
  | .function _ returnType => returnType
  | _ => void

/- An option type is its own option type. -/
def createOptionType : DSType → DSType
  | .option element => .option element
  | element => .option element

def isModType : DSType → Bool
  | .module _ => true
  | _ => false

def superTypeOfBuiltin : BuiltinType → Option BuiltinType
  | .procGuard => none
  | .root => some .procGuard
  | .any => some .root
  | .void => none
  | .nothing => none
  | .value => some .any
  | .int => some .value
  | .float => some .value
  | .boolean => some .value
  | .string => some .value
  | .regex => some .any
  | .signal => some .value
  | .signals => some .any
  | .error => some .any
  | .job => some .any
  | .func => some .any
  | .stringIter => some .any
  | .unixFD => some .any
  | .internalStatus => some .root
  | .shellExit => some .internalStatus
  | .assertFail => some .internalStatus

def superType : DSType → Option DSType
  | .builtin type =>
      (superTypeOfBuiltin type).map DSType.builtin
  | .errorType _ => some error
  | .array _ => some any
  | .map _ _ => some any
  | .tuple _ => some any
  | .option _ => none
  | .function _ _ => some (.builtin .func)
  | .module _ => some any

/- The number of steps up to a type without a super type. -/
def builtinRank : BuiltinType → Nat
  | .procGuard => 0
  | .root => 1
  | .any => 2
  | .void => 0
  | .nothing => 0
  | .value => 3
  | .int => 4
  | .float => 4
  | .boolean => 4
  | .string => 4
  | .regex => 3
  | .signal => 4
  | .signals => 3
  | .error => 3
  | .job => 3
  | .func => 3
  | .stringIter => 3
  | .unixFD => 3
  | .internalStatus => 2
  | .shellExit => 3
  | .assertFail => 3

def rank : DSType → Nat
  | .builtin type => builtinRank type
  | .errorType _ => 4
  | .array _ => 3
  | .map _ _ => 3
  | .tuple _ => 3
  | .option _ => 0
  | .function _ _ => 4
  | .module _ => 3

theorem rank_superType
    {type super : DSType}
    (hSuper : type.superType = some super) :
    super.rank < type.rank := by
  cases type with
  | builtin type =>
      cases type <;> cases hSuper <;> decide
  | option element => cases hSuper
  | errorType type | function id returnType =>
      cases hSuper
      exact (by decide : 3 < 4)
  | array element | map key value | tuple id | module id =>
      cases hSuper
      exact (by decide : 2 < 3)

theorem superType_ne_nothing
    (type : DSType) :
    type.superType ≠ some nothing := by
  cases type with
  | builtin type => cases type <;> decide
  | _ => simp [superType]

/- The super types of a type, the nearest one first. -/
def superTypesWithin : Nat → DSType → List DSType
  | 0, _ => []
  | limit + 1, type =>
      match type.superType with
      | some super => super :: superTypesWithin limit super
      | none => []

def superTypes (type : DSType) : List DSType :=
  superTypesWithin type.rank type

/- The rank of a type is a large enough limit. -/
theorem superTypesWithin_eq
    {limit other : Nat}
    {type : DSType}
    (hLimit : type.rank ≤ limit)
    (hOther : type.rank ≤ other) :
    superTypesWithin limit type = superTypesWithin other type := by
  induction limit generalizing other type with
  | zero =>
      cases other with
      | zero => rfl
      | succ other =>
          cases hSuper : type.superType with
          | none => simp [superTypesWithin, hSuper]
          | some super =>
              have hRank := rank_superType hSuper
              omega
  | succ limit ih =>
      cases hSuper : type.superType with
      | none => cases other <;> simp [superTypesWithin, hSuper]
      | some super =>
          have hRank := rank_superType hSuper
          cases other with
          | zero => omega
          | succ other =>
              have hSame : superTypesWithin limit super =
                  superTypesWithin other super :=
                ih (by omega) (by omega)
              simp only [superTypesWithin, hSuper, hSame]

theorem superTypes_of_superType
    {type super : DSType}
    (hSuper : type.superType = some super) :
    type.superTypes = super :: super.superTypes := by
  have hRank := rank_superType hSuper
  have hSame : superTypesWithin type.rank super =
      super.superTypes :=
    superTypesWithin_eq (Nat.le_of_lt hRank) (Nat.le_refl _)
  rw [superTypes,
    superTypesWithin_eq (Nat.le_refl _) (Nat.le_succ type.rank)]
  simp only [superTypesWithin, hSuper, hSame]

/-
  An option type is looked through before the super types of
  the other type are tried.
-/
def isSameOrBaseTypeOf (type target : DSType) : Bool :=
  if type = target then
    true
  else if target = nothing then
    true
  else
    match type with
    | .option element => element.isSameOrBaseTypeOf target
    | _ => decide (type ∈ target.superTypes)

/- The super types are tried one after the other. -/
theorem isSameOrBaseTypeOf_superType
    {type target super : DSType}
    (hOption : type.isOptionType = false)
    (hSame : type ≠ target)
    (hNothing : target ≠ nothing)
    (hSuper : target.superType = some super) :
    type.isSameOrBaseTypeOf target =
      type.isSameOrBaseTypeOf super := by
  have hSuperNothing : super ≠ nothing := by
    intro hIs
    rw [hIs] at hSuper
    exact superType_ne_nothing target hSuper
  have hUnfold :
      type.isSameOrBaseTypeOf target =
        decide (type ∈ target.superTypes) := by
    unfold isSameOrBaseTypeOf
    rw [if_neg hSame, if_neg hNothing]
    cases type with
    | option element => cases hOption
    | _ => rfl
  rw [hUnfold, superTypes_of_superType hSuper]
  unfold isSameOrBaseTypeOf
  by_cases hIs : type = super
  · rw [if_pos hIs]
    simp [hIs]
  · rw [if_neg hIs, if_neg hSuperNothing]
    cases type with
    | option element => cases hOption
    | _ => simp [hIs]

theorem isSameOrBaseTypeOf_refl (type : DSType) :
    type.isSameOrBaseTypeOf type = true := by
  unfold isSameOrBaseTypeOf
  rw [if_pos rfl]

/- An option type is a base of what its element is a base of. -/
theorem isSameOrBaseTypeOf_option
    {element target : DSType}
    (hBase : element.isSameOrBaseTypeOf target = true) :
    (option element).isSameOrBaseTypeOf target = true := by
  unfold isSameOrBaseTypeOf
  split
  · rfl
  · split
    · rfl
    · exact hBase

theorem isSameOrBaseTypeOf_createOptionType
    {element target : DSType}
    (hBase : element.isSameOrBaseTypeOf target = true) :
    element.createOptionType.isSameOrBaseTypeOf target =
      true := by
  cases element with
  | option inner => exact hBase
  | _ => exact isSameOrBaseTypeOf_option hBase

end DSType

end Ydsh
