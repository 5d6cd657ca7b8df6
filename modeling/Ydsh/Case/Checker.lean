/-
  Case expressions and how they are checked.

  Patterns are constants, as they stand after constant folding,
  and regular expressions.  A string is its bytes, a float its
  sixty-four bits.

  The arms are walked in order.  The patterns of an arm must all
  have the type of the first pattern of the case, and then each
  constant is put into a set; one that is there already is an
  error.

  Main declarations:
    * `Scalar`, `Scalar.equals`
    * `Literal`, `Pattern`
    * `TypePool`, `Action`, `ArmNode`
    * `CaseNode`
    * `Collector`
    * `checkPatternType`
    * `resolveCommonSuperType`
    * `visitCaseNode`
-/

----
-- Values
----

namespace Ydsh

namespace Case

inductive ScalarType where
  | Int
  | Float
  | Signal
  | String
  deriving DecidableEq, Repr

inductive Scalar where
  | int (value : BitVec 64)
  | float (bits : BitVec 64)
  | signal (value : BitVec 64)
  | string (bytes : List UInt8)
  deriving DecidableEq

/- The bits of a float without its sign. -/
def magnitude (bits : BitVec 64) : Nat :=
  bits.toNat % 0x8000000000000000

def isNaN (bits : BitVec 64) : Bool :=
  0x7ff0000000000000 < magnitude bits

/- Both zeros are equal, and no float equals a NaN. -/
def floatEq (left right : BitVec 64) : Bool :=
  !isNaN left && !isNaN right &&
    (left == right ||
      (magnitude left == 0 && magnitude right == 0))

namespace Scalar

def type : Scalar → ScalarType
  | int _ => .Int
  | float _ => .Float
  | signal _ => .Signal
  | string _ => .String

def equals : Scalar → Scalar → Bool
  | string left, string right => left == right
  | signal left, signal right => left == right
  | int left, int right => left == right
  | float left, float right => floatEq left right
  | _, _ => false

end Scalar

/- A constant of the source, which is never a NaN. -/
structure Literal where
  value : Scalar
  notNaN : ∀ bits, value = .float bits → isNaN bits = false

namespace Literal

def type (literal : Literal) : ScalarType :=
  literal.value.type

/- A number node, of whatever type. -/
def isNumber (literal : Literal) : Bool :=
  literal.type != .String

/- A constant equals itself. -/
theorem equals_self (literal : Literal) :
    literal.value.equals literal.value = true := by
  rcases literal with ⟨value, hNaN⟩
  cases value with
  | int value => simp [Scalar.equals]
  | float bits => simp [Scalar.equals, floatEq, hNaN bits rfl]
  | signal value => simp [Scalar.equals]
  | string bytes => simp [Scalar.equals]

end Literal

inductive Pattern (Re : Type) where
  | literal (literal : Literal)
  | regex (re : Re)

namespace Pattern

variable {Re : Type}

def isRegex : Pattern Re → Bool
  | literal _ => false
  | regex _ => true

/- A regular expression is a pattern for strings. -/
def type : Pattern Re → ScalarType
  | literal value => value.type
  | regex _ => .String

end Pattern

----
-- Types
----

/-
  What the checker asks about types.  Nothing but itself is
  below the type of expressions that never complete, which is
  neither void nor boolean.
-/
structure TypePool (T : Type) where
  void : T
  nothing : T
  boolean : T
  isSameOrBaseTypeOf : T → T → Bool
  isOptionType : T → Bool
  hasBoolMethod : T → Bool
  nothing_below :
    ∀ type, isSameOrBaseTypeOf nothing type = true →
      type = nothing
  nothing_ne_void : nothing ≠ void
  nothing_ne_boolean : nothing ≠ boolean

/- How the expression of an arm ends. -/
inductive Completion (V : Type) where
  | left
  | empty
  | value (value : V)

/-
  The expression of an arm, its type and what becomes of it.
  It has a value unless its type is one of those without.
-/
structure Action
    {T : Type}
    (pool : TypePool T)
    (V : Type) where
  type : T
  completion : Completion V
  leaves : type = pool.nothing → completion = .left
  isEmpty :
    type = pool.void → ∀ value, completion ≠ .value value
  hasValue : type ≠ pool.void → completion ≠ .empty

/- An arm without patterns is the default arm. -/
structure ArmNode
    {T : Type}
    (pool : TypePool T)
    (Re V : Type) where
  patternNodes : List (Pattern Re)
  actionNode : Action pool V

def ArmNode.isDefault
    {T Re V : Type}
    {pool : TypePool T}
    (arm : ArmNode pool Re V) : Bool :=
  arm.patternNodes.isEmpty

/- Types a pattern can have, options of these, and the rest. -/
inductive SubjectType where
  | plain (type : ScalarType)
  | option (type : ScalarType)
  | other

namespace SubjectType

/- The values of a type; `none` is the absent one. -/
def Has : SubjectType → Option Scalar → Prop
  | plain type, value =>
      ∃ present, value = some present ∧ present.type = type
  | option type, value =>
      ∀ present, value = some present → present.type = type
  | other, _ => False

/- The type itself, or the one it is an option of. -/
def element : SubjectType → Option ScalarType
  | plain type => some type
  | option type => some type
  | other => none

def isOption : SubjectType → Bool
  | option _ => true
  | _ => false

end SubjectType

structure CaseNode
    {T : Type}
    (pool : TypePool T)
    (Re V : Type) where
  exprType : SubjectType
  armNodes : List (ArmNode pool Re V)

end Case

end Ydsh

----
-- Patterns
----

namespace Ydsh

namespace Case

/- Errors, with the arm and the pattern they are reported at. -/
inductive TypeCheckError where
  | dupElse (arm : Nat)
  | required (arm index : Nat)
  | dupPattern (arm index : Nat)
  | needPattern
  | requiredExpr
  | requiredAction
  | needDefault
  deriving DecidableEq

inductive CaseKind where
  | MAP
  | IF_ELSE
  deriving DecidableEq

/- A string up to its first zero byte. -/
def cString (bytes : List UInt8) : List UInt8 :=
  bytes.takeWhile (fun byte => byte != 0)

/- What a set of patterns holds for a constant. -/
inductive SetKey where
  | int (value : BitVec 64)
  | str (bytes : List UInt8)
  deriving DecidableEq

/-
  A number is kept as the sixty-four bits of its node and a
  string as a C string.
-/
def Literal.setKey (literal : Literal) : SetKey :=
  match literal.value with
  | .int value => .int value
  | .float bits => .int bits
  | .signal value => .int value
  | .string bytes => .str (cString bytes)

/- Its kind is the one of the first constant collected. -/
structure PatternMap where
  number : Bool
  set : List SetKey

/- `none` is a constant of the other kind or collected before. -/
def PatternMap.collect
    (map : PatternMap)
    (literal : Literal) : Option PatternMap :=
  if literal.isNumber != map.number then
    none
  else if literal.setKey ∈ map.set then
    none
  else
    some { map with set := map.set ++ [literal.setKey] }

structure Collector where
  kind : CaseKind
  map : Option PatternMap
  elsePattern : Bool
  type : Option ScalarType

namespace Collector

def init : Collector :=
  { kind := .MAP
    map := none
    elsePattern := false
    type := none }

def collect
    (collector : Collector)
    (literal : Literal) : Option Collector :=
  let map :=
    collector.map.getD { number := literal.isNumber, set := [] }
  (map.collect literal).map fun map =>
    { collector with map := some map }

end Collector

section Patterns

variable {Re : Type}

/- The types of the patterns of an arm. -/
def checkTypes
    (arm : Nat) :
    Nat → List (Pattern Re) → Collector →
      Except TypeCheckError Collector
  | _, [], collector => .ok collector
  | index, pattern :: patterns, collector =>
      let kind :=
        if pattern.isRegex then .IF_ELSE else collector.kind
      let type := collector.type.getD pattern.type
      if type = pattern.type then
        checkTypes arm (index + 1) patterns
          { collector with kind := kind, type := some type }
      else
        .error (.required arm index)

/- The constants of an arm. -/
def collectAll
    (arm : Nat) :
    Nat → List (Pattern Re) → Collector →
      Except TypeCheckError Collector
  | _, [], collector => .ok collector
  | index, .regex _ :: patterns, collector =>
      collectAll arm (index + 1) patterns collector
  | index, .literal literal :: patterns, collector =>
      match collector.collect literal with
      | none => .error (.dupPattern arm index)
      | some collector =>
          collectAll arm (index + 1) patterns collector

def checkElse
    (arm : Nat)
    (patterns : List (Pattern Re))
    (collector : Collector) : Except TypeCheckError Collector :=
  if patterns.isEmpty then
    if collector.elsePattern then
      .error (.dupElse arm)
    else
      .ok { collector with elsePattern := true }
  else
    .ok collector

def checkPatternType
    (arm : Nat)
    (patterns : List (Pattern Re))
    (collector : Collector) : Except TypeCheckError Collector :=
  (checkElse arm patterns collector).bind fun collector =>
    (checkTypes arm 0 patterns collector).bind
      (collectAll arm 0 patterns)

end Patterns

/- How the value of an arm becomes one of the case. -/
inductive Coercion where
  | nop
  | toVoid
  | checkUnwrap
  | toBool

section Types

variable {T : Type} [DecidableEq T]

def checkCoercion
    (pool : TypePool T)
    (required target : T) : Bool :=
  if required = pool.void then
    true
  else
    decide (required = pool.boolean) &&
      (pool.isOptionType target || pool.hasBoolMethod target)

/- A value of type `target` can be made one of `required`. -/
def accepts
    (pool : TypePool T)
    (required target : T) : Bool :=
  pool.isSameOrBaseTypeOf required target ||
    checkCoercion pool required target

/- The first type that accepts them all, else void. -/
def resolveCommonSuperType
    (pool : TypePool T)
    (types : List T) : T :=
  (types.find? fun type => types.all (accepts pool type)).getD
    pool.void

/- The operation put around an arm of type `target`. -/
def resolveCoercion
    (pool : TypePool T)
    (required target : T) : Coercion :=
  if pool.isSameOrBaseTypeOf required target then
    .nop
  else if required = pool.void then
    .toVoid
  else if pool.isOptionType target then
    .checkUnwrap
  else
    .toBool

end Types

----
-- Case Expressions
----

section Cases

variable
  {T Re V : Type}
  {pool : TypePool T}

def checkArms :
    Nat → List (ArmNode pool Re V) → Collector →
      Except TypeCheckError Collector
  | _, [], collector => .ok collector
  | arm, node :: nodes, collector =>
      (checkPatternType arm node.patternNodes collector).bind
        (checkArms (arm + 1) nodes)

namespace CaseNode

variable [DecidableEq T]

/- The type of the case. -/
def type (node : CaseNode pool Re V) : T :=
  resolveCommonSuperType pool
    (node.armNodes.map fun arm => arm.actionNode.type)

/- What is checked once the patterns are collected. -/
def checkCollected
    (node : CaseNode pool Re V)
    (collector : Collector) : Except TypeCheckError CaseKind :=
  match collector.type with
  | none => .error .needPattern
  | some type =>
      if node.exprType.element = some type then
        if
          node.armNodes.all
            (fun arm =>
              accepts pool node.type arm.actionNode.type) then
          if
            node.type ≠ pool.void ∧
              collector.elsePattern = false then
            .error .needDefault
          else
            .ok collector.kind
        else
          .error .requiredAction
      else
        .error .requiredExpr

def visitCaseNode
    (node : CaseNode pool Re V) :
    Except TypeCheckError CaseKind :=
  (checkArms 0 node.armNodes Collector.init).bind
    node.checkCollected

end CaseNode

end Cases

end Case

end Ydsh
