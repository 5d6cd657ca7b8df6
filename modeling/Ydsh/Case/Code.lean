import Ydsh.Case.Checker
import Ydsh.Library.ForwardCode

/-
  The two compiled forms of a case expression and the machine
  that runs them.

  All jumps of these forms go forward.  The expressions in them
  stand for their whole code: the subject pushes its value, and
  the expression of an arm is run and coerced.

  Main declarations:
    * `Ins`, `Label`
    * `generateMapCase`, `generateIfElseCase`
    * `CaseNode.compile`
    * `run`
-/

----
-- Instructions
----

namespace Ydsh

namespace Case

open Library.ForwardCode

inductive Label where
  | merge
  | els
  | arm (index : Nat)
  | armElse (index : Nat)
  | armMerge (index : Nat)
  | next (index pattern : Nat)
  deriving DecidableEq

inductive Ins (Re V : Type) where
  | ldc (map : List (Scalar × Label))
  | expr
  | LOOKUP_HASH
  | GOTO (label : Label)
  | BRANCH (label : Label)
  | DUP
  | POP
  | PUSH_TRUE
  | pattern (node : Pattern Re)
  | callEq
  | callMatch
  | action
      (arm : Nat) (completion : Completion V)
      (coercion : Coercion)

abbrev Code (Re V : Type) :=
  List (Item (Ins Re V) Label)

/- Adds an entry or replaces the one with an equal key. -/
def MapObject.set
    (key : Scalar)
    (label : Label) :
    List (Scalar × Label) → List (Scalar × Label)
  | [] => [(key, label)]
  | entry :: map =>
      if entry.1.equals key then
        (entry.1, label) :: map
      else
        entry :: MapObject.set key label map

def MapObject.find
    (key : Scalar)
    (map : List (Scalar × Label)) : Option Label :=
  (map.find? fun entry => entry.1.equals key).map Prod.snd

/-
  The value a constant becomes.  A number node that is no
  signal is an integer, whatever its type.
-/
def newObject (literal : Literal) : Scalar :=
  match literal.value with
  | .int value => .int value
  | .float bits => .int bits
  | .signal value => .signal value
  | .string bytes => .string bytes

section Generate

variable
  {T Re V : Type}
  {pool : TypePool T}

def generateCaseLabels
    (label : Label)
    (patterns : List (Pattern Re))
    (map : List (Scalar × Label)) : List (Scalar × Label) :=
  patterns.foldl
    (fun map pattern =>
      match pattern with
      | .literal literal =>
          MapObject.set (newObject literal) label map
      | .regex _ => map)
    map

/- The table once the code of all arms is there. -/
def caseTable :
    Nat → List (ArmNode pool Re V) → List (Scalar × Label) →
      List (Scalar × Label)
  | _, [], map => map
  | index, arm :: arms, map =>
      caseTable (index + 1) arms
        (generateCaseLabels (.arm index) arm.patternNodes map)

----
-- Code
----

variable [DecidableEq T]

/- The expression of an arm, coerced to the type of the case. -/
def armCode
    (type : T)
    (index : Nat)
    (arm : ArmNode pool Re V) : Item (Ins Re V) Label :=
  .ins
    (.action index arm.actionNode.completion
      (resolveCoercion pool type arm.actionNode.type))

/-
  The arms behind a table.  All have the type of the case once
  they are checked; where that is the type of expressions that
  never complete, no jump is needed behind them.
-/
def mapCaseArms
    (type : T)
    (index : Nat) :
    List (ArmNode pool Re V) → Code Re V
  | [] => []
  | arm :: arms =>
      (if 0 < index ∧ type ≠ pool.nothing then
          [.ins (.GOTO .merge)]
        else []) ++
        .mark (if arm.isDefault then .els else .arm index) ::
          armCode type index arm ::
            mapCaseArms type (index + 1) arms

def generateMapCase
    (type : T)
    (arms : List (ArmNode pool Re V)) : Code Re V :=
  .ins (.ldc (caseTable 0 arms [])) ::
    .ins .expr ::
      .ins .LOOKUP_HASH ::
        .ins
            (.GOTO
              (if arms.any ArmNode.isDefault then
                  .els
                else .merge)) ::
          (mapCaseArms type 0 arms ++ [.mark .merge])

/- One test of the subject, which stays on the stack. -/
def testCode (pattern : Pattern Re) : Code Re V :=
  [.ins .DUP, .ins (.pattern pattern),
    .ins (if pattern.isRegex then .callMatch else .callEq)]

def armPatterns
    (arm : Nat) :
    Nat → List (Pattern Re) → Code Re V
  | _, [] => []
  | index, pattern :: patterns =>
      (if 0 < index then
          [.ins (.BRANCH (.next arm index)), .ins .PUSH_TRUE,
            .ins (.GOTO (.armMerge arm)),
            .mark (.next arm index)]
        else []) ++
        testCode pattern ++
          armPatterns arm (index + 1) patterns

def generateIfElseArm
    (type : T)
    (index : Nat)
    (arm : ArmNode pool Re V) : Code Re V :=
  armPatterns index 0 arm.patternNodes ++
    [.mark (.armMerge index), .ins (.BRANCH (.armElse index)),
      .ins .POP, armCode type index arm,
      .ins (.GOTO .merge), .mark (.armElse index)]

def ifElseArms
    (type : T)
    (index : Nat) :
    List (ArmNode pool Re V) → Code Re V
  | [] => []
  | arm :: arms =>
      (if arm.isDefault then [] else
          generateIfElseArm type index arm) ++
        ifElseArms type (index + 1) arms

/- The last default arm, if there is one. -/
def defaultIndex
    (index : Nat) :
    List (ArmNode pool Re V) →
      Option (Nat × ArmNode pool Re V)
  | [] => none
  | arm :: arms =>
      (defaultIndex (index + 1) arms).orElse fun _ =>
        if arm.isDefault then some (index, arm) else none

def ifElseDefault
    (type : T)
    (arms : List (ArmNode pool Re V)) : Code Re V :=
  match defaultIndex 0 arms with
  | none => []
  | some (index, arm) => [.ins .POP, armCode type index arm]

def generateIfElseCase
    (type : T)
    (arms : List (ArmNode pool Re V)) : Code Re V :=
  .ins .expr ::
    (ifElseArms type 0 arms ++ ifElseDefault type arms ++
      [.mark .merge])

/-
  The code of a checked case.  The chain of tests calls methods
  of the subject's type, and a type that is an option has none.
-/
def CaseNode.compile
    (node : CaseNode pool Re V)
    (kind : CaseKind) : Option (Code Re V) :=
  match kind with
  | .MAP => some (generateMapCase node.type node.armNodes)
  | .IF_ELSE =>
      if node.exprType.isOption then
        none
      else
        some (generateIfElseCase node.type node.armNodes)

end Generate

----
-- Machine
----

/- What stands on the operand stack. -/
inductive Slot (Re V : Type) where
  | subject (value : Option Scalar)
  | map (entries : List (Scalar × Label))
  | pattern (node : Pattern Re)
  | bool (value : Bool)
  | result (value : V)

/-
  What the machine takes from outside: matching, which may
  raise an error, and the tests behind the two coercions to
  booleans.
-/
structure Engine (Re V : Type) where
  search : Re → List UInt8 → Option Bool
  unwraps : V → V
  toBool : V → V

/-
  How the code of a case ends: with the arms that were run and
  the stack, by leaving it in an arm, with an error, or nowhere.
-/
inductive Outcome (Re V : Type) where
  | done (executed : List Nat) (stack : List (Slot Re V))
  | left (executed : List Nat)
  | raised
  | stuck

section Run

variable {Re V : Type}

/- A value coerced; it is gone if the case has none. -/
def coerce
    (engine : Engine Re V)
    (value : V) : Coercion → Option V
  | .nop => some value
  | .toVoid => none
  | .checkUnwrap => some (engine.unwraps value)
  | .toBool => some (engine.toBool value)

def pushResult
    (value : Option V)
    (stack : List (Slot Re V)) : List (Slot Re V) :=
  match value with
  | none => stack
  | some value => .result value :: stack

/-
  The equality and the match of strings; the result is `none`
  if the operands are no such values.
-/
def stringEq
    (subject : Option Scalar)
    (pattern : Pattern Re) : Option Bool :=
  match subject, pattern with
  | some (.string left), .literal literal =>
      match literal.value with
      | .string right => some (left == right)
      | _ => none
  | _, _ => none

def stringMatch
    (engine : Engine Re V)
    (subject : Option Scalar)
    (pattern : Pattern Re) : Option (Option Bool) :=
  match subject, pattern with
  | some (.string bytes), .regex re =>
      some (engine.search re bytes)
  | _, _ => none

def jump
    (label : Label)
    (code : Code Re V) : Option (Code Re V) :=
  skipTo label code

/- The code, the arms run so far and the stack. -/
structure Config (Re V : Type) where
  code : Code Re V
  executed : List Nat
  stack : List (Slot Re V)

/- One instruction, `.inl` being the end of the run. -/
def step
    (engine : Engine Re V)
    (subject : Option Scalar)
    (ins : Ins Re V)
    (code : Code Re V)
    (executed : List Nat)
    (stack : List (Slot Re V)) :
    Outcome Re V ⊕ Config Re V :=
  match ins, stack with
  | .ldc map, stack => .inr ⟨code, executed, .map map :: stack⟩
  | .expr, stack => .inr ⟨code, executed, .subject subject :: stack⟩
  | .LOOKUP_HASH, .subject key :: .map map :: stack =>
      match key.bind fun key => MapObject.find key map with
      | none => .inr ⟨code, executed, stack⟩
      | some label =>
          match jump label code with
          | none => .inl .stuck
          | some code => .inr ⟨code, executed, stack⟩
  | .GOTO label, stack =>
      match jump label code with
      | none => .inl .stuck
      | some code => .inr ⟨code, executed, stack⟩
  | .BRANCH label, .bool holds :: stack =>
      if holds then
        .inr ⟨code, executed, stack⟩
      else
        match jump label code with
        | none => .inl .stuck
        | some code => .inr ⟨code, executed, stack⟩
  | .DUP, slot :: stack => .inr ⟨code, executed, slot :: slot :: stack⟩
  | .POP, _ :: stack => .inr ⟨code, executed, stack⟩
  | .PUSH_TRUE, stack => .inr ⟨code, executed, .bool true :: stack⟩
  | .pattern node, stack =>
      .inr ⟨code, executed, .pattern node :: stack⟩
  | .callEq, .pattern node :: .subject value :: stack =>
      match stringEq value node with
      | none => .inl .stuck
      | some holds => .inr ⟨code, executed, .bool holds :: stack⟩
  | .callMatch, .pattern node :: .subject value :: stack =>
      match stringMatch engine value node with
      | none => .inl .stuck
      | some none => .inl .raised
      | some (some holds) =>
          .inr ⟨code, executed, .bool holds :: stack⟩
  | .action arm completion coercion, stack =>
      match completion with
      | .left => .inl (.left (executed ++ [arm]))
      | .empty => .inr ⟨code, executed ++ [arm], stack⟩
      | .value value =>
          .inr
            ⟨code, executed ++ [arm],
              pushResult (coerce engine value coercion) stack⟩
  | _, _ => .inl .stuck

/- At most `fuel` instructions and labels. -/
def run
    (engine : Engine Re V)
    (subject : Option Scalar) :
    Nat → Config Re V → Outcome Re V
  | 0, _ => .stuck
  | fuel + 1, config =>
      match config.code with
      | [] => .done config.executed config.stack
      | .mark _ :: code =>
          run engine subject fuel { config with code := code }
      | .ins ins :: code =>
          match
            step engine subject ins code config.executed
              config.stack with
          | .inl outcome => outcome
          | .inr config => run engine subject fuel config

/- The equations that proofs unfold. -/
attribute [local simp] run

end Run

end Case

end Ydsh
