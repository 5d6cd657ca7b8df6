import Ydsh.Case.Code

/-
  What a case expression means.

  The patterns are tried in the order of the source.  The first
  arm with one that holds is run, else the default arm, and its
  value is coerced to the type of the case.

  Main declarations:
    * `Pattern.holds`
    * `selectArm`
    * `CaseNode.meaning`
    * `Yields`
-/

----
-- Selection
----

namespace Ydsh

namespace Case

section Selection

variable
  {T Re V : Type}
  {pool : TypePool T}

/- `none` is an error raised by the match. -/
def Pattern.holds
    (engine : Engine Re V)
    (value : Scalar) : Pattern Re → Option Bool
  | .literal own => some (own.value.equals value)
  | .regex re =>
      match value with
      | .string bytes => engine.search re bytes
      | _ => some false

def anyHolds
    (engine : Engine Re V)
    (value : Scalar) : List (Pattern Re) → Option Bool
  | [] => some false
  | pattern :: patterns =>
      (pattern.holds engine value).bind fun holds =>
        if holds then some true else anyHolds engine value patterns

/- The first arm with a pattern that holds. -/
def selectArm
    (engine : Engine Re V)
    (value : Scalar) :
    Nat → List (ArmNode pool Re V) → Option (Option Nat)
  | _, [] => some none
  | index, arm :: arms =>
      (anyHolds engine value arm.patternNodes).bind fun holds =>
        if holds then
          some (some index)
        else
          selectArm engine value (index + 1) arms

/- An absent subject equals no pattern. -/
def select
    (engine : Engine Re V)
    (subject : Option Scalar)
    (arms : List (ArmNode pool Re V)) : Option (Option Nat) :=
  match subject with
  | none => some none
  | some value => selectArm engine value 0 arms

----
-- Results
----

/- How a case ends: in which arm, and with which value. -/
inductive Result (V : Type) where
  | raised
  | left (arm : Nat)
  | value (arm : Nat) (value : Option V)
  | nothing

variable [DecidableEq T]

/- The arm is run and its value coerced. -/
def finish
    (engine : Engine Re V)
    (type : T)
    (index : Nat)
    (arm : ArmNode pool Re V) : Result V :=
  match arm.actionNode.completion with
  | .left => .left index
  | .empty => .value index none
  | .value value =>
      .value index
        (coerce engine value
          (resolveCoercion pool type arm.actionNode.type))

def finishAt
    (engine : Engine Re V)
    (type : T)
    (arms : List (ArmNode pool Re V))
    (index : Nat) : Result V :=
  match arms[index]? with
  | none => .nothing
  | some arm => finish engine type index arm

/- The selected arm, or the default arm if there is one. -/
def finishFound
    (engine : Engine Re V)
    (type : T)
    (arms : List (ArmNode pool Re V))
    (found : Option Nat) : Result V :=
  match found with
  | some index => finishAt engine type arms index
  | none =>
      match arms.findIdx? ArmNode.isDefault with
      | none => .nothing
      | some index => finishAt engine type arms index

def CaseNode.meaning
    (engine : Engine Re V)
    (node : CaseNode pool Re V)
    (subject : Option Scalar) : Result V :=
  match select engine subject node.armNodes with
  | none => .raised
  | some found =>
      finishFound engine node.type node.armNodes found

end Selection

/- The tests of a chain leave the subject on the stack. -/
def CaseKind.unmatched
    {Re V : Type}
    (subject : Option Scalar)
    (below : List (Slot Re V)) : CaseKind → List (Slot Re V)
  | .MAP => below
  | .IF_ELSE => .subject subject :: below

/-
  The code does what the case means.  The arm is the only one
  run, and its value is all that is added to the stack; the
  stack is `unmatched` if no arm is run.
-/
def Yields
    {Re V : Type}
    (below unmatched : List (Slot Re V))
    (outcome : Outcome Re V) :
    Result V → Prop
  | .raised => outcome = .raised
  | .left arm => outcome = .left [arm]
  | .value arm value =>
      outcome = .done [arm] (pushResult value below)
  | .nothing => outcome = .done [] unmatched

/-
  Every checked form of a case runs as the case means, for all
  values of its subject and on any stack.
-/
def CaseNode.Exact
    {T Re V : Type}
    {pool : TypePool T}
    [DecidableEq T]
    (engine : Engine Re V)
    (node : CaseNode pool Re V)
    (kind : CaseKind) : Prop :=
  ∀ subject below,
    node.exprType.Has subject →
      ∃ code,
        node.compile kind = some code ∧
          ∀ fuel,
            code.length < fuel →
              Yields below (kind.unmatched subject below)
                (run engine subject fuel ⟨code, [], below⟩)
                (node.meaning engine subject)

/-
  An arm reported as a duplicate has a pattern equal to an
  earlier one, or is a default arm behind another.
-/
def CaseNode.Duplicates
    {T Re V : Type}
    {pool : TypePool T}
    [DecidableEq T]
    (node : CaseNode pool Re V) : Prop :=
  ∀ before arm after,
    node.armNodes = before ++ arm :: after →
      (node.visitCaseNode = .error (.dupElse before.length) →
        arm.isDefault = true ∧
          ∃ earlier ∈ before, earlier.isDefault = true) ∧
        ∀ patterns pattern rest,
          arm.patternNodes = patterns ++ pattern :: rest →
            node.visitCaseNode =
                .error
                  (.dupPattern before.length patterns.length) →
              ∃ literal earlier,
                pattern = .literal literal ∧
                  Pattern.literal earlier ∈
                    before.flatMap ArmNode.patternNodes ++
                      patterns ∧
                  earlier.value.equals literal.value = true

end Case

end Ydsh
