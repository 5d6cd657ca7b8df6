import Ydsh.Folding.Node

/-
  What a constant expression yields when it is run.

  The parts of a string are joined from left to right on the
  operand stack, whether they stand in nested strings or not.
  The strings of a shell are within the limit.

  Main declarations:
    * `Store`
    * `visit`
-/

----
-- Stores
----

namespace Ydsh

namespace Folding

open RegexObject (Bytes MAX_SIZE Str)

open Scope (FieldHandle ScopeStore ScopeRef)

inductive Outcome where
  | value (value : Value)
  | raised
  | undefined
  deriving DecidableEq, Repr

/-
  What the variables hold, and what the expressions yield that
  are never folded.  The predefined variables are never written.
-/
structure Store
    (shell : Shell)
    (place : Place) where
  load : Storage → Outcome
  other : Node → Outcome
  predefined :
    ∀ name storage text,
      place.predefined name = some storage →
        shell.predefined name = some text →
          load storage = .value (.string text.1)
  bounded :
    ∀ storage text,
      load storage = .value (.string text) →
        text.length ≤ MAX_SIZE
  other_bounded :
    ∀ node text,
      other node = .value (.string text) →
        text.length ≤ MAX_SIZE

----
-- Runs
----

namespace Outcome

def expectString
    (outcome : Outcome)
    (next : Bytes → Outcome) : Outcome :=
  match outcome with
  | value (.string text) => next text
  | value _ => undefined
  | raised => raised
  | undefined => undefined

def expectInt
    (outcome : Outcome)
    (next : Int64 → Outcome) : Outcome :=
  match outcome with
  | value (.int number) => next number
  | value _ => undefined
  | raised => raised
  | undefined => undefined

end Outcome

def concatAsStr (left right : Bytes) : Outcome :=
  if right = [] then
    .value (.string left)
  else if left = [] then
    .value (.string right)
  else
    match RegexObject.appendAsStr left right with
    | some text => .value (.string text)
    | none => .raised

/- If there is a string to the left, the value is joined. -/
def join (left : Option Bytes) (outcome : Outcome) : Outcome :=
  match left with
  | none => outcome
  | some left => outcome.expectString (concatAsStr left)

/- The method of the operator. -/
def callInt (op : UnaryOp) (value : Int64) : Outcome :=
  let outcome :=
    match op with
    | .minus => Builtin.int_minus value
    | .not => Builtin.int_not value
    | _ => Builtin.int_plus value
  match outcome with
  | .returned value => .value (.int value)
  | .raised _ => .raised
  | .undefined => .undefined

def regex_init (shell : Shell) (pattern flag : Bytes) : Outcome :=
  match compileRegex shell pattern flag with
  | some flags => .value (.regex pattern flags)
  | none => .raised

/- The regular expression was compiled by the type checker. -/
def loadRegex (shell : Shell) (reStr reFlag : Bytes) : Outcome :=
  match compileRegex shell reStr reFlag with
  | some flags => .value (.regex reStr flags)
  | none => .undefined

/- Expressions whose parts are joined with those outside. -/
def isConcat : Node → Bool
  | .string _ => true
  | .stringExpr _ => true
  | _ => false

variable {shell : Shell}
variable {place : Place}

mutual

/-
  The value of an expression, joined with what is to its left.
  An empty literal to the right of a string is not loaded.
-/
def visit
    (store : Store shell place) :
    Option Bytes → Node → Outcome
  | left, .string value =>
      if left.isSome && value.1.isEmpty then
        .value (.string (left.getD []))
      else
        join left (.value (.string value.1))
  | left, .int value => join left (.value (.int value))
  | left, .number typeId bits =>
      join left (.value (.number typeId bits))
  | left, .regex reStr reFlag =>
      join left (loadRegex shell reStr.1 reFlag.1)
  | left, .unaryOp op type recv =>
      join left
        (if isIntOp op type then
          (visit store none recv).expectInt (callInt op)
        else
          store.other (.unaryOp op type recv))
  | left, .stringExpr exprs => visitParts store left exprs
  | left, .embed none expr =>
      if isConcat expr then
        visit store left expr
      else
        join left (visit store none expr)
  | left, .embed (some method) expr =>
      join left (store.other (.embed (some method) expr))
  | left, .var _ handle => join left (store.load (storage handle))
  | left, .newRegex str flag =>
      join left
        ((visit store none str).expectString
          (fun pattern =>
            (visit store none flag).expectString
              (regex_init shell pattern)))
  | left, .other type id =>
      join left (store.other (.other type id))

def visitParts
    (store : Store shell place) :
    Option Bytes → Nodes → Outcome
  | left, .nil => .value (.string (left.getD []))
  | left, .cons node rest =>
      (visit store left node).expectString
        (fun text => visitParts store (some text) rest)

end

----
-- Strings within the Limit
----

variable {left right text : Bytes}
variable {before : Option Bytes}
variable {outcome : Outcome}
variable {store : Store shell place}

theorem expectString_eq_value
    {next : Bytes → Outcome}
    {value : Value}
    (hValue : outcome.expectString next = .value value) :
    ∃ text,
      outcome = .value (.string text) ∧
        next text = .value value := by
  unfold Outcome.expectString at hValue
  cases outcome with
  | value found =>
      cases found with
      | string text => exact ⟨text, rfl, hValue⟩
      | _ => cases hValue
  | raised => cases hValue
  | undefined => cases hValue

theorem expectInt_eq_value
    {next : Int64 → Outcome}
    {value : Value}
    (hValue : outcome.expectInt next = .value value) :
    ∃ number,
      outcome = .value (.int number) ∧
        next number = .value value := by
  unfold Outcome.expectInt at hValue
  cases outcome with
  | value found =>
      cases found with
      | int number => exact ⟨number, rfl, hValue⟩
      | _ => cases hValue
  | raised => cases hValue
  | undefined => cases hValue

/- The method of an operator returns an integer. -/
theorem callInt_eq_value
    {op : UnaryOp}
    {number : Int64}
    {value : Value}
    (hValue : callInt op number = .value value) :
    ∃ result, value = .int result := by
  cases op with
  | minus =>
      simp only [callInt] at hValue
      cases hOutcome : Builtin.int_minus number with
      | returned result =>
          rw [hOutcome] at hValue
          cases hValue
          exact ⟨result, rfl⟩
      | raised error | undefined =>
          rw [hOutcome] at hValue
          cases hValue
  | _ =>
      cases hValue
      exact ⟨_, rfl⟩

theorem regex_init_eq_value
    {pattern flag : Bytes}
    {value : Value}
    (hValue : regex_init shell pattern flag = .value value) :
    ∃ flags,
      compileRegex shell pattern flag = some flags ∧
        value = .regex pattern flags := by
  unfold regex_init at hValue
  cases hCompile : compileRegex shell pattern flag with
  | none =>
      rw [hCompile] at hValue
      cases hValue
  | some flags =>
      rw [hCompile] at hValue
      cases hValue
      exact ⟨flags, rfl, rfl⟩

/- Two strings are joined unless they become too long. -/
theorem concatAsStr_eq
    (hLeft : left.length ≤ MAX_SIZE)
    (hRight : right.length ≤ MAX_SIZE) :
    concatAsStr left right =
      if left.length + right.length ≤ MAX_SIZE then
        .value (.string (left ++ right))
      else
        .raised := by
  unfold concatAsStr
  by_cases hNoRight : right = []
  · subst hNoRight
    rw [if_pos rfl, List.append_nil, List.length_nil,
      Nat.add_zero, if_pos hLeft]
  by_cases hNoLeft : left = []
  · subst hNoLeft
    rw [if_neg hNoRight, if_pos rfl, List.nil_append,
      List.length_nil, Nat.zero_add, if_pos hRight]
  rw [if_neg hNoRight, if_neg hNoLeft]
  unfold RegexObject.appendAsStr
  by_cases hFits : left.length + right.length ≤ MAX_SIZE
  · rw [if_pos hFits, if_neg (by omega)]
  · rw [if_neg hFits, if_pos (by omega)]

theorem concatAsStr_eq_value
    {value : Value}
    (hLeft : left.length ≤ MAX_SIZE)
    (hRight : right.length ≤ MAX_SIZE)
    (hValue : concatAsStr left right = .value value) :
    value = .string (left ++ right) ∧
      left.length + right.length ≤ MAX_SIZE := by
  rw [concatAsStr_eq hLeft hRight] at hValue
  by_cases hFits : left.length + right.length ≤ MAX_SIZE
  · rw [if_pos hFits] at hValue
    cases hValue
    exact ⟨rfl, hFits⟩
  · rw [if_neg hFits] at hValue
    cases hValue

/- What is to the left is within the limit. -/
def LeftFits (left : Option Bytes) : Prop :=
  (left.getD []).length ≤ MAX_SIZE

/- A string that begins with what is to the left. -/
structure Extends
    (left : Option Bytes)
    (text : Bytes) : Prop where
  begins : left.getD [] <+: text
  fits : text.length ≤ MAX_SIZE

theorem extends_join
    (hLeft : LeftFits before)
    (hOutcome :
      ∀ right,
        outcome = .value (.string right) →
          right.length ≤ MAX_SIZE)
    (hText : join before outcome = .value (.string text)) :
    Extends before text ∧
      ∃ right, outcome = .value (.string right) ∧
        text = before.getD [] ++ right := by
  cases before with
  | none =>
      have hSelf : outcome = .value (.string text) := hText
      exact
        ⟨⟨List.nil_prefix, hOutcome text hSelf⟩, text, hSelf,
          rfl⟩
  | some left =>
      rcases expectString_eq_value hText with
        ⟨right, hRight, hConcat⟩
      rcases
          concatAsStr_eq_value hLeft (hOutcome right hRight)
            hConcat with
        ⟨hValue, hFits⟩
      cases hValue
      refine ⟨⟨List.prefix_append left right, ?_⟩, right, ?_⟩
      · rw [List.length_append]
        exact hFits
      · exact ⟨hRight, rfl⟩

mutual

/- Whatever an expression does, its string goes on from what is
   to the left and is within the limit. -/
theorem visit_extends
    (store : Store shell place) :
    ∀ (node : Node) (before : Option Bytes) (text : Bytes),
      LeftFits before →
        visit store before node = .value (.string text) →
          Extends before text
  | .string value, before, text, hLeft, hText => by
      unfold visit at hText
      by_cases hEmpty : (before.isSome && value.1.isEmpty) = true
      · rw [if_pos hEmpty] at hText
        cases hText
        exact ⟨List.prefix_refl _, hLeft⟩
      · rw [if_neg hEmpty] at hText
        refine (extends_join hLeft ?_ hText).1
        intro right hRight
        cases hRight
        exact value.2
  | .int value, before, text, hLeft, hText => by
      refine (extends_join hLeft ?_ hText).1
      intro right hRight
      cases hRight
  | .number typeId bits, before, text, hLeft, hText => by
      refine (extends_join hLeft ?_ hText).1
      intro right hRight
      cases hRight
  | .regex reStr reFlag, before, text, hLeft, hText => by
      refine (extends_join hLeft ?_ hText).1
      intro right hRight
      unfold loadRegex at hRight
      cases hCompile : compileRegex shell reStr.1 reFlag.1 with
      | none | some flags =>
          rw [hCompile] at hRight
          cases hRight
  | .unaryOp op type recv, before, text, hLeft, hText => by
      refine (extends_join hLeft ?_ hText).1
      intro right hRight
      by_cases hInt : isIntOp op type = true
      · rw [if_pos hInt] at hRight
        rcases expectInt_eq_value hRight with
          ⟨number, _, hCall⟩
        rcases callInt_eq_value hCall with ⟨result, hValue⟩
        cases hValue
      · rw [if_neg hInt] at hRight
        exact store.other_bounded _ right hRight
  | .stringExpr exprs, before, text, hLeft, hText =>
      visitParts_extends store exprs before text hLeft hText
  | .embed none expr, before, text, hLeft, hText => by
      unfold visit at hText
      by_cases hConcat : isConcat expr = true
      · rw [if_pos hConcat] at hText
        exact visit_extends store expr before text hLeft hText
      · rw [if_neg hConcat] at hText
        refine (extends_join hLeft ?_ hText).1
        intro right hRight
        exact
          (visit_extends store expr none right (Nat.zero_le _)
            hRight).fits
  | .embed (some method) expr, before, text, hLeft, hText =>
      (extends_join hLeft (store.other_bounded _) hText).1
  | .var varName handle, before, text, hLeft, hText =>
      (extends_join hLeft (store.bounded _) hText).1
  | .newRegex str flag, before, text, hLeft, hText => by
      refine (extends_join hLeft ?_ hText).1
      intro right hRight
      rcases expectString_eq_value hRight with
        ⟨pattern, _, hFlag⟩
      rcases expectString_eq_value hFlag with ⟨_, _, hInit⟩
      rcases regex_init_eq_value hInit with ⟨_, _, hValue⟩
      cases hValue
  | .other type id, before, text, hLeft, hText =>
      (extends_join hLeft (store.other_bounded _) hText).1

theorem visitParts_extends
    (store : Store shell place) :
    ∀ (exprs : Nodes) (before : Option Bytes) (text : Bytes),
      LeftFits before →
        visitParts store before exprs = .value (.string text) →
          Extends before text
  | .nil, before, text, hLeft, hText => by
      cases hText
      exact ⟨List.prefix_refl _, hLeft⟩
  | .cons node rest, before, text, hLeft, hText => by
      rcases expectString_eq_value hText with
        ⟨part, hPart, hRest⟩
      have hHead :=
        visit_extends store node before part hLeft hPart
      have hTail :=
        visitParts_extends store rest (some part) text hHead.fits
          hRest
      exact ⟨hHead.begins.trans hTail.begins, hTail.fits⟩

end

end Folding

end Ydsh
