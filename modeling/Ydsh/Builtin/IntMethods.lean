import Ydsh.Object.MapObject

/-
  The methods of `Int`.

  The signed operators of C++ have no result where the exact
  one does not fit; the checked ones tell.

  Main declarations:
    * `IntMethod`
    * `IntMethod.run`
    * `IntMethod.exact`
    * `run_meets_iff`
-/

----
-- Signed Operators
----

namespace Ydsh

namespace Builtin

/- What a method does.  After an undefined operation anything
   may happen; `/` and `%` trap. -/
inductive Outcome where
  | returned (value : Int64)
  | raised (error : RaisedError)
  | undefined
  deriving DecidableEq, Repr

def fitsInt64 (value : Int) : Bool :=
  -0x8000000000000000 ≤ value && value < 0x8000000000000000

/- The result of a C++ operator. -/
def signedResult (value : Int) : Outcome :=
  if fitsInt64 value then .returned (.ofInt value) else .undefined

def negate (value : Int64) : Outcome :=
  signedResult (-value.toInt)

/- `std::abs` -/
def absolute (value : Int64) : Outcome :=
  signedResult value.toInt.natAbs

def divide (left right : Int64) : Outcome :=
  if right.toInt = 0 then
    .undefined
  else
    signedResult (left.toInt.tdiv right.toInt)

/- A remainder needs its quotient. -/
def remainder (left right : Int64) : Outcome :=
  if right.toInt = 0 then
    .undefined
  else if fitsInt64 (left.toInt.tdiv right.toInt) then
    .returned (.ofInt (left.toInt.tmod right.toInt))
  else
    .undefined

/- Whether the result is wrapped, and the result. -/
def sadd_overflow (x y : Int64) : Bool × Int64 :=
  (!fitsInt64 (x.toInt + y.toInt), x + y)

def ssub_overflow (x y : Int64) : Bool × Int64 :=
  (!fitsInt64 (x.toInt - y.toInt), x - y)

def smul_overflow (x y : Int64) : Bool × Int64 :=
  (!fitsInt64 (x.toInt * y.toInt), x * y)

----
-- Methods
----

def raiseArithmetic (message : String) : Outcome :=
  .raised
    { type := .arithmeticError
      message := message }

/- Addition, subtraction and multiplication differ in the
   checked operator. -/
def checked (result : Bool × Int64) : Outcome :=
  if result.1 then
    raiseArithmetic "integer overflow"
  else
    .returned result.2

def int_plus (value : Int64) : Outcome :=
  .returned value

def int_minus (value : Int64) : Outcome :=
  negate value

def int_not (value : Int64) : Outcome :=
  .returned (~~~value)

def int_abs (value : Int64) : Outcome :=
  absolute value

def int_2_int_add (left right : Int64) : Outcome :=
  checked (sadd_overflow left right)

def int_2_int_sub (left right : Int64) : Outcome :=
  checked (ssub_overflow left right)

def int_2_int_mul (left right : Int64) : Outcome :=
  checked (smul_overflow left right)

def int_2_int_div (left right : Int64) : Outcome :=
  if right = 0 then
    raiseArithmetic "zero division"
  else
    divide left right

def int_2_int_mod (left right : Int64) : Outcome :=
  if right = 0 then
    raiseArithmetic "zero modulo"
  else
    remainder left right

/- The arithmetic methods. -/
inductive IntMethod where
  | minus
  | abs
  | add
  | sub
  | mul
  | div
  | mod
  deriving DecidableEq, Repr

namespace IntMethod

/- A unary method has no use for the second operand. -/
def run : IntMethod → Int64 → Int64 → Outcome
  | minus, a, _ => int_minus a
  | abs, a, _ => int_abs a
  | add, a, b => int_2_int_add a b
  | sub, a, b => int_2_int_sub a b
  | mul, a, b => int_2_int_mul a b
  | div, a, b => int_2_int_div a b
  | mod, a, b => int_2_int_mod a b

/- The result in mathematics. -/
def exact : IntMethod → Int → Int → Option Int
  | minus, a, _ => some (-a)
  | abs, a, _ => some a.natAbs
  | add, a, b => some (a + b)
  | sub, a, b => some (a - b)
  | mul, a, b => some (a * b)
  | div, a, b => if b = 0 then none else some (a.tdiv b)
  | mod, a, b => if b = 0 then none else some (a.tmod b)

/- The exact result, or an error where there is none or it does
   not fit. -/
def Meets
    (method : IntMethod)
    (a b : Int64) : Prop :=
  (∃ value : Int64,
    method.exact a.toInt b.toInt = some value.toInt ∧
      method.run a b = .returned value) ∨
  ((∀ value : Int64,
      method.exact a.toInt b.toInt ≠ some value.toInt) ∧
    ∃ message, method.run a b = raiseArithmetic message)

/- The operands that no guard is for. -/
def unguarded : IntMethod → Int64 → Int64 → Bool
  | minus, a, _ => a == Int64.minValue
  | abs, a, _ => a == Int64.minValue
  | div, a, b => a == Int64.minValue && b == -1
  | mod, a, b => a == Int64.minValue && b == -1
  | _, _, _ => false

end IntMethod

----
-- Exactness
----

theorem fitsInt64_iff
    (value : Int) :
    fitsInt64 value = true ↔
      -0x8000000000000000 ≤ value ∧
        value < 0x8000000000000000 := by
  unfold fitsInt64
  rw [Bool.and_eq_true, decide_eq_true_eq, decide_eq_true_eq]

theorem fitsInt64_toInt
    (value : Int64) :
    fitsInt64 value.toInt = true := by
  rw [fitsInt64_iff]
  exact ⟨value.le_toInt, value.toInt_lt⟩

theorem toInt_ofInt_of_fits
    {value : Int}
    (hFits : fitsInt64 value = true) :
    (Int64.ofInt value).toInt = value := by
  rw [fitsInt64_iff] at hFits
  exact Int64.toInt_ofInt_of_le hFits.1 hFits.2

theorem toInt_eq_minValue_iff
    (value : Int64) :
    value.toInt = -0x8000000000000000 ↔
      value = Int64.minValue := by
  rw [← Int64.toInt_inj]
  rfl

theorem toInt_eq_zero_iff
    (value : Int64) :
    value.toInt = 0 ↔ value = 0 := by
  rw [← Int64.toInt_inj]
  rfl

theorem toInt_eq_neg_one_iff
    (value : Int64) :
    value.toInt = -1 ↔ value = -1 := by
  rw [← Int64.toInt_inj]
  rfl

namespace IntMethod

variable {method : IntMethod}
variable {a b : Int64}

theorem meets_of_returned
    {value : Int}
    (hExact : method.exact a.toInt b.toInt = some value)
    (hFits : fitsInt64 value = true)
    (hRun : method.run a b = .returned (.ofInt value)) :
    method.Meets a b := by
  refine Or.inl ⟨.ofInt value, ?_, hRun⟩
  rw [toInt_ofInt_of_fits hFits]
  exact hExact

theorem meets_of_raised
    (hExact :
      ∀ value, method.exact a.toInt b.toInt = some value →
        fitsInt64 value = false)
    {message : String}
    (hRun : method.run a b = raiseArithmetic message) :
    method.Meets a b := by
  refine Or.inr ⟨?_, message, hRun⟩
  intro value hSome
  have hFits := hExact value.toInt hSome
  rw [fitsInt64_toInt] at hFits
  cases hFits

theorem not_meets_of_undefined
    (hRun : method.run a b = .undefined) :
    ¬ method.Meets a b := by
  rintro (⟨value, _, hValue⟩ | ⟨_, message, hMessage⟩)
  · rw [hRun] at hValue
    cases hValue
  · rw [hRun] at hMessage
    cases hMessage

/- The checked operators have no gap. -/
theorem meets_of_checked
    {value : Int}
    {wrapped : Int64}
    (hExact : method.exact a.toInt b.toInt = some value)
    (hWrapped : wrapped = .ofInt value)
    (hRun :
      method.run a b = checked (!fitsInt64 value, wrapped)) :
    method.Meets a b := by
  cases hFits : fitsInt64 value with
  | true =>
      apply meets_of_returned hExact hFits
      rw [hRun, hFits, hWrapped]
      rfl
  | false =>
      have hRaised :
          method.run a b = raiseArithmetic "integer overflow" := by
        rw [hRun, hFits]
        rfl
      apply meets_of_raised _ hRaised
      intro other hOther
      rw [hExact] at hOther
      cases hOther
      exact hFits

/- The signed operators have a gap where the result does not
   fit. -/
theorem meets_signed_iff
    {value : Int}
    (hExact : method.exact a.toInt b.toInt = some value)
    (hRun : method.run a b = signedResult value) :
    method.Meets a b ↔ fitsInt64 value = true := by
  cases hFits : fitsInt64 value with
  | true =>
      have hMeets : method.Meets a b := by
        apply meets_of_returned hExact hFits
        rw [hRun, signedResult, if_pos hFits]
      simp [hMeets]
  | false =>
      have hNot : ¬ method.Meets a b := by
        apply not_meets_of_undefined
        rw [hRun, signedResult, if_neg (by rw [hFits]; decide)]
      simp [hNot]

end IntMethod

/- Of all quotients only one does not fit. -/
theorem fitsInt64_tdiv_iff
    (a b : Int64) :
    fitsInt64 (a.toInt.tdiv b.toInt) = true ↔
      ¬ (a = Int64.minValue ∧ b = -1) := by
  have hLow := a.le_toInt
  have hHigh := a.toInt_lt
  by_cases hOne : b = -1
  · have hEq : a.toInt.tdiv b.toInt = -a.toInt := by
      rw [(toInt_eq_neg_one_iff b).mpr hOne, Int.tdiv_neg,
        Int.tdiv_one]
    have hPair :
        (a = Int64.minValue ∧ b = -1) ↔
          a.toInt = -0x8000000000000000 := by
      rw [toInt_eq_minValue_iff]
      exact and_iff_left hOne
    rw [hEq, fitsInt64_iff, hPair]
    omega
  · rw [← Int64.toInt_div_of_ne_right a b hOne, fitsInt64_toInt]
    simp [hOne]

theorem fitsInt64_tmod
    (a b : Int64) :
    fitsInt64 (a.toInt.tmod b.toInt) = true := by
  rw [← Int64.toInt_mod]
  exact fitsInt64_toInt _

theorem fitsInt64_neg_iff
    (a : Int64) :
    fitsInt64 (-a.toInt) = true ↔ a ≠ Int64.minValue := by
  have hLow := a.le_toInt
  have hHigh := a.toInt_lt
  rw [fitsInt64_iff, ne_eq, ← toInt_eq_minValue_iff]
  omega

theorem fitsInt64_natAbs_iff
    (a : Int64) :
    fitsInt64 a.toInt.natAbs = true ↔ a ≠ Int64.minValue := by
  have hLow := a.le_toInt
  have hHigh := a.toInt_lt
  rw [fitsInt64_iff, ne_eq, ← toInt_eq_minValue_iff]
  omega

/- A division by zero is refused. -/
theorem meets_zeroDivisor
    {method : IntMethod}
    {a b : Int64}
    {message : String}
    (hZero : b = 0)
    (hExact : method.exact a.toInt b.toInt = none)
    (hRun : method.run a b = raiseArithmetic message) :
    method.Meets a b ↔ ¬ (a = Int64.minValue ∧ b = -1) := by
  have hMeets : method.Meets a b := by
    apply IntMethod.meets_of_raised _ hRun
    intro value hSome
    rw [hExact] at hSome
    cases hSome
  have hOther : b ≠ -1 := by
    rw [hZero]
    decide
  exact ⟨fun _ hBoth => hOther hBoth.2, fun _ => hMeets⟩

theorem div_meets_iff
    (a b : Int64) :
    IntMethod.div.Meets a b ↔
      ¬ (a = Int64.minValue ∧ b = -1) := by
  by_cases hZero : b = 0
  · apply meets_zeroDivisor hZero
    · exact if_pos ((toInt_eq_zero_iff b).mpr hZero)
    · exact if_pos hZero
  · have hInt : b.toInt ≠ 0 := by
      rw [ne_eq, toInt_eq_zero_iff]
      exact hZero
    have hExact :
        IntMethod.div.exact a.toInt b.toInt =
          some (a.toInt.tdiv b.toInt) :=
      if_neg hInt
    have hRun :
        IntMethod.div.run a b =
          signedResult (a.toInt.tdiv b.toInt) := by
      have hDivide : IntMethod.div.run a b = divide a b :=
        if_neg hZero
      rw [hDivide, divide, if_neg hInt]
    rw [IntMethod.meets_signed_iff hExact hRun,
      fitsInt64_tdiv_iff]

/- The remainder fits, but its quotient may not. -/
theorem mod_meets_iff
    (a b : Int64) :
    IntMethod.mod.Meets a b ↔
      ¬ (a = Int64.minValue ∧ b = -1) := by
  by_cases hZero : b = 0
  · apply meets_zeroDivisor hZero
    · exact if_pos ((toInt_eq_zero_iff b).mpr hZero)
    · exact if_pos hZero
  · have hInt : b.toInt ≠ 0 := by
      rw [ne_eq, toInt_eq_zero_iff]
      exact hZero
    have hRun : IntMethod.mod.run a b = remainder a b :=
      if_neg hZero
    have hExact :
        IntMethod.mod.exact a.toInt b.toInt =
          some (a.toInt.tmod b.toInt) :=
      if_neg hInt
    rw [← fitsInt64_tdiv_iff]
    cases hFits : fitsInt64 (a.toInt.tdiv b.toInt) with
    | true =>
        have hMeets : IntMethod.mod.Meets a b := by
          apply IntMethod.meets_of_returned hExact
            (fitsInt64_tmod a b)
          rw [hRun, remainder, if_neg hInt, if_pos hFits]
        simp [hMeets]
    | false =>
        have hNot : ¬ IntMethod.mod.Meets a b := by
          apply IntMethod.not_meets_of_undefined
          rw [hRun, remainder, if_neg hInt,
            if_neg (by rw [hFits]; decide)]
        simp [hNot]

/- A method is exact, except for the lowest value. -/
theorem run_meets_iff
    (method : IntMethod)
    (a b : Int64) :
    method.Meets a b ↔ method.unguarded a b = false := by
  cases method with
  | minus =>
      rw [IntMethod.meets_signed_iff rfl rfl, fitsInt64_neg_iff]
      simp [IntMethod.unguarded]
  | abs =>
      rw [IntMethod.meets_signed_iff rfl rfl,
        fitsInt64_natAbs_iff]
      simp [IntMethod.unguarded]
  | add =>
      have hMeets : IntMethod.add.Meets a b := by
        apply IntMethod.meets_of_checked rfl _ rfl
        rw [Int64.ofInt_add, Int64.ofInt_toInt,
          Int64.ofInt_toInt]
      simp [hMeets, IntMethod.unguarded]
  | sub =>
      have hMeets : IntMethod.sub.Meets a b := by
        apply IntMethod.meets_of_checked rfl _ rfl
        rw [Int64.ofInt_sub, Int64.ofInt_toInt,
          Int64.ofInt_toInt]
      simp [hMeets, IntMethod.unguarded]
  | mul =>
      have hMeets : IntMethod.mul.Meets a b := by
        apply IntMethod.meets_of_checked rfl _ rfl
        rw [Int64.ofInt_mul, Int64.ofInt_toInt,
          Int64.ofInt_toInt]
      simp [hMeets, IntMethod.unguarded]
  | div =>
      rw [div_meets_iff]
      simp [IntMethod.unguarded]
  | mod =>
      rw [mod_meets_iff]
      simp [IntMethod.unguarded]

/- `-9223372036854775808 / -1` -/
theorem not_div_meets :
    ¬ IntMethod.div.Meets Int64.minValue (-1) ∧
      IntMethod.div.run Int64.minValue (-1) = .undefined := by
  constructor
  · rw [div_meets_iff]
    decide
  · decide

end Builtin

end Ydsh
