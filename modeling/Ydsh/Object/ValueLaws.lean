import Mathlib.Data.Int.Order.Basic
import Mathlib.Data.List.Lex
import Ydsh.Library.StableSort
import Ydsh.Object.DSValue

/-
  Equality, hashes and the order of values.

  What a value denotes is its type and a list of numbers: the
  bytes of a string, however it is represented, or the number
  itself.  Values are equal if they denote the same and are
  ordered as what they denote, with the exception of numbers
  that are not a number.

  Main declarations:
    * `DSValue.KeyValue`
    * `DSValue.equals_iff`
    * `DSValue.hash_eq`
-/

----
-- Bytes
----

namespace Ydsh

namespace Object

open RegexObject (Bytes MAX_SIZE raiseSizeLimit)

open Library.StableSort

namespace StringRef

variable {left right : Bytes}

def order (text : Bytes) : List Int :=
  text.map (fun byte => (byte.toNat : Int))

theorem toNat_cast_inj
    {x y : UInt8}
    (hSame : (x.toNat : Int) = y.toNat) :
    x = y :=
  UInt8.toNat_inj.mp (Int.ofNat_inj.mp hSame)

theorem order_injective : Function.Injective order :=
  List.map_injective_iff.mpr (fun _ _ => toNat_cast_inj)

theorem memcmp_eq_zero_iff
    (hLength : left.length = right.length) :
    memcmp left.length left right = 0 ↔ left = right := by
  induction left generalizing right with
  | nil =>
      have hNil := List.eq_nil_of_length_eq_zero hLength.symm
      rw [hNil]
      exact iff_of_true rfl rfl
  | cons x left ih =>
      cases right with
      | nil => cases hLength
      | cons y right =>
          have hRest := ih (Nat.succ.inj hLength)
          rw [List.length_cons, memcmp, List.cons.injEq]
          by_cases hSame : x = y
          · rw [if_pos hSame, hRest]
            exact (and_iff_right hSame).symm
          · rw [if_neg hSame]
            constructor
            · intro hZero
              exact
                absurd (toNat_cast_inj (Int.sub_eq_zero.mp hZero))
                  hSame
            · intro hBoth
              exact absurd hBoth.1 hSame

theorem eq_iff : eq left right = true ↔ left = right := by
  unfold eq
  rw [Bool.and_eq_true, beq_iff_eq, beq_iff_eq]
  constructor
  · intro hBoth
    exact (memcmp_eq_zero_iff hBoth.1).mp hBoth.2
  · intro hSame
    have hLength := congrArg List.length hSame
    exact ⟨hLength, (memcmp_eq_zero_iff hLength).mpr hSame⟩

theorem compare_cons
    {x : UInt8} :
    compare (x :: left) (x :: right) = compare left right := by
  unfold compare
  simp only [List.length_cons, Nat.succ_min_succ, memcmp,
    if_true, Nat.succ_lt_succ_iff, Nat.succ.injEq]

theorem compare_cons_of_ne
    {x y : UInt8}
    (hNe : x ≠ y) :
    compare (x :: left) (y :: right) = x.toNat - y.toNat := by
  unfold compare
  simp only [List.length_cons, Nat.succ_min_succ, memcmp,
    if_neg hNe]
  apply if_pos
  intro hZero
  exact hNe (toNat_cast_inj (Int.sub_eq_zero.mp hZero))

theorem compare_lt_iff :
    compare left right < 0 ↔ order left < order right := by
  induction left generalizing right with
  | nil =>
      cases right with
      | nil => simp [compare, memcmp, order]
      | cons y right => simp [compare, memcmp, order]
  | cons x left ih =>
      cases right with
      | nil => simp [compare, memcmp, order]
      | cons y right =>
          unfold order
          rw [List.map_cons, List.map_cons,
            List.cons_lt_cons_iff]
          by_cases hSame : x = y
          · rw [hSame, compare_cons, ih]
            simp [order]
          · rw [compare_cons_of_ne hSame]
            have hNumbers : (x.toNat : Int) ≠ y.toNat :=
              fun hEq => hSame (toNat_cast_inj hEq)
            constructor
            · intro hLt
              exact Or.inl (by omega)
            · intro hEither
              rcases hEither with hLt | hEq
              · omega
              · exact absurd hEq.1 hNumbers

theorem lt_iff :
    lt left right = true ↔ order left < order right := by
  unfold lt
  rw [decide_eq_true_iff]
  exact compare_lt_iff

end StringRef

----
-- What a Value Denotes
----

namespace DSValue

structure KeyValue where
  type : BuiltinType
  content : List Int
  deriving DecidableEq, Repr

def content : DSValue → List Int
  | bool value => [value.toNat]
  | sig value => [(asSig value).toInt]
  | int value => [value.toInt]
  | float value => [value.position]
  | sstr str => StringRef.order (str.value.take str.size)
  | string value =>
      StringRef.order (value.take (stringSize value))

def keyValue (value : DSValue) : KeyValue :=
  { type := value.getType, content := value.content }

def isNaN : DSValue → Bool
  | float value => value.isNaN
  | _ => false

/- Two values of one type. -/
inductive Alike : DSValue → DSValue → Prop where
  | bool (left right : Bool) : Alike (.bool left) (.bool right)
  | sig (left right : Int64) : Alike (.sig left) (.sig right)
  | int (left right : Int64) : Alike (.int left) (.int right)
  | float (left right : Double) :
      Alike (.float left) (.float right)
  | string
      (left right : DSValue)
      (text text' : Bytes)
      (hLeft : left.asStrRef = some text)
      (hRight : right.asStrRef = some text') :
      Alike left right

variable {left right value : DSValue}
variable {text : Bytes}
variable {std : StdHash}

theorem asStrRef_of_getType
    (hType : value.getType = .string) :
    ∃ text, value.asStrRef = some text := by
  cases value with
  | sstr str => exact ⟨_, rfl⟩
  | string value => exact ⟨_, rfl⟩
  | _ => cases hType

theorem asStrRef_eq_some
    (hText : value.asStrRef = some text) :
    value.getType = .string ∧
      value.content = StringRef.order text := by
  cases value with
  | sstr str =>
      cases hText
      exact ⟨rfl, rfl⟩
  | string value =>
      cases hText
      exact ⟨rfl, rfl⟩
  | _ => cases hText

theorem alike_of_getType
    (hType : left.getType = right.getType) :
    Alike left right := by
  have hStrings
      (hString : left.getType = .string) :
      Alike left right := by
    rcases asStrRef_of_getType hString with ⟨text, hLeft⟩
    rcases asStrRef_of_getType (hType.symm.trans hString) with
      ⟨text', hRight⟩
    exact .string left right text text' hLeft hRight
  cases left with
  | bool left =>
      cases right with
      | bool right => exact .bool left right
      | _ => cases hType
  | sig left =>
      cases right with
      | sig right => exact .sig left right
      | _ => cases hType
  | int left =>
      cases right with
      | int right => exact .int left right
      | _ => cases hType
  | float left =>
      cases right with
      | float right => exact .float left right
      | _ => cases hType
  | sstr str => exact hStrings rfl
  | string value => exact hStrings rfl

theorem equals_of_asStrRef
    {text' : Bytes}
    (hLeft : left.asStrRef = some text)
    (hRight : right.asStrRef = some text') :
    left.equals right = StringRef.eq text text' := by
  unfold equals
  rw [hLeft, hRight]

theorem compare_of_asStrRef
    {text' : Bytes}
    (hLeft : left.asStrRef = some text)
    (hRight : right.asStrRef = some text') :
    left.compare right = some (StringRef.lt text text') := by
  unfold compare
  rw [hLeft, hRight]

theorem hash_of_asStrRef
    (hText : value.asStrRef = some text) :
    value.hash std = FNVHash.compute text := by
  cases value with
  | sstr str =>
      cases hText
      rfl
  | string value =>
      cases hText
      rfl
  | _ => cases hText

----
-- Equality
----

theorem equals_of_getType_ne
    (hType : left.getType ≠ right.getType) :
    left.equals right = false := by
  cases left <;> cases right <;>
    first
      | rfl
      | exact absurd rfl hType

theorem double_eq_iff
    {x y : Double}
    (hX : x.isNaN = false)
    (hY : y.isNaN = false) :
    Double.eq x y = true ↔ x.position = y.position := by
  unfold Double.eq
  rw [hX, hY]
  exact beq_iff_eq

/- Values are equal if they denote the same. -/
theorem equals_iff
    (hLeft : left.isNaN = false)
    (hRight : right.isNaN = false) :
    left.equals right = true ↔
      left.keyValue = right.keyValue := by
  by_cases hType : left.getType = right.getType
  · have hKey :
        left.keyValue = right.keyValue ↔
          left.content = right.content := by
      unfold keyValue
      rw [KeyValue.mk.injEq]
      exact and_iff_right hType
    rw [hKey]
    cases alike_of_getType hType with
    | bool left right =>
        cases left <;> cases right <;>
          simp [equals, asStrRef, content]
    | sig left right =>
        simp [equals, asStrRef, content, Int32.toInt_inj]
    | int left right =>
        simp [equals, asStrRef, content, Int64.toInt_inj]
    | float left right =>
        have hEq := double_eq_iff hLeft hRight
        simpa [equals, asStrRef, content] using hEq
    | string _ _ text text' hText hText' =>
        rw [equals_of_asStrRef hText hText',
          (asStrRef_eq_some hText).2,
          (asStrRef_eq_some hText').2, StringRef.eq_iff]
        exact StringRef.order_injective.eq_iff.symm
  · rw [equals_of_getType_ne hType]
    constructor
    · intro hFalse
      cases hFalse
    · intro hSame
      exact absurd (congrArg KeyValue.type hSame) hType

/- A number that is not a number is not equal to itself. -/
theorem not_equals_of_isNaN
    (hNaN : value.isNaN = true) :
    value.equals value = false := by
  cases value with
  | float value =>
      have hNumber : value.isNaN = true := hNaN
      simp [equals, asStrRef, Double.eq, hNumber]
  | _ => cases hNaN

theorem hash_eq
    (hLeft : left.isNaN = false)
    (hRight : right.isNaN = false)
    (hSame : left.keyValue = right.keyValue) :
    left.hash std = right.hash std := by
  have hType := congrArg KeyValue.type hSame
  have hEquals := (equals_iff hLeft hRight).mpr hSame
  cases alike_of_getType hType with
  | bool left right =>
      have hBool : left = right := beq_iff_eq.mp hEquals
      rw [hBool]
  | sig left right =>
      have hSig : asSig left = asSig right :=
        beq_iff_eq.mp hEquals
      exact
        congrArg (fun signal => std.int64 signal.toInt64) hSig
  | int left right =>
      have hInt : left = right := beq_iff_eq.mp hEquals
      rw [hInt]
  | float left right => exact std.double_eq left right hEquals
  | string _ _ text text' hText hText' =>
      rw [equals_of_asStrRef hText hText'] at hEquals
      rw [hash_of_asStrRef hText, hash_of_asStrRef hText',
        StringRef.eq_iff.mp hEquals]

----
-- The Order
----

/- The comparison that the sort is given. -/
def lessThan (left right : DSValue) : Bool :=
  (left.compare right).getD false

/- Values of one type can be compared. -/
theorem compare_isSome
    (hType : left.getType = right.getType) :
    (left.compare right).isSome = true := by
  cases alike_of_getType hType with
  | string _ _ text text' hText hText' =>
      rw [compare_of_asStrRef hText hText']
      rfl
  | _ => rfl

theorem singleton_lt_iff
    {x y : Int} :
    [x] < [y] ↔ x < y := by
  simp [List.cons_lt_cons_iff]

/- Values are ordered as what they denote. -/
theorem lessThan_iff
    (hLeft : left.isNaN = false)
    (hRight : right.isNaN = false)
    (hType : left.getType = right.getType) :
    left.lessThan right = true ↔
      left.content < right.content := by
  cases alike_of_getType hType with
  | bool left right =>
      unfold content
      rw [singleton_lt_iff, Int.ofNat_lt]
      exact decide_eq_true_iff
  | sig left right =>
      unfold content
      rw [singleton_lt_iff, ← Int32.lt_iff_toInt_lt]
      exact decide_eq_true_iff
  | int left right =>
      unfold content
      rw [singleton_lt_iff, ← Int64.lt_iff_toInt_lt]
      exact decide_eq_true_iff
  | float left right =>
      have hNumber : left.isNaN = false := hLeft
      have hNumber' : right.isNaN = false := hRight
      unfold content
      rw [singleton_lt_iff]
      simp [lessThan, compare, asStrRef, Double.lt, hNumber,
        hNumber']
  | string _ _ text text' hText hText' =>
      unfold lessThan
      rw [compare_of_asStrRef hText hText',
        (asStrRef_eq_some hText).2, (asStrRef_eq_some hText').2]
      exact StringRef.lt_iff

/- The values have one type and all of them are numbers. -/
def Comparable
    (type : BuiltinType)
    (values : List DSValue) : Prop :=
  ∀ value ∈ values, value.isNaN = false ∧ value.getType = type

theorem weakOrder_lessThan
    {type : BuiltinType}
    {values : List DSValue}
    (hComparable : Comparable type values) :
    WeakOrder lessThan values := by
  apply @weakOrder_of_key DSValue lessThan values _ _ content
  intro x hX y hY
  rcases hComparable x hX with ⟨hNumber, hType⟩
  rcases hComparable y hY with ⟨hNumber', hType'⟩
  exact lessThan_iff hNumber hNumber' (hType.trans hType'.symm)

/- Neither of two values is less if and only if they are
   equal. -/
theorem equivalent_iff_equals
    (hLeft : left.isNaN = false)
    (hRight : right.isNaN = false)
    (hType : left.getType = right.getType) :
    equivalent lessThan left right = true ↔
      left.equals right = true := by
  have hKey :=
    equivalent_iff_key (lessThan_iff hLeft hRight hType)
      (lessThan_iff hRight hLeft hType.symm)
  rw [hKey, equals_iff hLeft hRight]
  unfold keyValue
  rw [KeyValue.mk.injEq]
  exact (and_iff_right hType).symm

end DSValue

end Object

end Ydsh
