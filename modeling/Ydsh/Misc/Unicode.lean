import Ydsh.Json.Unescape
import Ydsh.Library.Faulting
import Ydsh.Library.Utf8

/-
  The codec of UTF-8.

  A character is validated by masks on its bytes.  A read past
  the end of the buffer is a fault.

  Main declarations:
    * `utf8ValidateChar`
    * `utf8ToCodePoint`
    * `codePointToUtf8`
    * `utf8_codec`
-/

----
-- Validation
----

namespace Ydsh

namespace Unicode

open Library

open Library.Utf8

/- If b is an illegal start byte of UTF-8, return always 0. -/
def utf8ByteSize (b : UInt8) : Nat :=
  if b < 0x80 then
    1
  else if b < 0xC0 then
    0
  else if b < 0xE0 then
    2
  else if b < 0xF0 then
    3
  else if b < 0xF8 then
    4
  else
    0

/- The byte at an offset from `begin`. -/
def byteAt
    (buf : List UInt8)
    (offset : Nat) : Faulting UInt8 :=
  match buf[offset]? with
  | some b => .done b
  | none => .fault

/- `||` evaluates its right side only if the left one fails. -/
def either
    (left right : Faulting Bool) : Faulting Bool :=
  left.bind (fun found => if found then .done true else right)

/- `&&` evaluates its right side only if the left one holds. -/
def both
    (left right : Faulting Bool) : Faulting Bool :=
  left.bind (fun found => if found then right else .done false)

/- The byte does not start with the bits of a later byte. -/
def isNoTail
    (buf : List UInt8)
    (offset : Nat) : Faulting Bool :=
  (byteAt buf offset).map (fun b => b &&& 0xC0 != 0x80)

/- The second byte that may not follow the first one. -/
def isSecond
    (buf : List UInt8)
    (mask bits : UInt8) : Faulting Bool :=
  (byteAt buf 1).map (fun b => b &&& mask == bits)

/- A character that is not refused has the size. -/
def sized
    (size : Nat)
    (refused : Faulting Bool) : Faulting Nat :=
  refused.map (fun found => if found then 0 else size)

/- The size of the first character, or 0 if it is invalid. -/
def utf8ValidateChar (buf : List UInt8) : Faulting Nat :=
  match buf with
  | [] => .done 0
  | head :: _ =>
      if head < 0x80 then
        .done 1
      else if head &&& 0xE0 = 0xC0 then
        sized 2
          (either (.done (buf.length == 1))
            (either (isNoTail buf 1)
              (.done (head &&& 0xFE == 0xC0))))
      else if head &&& 0xF0 = 0xE0 then
        sized 3
          (either (.done (decide (buf.length ≤ 2)))
            (either (isNoTail buf 1)
              (either (isNoTail buf 2)
                (either
                  (both (.done (head == 0xE0))
                    (isSecond buf 0xE0 0x80))
                  (both (.done (head == 0xED))
                    (isSecond buf 0xE0 0xA0))))))
      else if head &&& 0xF8 = 0xF0 then
        sized 4
          (either (.done (decide (buf.length ≤ 3)))
            (either (isNoTail buf 1)
              (either (isNoTail buf 2)
                (either (isNoTail buf 3)
                  (either
                    (both (.done (head == 0xF0))
                      (isSecond buf 0xF0 0x80))
                    (either
                      (both (.done (head == 0xF4))
                        ((byteAt buf 1).map
                          (fun b => decide (b > 0x8F))))
                      (.done (decide (head > 0xF4)))))))))
      else
        .done 0

/- The low bits of the byte at an offset. -/
def bitsAt
    (buf : List UInt8)
    (offset mask : Nat) : Faulting Nat :=
  (byteAt buf offset).map (fun b => b.toNat &&& mask)

/- One more byte with six bits. -/
def pushTail
    (buf : List UInt8)
    (offset shift : Nat)
    (head : Faulting Nat) : Faulting Nat :=
  head.bind
    (fun codePoint =>
      (bitsAt buf offset 0x3F).map
        (fun bits => codePoint ||| (bits <<< shift)))

/- The first bits of a code point. -/
def pushHead
    (buf : List UInt8)
    (mask shift : Nat) : Faulting Nat :=
  (bitsAt buf 0 mask).map (fun bits => bits <<< shift)

/- The size of the first character and its code point, or 0
   and -1. -/
def utf8ToCodePoint (buf : List UInt8) : Faulting (Nat × Int) :=
  (utf8ValidateChar buf).bind
    (fun size =>
      match size with
      | 1 => (byteAt buf 0).map (fun b => (size, Int.ofNat b.toNat))
      | 2 =>
          (pushTail buf 1 0 (pushHead buf 0x1F 6)).map
            (fun codePoint => (size, Int.ofNat codePoint))
      | 3 =>
          (pushTail buf 2 0
            (pushTail buf 1 6 (pushHead buf 0x0F 12))).map
              (fun codePoint => (size, Int.ofNat codePoint))
      | 4 =>
          (pushTail buf 3 0
            (pushTail buf 2 6
              (pushTail buf 1 12 (pushHead buf 0x07 18)))).map
                (fun codePoint => (size, Int.ofNat codePoint))
      | _ => .done (size, -1))

def isValidCodePoint (codePoint : Int) : Bool :=
  0 ≤ codePoint && codePoint ≤ 0x10FFFF

/- The bytes that are written; none for what is no code point. -/
def codePointToUtf8 (codePoint : Int) : List UInt8 :=
  if isValidCodePoint codePoint then
    Json.codePointToUtf8 codePoint.toNat
  else
    []

----
-- Masks
----

theorem forall_uint8
    {p : UInt8 → Prop}
    (hAll : ∀ n : Fin 256, p (UInt8.ofFin n))
    (b : UInt8) :
    p b :=
  hAll b.toFin

/- What a mask of high bits leaves. -/
theorem mask_high :
    ∀ b : UInt8,
      (b &&& 0xC0).toNat = b.toNat - b.toNat % 0x40 ∧
        (b &&& 0xE0).toNat = b.toNat - b.toNat % 0x20 ∧
        (b &&& 0xF0).toNat = b.toNat - b.toNat % 0x10 ∧
        (b &&& 0xF8).toNat = b.toNat - b.toNat % 0x08 ∧
        (b &&& 0xFE).toNat = b.toNat - b.toNat % 0x02 :=
  forall_uint8 (by decide +kernel)

theorem mask_two (b : UInt8) :
    b &&& 0xE0 = 0xC0 ↔ 0xC0 ≤ b.toNat ∧ b.toNat ≤ 0xDF := by
  rw [← UInt8.toNat_inj, (mask_high b).2.1]
  simp only [UInt8.reduceToNat]
  omega

theorem mask_three (b : UInt8) :
    b &&& 0xF0 = 0xE0 ↔ 0xE0 ≤ b.toNat ∧ b.toNat ≤ 0xEF := by
  rw [← UInt8.toNat_inj, (mask_high b).2.2.1]
  simp only [UInt8.reduceToNat]
  omega

theorem mask_four (b : UInt8) :
    b &&& 0xF8 = 0xF0 ↔ 0xF0 ≤ b.toNat ∧ b.toNat ≤ 0xF7 := by
  rw [← UInt8.toNat_inj, (mask_high b).2.2.2.1]
  simp only [UInt8.reduceToNat]
  omega

theorem mask_tail (b : UInt8) :
    b &&& 0xC0 = 0x80 ↔ 0x80 ≤ b.toNat ∧ b.toNat ≤ 0xBF := by
  rw [← UInt8.toNat_inj, (mask_high b).1]
  simp only [UInt8.reduceToNat]
  omega

theorem mask_overlong (b : UInt8) :
    b &&& 0xFE = 0xC0 ↔ 0xC0 ≤ b.toNat ∧ b.toNat ≤ 0xC1 := by
  rw [← UInt8.toNat_inj, (mask_high b).2.2.2.2]
  simp only [UInt8.reduceToNat]
  omega

theorem mask_low (b : UInt8) :
    b &&& 0xE0 = 0x80 ↔ 0x80 ≤ b.toNat ∧ b.toNat ≤ 0x9F := by
  rw [← UInt8.toNat_inj, (mask_high b).2.1]
  simp only [UInt8.reduceToNat]
  omega

theorem mask_surrogate (b : UInt8) :
    b &&& 0xE0 = 0xA0 ↔ 0xA0 ≤ b.toNat ∧ b.toNat ≤ 0xBF := by
  rw [← UInt8.toNat_inj, (mask_high b).2.1]
  simp only [UInt8.reduceToNat]
  omega

theorem mask_lowest (b : UInt8) :
    b &&& 0xF0 = 0x80 ↔ 0x80 ≤ b.toNat ∧ b.toNat ≤ 0x8F := by
  rw [← UInt8.toNat_inj, (mask_high b).2.2.1]
  simp only [UInt8.reduceToNat]
  omega

----
-- Conditions
----

@[simp]
theorem either_done
    (found : Bool)
    (right : Bool) :
    either (.done found) (.done right) =
      .done (found || right) := by
  cases found with
  | true => rfl
  | false => rfl

@[simp]
theorem both_done
    (found : Bool)
    (right : Bool) :
    both (.done found) (.done right) =
      .done (found && right) := by
  cases found with
  | true => rfl
  | false => rfl

variable {buf : List UInt8}
variable {b : UInt8}
variable {offset : Nat}

theorem byteAt_eq
    (hByte : buf[offset]? = some b) :
    byteAt buf offset = .done b := by
  unfold byteAt
  rw [hByte]

theorem isNoTail_eq
    (hByte : buf[offset]? = some b) :
    isNoTail buf offset = .done (b &&& 0xC0 != 0x80) := by
  unfold isNoTail
  rw [byteAt_eq hByte]
  rfl

theorem isSecond_eq
    {mask bits : UInt8}
    (hByte : buf[1]? = some b) :
    isSecond buf mask bits = .done (b &&& mask == bits) := by
  unfold isSecond
  rw [byteAt_eq hByte]
  rfl

/- A refusal decides between the size and 0. -/
theorem sized_eq
    {size : Nat}
    {refused : Bool}
    {p : Prop}
    [Decidable p]
    (hRefused : refused = true ↔ ¬ p) :
    sized size (.done refused) =
      .done (if p then size else 0) := by
  by_cases hCase : p
  · have hFalse : refused = false :=
      Bool.eq_false_iff.mpr
        (fun hTrue => hRefused.mp hTrue hCase)
    rw [hFalse, if_pos hCase]
    rfl
  · rw [hRefused.mpr hCase, if_neg hCase]
    rfl

----
-- Well-Formed Characters
----

variable {a c d : UInt8}
variable {rest : List UInt8}

theorem lt_80 : a < 0x80 ↔ a.toNat < 0x80 :=
  UInt8.lt_iff_toNat_lt

theorem validate_one
    (hLow : a.toNat < 0x80) :
    utf8ValidateChar (a :: rest) = .done 1 := by
  unfold utf8ValidateChar
  exact if_pos (lt_80.mpr hLow)

theorem validate_two
    (hLow : 0xC0 ≤ a.toNat)
    (hHigh : a.toNat ≤ 0xDF) :
    utf8ValidateChar (a :: b :: rest) =
      .done (if WellFormed [a, b] then 2 else 0) := by
  have hNot : ¬ a < 0x80 := by
    rw [lt_80]
    omega
  have hSize : ((a :: b :: rest).length == 1) = false := by
    simp
  have hByte : (a :: b :: rest)[1]? = some b := rfl
  simp only [utf8ValidateChar]
  rw [if_neg hNot, if_pos ((mask_two a).mpr ⟨hLow, hHigh⟩),
    hSize, isNoTail_eq hByte, either_done, either_done]
  apply sized_eq
  rw [wellFormed_two]
  simp only [Bool.false_or, Bool.or_eq_true, bne_iff_ne, ne_eq,
    beq_iff_eq, mask_tail, mask_overlong]
  omega

theorem validate_three
    (hLow : 0xE0 ≤ a.toNat)
    (hHigh : a.toNat ≤ 0xEF) :
    utf8ValidateChar (a :: b :: c :: rest) =
      .done (if WellFormed [a, b, c] then 3 else 0) := by
  have hNot : ¬ a < 0x80 := by
    rw [lt_80]
    omega
  have hTwo : ¬ a &&& 0xE0 = 0xC0 := by
    rw [mask_two]
    omega
  have hSize :
      decide ((a :: b :: c :: rest).length ≤ 2) = false := by
    simp
  have hB : (a :: b :: c :: rest)[1]? = some b := rfl
  have hC : (a :: b :: c :: rest)[2]? = some c := rfl
  simp only [utf8ValidateChar]
  rw [if_neg hNot, if_neg hTwo,
    if_pos ((mask_three a).mpr ⟨hLow, hHigh⟩), hSize,
    isNoTail_eq hB, isNoTail_eq hC, isSecond_eq hB,
    isSecond_eq hB]
  simp only [either_done, both_done]
  apply sized_eq
  rw [wellFormed_three]
  simp only [Bool.false_or, Bool.or_eq_true,
    Bool.and_eq_true, bne_iff_ne, ne_eq, beq_iff_eq,
    mask_tail, mask_low, mask_surrogate,
    ← @UInt8.toNat_inj a, UInt8.reduceToNat]
  omega

theorem validate_four
    (hLow : 0xF0 ≤ a.toNat)
    (hHigh : a.toNat ≤ 0xF7) :
    utf8ValidateChar (a :: b :: c :: d :: rest) =
      .done (if WellFormed [a, b, c, d] then 4 else 0) := by
  have hNot : ¬ a < 0x80 := by
    rw [lt_80]
    omega
  have hTwo : ¬ a &&& 0xE0 = 0xC0 := by
    rw [mask_two]
    omega
  have hThree : ¬ a &&& 0xF0 = 0xE0 := by
    rw [mask_three]
    omega
  have hSize :
      decide ((a :: b :: c :: d :: rest).length ≤ 3) = false := by
    simp
  have hB : (a :: b :: c :: d :: rest)[1]? = some b := rfl
  have hC : (a :: b :: c :: d :: rest)[2]? = some c := rfl
  have hD : (a :: b :: c :: d :: rest)[3]? = some d := rfl
  simp only [utf8ValidateChar]
  rw [if_neg hNot, if_neg hTwo, if_neg hThree,
    if_pos ((mask_four a).mpr ⟨hLow, hHigh⟩), hSize,
    isNoTail_eq hB, isNoTail_eq hC, isNoTail_eq hD,
    isSecond_eq hB, byteAt_eq hB]
  simp only [either_done, both_done, Faulting.map_done]
  apply sized_eq
  rw [wellFormed_four]
  simp only [Bool.false_or, Bool.or_eq_true,
    Bool.and_eq_true, bne_iff_ne, ne_eq, beq_iff_eq,
    decide_eq_true_iff, mask_tail, mask_lowest, gt_iff_lt,
    UInt8.lt_iff_toNat_lt, ← @UInt8.toNat_inj a,
    UInt8.reduceToNat]
  omega

/- What starts no character is refused. -/
theorem validate_none
    (hLow : 0x80 ≤ a.toNat)
    (hHigh : a.toNat < 0xC0 ∨ 0xF8 ≤ a.toNat) :
    utf8ValidateChar (a :: rest) = .done 0 := by
  have hNot : ¬ a < 0x80 := by
    rw [lt_80]
    omega
  have hTwo : ¬ a &&& 0xE0 = 0xC0 := by
    rw [mask_two]
    omega
  have hThree : ¬ a &&& 0xF0 = 0xE0 := by
    rw [mask_three]
    omega
  have hFour : ¬ a &&& 0xF8 = 0xF0 := by
    rw [mask_four]
    omega
  simp only [utf8ValidateChar]
  rw [if_neg hNot, if_neg hTwo, if_neg hThree, if_neg hFour]

/- The first byte tells the size. -/
theorem utf8ByteSize_cases (a : UInt8) :
    (utf8ByteSize a = 1 ∧ a.toNat < 0x80) ∨
      (utf8ByteSize a = 0 ∧ 0x80 ≤ a.toNat ∧
        (a.toNat < 0xC0 ∨ 0xF8 ≤ a.toNat)) ∨
        (utf8ByteSize a = 2 ∧ 0xC0 ≤ a.toNat ∧
          a.toNat ≤ 0xDF) ∨
          (utf8ByteSize a = 3 ∧ 0xE0 ≤ a.toNat ∧
            a.toNat ≤ 0xEF) ∨
            (utf8ByteSize a = 4 ∧ 0xF0 ≤ a.toNat ∧
              a.toNat ≤ 0xF7) := by
  unfold utf8ByteSize
  simp only [UInt8.lt_iff_toNat_lt, UInt8.reduceToNat]
  split_ifs
  all_goals omega

/- A character that the end of the buffer cuts is refused. -/
theorem validate_cut
    (hCut : rest.length + 1 < utf8ByteSize a) :
    utf8ValidateChar (a :: rest) = .done 0 := by
  have hNot : ¬ a < 0x80 := by
    rw [lt_80]
    rcases utf8ByteSize_cases a with h | h | h | h | h
    all_goals omega
  simp only [utf8ValidateChar, List.length_cons]
  rw [if_neg hNot]
  rcases utf8ByteSize_cases a with h | h | h | h | h
  · omega
  · omega
  · have hSize : (rest.length + 1 == 1) = true := by
      rw [beq_iff_eq]
      omega
    rw [if_pos ((mask_two a).mpr h.2), hSize]
    rfl
  · have hTwo : ¬ a &&& 0xE0 = 0xC0 := by
      rw [mask_two]
      omega
    have hSize : decide (rest.length + 1 ≤ 2) = true := by
      rw [decide_eq_true_iff]
      omega
    rw [if_neg hTwo, if_pos ((mask_three a).mpr h.2), hSize]
    rfl
  · have hTwo : ¬ a &&& 0xE0 = 0xC0 := by
      rw [mask_two]
      omega
    have hThree : ¬ a &&& 0xF0 = 0xE0 := by
      rw [mask_three]
      omega
    have hSize : decide (rest.length + 1 ≤ 3) = true := by
      rw [decide_eq_true_iff]
      omega
    rw [if_neg hTwo, if_neg hThree,
      if_pos ((mask_four a).mpr h.2), hSize]
    rfl

/- A well-formed sequence at the beginning, or nothing. -/
theorem utf8ValidateChar_cases (buf : List UInt8) :
    utf8ValidateChar buf = .done 0 ∨
      ∃ seq rest,
        buf = seq ++ rest ∧ WellFormed seq ∧
          utf8ValidateChar buf = .done seq.length := by
  cases buf with
  | nil => exact Or.inl rfl
  | cons a rest =>
      by_cases hCut : rest.length + 1 < utf8ByteSize a
      · exact Or.inl (validate_cut hCut)
      rcases utf8ByteSize_cases a with h | h | h | h | h
      · right
        exact
          ⟨[a], rest, rfl, (wellFormed_one a).mpr h.2,
            validate_one h.2⟩
      · exact Or.inl (validate_none h.2.1 h.2.2)
      · match rest, hCut with
        | [], hCut =>
            simp only [List.length_nil] at hCut
            omega
        | b :: rest, _ =>
            have hResult := @validate_two b a rest h.2.1 h.2.2
            by_cases hFormed : WellFormed [a, b]
            · rw [if_pos hFormed] at hResult
              exact Or.inr ⟨[a, b], rest, rfl, hFormed, hResult⟩
            · rw [if_neg hFormed] at hResult
              exact Or.inl hResult
      · match rest, hCut with
        | [], hCut =>
            simp only [List.length_nil] at hCut
            omega
        | [b], hCut =>
            simp only [List.length_cons, List.length_nil] at hCut
            omega
        | b :: c :: rest, _ =>
            have hResult :=
              @validate_three b a c rest h.2.1 h.2.2
            by_cases hFormed : WellFormed [a, b, c]
            · rw [if_pos hFormed] at hResult
              exact
                Or.inr ⟨[a, b, c], rest, rfl, hFormed, hResult⟩
            · rw [if_neg hFormed] at hResult
              exact Or.inl hResult
      · match rest, hCut with
        | [], hCut =>
            simp only [List.length_nil] at hCut
            omega
        | [b], hCut =>
            simp only [List.length_cons, List.length_nil] at hCut
            omega
        | [b, c], hCut =>
            simp only [List.length_cons, List.length_nil] at hCut
            omega
        | b :: c :: d :: rest, _ =>
            have hResult :=
              @validate_four b a c d rest h.2.1 h.2.2
            by_cases hFormed : WellFormed [a, b, c, d]
            · rw [if_pos hFormed] at hResult
              exact
                Or.inr
                  ⟨[a, b, c, d], rest, rfl, hFormed, hResult⟩
            · rw [if_neg hFormed] at hResult
              exact Or.inl hResult

theorem utf8ValidateChar_wellFormed
    {seq : List UInt8}
    (hFormed : WellFormed seq)
    (rest : List UInt8) :
    utf8ValidateChar (seq ++ rest) = .done seq.length := by
  cases hFormed using WellFormed.by_length with
  | one a hFormed =>
      exact validate_one ((wellFormed_one a).mp hFormed)
  | two a b hFormed =>
      have hBounds := (wellFormed_two a b).mp hFormed
      have hResult :=
        @validate_two b a rest (by omega) (by omega)
      rw [if_pos hFormed] at hResult
      exact hResult
  | three a b c hFormed =>
      have hBounds := (wellFormed_three a b c).mp hFormed
      have hResult :=
        @validate_three b a c rest (by omega) (by omega)
      rw [if_pos hFormed] at hResult
      exact hResult
  | four a b c d hFormed =>
      have hBounds := (wellFormed_four a b c d).mp hFormed
      have hResult :=
        @validate_four b a c d rest (by omega) (by omega)
      rw [if_pos hFormed] at hResult
      exact hResult

----
-- Decoding
----

theorem or_eq_add
    {bits high low : Nat}
    (hLow : low < 2 ^ bits) :
    (2 ^ bits * high) ||| low = 2 ^ bits * high + low :=
  (Nat.two_pow_add_eq_or_of_lt hLow high).symm

theorem bitsAt_eq
    {bits : Nat}
    (hByte : buf[offset]? = some b) :
    bitsAt buf offset (2 ^ bits - 1) =
      .done (b.toNat % 2 ^ bits) := by
  unfold bitsAt
  rw [byteAt_eq hByte, Faulting.map_done,
    Nat.and_two_pow_sub_one_eq_mod]

/- The bits of a later byte stand below those before it. -/
theorem pushTail_eq
    {shift high : Nat}
    (hByte : buf[offset]? = some b) :
    pushTail buf offset shift (.done (2 ^ (shift + 6) * high)) =
      .done
        (2 ^ (shift + 6) * high + 2 ^ shift * (b.toNat % 0x40)) := by
  have hBits := @bitsAt_eq buf b offset 6 hByte
  have hLow :
      2 ^ shift * (b.toNat % 2 ^ 6) < 2 ^ (shift + 6) := by
    rw [Nat.pow_add]
    exact
      Nat.mul_lt_mul_of_pos_left (Nat.mod_lt _ (by decide))
        (Nat.two_pow_pos shift)
  unfold pushTail
  rw [Faulting.bind_done]
  have hMask : (0x3F : Nat) = 2 ^ 6 - 1 := rfl
  rw [hMask, hBits, Faulting.map_done, Nat.shiftLeft_eq,
    Nat.mul_comm _ (2 ^ shift), or_eq_add hLow]
  rfl

theorem pushHead_eq
    {bits shift : Nat}
    (hByte : buf[0]? = some b) :
    pushHead buf (2 ^ bits - 1) shift =
      .done (2 ^ shift * (b.toNat % 2 ^ bits)) := by
  unfold pushHead
  rw [bitsAt_eq hByte, Faulting.map_done, Nat.shiftLeft_eq,
    Nat.mul_comm]

theorem utf8ToCodePoint_wellFormed
    {seq : List UInt8}
    (hFormed : WellFormed seq)
    (rest : List UInt8) :
    utf8ToCodePoint (seq ++ rest) =
      .done (seq.length, Int.ofNat (decode seq)) := by
  have hSize := utf8ValidateChar_wellFormed hFormed rest
  unfold utf8ToCodePoint
  rw [hSize, Faulting.bind_done]
  cases hFormed using WellFormed.by_length with
  | one a hFormed => rfl
  | two a b hFormed =>
      have hHead :
          pushHead ([a, b] ++ rest) 0x1F 6 =
            .done (2 ^ (0 + 6) * (a.toNat % 0x20)) :=
        @pushHead_eq ([a, b] ++ rest) a 5 6 rfl
      have hDecode :
          2 ^ (0 + 6) * (a.toNat % 0x20) +
              2 ^ 0 * (b.toNat % 0x40) =
            decode [a, b] := by
        simp only [decode]
        omega
      show
        (pushTail ([a, b] ++ rest) 1 0
            (pushHead ([a, b] ++ rest) 0x1F 6)).map _ = _
      rw [hHead, @pushTail_eq ([a, b] ++ rest) b 1 0 _ rfl,
        hDecode]
      rfl
  | three a b c hFormed =>
      have hHead :
          pushHead ([a, b, c] ++ rest) 0x0F 12 =
            .done (2 ^ (6 + 6) * (a.toNat % 0x10)) :=
        @pushHead_eq ([a, b, c] ++ rest) a 4 12 rfl
      have hSecond :
          2 ^ (6 + 6) * (a.toNat % 0x10) +
              2 ^ 6 * (b.toNat % 0x40) =
            2 ^ (0 + 6) *
              (2 ^ 6 * (a.toNat % 0x10) + b.toNat % 0x40) := by
        omega
      have hDecode :
          2 ^ (0 + 6) *
                (2 ^ 6 * (a.toNat % 0x10) + b.toNat % 0x40) +
              2 ^ 0 * (c.toNat % 0x40) =
            decode [a, b, c] := by
        simp only [decode]
        omega
      show
        (pushTail ([a, b, c] ++ rest) 2 0
            (pushTail ([a, b, c] ++ rest) 1 6
              (pushHead ([a, b, c] ++ rest) 0x0F 12))).map _ = _
      rw [hHead, @pushTail_eq ([a, b, c] ++ rest) b 1 6 _ rfl,
        hSecond,
        @pushTail_eq ([a, b, c] ++ rest) c 2 0 _ rfl, hDecode]
      rfl
  | four a b c d hFormed =>
      have hHead :
          pushHead ([a, b, c, d] ++ rest) 0x07 18 =
            .done (2 ^ (12 + 6) * (a.toNat % 0x08)) :=
        @pushHead_eq ([a, b, c, d] ++ rest) a 3 18 rfl
      have hSecond :
          2 ^ (12 + 6) * (a.toNat % 0x08) +
              2 ^ 12 * (b.toNat % 0x40) =
            2 ^ (6 + 6) *
              (2 ^ 6 * (a.toNat % 0x08) + b.toNat % 0x40) := by
        omega
      have hThird :
          2 ^ (6 + 6) *
                (2 ^ 6 * (a.toNat % 0x08) + b.toNat % 0x40) +
              2 ^ 6 * (c.toNat % 0x40) =
            2 ^ (0 + 6) *
              (2 ^ 12 * (a.toNat % 0x08) +
                2 ^ 6 * (b.toNat % 0x40) + c.toNat % 0x40) := by
        omega
      have hDecode :
          2 ^ (0 + 6) *
                (2 ^ 12 * (a.toNat % 0x08) +
                  2 ^ 6 * (b.toNat % 0x40) + c.toNat % 0x40) +
              2 ^ 0 * (d.toNat % 0x40) =
            decode [a, b, c, d] := by
        simp only [decode]
        omega
      show
        (pushTail ([a, b, c, d] ++ rest) 3 0
            (pushTail ([a, b, c, d] ++ rest) 2 6
              (pushTail ([a, b, c, d] ++ rest) 1 12
                (pushHead ([a, b, c, d] ++ rest) 0x07
                  18)))).map _ = _
      rw [hHead,
        @pushTail_eq ([a, b, c, d] ++ rest) b 1 12 _ rfl,
        hSecond, @pushTail_eq ([a, b, c, d] ++ rest) c 2 6 _ rfl,
        hThird, @pushTail_eq ([a, b, c, d] ++ rest) d 3 0 _ rfl,
        hDecode]
      rfl

/- What is no character is no code point. -/
theorem utf8ToCodePoint_invalid
    (hSize : utf8ValidateChar buf = .done 0) :
    utf8ToCodePoint buf = .done (0, -1) := by
  unfold utf8ToCodePoint
  rw [hSize]
  rfl

----
-- Encoding
----

theorem utf8_eq
    {code : Nat}
    (hCode : code ≤ 0x10FFFF) :
    Json.codePointToUtf8 code = encode code := by
  have hShift (bits : Nat) : code >>> bits = code / 2 ^ bits :=
    Nat.shiftRight_eq_div_pow code bits
  unfold Json.codePointToUtf8 encode
  simp only [tail_eq, hShift]
  split_ifs
  any_goals omega
  · rfl
  · have hLt : code / 2 ^ 6 < 2 ^ 6 := by
      omega
    exact
      congrArg (fun head => [head, tail code])
        (head_eq 3 hLt)
  · have hLt : code / 2 ^ 12 < 2 ^ 5 := by
      omega
    exact
      congrArg
        (fun head =>
          [head, tail (code / 2 ^ 6), tail code])
        (head_eq 7 hLt)
  · have hLt : code / 2 ^ 18 < 2 ^ 4 := by
      omega
    exact
      congrArg
        (fun head =>
          [head, tail (code / 2 ^ 12),
            tail (code / 2 ^ 6), tail code])
        (head_eq 15 hLt)

theorem codePointToUtf8_eq
    {n : Nat}
    (hLt : n < 0x110000) :
    codePointToUtf8 (Int.ofNat n) = encode n := by
  have hValid : isValidCodePoint (Int.ofNat n) = true := by
    unfold isValidCodePoint
    rw [Bool.and_eq_true_iff, decide_eq_true_iff,
      decide_eq_true_iff]
    constructor
    · exact Int.natCast_nonneg n
    · show (n : Int) ≤ 0x10FFFF
      omega
  unfold codePointToUtf8
  rw [if_pos hValid]
  exact utf8_eq (Nat.le_of_lt_succ hLt)

theorem lt_of_isScalar
    {n : Nat}
    (hScalar : IsScalar n) :
    n < 0x110000 := by
  unfold IsScalar at hScalar
  omega

/- The sequences that are accepted are those that the table
   has.  A buffer that is refused begins with none of them. -/
theorem utf8ValidateChar_exact (buf : List UInt8) :
    ∃ size,
      utf8ValidateChar buf = .done size ∧
        (size = 0 ∧ utf8ToCodePoint buf = .done (0, -1) ∨
          size ≤ buf.length ∧ WellFormed (buf.take size)) ∧
        ∀ seq rest : List UInt8,
          buf = seq ++ rest →
            (WellFormed seq ↔ seq ≠ [] ∧ seq.length = size) := by
  rcases utf8ValidateChar_cases buf with hNone | hFound
  · refine
      ⟨0, hNone, Or.inl ⟨rfl, utf8ToCodePoint_invalid hNone⟩, ?_⟩
    intro seq rest hBuf
    constructor
    · intro hFormed
      have hLength := length_of_wellFormed hFormed
      have hSize := utf8ValidateChar_wellFormed hFormed rest
      rw [← hBuf, hNone] at hSize
      have hZero := Faulting.done.inj hSize
      omega
    · intro hEmpty
      exact absurd (List.length_eq_zero_iff.mp hEmpty.2) hEmpty.1
  · rcases hFound with ⟨found, after, hFoundBuf, hFound, hSize⟩
    have hTake :
        found.length ≤ buf.length ∧
          WellFormed (buf.take found.length) := by
      rw [hFoundBuf, List.take_left, List.length_append]
      exact ⟨Nat.le_add_right _ _, hFound⟩
    refine ⟨found.length, hSize, Or.inr hTake, ?_⟩
    intro seq rest hBuf
    constructor
    · intro hFormed
      have hLength := length_of_wellFormed hFormed
      have hSame := utf8ValidateChar_wellFormed hFormed rest
      rw [← hBuf, hSize] at hSame
      refine ⟨?_, (Faulting.done.inj hSame).symm⟩
      intro hNil
      rw [hNil, List.length_nil] at hLength
      omega
    · intro hLength
      rw [hBuf] at hFoundBuf
      have hSeq :=
        (List.append_inj hFoundBuf hLength.2).1
      rw [hSeq]
      exact hFound

/-
  What is accepted is well formed and the other way round, and
  decoding and encoding undo each other.  No answer is larger
  than the buffer, and a refused buffer has no code point.
-/
theorem utf8_codec :
    (∀ buf : List UInt8,
      ∃ size,
        utf8ValidateChar buf = .done size ∧
          (size = 0 ∧ utf8ToCodePoint buf = .done (0, -1) ∨
            size ≤ buf.length ∧ WellFormed (buf.take size)) ∧
          ∀ seq rest : List UInt8,
            buf = seq ++ rest →
              (WellFormed seq ↔
                seq ≠ [] ∧ seq.length = size)) ∧
      (∀ (n : Nat) (rest : List UInt8),
        IsScalar n →
          utf8ToCodePoint
              (codePointToUtf8 (Int.ofNat n) ++ rest) =
            .done
              ((codePointToUtf8 (Int.ofNat n)).length,
                Int.ofNat n)) ∧
        ∀ seq rest : List UInt8,
          WellFormed seq →
            ∃ codePoint,
              utf8ToCodePoint (seq ++ rest) =
                  .done (seq.length, codePoint) ∧
                codePointToUtf8 codePoint = seq := by
  refine ⟨utf8ValidateChar_exact, ?_, ?_⟩
  · intro n rest hScalar
    have hLt := lt_of_isScalar hScalar
    have hResult :=
      utf8ToCodePoint_wellFormed (wellFormed_encode hScalar) rest
    rw [codePointToUtf8_eq hLt, hResult, decode_encode hLt]
  · intro seq rest hFormed
    refine
      ⟨Int.ofNat (decode seq),
        utf8ToCodePoint_wellFormed hFormed rest, ?_⟩
    rw [codePointToUtf8_eq
      (lt_of_isScalar (isScalar_decode hFormed))]
    exact encode_decode hFormed

end Unicode

end Ydsh
