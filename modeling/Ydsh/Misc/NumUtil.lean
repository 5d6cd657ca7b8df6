import Ydsh.Json.Numbers

/-
  The conversion of text to an integer of any width.

  A value is an unsigned integer below `range`, which is two to
  the width, and every step of Horner's rule is checked against
  it.

  Main declarations:
    * `convertToNum`
    * `convertToNum_decimal`
-/

----
-- Conversion
----

namespace Ydsh

namespace NumUtil

open Json (ascii isHex hexToNum decimal)

/- One digit more, unless it is none or `range` is reached. -/
def pushDigit
    (range base ret : Nat)
    (ch : UInt8) : Option Nat :=
  if isHex ch ∧ hexToNum ch < base then
    if ret * base < range ∧
        ret * base + hexToNum ch < range then
      some (ret * base + hexToNum ch)
    else
      none
  else
    none

def parseDecimal (range : Nat) : List UInt8 → Option Nat
  | [] => none
  | ch :: bytes =>
      if ch = 0x30 then
        if bytes = [] then some 0 else none
      else
        (ch :: bytes).foldlM (pushDigit range 10) 0

def parseOctalOrHex
    (range base : Nat)
    (bytes : List UInt8) : Option Nat :=
  if bytes = [] then
    none
  else
    bytes.foldlM (pushDigit range base) 0

/- The base, and the bytes after its mark. -/
def parseBase : List UInt8 → Option (Nat × List UInt8)
  | [] => none
  | ch :: bytes =>
      if ch = 0x30 then
        match bytes with
        | [] => some (8, [ch])
        | mark :: digits =>
            if mark ∈ ascii ['x', 'X'] then
              some (16, digits)
            else if mark ∈ ascii ['o', 'O'] then
              some (8, digits)
            else
              some (8, mark :: digits)
      else
        some (10, ch :: bytes)

def parseInBase
    (range base : Nat)
    (bytes : List UInt8) : Option Nat :=
  if base = 8 ∨ base = 16 then
    parseOctalOrHex range base bytes
  else if base = 10 then
    parseDecimal range bytes
  else
    none

/- The base is detected if it is 0. -/
def parseInteger
    (range base : Nat)
    (bytes : List UInt8) : Option Nat :=
  if base = 0 then
    (parseBase bytes).bind
      (fun found => parseInBase range found.1 found.2)
  else
    parseInBase range base bytes

def makeSigned
    (range v : Nat)
    (negate : Bool) : Option Int :=
  if negate then
    if v ≤ range / 2 then some (-(v : Int)) else none
  else
    if v ≤ range / 2 - 1 then some (v : Int) else none

/- `convertToNum` for the signed integers of the width. -/
def convertToNum
    (range base : Nat) : List UInt8 → Option Int
  | [] =>
      (parseInteger range base []).bind
        (fun v => makeSigned range v false)
  | ch :: bytes =>
      if ch = 0x2D then
        (parseInteger range base bytes).bind
          (fun v => makeSigned range v true)
      else
        (parseInteger range base (ch :: bytes)).bind
          (fun v => makeSigned range v false)

----
-- Decimal Text
----

section Decimal

open Json

theorem pushDigit_digitByte
    {range ret digit : Nat}
    (hLt : digit < 10)
    (hFits : ret * 10 + digit < range) :
    pushDigit range 10 ret (digitByte digit) =
      some (ret * 10 + digit) := by
  unfold pushDigit
  rw [hexToNum_digitByte hLt, if_pos ⟨isHex_digitByte hLt, hLt⟩,
    if_pos ⟨by omega, hFits⟩]

/- Decimal text has no mark of another base. -/
theorem parseInteger_decimal
    {range value : Nat}
    (hFits : value < range) :
    parseInteger range 0 (decimal value) = some value := by
  have hFold :
      (decimal value).foldlM (pushDigit range 10) 0 =
        some value :=
    foldlM_decimal pushDigit_digitByte hFits
  rcases decimalDigits_cons value with
    ⟨digit, digits, hCons, hLt, hZero⟩
  have hText :
      decimal value =
        digitByte digit :: digits.map digitByte := by
    rw [decimal_eq, hCons, List.map_cons]
  unfold parseInteger
  rw [if_pos rfl]
  by_cases hIsZero : digit = 0
  · have hOctal :
        parseInBase range 8 (decimal 0) = some 0 := by
      rw [(hZero hIsZero).1] at hFits
      show (if 0 * 8 < range ∧ 0 * 8 + 0 < range then
          some 0 else none).bind some = some 0
      rw [if_pos ⟨hFits, hFits⟩]
      rfl
    rw [(hZero hIsZero).1]
    exact hOctal
  · have hNe := digitByte_ne_zero hLt hIsZero
    rw [hText] at hFold ⊢
    unfold parseBase
    simp only [if_neg hNe, Option.bind_some]
    unfold parseInBase parseDecimal
    rw [if_neg (by decide), if_pos rfl]
    simp only [if_neg hNe]
    exact hFold

theorem convertToNum_decimal
    {range value : Nat}
    (hFits : value < range) :
    convertToNum range 0 (decimal value) =
      if value ≤ range / 2 - 1 then
        some (value : Int)
      else
        none := by
  have hParse := parseInteger_decimal hFits
  rcases decimal_cons value with ⟨b, more, hCons, hDigit⟩
  rw [hCons] at hParse ⊢
  rw [convertToNum, if_neg (isDigit_ne hDigit rfl), hParse,
    Option.bind_some]
  unfold makeSigned
  rw [if_neg (by decide)]

end Decimal

end NumUtil

end Ydsh
