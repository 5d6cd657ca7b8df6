import Mathlib.Data.Nat.Digits.Lemmas
import Ydsh.Json.Tokens

/-
  Integers are printed and read alike.

  Main declarations:
    * `fetchNext_to_string`
    * `convertToNum_to_string`
-/

----
-- Digits
----

namespace Ydsh

namespace Json

def digitByte (digit : Nat) : UInt8 :=
  UInt8.ofNat (0x30 + digit)

def decimalDigits (value : Nat) : List Nat :=
  if value = 0 then [0] else (Nat.digits 10 value).reverse

/- Horner's rule. -/
def ofDigits
    (ret : Nat)
    (digits : List Nat) : Nat :=
  digits.foldl (fun ret digit => ret * 10 + digit) ret

theorem decimal_eq (value : Nat) :
    decimal value = (decimalDigits value).map digitByte := by
  unfold decimal decimalDigits
  split_ifs
  · rfl
  · rfl

theorem decimalDigits_lt
    {value digit : Nat}
    (hMem : digit ∈ decimalDigits value) :
    digit < 10 := by
  unfold decimalDigits at hMem
  split_ifs at hMem
  · rw [List.mem_singleton.mp hMem]
    decide
  · rw [List.mem_reverse] at hMem
    exact Nat.digits_lt_base (by decide) hMem

theorem ofDigits_decimalDigits (value : Nat) :
    ofDigits 0 (decimalDigits value) = value := by
  unfold ofDigits decimalDigits
  split_ifs with hZero
  · rw [hZero]
    rfl
  · rw [List.foldl_reverse]
    have hDigits := Nat.ofDigits_digits 10 value
    rw [Nat.ofDigits_eq_foldr] at hDigits
    simp only [Nat.cast_id] at hDigits
    have hSwap :
        (fun (x y : Nat) => y * 10 + x) =
          (fun x y => x + 10 * y) := by
      funext x y
      omega
    rw [hSwap]
    exact hDigits

theorem le_ofDigits
    (ret : Nat)
    (digits : List Nat) :
    ret ≤ ofDigits ret digits := by
  induction digits generalizing ret with
  | nil => exact Nat.le_refl _
  | cons digit digits ih =>
      have hRest := ih (ret * 10 + digit)
      unfold ofDigits at hRest ⊢
      rw [List.foldl_cons]
      omega

/- The text of a number starts with its first digit. -/
theorem decimalDigits_cons (value : Nat) :
    ∃ digit digits,
      decimalDigits value = digit :: digits ∧ digit < 10 ∧
        (digit = 0 → value = 0 ∧ digits = []) := by
  unfold decimalDigits
  by_cases hZero : value = 0
  · rw [if_pos hZero]
    exact ⟨0, [], rfl, by decide, fun _ => ⟨hZero, rfl⟩⟩
  · have hNe : Nat.digits 10 value ≠ [] :=
      Nat.digits_ne_nil_iff_ne_zero.mpr hZero
    have hLast := Nat.getLast_digit_ne_zero 10 hZero
    have hSplit := List.dropLast_append_getLast hNe
    rw [if_neg hZero, ← hSplit, List.reverse_append]
    refine ⟨_, _, rfl, ?_, ?_⟩
    · exact
        Nat.digits_lt_base (by decide) (List.getLast_mem hNe)
    · intro hEq
      exact absurd hEq hLast

theorem digitByte_toNat
    {digit : Nat}
    (hLt : digit < 10) :
    (digitByte digit).toNat = 0x30 + digit := by
  unfold digitByte
  rw [UInt8.toNat_ofNat']
  omega

theorem digitByte_ne_zero
    {digit : Nat}
    (hLt : digit < 10)
    (hNe : digit ≠ 0) :
    digitByte digit ≠ 0x30 := by
  intro hEq
  have hNat := digitByte_toNat hLt
  rw [hEq] at hNat
  simp at hNat
  omega

theorem isDigit_digitByte
    {digit : Nat}
    (hLt : digit < 10) :
    isDigit (digitByte digit) = true := by
  unfold isDigit
  rw [digitByte_toNat hLt]
  simp
  omega

theorem isDigit_decimal
    {value : Nat}
    {b : UInt8}
    (hMem : b ∈ decimal value) :
    isDigit b = true := by
  rw [decimal_eq] at hMem
  rcases List.mem_map.mp hMem with ⟨digit, hDigit, rfl⟩
  exact isDigit_digitByte (decimalDigits_lt hDigit)

----
-- Lexing
----

theorem Delimits.takeWhile_isDigit
    {rest : List UInt8}
    (hRest : Delimits rest) :
    rest.takeWhile isDigit = [] ∧
      rest.dropWhile isDigit = rest := by
  cases rest with
  | nil => exact absurd hRest id
  | cons b more =>
      have hOut : isDigit b = false := by
        rcases hRest with h | h | h | h | h
        all_goals
          rw [h]
          rfl
      rw [List.takeWhile_cons, List.dropWhile_cons, hOut]
      exact ⟨rfl, rfl⟩

theorem scanFrac_of_delimits
    {rest : List UInt8}
    (hRest : Delimits rest) :
    scanFrac rest = ([], rest) := by
  cases rest with
  | nil => exact absurd hRest id
  | cons b more =>
      have hNe : b ≠ 0x2E := by
        rcases hRest with h | h | h | h | h
        all_goals
          rw [h]
          decide
      unfold scanFrac
      exact if_neg (fun hBoth => hNe hBoth.1)

theorem scanExp_of_delimits
    {rest : List UInt8}
    (hRest : Delimits rest) :
    scanExp rest = ([], rest) := by
  cases rest with
  | nil => exact absurd hRest id
  | cons b more =>
      have hNe : ¬(b = 0x65 ∨ b = 0x45) := by
        rcases hRest with h | h | h | h | h
        all_goals
          rw [h]
          decide
      cases more with
      | nil => rfl
      | cons sign more =>
          rw [scanExp]
          exact if_neg (fun hBoth => hNe hBoth.1)

theorem scanInt_decimal
    (value : Nat)
    {rest : List UInt8}
    (hRest : Delimits rest) :
    scanInt (decimal value ++ rest) =
      some (decimal value, rest) := by
  rcases decimalDigits_cons value with
    ⟨digit, digits, hCons, hLt, hZero⟩
  have hText :
      decimal value = digitByte digit :: digits.map digitByte := by
    rw [decimal_eq, hCons, List.map_cons]
  have hDigits :
      ∀ b ∈ digits.map digitByte, isDigit b = true := by
    intro b hMem
    have hByte : b ∈ decimal value := by
      rw [hText]
      exact List.mem_cons_of_mem _ hMem
    exact isDigit_decimal hByte
  have hAfter := hRest.takeWhile_isDigit
  rw [hText, List.cons_append, scanInt]
  by_cases hIsZero : digit = 0
  · rw [(hZero hIsZero).2, hIsZero]
    rfl
  · have hNe := digitByte_ne_zero hLt hIsZero
    rw [if_neg hNe, if_pos (isDigit_digitByte hLt),
      List.takeWhile_append_of_pos hDigits,
      List.dropWhile_append_of_pos hDigits, hAfter.1, hAfter.2,
      List.append_nil]

theorem scanUnsigned_decimal
    (value : Nat)
    {rest : List UInt8}
    (hRest : Delimits rest) :
    scanUnsigned (decimal value ++ rest) =
      some (decimal value, rest) := by
  unfold scanUnsigned
  rw [scanInt_decimal value hRest]
  simp only [Option.map_some, scanFrac_of_delimits hRest,
    scanExp_of_delimits hRest, List.append_nil]

theorem decimal_cons (value : Nat) :
    ∃ b more, decimal value = b :: more ∧ isDigit b = true := by
  rcases decimalDigits_cons value with
    ⟨digit, digits, hCons, hLt, -⟩
  rw [decimal_eq, hCons]
  exact ⟨_, _, rfl, isDigit_digitByte hLt⟩

theorem isDigit_ne
    {b c : UInt8}
    (hDigit : isDigit b = true)
    (hOut : isDigit c = false) :
    b ≠ c := by
  intro hEq
  rw [hEq, hOut] at hDigit
  cases hDigit

theorem scanNumber_to_string
    (value : Int64)
    {rest : List UInt8}
    (hRest : Delimits rest) :
    scanNumber (to_string value ++ rest) =
      some (to_string value, rest) := by
  unfold to_string
  by_cases hNeg : value.toInt < 0
  · rw [if_pos hNeg, List.append_assoc]
    show
      (scanUnsigned (decimal value.toInt.natAbs ++ rest)).map
          (fun found => (0x2D :: found.1, found.2)) =
        _
    rw [scanUnsigned_decimal _ hRest]
    rfl
  · rw [if_neg hNeg]
    have hScan :=
      scanUnsigned_decimal value.toInt.natAbs hRest
    rcases decimal_cons value.toInt.natAbs with
      ⟨b, more, hCons, hDigit⟩
    rw [hCons, List.cons_append] at hScan ⊢
    rw [scanNumber, if_neg (isDigit_ne hDigit rfl)]
    exact hScan

/- The first byte of a number. -/
theorem to_string_cons (value : Int64) :
    ∃ b more,
      to_string value = b :: more ∧
        (b = 0x2D ∨ isDigit b = true) := by
  unfold to_string
  by_cases hNeg : value.toInt < 0
  · rw [if_pos hNeg]
    exact ⟨_, _, rfl, .inl rfl⟩
  · rw [if_neg hNeg]
    rcases decimal_cons value.toInt.natAbs with
      ⟨b, more, hCons, hDigit⟩
    exact ⟨b, more, hCons, .inr hDigit⟩

theorem startsToken_of_number
    {b : UInt8}
    (hFirst : b = 0x2D ∨ isDigit b = true) :
    StartsToken b := by
  rcases hFirst with hMinus | hDigit
  · rw [hMinus]
    decide
  · refine ⟨?_, isDigit_ne hDigit rfl⟩
    by_contra hSpace
    rw [Bool.not_eq_false] at hSpace
    unfold isSpace at hSpace
    simp only [Bool.or_eq_true, decide_eq_true_eq] at hSpace
    rcases hSpace with ((h | h) | h) | h
    all_goals exact isDigit_ne hDigit rfl h

theorem matchToken_number
    {b : UInt8}
    (hFirst : b = 0x2D ∨ isDigit b = true)
    {rest : List UInt8}
    {found : List UInt8 × List UInt8}
    (hScan : scanNumber (b :: rest) = some found) :
    matchToken b rest = ⟨.NUMBER, found.1, found.2⟩ := by
  have hNe :
      ∀ c, isDigit c = false → c ≠ 0x2D → b ≠ c := by
    intro c hOut hMinus hEq
    rcases hFirst with h | h
    · exact hMinus (hEq ▸ h)
    · exact isDigit_ne h hOut hEq
  have hKeyword :
      ∀ c more,
        isDigit c = false →
          c ≠ 0x2D →
            ((c :: more).isPrefixOf (b :: rest)) = false := by
    intro c more hOut hMinus
    rw [List.isPrefixOf_cons_cons]
    simp [(hNe c hOut hMinus).symm]
  unfold matchToken
  rw [if_neg, if_neg, if_neg, if_neg (hNe _ rfl (by decide)),
    hScan]
  all_goals
    rw [Bool.not_eq_true]
    exact hKeyword _ _ rfl (by decide)

theorem fetchNext_to_string
    (value : Int64)
    {rest : List UInt8}
    (hRest : Delimits rest) :
    fetchNext (to_string value ++ rest) =
      ⟨.NUMBER, to_string value, rest⟩ := by
  have hScan := scanNumber_to_string value hRest
  rcases to_string_cons value with ⟨b, more, hCons, hFirst⟩
  rw [hCons, List.cons_append] at hScan ⊢
  rw [fetchNext_of_starts (startsToken_of_number hFirst),
    matchToken_number hFirst hScan]

----
-- Conversion
----

theorem isHex_digitByte
    {digit : Nat}
    (hLt : digit < 10) :
    isHex (digitByte digit) = true := by
  unfold isHex
  rw [digitByte_toNat hLt]
  simp
  omega

theorem hexToNum_digitByte
    {digit : Nat}
    (hLt : digit < 10) :
    hexToNum (digitByte digit) = digit := by
  unfold hexToNum
  rw [digitByte_toNat hLt, if_pos (by omega)]
  omega

theorem pushDigit_digitByte
    {ret digit : Nat}
    (hLt : digit < 10)
    (hFits : ret * 10 + digit < 2 ^ 64) :
    pushDigit 10 ret (digitByte digit) =
      some (ret * 10 + digit) := by
  unfold pushDigit
  rw [hexToNum_digitByte hLt, if_pos ⟨isHex_digitByte hLt, hLt⟩,
    if_pos ⟨by omega, hFits⟩]

/- `push` takes one digit more while `range` is not reached. -/
theorem foldlM_digits
    {push : Nat → UInt8 → Option Nat}
    {range : Nat}
    (hPush :
      ∀ {ret digit}, digit < 10 → ret * 10 + digit < range →
        push ret (digitByte digit) = some (ret * 10 + digit))
    {digits : List Nat}
    (hDigits : ∀ digit ∈ digits, digit < 10)
    {ret : Nat}
    (hFits : ofDigits ret digits < range) :
    (digits.map digitByte).foldlM push ret =
      some (ofDigits ret digits) := by
  induction digits generalizing ret with
  | nil => rfl
  | cons digit digits ih =>
      have hStep :
          ofDigits ret (digit :: digits) =
            ofDigits (ret * 10 + digit) digits :=
        rfl
      have hLe := le_ofDigits (ret * 10 + digit) digits
      rw [hStep] at hFits ⊢
      rw [List.map_cons, List.foldlM_cons,
        hPush (hDigits digit List.mem_cons_self) (by omega)]
      apply ih
      · intro d hMem
        exact hDigits d (List.mem_cons_of_mem _ hMem)
      · exact hFits

theorem foldlM_decimal
    {push : Nat → UInt8 → Option Nat}
    {range value : Nat}
    (hPush :
      ∀ {ret digit}, digit < 10 → ret * 10 + digit < range →
        push ret (digitByte digit) = some (ret * 10 + digit))
    (hFits : value < range) :
    (decimal value).foldlM push 0 = some value := by
  rw [decimal_eq, foldlM_digits hPush, ofDigits_decimalDigits]
  · intro d hMem
    exact decimalDigits_lt hMem
  · rw [ofDigits_decimalDigits]
    exact hFits

theorem parseUnsigned_decimal
    {value : Nat}
    (hFits : value < 2 ^ 64) :
    parseUnsigned (decimal value) = some value := by
  rcases decimalDigits_cons value with
    ⟨digit, digits, hCons, hLt, hZero⟩
  by_cases hIsZero : digit = 0
  · rw [(hZero hIsZero).1]
    rfl
  · have hNe := digitByte_ne_zero hLt hIsZero
    have hFold :
        (decimal value).foldlM (pushDigit 10) 0 =
          some value :=
      foldlM_decimal pushDigit_digitByte hFits
    have hText :
        decimal value =
          digitByte digit :: digits.map digitByte := by
      rw [decimal_eq, hCons, List.map_cons]
    rw [hText] at hFold ⊢
    unfold parseUnsigned
    simp only [if_neg hNe]
    rw [parseDecimal, if_neg hNe]
    exact hFold

theorem convertToNum_to_string (value : Int64) :
    convertToNum (to_string value) = some value := by
  have hLow := Int64.le_toInt value
  have hHigh := Int64.toInt_lt value
  unfold to_string
  by_cases hNeg : value.toInt < 0
  · rw [if_pos hNeg]
    show
      (parseUnsigned (decimal value.toInt.natAbs)).bind
          (makeSigned · true) =
        _
    rw [parseUnsigned_decimal (by omega), Option.bind_some]
    unfold makeSigned
    have hBack : -(value.toInt.natAbs : Int) = value.toInt := by
      omega
    rw [if_pos rfl, if_pos (by omega), hBack,
      Int64.ofInt_toInt]
  · rw [if_neg hNeg]
    have hParse :
        parseUnsigned (decimal value.toInt.natAbs) =
          some value.toInt.natAbs :=
      parseUnsigned_decimal (by omega)
    have hBack : (value.toInt.natAbs : Int) = value.toInt := by
      omega
    rcases decimal_cons value.toInt.natAbs with
      ⟨b, more, hCons, hDigit⟩
    rw [hCons] at hParse ⊢
    rw [convertToNum, if_neg (isDigit_ne hDigit rfl), hParse,
      Option.bind_some]
    unfold makeSigned
    rw [if_neg (by decide), if_pos (by omega), hBack,
      Int64.ofInt_toInt]

/- An integer is not read as a `double`. -/
theorem isFloat_to_string (value : Int64) :
    isFloat (to_string value) = false := by
  have hBytes :
      ∀ b ∈ to_string value, b = 0x2D ∨ isDigit b = true := by
    intro b hMem
    unfold to_string at hMem
    split_ifs at hMem
    · rcases List.mem_append.mp hMem with hMinus | hDigit
      · exact .inl (List.mem_singleton.mp hMinus)
      · exact .inr (isDigit_decimal hDigit)
    · exact .inr (isDigit_decimal hMem)
  unfold isFloat
  rw [List.any_eq_false]
  intro b hMem
  have hMarks :
      (ascii ['.', 'e', 'E']).all
          (fun c => c ≠ 0x2D && !isDigit c) =
        true := by
    decide
  rw [decide_eq_true_eq]
  intro hMark
  have hByte := List.all_eq_true.mp hMarks b hMark
  simp only [Bool.and_eq_true, decide_eq_true_eq,
    Bool.not_eq_true'] at hByte
  rcases hBytes b hMem with hMinus | hDigit
  · exact hByte.1 hMinus
  · rw [hByte.2] at hDigit
    cases hDigit

end Json

end Ydsh
