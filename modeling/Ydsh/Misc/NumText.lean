import Ydsh.Library.Numeral
import Ydsh.Misc.NumUtil

/-
  The texts that stand for an integer, at each width, sign and
  base, and the literals of the language.

  Main declarations:
    * `fromIntLiteral`
    * `parseInteger_iff`
    * `convertToNum_iff`
    * `fromIntLiteral_iff`
    * `conversions_exact`
-/

----
-- Literals
----

namespace Ydsh

namespace NumUtil

open Library
open Json (ascii isHex hexToNum decimal to_string)

/- `static_cast` to the signed type of the width. -/
def castSigned (range v : Nat) : Int :=
  if v < range / 2 then (v : Int) else (v : Int) - range

/- Only a decimal number may have a sign. -/
def fromIntLiteral
    (range : Nat)
    (bytes : List UInt8) : Option Int :=
  let negate := bytes.head? == some 0x2D
  let digits := if negate then bytes.tail else bytes
  let isDecimal :=
    ! digits.isEmpty && digits.head? != some 0x30
  (parseInteger range 0 digits).bind fun v =>
    if isDecimal then makeSigned range v negate
    else if ! negate then some (castSigned range v)
    else none

/- The sizes of the types that are converted to. -/
inductive Width where
  | four
  | eight
deriving DecidableEq

def Width.range : Width → Nat
  | .four => 0x100000000
  | .eight => 0x10000000000000000

----
-- Texts
----

/- What a byte stands for as a digit. -/
def digitValue (ch : UInt8) : Option Nat :=
  if 0x30 ≤ ch.toNat ∧ ch.toNat ≤ 0x39 then
    some (ch.toNat - 0x30)
  else if 0x61 ≤ ch.toNat ∧ ch.toNat ≤ 0x66 then
    some (ch.toNat - 0x61 + 10)
  else if 0x41 ≤ ch.toNat ∧ ch.toNat ≤ 0x46 then
    some (ch.toNat - 0x41 + 10)
  else
    none

abbrev IsNumeral : Nat → List UInt8 → Nat → Prop :=
  Numeral digitValue

/-
  Where the base is found out: a text that begins with 0 is
  octal, or of the base that the mark after the 0 says.
-/
def AutoText (bytes : List UInt8) (value : Nat) : Prop :=
  (bytes.head? ≠ some 0x30 ∧ IsNumeral 10 bytes value) ∨
    (bytes.head? = some 0x30 ∧ IsNumeral 8 bytes value) ∨
    (∃ mark ∈ ascii ['o', 'O'], ∃ digits,
      bytes = 0x30 :: mark :: digits ∧
        IsNumeral 8 digits value) ∨
    (∃ mark ∈ ascii ['x', 'X'], ∃ digits,
      bytes = 0x30 :: mark :: digits ∧
        IsNumeral 16 digits value)

/- No decimal number but 0 begins with 0. -/
def DecimalText (bytes : List UInt8) (value : Nat) : Prop :=
  IsNumeral 10 bytes value ∧
    (bytes.head? = some 0x30 → bytes = [0x30])

/- The texts without a sign, for the bases there are. -/
def Text
    (base : Nat)
    (bytes : List UInt8)
    (value : Nat) : Prop :=
  if base = 0 then AutoText bytes value
  else if base = 8 ∨ base = 16 then IsNumeral base bytes value
  else base = 10 ∧ DecimalText bytes value

/- A minus may stand before the text of a signed integer. -/
def SignedText
    (base : Nat)
    (bytes : List UInt8)
    (value : Int) : Prop :=
  (∃ v : Nat, Text base bytes v ∧ value = v) ∨
    ∃ digits, ∃ v : Nat,
      bytes = 0x2D :: digits ∧ Text base digits v ∧ value = -v

/- The values of the signed type. -/
def Width.Signed (width : Width) (value : Int) : Prop :=
  -((width.range / 2 : Nat) : Int) ≤ value ∧
    value < ((width.range / 2 : Nat) : Int)

/-
  Literals: decimal numbers that do not begin with 0, of
  either sign; and the texts that begin with 0, which give the
  bits of the signed integer.
-/
def LiteralText
    (range : Nat)
    (bytes : List UInt8)
    (value : Int) : Prop :=
  (∃ v : Nat,
    bytes.head? ≠ some 0x30 ∧ IsNumeral 10 bytes v ∧
      value = v) ∨
    (∃ digits, ∃ v : Nat,
      bytes = 0x2D :: digits ∧ digits.head? ≠ some 0x30 ∧
        IsNumeral 10 digits v ∧ value = -v) ∨
    ∃ v : Nat,
      bytes.head? = some 0x30 ∧ AutoText bytes v ∧
        v < range ∧ value % range = v

----
-- Unsigned Integers
----

variable {range base value : Nat}
variable {bytes digits : List UInt8}
variable {ch mark : UInt8}

theorem digitValue_eq :
    digitValue ch =
      if isHex ch then some (hexToNum ch) else none := by
  unfold digitValue isHex hexToNum
  by_cases hDigit : 0x30 ≤ ch.toNat ∧ ch.toNat ≤ 0x39
  · simp [hDigit]
  · by_cases hLower : 0x61 ≤ ch.toNat ∧ ch.toNat ≤ 0x66
    · simp [hDigit, hLower, Nat.add_comm]
    · by_cases hUpper : 0x41 ≤ ch.toNat ∧ ch.toNat ≤ 0x46
      · simp [hDigit, hLower, hUpper, Nat.add_comm]
      · simp [hDigit, hLower, hUpper]

/- The two checks for an overflow are one. -/
theorem pushDigit_eq :
    pushDigit range base = pushLimited digitValue base range := by
  funext ret ch
  unfold pushDigit pushLimited
  rw [digitValue_eq]
  by_cases hHex : isHex ch = true
  · rw [if_pos hHex, Option.bind_some]
    by_cases hLt : hexToNum ch < base
    · by_cases hFits : ret * base + hexToNum ch < range
      · have hMul : ret * base < range := by
          omega
        rw [if_pos ⟨hHex, hLt⟩, if_pos ⟨hMul, hFits⟩,
          if_pos ⟨hLt, hFits⟩]
      · rw [if_pos ⟨hHex, hLt⟩,
          if_neg (fun hBoth => hFits hBoth.2),
          if_neg (fun hBoth => hFits hBoth.2)]
    · rw [if_neg (fun hBoth => hLt hBoth.2),
        if_neg (fun hBoth => hLt hBoth.1)]
  · rw [if_neg (fun hBoth => hHex hBoth.1), if_neg hHex]
    rfl

section Unsigned

theorem foldlM_iff
    (hBase : 0 < base)
    (hRange : 0 < range)
    (hBytes : bytes ≠ []) :
    bytes.foldlM (pushDigit range base) 0 = some value ↔
      IsNumeral base bytes value ∧ value < range := by
  rw [pushDigit_eq]
  exact foldlM_pushLimited_iff hBase hRange hBytes

theorem parseOctalOrHex_iff
    (hBase : 0 < base)
    (hRange : 0 < range) :
    parseOctalOrHex range base bytes = some value ↔
      IsNumeral base bytes value ∧ value < range := by
  unfold parseOctalOrHex
  by_cases hBytes : bytes = []
  · rw [if_pos hBytes]
    constructor
    · intro hNone
      cases hNone
    · rintro ⟨hNumeral, _⟩
      exact absurd hBytes hNumeral.1
  · rw [if_neg hBytes]
    exact foldlM_iff hBase hRange hBytes

theorem parseDecimal_iff
    (hRange : 0 < range) :
    parseDecimal range bytes = some value ↔
      DecimalText bytes value ∧ value < range := by
  unfold DecimalText
  cases bytes with
  | nil =>
      constructor
      · intro hNone
        cases hNone
      · rintro ⟨⟨hNumeral, _⟩, _⟩
        exact absurd rfl hNumeral.1
  | cons ch bytes =>
      rw [parseDecimal]
      by_cases hZero : ch = 0x30
      · subst hZero
        rw [if_pos rfl, List.head?_cons]
        by_cases hNil : bytes = []
        · subst hNil
          have hOne :
              IsNumeral 10 [0x30] value ↔
                some 0 = some value ∧ value < 10 :=
            Numeral.single_iff
          rw [if_pos rfl, hOne, Option.some.injEq]
          constructor
          · rintro rfl
            exact
              ⟨⟨⟨rfl, by decide⟩, fun _ => rfl⟩, hRange⟩
          · rintro ⟨⟨⟨rfl, _⟩, _⟩, _⟩
            rfl
        · rw [if_neg hNil]
          constructor
          · intro hNone
            cases hNone
          · rintro ⟨⟨_, hAlone⟩, _⟩
            exact absurd (List.cons.inj (hAlone rfl)).2 hNil
      · rw [if_neg hZero,
          foldlM_iff (by decide) hRange (List.cons_ne_nil _ _)]
        have hLead :
            (ch :: bytes).head? = some 0x30 →
              ch :: bytes = [0x30] := fun hHead =>
          absurd (Option.some.inj hHead) hZero
        rw [and_iff_left hLead]

/- Marks of a base are no digits. -/
theorem digitValue_mark :
    ∀ mark ∈ ascii ['o', 'O', 'x', 'X'],
      digitValue mark = none := by
  have hAll :
      (ascii ['o', 'O', 'x', 'X']).all
          (fun mark => digitValue mark == none) =
        true := by
    decide
  intro mark hMark
  exact beq_iff_eq.mp (List.all_eq_true.mp hAll mark hMark)

theorem mark_once :
    ∀ mark ∈ ascii ['x', 'X'], mark ∉ ascii ['o', 'O'] := by
  have hAll :
      (ascii ['x', 'X']).all
          (fun mark => ! (ascii ['o', 'O']).contains mark) =
        true := by
    decide
  intro mark hMark
  have hMark := List.all_eq_true.mp hAll mark hMark
  simpa using hMark

theorem autoText_zero_iff :
    AutoText (0x30 :: mark :: digits) value ↔
      IsNumeral 8 (mark :: digits) value ∨
        (mark ∈ ascii ['o', 'O'] ∧ IsNumeral 8 digits value) ∨
        (mark ∈ ascii ['x', 'X'] ∧
          IsNumeral 16 digits value) := by
  have hZero :
      IsNumeral 8 (0x30 :: mark :: digits) value ↔
        IsNumeral 8 (mark :: digits) value :=
    Numeral.cons_zero_iff rfl (by decide) (List.cons_ne_nil _ _)
  unfold AutoText
  rw [hZero]
  constructor
  · rintro (⟨hHead, _⟩ | ⟨_, hOctal⟩ | hMarked | hMarked)
    · exact absurd rfl hHead
    · exact Or.inl hOctal
    · rcases hMarked with ⟨other, hMark, more, hSame, hMore⟩
      cases hSame
      exact Or.inr (Or.inl ⟨hMark, hMore⟩)
    · rcases hMarked with ⟨other, hMark, more, hSame, hMore⟩
      cases hSame
      exact Or.inr (Or.inr ⟨hMark, hMore⟩)
  · rintro (hOctal | ⟨hMark, hMore⟩ | ⟨hMark, hMore⟩)
    · exact Or.inr (Or.inl ⟨rfl, hOctal⟩)
    · exact
        Or.inr
          (Or.inr (Or.inl ⟨mark, hMark, digits, rfl, hMore⟩))
    · exact
        Or.inr
          (Or.inr (Or.inr ⟨mark, hMark, digits, rfl, hMore⟩))

theorem autoText_other_iff
    (hHead : bytes.head? ≠ some 0x30) :
    AutoText bytes value ↔ IsNumeral 10 bytes value := by
  constructor
  · rintro (⟨_, hNumeral⟩ | ⟨hZero, _⟩ | hMarked | hMarked)
    · exact hNumeral
    · exact absurd hZero hHead
    · rcases hMarked with ⟨_, _, _, rfl, _⟩
      exact absurd rfl hHead
    · rcases hMarked with ⟨_, _, _, rfl, _⟩
      exact absurd rfl hHead
  · intro hNumeral
    exact Or.inl ⟨hHead, hNumeral⟩

theorem autoText_single_iff :
    AutoText [0x30] value ↔ IsNumeral 8 [0x30] value := by
  constructor
  · rintro (⟨hHead, _⟩ | ⟨_, hOctal⟩ | hMarked | hMarked)
    · exact absurd rfl hHead
    · exact hOctal
    · rcases hMarked with ⟨_, _, _, hSame, _⟩
      cases hSame
    · rcases hMarked with ⟨_, _, _, hSame, _⟩
      cases hSame
  · intro hOctal
    exact Or.inr (Or.inl ⟨rfl, hOctal⟩)

theorem parseInBase_iff
    (hRange : 0 < range)
    (hBase : base ≠ 0) :
    parseInBase range base bytes = some value ↔
      Text base bytes value ∧ value < range := by
  unfold parseInBase Text
  rw [if_neg hBase]
  by_cases hOther : base = 8 ∨ base = 16
  · have hPos : 0 < base := Nat.pos_of_ne_zero hBase
    rw [if_pos hOther, if_pos hOther]
    exact parseOctalOrHex_iff hPos hRange
  · rw [if_neg hOther, if_neg hOther]
    by_cases hDecimal : base = 10
    · rw [if_pos hDecimal, and_iff_right hDecimal]
      exact parseDecimal_iff hRange
    · rw [if_neg hDecimal]
      constructor
      · intro hNone
        cases hNone
      · rintro ⟨⟨hSame, _⟩, _⟩
        exact absurd hSame hDecimal

theorem parseMarked_iff
    (hRange : 0 < range) :
    (parseBase (0x30 :: mark :: digits)).bind
          (fun found => parseInBase range found.1 found.2) =
        some value ↔
      AutoText (0x30 :: mark :: digits) value ∧
        value < range := by
  rw [autoText_zero_iff]
  unfold parseBase
  simp only [if_true]
  by_cases hHex : mark ∈ ascii ['x', 'X']
  · have hNone :=
      digitValue_mark mark
        (List.mem_append_right (ascii ['o', 'O']) hHex)
    rw [if_pos hHex, or_iff_right (Numeral.not_of_none hNone),
      or_iff_right (fun hBoth => mark_once mark hHex hBoth.1),
      and_iff_right hHex]
    exact parseInBase_iff hRange (show 16 ≠ 0 by decide)
  · rw [if_neg hHex]
    by_cases hOctal : mark ∈ ascii ['o', 'O']
    · have hNone :=
        digitValue_mark mark
          (List.mem_append_left (ascii ['x', 'X']) hOctal)
      rw [if_pos hOctal,
        or_iff_right (Numeral.not_of_none hNone),
        or_iff_left (fun hBoth => hHex hBoth.1),
        and_iff_right hOctal]
      exact parseInBase_iff hRange (show 8 ≠ 0 by decide)
    · rw [if_neg hOctal,
        or_iff_left (by
          rintro (hBoth | hBoth)
          · exact hOctal hBoth.1
          · exact hHex hBoth.1)]
      exact parseInBase_iff hRange (show 8 ≠ 0 by decide)

/- With the base found out. -/
theorem parseAuto_iff
    (hRange : 0 < range) :
    (parseBase bytes).bind
          (fun found => parseInBase range found.1 found.2) =
        some value ↔
      AutoText bytes value ∧ value < range := by
  cases bytes with
  | nil =>
      rw [autoText_other_iff (by simp)]
      constructor
      · intro hNone
        cases hNone
      · rintro ⟨hNumeral, _⟩
        exact absurd rfl hNumeral.1
  | cons ch bytes =>
      by_cases hZero : ch = 0x30
      · subst hZero
        cases bytes with
        | nil =>
            rw [autoText_single_iff]
            exact parseInBase_iff hRange (by decide)
        | cons mark digits => exact parseMarked_iff hRange
      · have hHead : (ch :: bytes).head? ≠ some 0x30 :=
          fun hSame => hZero (Option.some.inj hSame)
        have hDecimal :
            Text 10 (ch :: bytes) value ↔
              IsNumeral 10 (ch :: bytes) value :=
          (and_iff_right rfl).trans
            (and_iff_left fun hSame => absurd hSame hHead)
        rw [autoText_other_iff hHead, ← hDecimal]
        unfold parseBase
        simp only [if_neg hZero]
        exact parseInBase_iff hRange (show 10 ≠ 0 by decide)

theorem parseInteger_iff
    (hRange : 0 < range) :
    parseInteger range base bytes = some value ↔
      Text base bytes value ∧ value < range := by
  unfold parseInteger
  by_cases hAuto : base = 0
  · rw [if_pos hAuto, hAuto]
    exact parseAuto_iff hRange
  · rw [if_neg hAuto]
    exact parseInBase_iff hRange hAuto

end Unsigned

----
-- Signed Integers
----

section Signed

variable {width : Width}
variable {n : Int}

theorem Width.range_pos : 0 < width.range := by
  cases width <;> decide

theorem makeSigned_plain_iff
    {v : Nat} :
    makeSigned width.range v false = some n ↔
      n = v ∧ width.Signed n := by
  unfold makeSigned Width.Signed
  rw [if_neg Bool.false_ne_true]
  constructor
  · intro hSome
    split_ifs at hSome with hFits
    cases hSome
    refine ⟨rfl, by omega, ?_⟩
    have hPos : 0 < width.range / 2 := by
      cases width <;> decide
    omega
  · rintro ⟨rfl, _, hFits⟩
    exact if_pos (by omega)

theorem makeSigned_minus_iff
    {v : Nat} :
    makeSigned width.range v true = some n ↔
      n = -v ∧ width.Signed n := by
  unfold makeSigned Width.Signed
  rw [if_pos rfl]
  constructor
  · intro hSome
    split_ifs at hSome with hFits
    cases hSome
    refine ⟨rfl, by omega, ?_⟩
    have hPos : 0 < width.range / 2 := by
      cases width <;> decide
    omega
  · rintro ⟨rfl, hFits, _⟩
    exact if_pos (by omega)

/- The value of a signed integer fits the unsigned type. -/
theorem Width.Signed.natAbs_lt
    (hSigned : width.Signed n) :
    n.natAbs < width.range := by
  rcases hSigned with ⟨hLow, hHigh⟩
  have hPos := @Width.range_pos width
  omega

/- The sign is put on once the number has been read. -/
theorem parseSigned_iff
    {negative : Bool}
    {signed : Nat → Int}
    (hMake :
      ∀ v,
        makeSigned width.range v negative = some n ↔
          n = signed v ∧ width.Signed n)
    (hAbs : ∀ v, (signed v).natAbs = v) :
    (parseInteger width.range base bytes).bind
          (fun v => makeSigned width.range v negative) =
        some n ↔
      (∃ v : Nat, Text base bytes v ∧ n = signed v) ∧
        width.Signed n := by
  rw [Option.bind_eq_some_iff]
  constructor
  · rintro ⟨v, hParse, hMade⟩
    rcases (hMake v).mp hMade with ⟨hSame, hSigned⟩
    have hText := (parseInteger_iff Width.range_pos).mp hParse
    exact ⟨⟨v, hText.1, hSame⟩, hSigned⟩
  · rintro ⟨⟨v, hText, hSame⟩, hSigned⟩
    have hFits : v < width.range := by
      rw [← hAbs v, ← hSame]
      exact hSigned.natAbs_lt
    exact
      ⟨v,
        (parseInteger_iff Width.range_pos).mpr ⟨hText, hFits⟩,
        (hMake v).mpr ⟨hSame, hSigned⟩⟩

theorem parsePlain_iff :
    (parseInteger width.range base bytes).bind
          (fun v => makeSigned width.range v false) =
        some n ↔
      (∃ v : Nat, Text base bytes v ∧ n = v) ∧
        width.Signed n :=
  parseSigned_iff (fun _ => makeSigned_plain_iff)
    Int.natAbs_natCast

theorem parseMinus_iff :
    (parseInteger width.range base bytes).bind
          (fun v => makeSigned width.range v true) =
        some n ↔
      (∃ v : Nat, Text base bytes v ∧ n = -v) ∧
        width.Signed n :=
  parseSigned_iff (fun _ => makeSigned_minus_iff)
    (fun v => by rw [Int.natAbs_neg, Int.natAbs_natCast])

/- No text without a sign begins with a minus. -/
theorem not_text_minus :
    ¬ Text base (0x2D :: digits) value := by
  have hNone :
      ∀ other, ¬ IsNumeral other (0x2D :: digits) value :=
    fun other => Numeral.not_of_none rfl
  unfold Text
  split_ifs
  · rw [autoText_other_iff (by simp)]
    exact hNone 10
  · exact hNone base
  · exact fun hDecimal => hNone 10 hDecimal.2.1

theorem convertToNum_iff :
    convertToNum width.range base bytes = some n ↔
      SignedText base bytes n ∧ width.Signed n := by
  unfold SignedText
  cases bytes with
  | nil =>
      rw [or_iff_left (by simp)]
      exact parsePlain_iff
  | cons ch bytes =>
      rw [convertToNum]
      by_cases hMinus : ch = 0x2D
      · subst hMinus
        have hPlain :
            ¬ ∃ v : Nat,
              Text base (0x2D :: bytes) v ∧ n = v :=
          fun hBoth =>
            hBoth.elim fun _ hText => not_text_minus hText.1
        have hSame :
            (∃ digits, ∃ v : Nat,
                (0x2D : UInt8) :: bytes = 0x2D :: digits ∧
                  Text base digits v ∧ n = -v) ↔
              ∃ v : Nat, Text base bytes v ∧ n = -v := by
          constructor
          · rintro ⟨digits, v, hBytes, hText⟩
            cases hBytes
            exact ⟨v, hText⟩
          · rintro ⟨v, hText⟩
            exact ⟨bytes, v, rfl, hText⟩
        rw [if_pos rfl, or_iff_right hPlain, hSame]
        exact parseMinus_iff
      · rw [if_neg hMinus, or_iff_left]
        · exact parsePlain_iff
        · rintro ⟨_, _, hBytes, _⟩
          exact hMinus (List.cons.inj hBytes).1

/- The cast keeps the value modulo the range. -/
theorem castSigned_iff
    {v : Nat}
    (hFits : v < width.range) :
    castSigned width.range v = n ↔
      n % width.range = v ∧ width.Signed n := by
  unfold castSigned Width.Signed
  cases width with
  | four | eight =>
      simp only [Width.range] at hFits ⊢
      split_ifs <;> omega

/- Text that does not begin with 0 or a minus. -/
theorem fromIntLiteral_plain
    (hZero : ch ≠ 0x30)
    (hMinus : ch ≠ 0x2D) :
    fromIntLiteral range (ch :: bytes) =
      (parseInteger range 0 (ch :: bytes)).bind
        (fun v => makeSigned range v false) := by
  have hPlain : (ch == 0x2D) = false := by
    simpa using hMinus
  simp [fromIntLiteral, hZero, hPlain]

theorem fromIntLiteral_zero :
    fromIntLiteral range (0x30 :: bytes) =
      (parseInteger range 0 (0x30 :: bytes)).bind
        (fun v => some (castSigned range v)) := by
  simp [fromIntLiteral]

theorem fromIntLiteral_minus
    (hZero : digits.head? ≠ some 0x30)
    (hDigits : digits ≠ []) :
    fromIntLiteral range (0x2D :: digits) =
      (parseInteger range 0 digits).bind
        (fun v => makeSigned range v true) := by
  simp [fromIntLiteral, hZero, hDigits]

/- No sign before a number that is not decimal. -/
theorem fromIntLiteral_minusZero
    (hOther : digits.head? = some 0x30 ∨ digits = []) :
    fromIntLiteral range (0x2D :: digits) = none := by
  rcases hOther with hZero | rfl
  · simp [fromIntLiteral, hZero]
  · rfl

theorem text_zero_iff
    (hZero : bytes.head? ≠ some 0x30) :
    Text 0 bytes value ↔ IsNumeral 10 bytes value :=
  autoText_other_iff hZero

theorem literalText_plain_iff
    (hZero : ch ≠ 0x30)
    (hMinus : ch ≠ 0x2D) :
    LiteralText range (ch :: bytes) n ↔
      ∃ v : Nat, Text 0 (ch :: bytes) v ∧ n = v := by
  have hHead : (ch :: bytes).head? ≠ some 0x30 := fun hSame =>
    hZero (Option.some.inj hSame)
  constructor
  · rintro (⟨v, _, hNumeral, hSame⟩ | hSigned | hBits)
    · exact ⟨v, (text_zero_iff hHead).mpr hNumeral, hSame⟩
    · rcases hSigned with ⟨_, _, hBytes, _⟩
      exact absurd (List.cons.inj hBytes).1 hMinus
    · rcases hBits with ⟨_, hOctal, _⟩
      exact absurd hOctal hHead
  · rintro ⟨v, hText, hSame⟩
    exact
      Or.inl ⟨v, hHead, (text_zero_iff hHead).mp hText, hSame⟩

theorem literalText_zero_iff :
    LiteralText range (0x30 :: bytes) n ↔
      ∃ v : Nat,
        Text 0 (0x30 :: bytes) v ∧ v < range ∧
          n % range = v := by
  constructor
  · rintro (⟨_, hHead, _⟩ | hSigned | hBits)
    · exact absurd rfl hHead
    · rcases hSigned with ⟨_, _, hBytes, _⟩
      exact absurd (List.cons.inj hBytes).1 (by decide)
    · rcases hBits with ⟨v, _, hText⟩
      exact ⟨v, hText⟩
  · rintro ⟨v, hText⟩
    exact Or.inr (Or.inr ⟨v, rfl, hText⟩)

theorem literalText_minus_iff :
    LiteralText range (0x2D :: digits) n ↔
      digits.head? ≠ some 0x30 ∧
        ∃ v : Nat, IsNumeral 10 digits v ∧ n = -v := by
  constructor
  · rintro (⟨v, _, hNumeral, _⟩ | hSigned | hBits)
    · exact absurd hNumeral (Numeral.not_of_none rfl)
    · rcases hSigned with ⟨_, v, hBytes, hHead, hNumeral⟩
      cases hBytes
      exact ⟨hHead, v, hNumeral⟩
    · rcases hBits with ⟨_, hHead, _⟩
      exact absurd hHead (by simp)
  · rintro ⟨hHead, v, hNumeral⟩
    exact Or.inr (Or.inl ⟨digits, v, rfl, hHead, hNumeral⟩)

/- The texts that begin with 0 give bits. -/
theorem fromIntLiteral_zero_iff :
    fromIntLiteral width.range (0x30 :: bytes) = some n ↔
      LiteralText width.range (0x30 :: bytes) n ∧
        width.Signed n := by
  rw [fromIntLiteral_zero, literalText_zero_iff,
    Option.bind_eq_some_iff]
  constructor
  · rintro ⟨v, hParse, hCast⟩
    rcases (parseInteger_iff Width.range_pos).mp hParse with
      ⟨hText, hFits⟩
    rcases (castSigned_iff hFits).mp (Option.some.inj hCast) with
      ⟨hSame, hSigned⟩
    exact ⟨⟨v, hText, hFits, hSame⟩, hSigned⟩
  · rintro ⟨⟨v, hText, hFits, hSame⟩, hSigned⟩
    exact
      ⟨v,
        (parseInteger_iff Width.range_pos).mpr ⟨hText, hFits⟩,
        congrArg some
          ((castSigned_iff hFits).mpr ⟨hSame, hSigned⟩)⟩

theorem fromIntLiteral_minus_iff :
    fromIntLiteral width.range (0x2D :: digits) = some n ↔
      LiteralText width.range (0x2D :: digits) n ∧
        width.Signed n := by
  rw [literalText_minus_iff]
  by_cases hHead : digits.head? = some 0x30
  · rw [fromIntLiteral_minusZero (Or.inl hHead)]
    constructor
    · intro hNone
      cases hNone
    · rintro ⟨⟨hOther, _⟩, _⟩
      exact absurd hHead hOther
  · by_cases hNil : digits = []
    · rw [fromIntLiteral_minusZero (Or.inr hNil)]
      constructor
      · intro hNone
        cases hNone
      · rintro ⟨⟨_, _, hNumeral, _⟩, _⟩
        exact absurd hNil hNumeral.1
    · rw [fromIntLiteral_minus hHead hNil, parseMinus_iff,
        and_iff_right hHead]
      simp only [text_zero_iff hHead]

theorem fromIntLiteral_iff :
    fromIntLiteral width.range bytes = some n ↔
      LiteralText width.range bytes n ∧ width.Signed n := by
  cases bytes with
  | nil =>
      constructor
      · intro hNone
        cases hNone
      · rintro ⟨hPlain | hMinus | hBits, _⟩
        · rcases hPlain with ⟨_, _, hNumeral, _⟩
          exact absurd rfl hNumeral.1
        · rcases hMinus with ⟨_, _, hBytes, _⟩
          cases hBytes
        · rcases hBits with ⟨_, hHead, _⟩
          cases hHead
  | cons ch bytes =>
      by_cases hMinus : ch = 0x2D
      · subst hMinus
        exact fromIntLiteral_minus_iff
      · by_cases hZero : ch = 0x30
        · subst hZero
          exact fromIntLiteral_zero_iff
        · rw [fromIntLiteral_plain hZero hMinus,
            literalText_plain_iff hZero hMinus]
          exact parsePlain_iff

end Signed

----
-- Decimal Text
----

section Rendered

variable {v : Nat}

theorem digitValue_digitByte
    {digit : Nat}
    (hLt : digit < 10) :
    digitValue (Json.digitByte digit) = some digit := by
  unfold digitValue
  rw [Json.digitByte_toNat hLt, if_pos (by omega)]
  congr 1
  omega

theorem isNumeral_decimal : IsNumeral 10 (decimal v) v := by
  rw [Json.decimal_eq]
  refine ⟨?_, Json.decimalDigits v, ⟨?_, ?_⟩, ?_⟩
  · rcases Json.decimalDigits_cons v with ⟨digit, more, hCons, _⟩
    rw [hCons]
    exact List.cons_ne_nil _ _
  · rw [List.map_map]
    exact
      List.map_congr_left fun digit hDigit =>
        digitValue_digitByte (Json.decimalDigits_lt hDigit)
  · exact fun digit hDigit => Json.decimalDigits_lt hDigit
  · rw [← horner_zero]
    exact Json.ofDigits_decimalDigits v

/- Only the text of 0 begins with 0. -/
theorem head_decimal
    (hHead : (decimal v).head? = some 0x30) :
    v = 0 := by
  rcases Json.decimalDigits_cons v with
    ⟨digit, more, hCons, hLt, hZero⟩
  rw [Json.decimal_eq, hCons, List.map_cons,
    List.head?_cons] at hHead
  have hByte := congrArg UInt8.toNat (Option.some.inj hHead)
  rw [Json.digitByte_toNat hLt] at hByte
  have hDigit : digit = 0 := by
    simp at hByte
    omega
  exact (hZero hDigit).1

theorem autoText_decimal : AutoText (decimal v) v := by
  by_cases hHead : (decimal v).head? = some 0x30
  · rw [head_decimal hHead]
    exact
      autoText_single_iff.mpr
        (Numeral.single_iff.mpr ⟨rfl, by decide⟩)
  · exact (autoText_other_iff hHead).mpr isNumeral_decimal

theorem decimalText_decimal : DecimalText (decimal v) v := by
  refine ⟨isNumeral_decimal, fun hHead => ?_⟩
  rw [head_decimal hHead]
  rfl

theorem text_decimal
    (hBase : base = 0 ∨ base = 10) :
    Text base (decimal v) v := by
  rcases hBase with rfl | rfl
  · exact autoText_decimal
  · exact ⟨rfl, decimalText_decimal⟩

theorem signedText_to_string
    (hBase : base = 0 ∨ base = 10)
    (n : Int64) :
    SignedText base (to_string n) n.toInt := by
  unfold to_string
  split_ifs with hNeg
  · exact
      Or.inr
        ⟨_, n.toInt.natAbs, rfl, text_decimal hBase, by omega⟩
  · exact
      Or.inl ⟨n.toInt.natAbs, text_decimal hBase, by omega⟩

theorem literalText_to_string
    (n : Int64) :
    LiteralText Width.eight.range (to_string n) n.toInt := by
  unfold to_string
  split_ifs with hNeg
  · have hHead :
        (decimal n.toInt.natAbs).head? ≠ some 0x30 := by
      intro hHead
      have hZero := head_decimal hHead
      omega
    exact
      Or.inr
        (Or.inl
          ⟨_, n.toInt.natAbs, rfl, hHead, isNumeral_decimal,
            by omega⟩)
  · by_cases hHead :
      (decimal n.toInt.natAbs).head? = some 0x30
    · have hZero := head_decimal hHead
      have hValue : n.toInt = 0 := by
        omega
      refine
        Or.inr
          (Or.inr
            ⟨n.toInt.natAbs, hHead, autoText_decimal, ?_, ?_⟩)
      · rw [hZero]
        exact Width.range_pos
      · rw [hZero, hValue]
        rfl
    · exact
        Or.inl
          ⟨n.toInt.natAbs, hHead, isNumeral_decimal, by omega⟩

theorem signed_toInt
    (n : Int64) :
    Width.eight.Signed n.toInt := by
  have hLow := Int64.le_toInt n
  have hHigh := Int64.toInt_lt n
  unfold Width.Signed
  simp only [Width.range]
  omega

theorem range_toNat
    (n : UInt64) :
    n.toNat < Width.eight.range :=
  n.toNat_lt

end Rendered

/-
  A conversion gives a value if and only if the text stands for
  it and the type has it: for the signed and the unsigned types
  of each size, with every base, and for literals.  Decimal
  text of any 64-bit integer is converted to that integer.
-/
theorem conversions_exact :
    (∀ (width : Width) (base : Nat) (bytes : List UInt8),
      (∀ n : Int,
        convertToNum width.range base bytes = some n ↔
          SignedText base bytes n ∧ width.Signed n) ∧
        (∀ v : Nat,
          parseInteger width.range base bytes = some v ↔
            Text base bytes v ∧ v < width.range) ∧
        ∀ n : Int,
          fromIntLiteral width.range bytes = some n ↔
            LiteralText width.range bytes n ∧
              width.Signed n) ∧
      (∀ n : Int64,
        convertToNum Width.eight.range 0 (to_string n) =
            some n.toInt ∧
          convertToNum Width.eight.range 10 (to_string n) =
            some n.toInt ∧
          fromIntLiteral Width.eight.range (to_string n) =
            some n.toInt) ∧
      ∀ n : UInt64,
        parseInteger Width.eight.range 0 (decimal n.toNat) =
            some n.toNat ∧
          parseInteger Width.eight.range 10 (decimal n.toNat) =
            some n.toNat := by
  refine ⟨fun width base bytes => ?_, fun n => ?_, fun n => ?_⟩
  · exact
      ⟨fun n => convertToNum_iff,
        fun v => parseInteger_iff Width.range_pos,
        fun n => fromIntLiteral_iff⟩
  · exact
      ⟨convertToNum_iff.mpr
          ⟨signedText_to_string (Or.inl rfl) n,
            signed_toInt n⟩,
        convertToNum_iff.mpr
          ⟨signedText_to_string (Or.inr rfl) n,
            signed_toInt n⟩,
        fromIntLiteral_iff.mpr
          ⟨literalText_to_string n, signed_toInt n⟩⟩
  · exact
      ⟨(parseInteger_iff Width.range_pos).mpr
          ⟨text_decimal (Or.inl rfl), range_toNat n⟩,
        (parseInteger_iff Width.range_pos).mpr
          ⟨text_decimal (Or.inr rfl), range_toNat n⟩⟩

/-
  The literal `0xFFFFFFFFFFFFFFFF` gives -1, which is not its
  value.
-/
theorem not_exact_literal :
    ¬ ∀ (width : Width) (bytes : List UInt8) (n : Int),
      fromIntLiteral width.range bytes = some n ↔
        SignedText 0 bytes n ∧ width.Signed n := by
  intro hExact
  have hLiteral :
      fromIntLiteral Width.eight.range
          (ascii
            ['0', 'x', 'F', 'F', 'F', 'F', 'F', 'F', 'F', 'F',
              'F', 'F', 'F', 'F', 'F', 'F', 'F', 'F']) =
        some (-1) := by
    decide
  rcases ((hExact _ _ _).mp hLiteral).1 with hPlain | hMinus
  · rcases hPlain with ⟨v, _, hValue⟩
    omega
  · rcases hMinus with ⟨_, _, hBytes, _⟩
    exact absurd (List.cons.inj hBytes).1 (by decide)

end NumUtil

end Ydsh
