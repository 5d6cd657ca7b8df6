import Ydsh.Json.Numbers

/-
  What becomes of a value that is written and read again.

  Each byte of a string comes back as the code point of its
  number, so that a byte above `\x7F` comes back as two.

  Main declarations:
    * `reencode`
    * `JSON.reencode`
    * `JSON.strings`
    * `reencode_lt`
-/

----
-- Strings
----

namespace Ydsh

namespace Json

def reencode (value : List UInt8) : List UInt8 :=
  value.flatMap (fun b => codePointToUtf8 b.toNat)

theorem codePointToUtf8_ascii
    {b : UInt8}
    (hLt : b.toNat < 0x80) :
    codePointToUtf8 b.toNat = [b] := by
  unfold codePointToUtf8
  rw [if_pos (by omega), UInt8.ofNat_toNat]

/- A byte above `\x7F` as two bytes. -/
theorem codePointToUtf8_high :
    ∀ n < 256,
      0x80 ≤ n →
        codePointToUtf8 n =
          [UInt8.ofNat (0xC0 + n / 64),
            UInt8.ofNat (0x80 + n % 64)] := by
  intro n hLt hGe
  have hHead :
      ∀ high < 4, 0xC0 ||| high = 0xC0 + high := by
    decide
  have hTail :
      ∀ low < 64, 0x80 ||| low = 0x80 + low := by
    decide
  have hMod : n &&& 0x3F = n % 64 :=
    Nat.and_two_pow_sub_one_eq_mod n 6
  unfold codePointToUtf8
  rw [if_neg (by omega), if_pos (by omega), hMod,
    Nat.shiftRight_eq_div_pow, hHead (n / 2 ^ 6) (by omega),
    hTail _ (Nat.mod_lt _ (by decide))]

theorem reencode_nil :
    reencode [] = [] :=
  rfl

theorem reencode_cons
    (b : UInt8)
    (value : List UInt8) :
    reencode (b :: value) =
      codePointToUtf8 b.toNat ++ reencode value :=
  rfl

theorem reencode_of_ascii
    {value : List UInt8}
    (hAscii : ∀ b ∈ value, b.toNat < 0x80) :
    reencode value = value := by
  induction value with
  | nil => rfl
  | cons b value ih =>
      have hTail : ∀ c ∈ value, c.toNat < 0x80 :=
        fun c hMem => hAscii c (List.mem_cons_of_mem _ hMem)
      rw [reencode_cons,
        codePointToUtf8_ascii (hAscii b List.mem_cons_self),
        ih hTail]
      rfl

theorem length_le_reencode (value : List UInt8) :
    value.length ≤ (reencode value).length := by
  induction value with
  | nil => exact Nat.le_refl _
  | cons b value ih =>
      rw [reencode_cons, List.length_append, List.length_cons]
      by_cases hLt : b.toNat < 0x80
      · rw [codePointToUtf8_ascii hLt]
        simp only [List.length_cons, List.length_nil]
        omega
      · rw [codePointToUtf8_high _ b.toNat_lt (by omega)]
        simp only [List.length_cons, List.length_nil]
        omega

/- Only the bytes below `\x80` come back as they were. -/
theorem ascii_of_reencode
    {value : List UInt8}
    (hEq : reencode value = value) :
    ∀ b ∈ value, b.toNat < 0x80 := by
  induction value with
  | nil =>
      intro b hMem
      cases hMem
  | cons c value ih =>
      rw [reencode_cons] at hEq
      by_cases hLt : c.toNat < 0x80
      · rw [codePointToUtf8_ascii hLt] at hEq
        have hTail := ih (List.cons.inj hEq).2
        intro b hMem
        rcases List.mem_cons.mp hMem with hHead | hRest
        · rw [hHead]
          exact hLt
        · exact hTail b hRest
      · have hLength := congrArg List.length hEq
        have hLe := length_le_reencode value
        rw [codePointToUtf8_high _ c.toNat_lt (by omega)]
          at hLength
        simp only [List.length_append, List.length_cons,
          List.length_nil] at hLength
        omega

theorem hexToNum_hexDigit :
    ∀ value < 16, hexToNum (hexDigit value) = value := by
  decide

theorem parseHex_hex4
    {value : Nat}
    (hLt : value < 65536)
    (rest : List UInt8) :
    parseHex (hex4 value ++ rest) = some (value, rest) := by
  have hDigit :
      ∀ digit,
        hexToNum (hexDigit (digit % 16)) = digit % 16 :=
    fun digit =>
      hexToNum_hexDigit _ (Nat.mod_lt digit (by decide))
  unfold hex4
  simp only [List.cons_append, List.nil_append, parseHex,
    hDigit]
  congr 2
  omega

theorem unescape_u (rest : List UInt8) :
    unescape (BACKSLASH :: 0x75 :: rest) =
      (parseHex rest).bind
        (fun found =>
          if isLowSurrogate found.1 then
            none
          else if isHighSurrogate found.1 then
            lowSurrogate found.1 found.2
          else
            some found) :=
  rfl

/- The escape of one byte names its number. -/
theorem unescape_escapeByte
    (b : UInt8)
    (rest : List UInt8) :
    unescape (escapeByte b ++ rest) = some (b.toNat, rest) := by
  unfold escapeByte
  by_cases hControl : b.toNat < 0x1F
  · have hHex :
        parseHex (hex4 b.toNat ++ rest) =
          some (b.toNat, rest) :=
      parseHex_hex4 (by omega) rest
    have hLow : isLowSurrogate b.toNat = false := by
      unfold isLowSurrogate
      simp
      omega
    have hHigh : isHighSurrogate b.toNat = false := by
      unfold isHighSurrogate
      simp
      omega
    rw [if_pos hControl]
    simp only [List.cons_append, List.nil_append]
    rw [unescape_u, hHex, Option.bind_some]
    simp only [hLow, hHigh]
    rfl
  · rw [if_neg hControl]
    by_cases hMark : b = BACKSLASH ∨ b = QUOTE
    · rw [if_pos hMark]
      rcases hMark with hEq | hEq
      · rw [hEq]
        rfl
      · rw [hEq]
        rfl
    · rw [if_neg hMark]
      simp only [List.cons_append, List.nil_append, unescape]
      exact if_neg (fun hEq => hMark (.inl hEq))

theorem escapeByte_ne_nil (b : UInt8) :
    escapeByte b ≠ [] := by
  unfold escapeByte
  split_ifs
  all_goals exact List.cons_ne_nil _ _

theorem unescapeStr_escaped (value : List UInt8) :
    unescapeStr (value.flatMap escapeByte) =
      some (reencode value) := by
  induction value with
  | nil =>
      rw [List.flatMap_nil, unescapeStr, if_pos rfl]
      rfl
  | cons b value ih =>
      have hNe :
          escapeByte b ++ value.flatMap escapeByte ≠ [] := by
        intro hNil
        exact escapeByte_ne_nil b
          (List.append_eq_nil_iff.mp hNil).1
      rw [List.flatMap_cons, unescapeStr, if_neg hNe]
      split
      · rename_i hNone
        rw [unescape_escapeByte] at hNone
        cases hNone
      · rename_i found hSome
        rw [unescape_escapeByte] at hSome
        cases hSome
        rw [ih]
        rfl

theorem unescapeToken_serializeString (value : List UInt8) :
    unescapeToken (serializeString value) =
      done (reencode value) := by
  have hInner :
      (serializeString value).tail.dropLast =
        value.flatMap escapeByte := by
    unfold serializeString
    rw [List.append_assoc, List.singleton_append,
      List.tail_cons, List.dropLast_concat]
  unfold unescapeToken
  rw [hInner, unescapeStr_escaped]

/- Code points in UTF-8 are ordered as their numbers. -/
theorem append_lt_of_byte_lt
    {b c : UInt8}
    (hLt : b < c)
    (xs ys : List UInt8) :
    codePointToUtf8 b.toNat ++ xs <
      codePointToUtf8 c.toNat ++ ys := by
  have hNat : b.toNat < c.toNat := UInt8.lt_iff_toNat_lt.mp hLt
  have hByte := c.toNat_lt
  by_cases hLow : c.toNat < 0x80
  · rw [codePointToUtf8_ascii hLow,
      codePointToUtf8_ascii (by omega)]
    exact List.cons_lt_cons_iff.mpr (.inl hLt)
  · rw [codePointToUtf8_high _ hByte (by omega)]
    by_cases hAscii : b.toNat < 0x80
    · rw [codePointToUtf8_ascii hAscii]
      apply List.cons_lt_cons_iff.mpr
      left
      rw [UInt8.lt_iff_toNat_lt, UInt8.toNat_ofNat']
      omega
    · rw [codePointToUtf8_high _ b.toNat_lt (by omega)]
      simp only [List.cons_append, List.nil_append,
        List.cons_lt_cons_iff, UInt8.lt_iff_toNat_lt,
        ← UInt8.toNat_inj, UInt8.toNat_ofNat']
      omega

/- The order of strings is kept. -/
theorem reencode_lt
    {xs ys : List UInt8}
    (hLt : xs < ys) :
    reencode xs < reencode ys := by
  induction xs generalizing ys with
  | nil =>
      cases ys with
      | nil => exact absurd hLt (List.lt_irrefl _)
      | cons c ys =>
          rw [reencode_nil, reencode_cons]
          by_cases hLow : c.toNat < 0x80
          · rw [codePointToUtf8_ascii hLow]
            exact List.nil_lt_cons _ _
          · rw [codePointToUtf8_high _ c.toNat_lt (by omega)]
            exact List.nil_lt_cons _ _
  | cons b xs ih =>
      cases ys with
      | nil => exact absurd hLt (List.not_lt_nil _)
      | cons c ys =>
          rw [reencode_cons, reencode_cons]
          rcases List.cons_lt_cons_iff.mp hLt with hByte | hTail
          · exact append_lt_of_byte_lt hByte _ _
          · rw [hTail.1]
            exact List.append_left_lt (ih hTail.2)

----
-- Values
----

namespace JSON

variable {δ : Type}

mutual

def reencode : JSON δ → JSON δ
  | .string value => .string (Json.reencode value)
  | .array value => .array (reencodeElements value)
  | .object value => .object (reencodeMembers value)
  | value => value

def reencodeElements : List (JSON δ) → List (JSON δ)
  | [] => []
  | e :: value => reencode e :: reencodeElements value

def reencodeMembers :
    List (List UInt8 × JSON δ) → List (List UInt8 × JSON δ)
  | [] => []
  | (key, e) :: value =>
      (Json.reencode key, reencode e) :: reencodeMembers value

end

mutual

/- A value and everything inside of it. -/
def subvalues : JSON δ → List (JSON δ)
  | .array value => .array value :: elementSubvalues value
  | .object value => .object value :: memberSubvalues value
  | value => [value]

def elementSubvalues : List (JSON δ) → List (JSON δ)
  | [] => []
  | e :: value => subvalues e ++ elementSubvalues value

def memberSubvalues :
    List (List UInt8 × JSON δ) → List (JSON δ)
  | [] => []
  | (_, e) :: value => subvalues e ++ memberSubvalues value

end

mutual

def nesting : JSON δ → Nat
  | .array value => elementNesting value + 1
  | .object value => memberNesting value + 1
  | _ => 1

def elementNesting : List (JSON δ) → Nat
  | [] => 0
  | e :: value => max (nesting e) (elementNesting value)

def memberNesting : List (List UInt8 × JSON δ) → Nat
  | [] => 0
  | (_, e) :: value => max (nesting e) (memberNesting value)

end

def isDouble : JSON δ → Bool
  | .double _ => true
  | _ => false

/- The strings of one value, its keys among them. -/
def ownStrings : JSON δ → List (List UInt8)
  | .string value => [value]
  | .object value => value.map Prod.fst
  | _ => []

def strings (value : JSON δ) : List (List UInt8) :=
  value.subvalues.flatMap ownStrings

/- No floating-point number and no invalid element. -/
def Plain (value : JSON δ) : Prop :=
  ∀ v ∈ value.subvalues,
    v.isInvalid = false ∧ v.isDouble = false

def KeysSorted : JSON δ → Prop
  | .object value =>
      value.Pairwise (fun found next => found.1 < next.1)
  | _ => True

/- Every object is a `std::map`. -/
def WellFormed (value : JSON δ) : Prop :=
  ∀ v ∈ value.subvalues, v.KeysSorted

theorem reencodeElements_eq (value : List (JSON δ)) :
    reencodeElements value = value.map reencode := by
  induction value with
  | nil => rw [reencodeElements, List.map_nil]
  | cons e value ih =>
      rw [reencodeElements, ih, List.map_cons]

theorem reencodeMembers_eq
    (value : List (List UInt8 × JSON δ)) :
    reencodeMembers value =
      value.map
        (fun e => (Json.reencode e.1, e.2.reencode)) := by
  induction value with
  | nil => rw [reencodeMembers, List.map_nil]
  | cons e value ih =>
      rw [reencodeMembers, ih, List.map_cons]

theorem elementSubvalues_eq (value : List (JSON δ)) :
    elementSubvalues value = value.flatMap subvalues := by
  induction value with
  | nil => rw [elementSubvalues, List.flatMap_nil]
  | cons e value ih =>
      rw [elementSubvalues, ih, List.flatMap_cons]

theorem memberSubvalues_eq
    (value : List (List UInt8 × JSON δ)) :
    memberSubvalues value =
      value.flatMap (fun e => e.2.subvalues) := by
  induction value with
  | nil => rw [memberSubvalues, List.flatMap_nil]
  | cons e value ih =>
      rw [memberSubvalues, ih, List.flatMap_cons]

theorem mem_subvalues_self (value : JSON δ) :
    value ∈ value.subvalues := by
  unfold subvalues
  split
  all_goals exact List.mem_cons_self

theorem nesting_of_mem
    {value : List (JSON δ)}
    {e : JSON δ}
    (hMem : e ∈ value) :
    e.nesting ≤ elementNesting value := by
  induction value with
  | nil => cases hMem
  | cons found value ih =>
      rw [elementNesting]
      rcases List.mem_cons.mp hMem with hEq | hRest
      · rw [hEq]
        exact Nat.le_max_left _ _
      · exact Nat.le_trans (ih hRest) (Nat.le_max_right _ _)

theorem nesting_of_mem_members
    {value : List (List UInt8 × JSON δ)}
    {e : List UInt8 × JSON δ}
    (hMem : e ∈ value) :
    e.2.nesting ≤ memberNesting value := by
  induction value with
  | nil => cases hMem
  | cons found value ih =>
      rw [memberNesting]
      rcases List.mem_cons.mp hMem with hEq | hRest
      · rw [hEq]
        exact Nat.le_max_left _ _
      · exact Nat.le_trans (ih hRest) (Nat.le_max_right _ _)

/- What holds inside of an array holds inside an element. -/
theorem subvalues_element
    {value : List (JSON δ)}
    {e : JSON δ}
    (hMem : e ∈ value) :
    e.subvalues ⊆ (JSON.array value).subvalues := by
  intro v hV
  rw [subvalues, elementSubvalues_eq]
  exact
    List.mem_cons_of_mem _
      (List.mem_flatMap.mpr ⟨e, hMem, hV⟩)

theorem subvalues_member
    {value : List (List UInt8 × JSON δ)}
    {e : List UInt8 × JSON δ}
    (hMem : e ∈ value) :
    e.2.subvalues ⊆ (JSON.object value).subvalues := by
  intro v hV
  rw [subvalues, memberSubvalues_eq]
  exact
    List.mem_cons_of_mem _
      (List.mem_flatMap.mpr ⟨e, hMem, hV⟩)

theorem strings_array (value : List (JSON δ)) :
    (JSON.array value).strings = value.flatMap strings := by
  unfold strings
  rw [subvalues, elementSubvalues_eq, List.flatMap_cons,
    List.flatMap_assoc]
  rfl

theorem mem_strings_object
    {value : List (List UInt8 × JSON δ)}
    {str : List UInt8} :
    str ∈ (JSON.object value).strings ↔
      ∃ e ∈ value, str = e.1 ∨ str ∈ e.2.strings := by
  have hSplit :
      (JSON.object value).strings =
        value.map Prod.fst ++
          value.flatMap (fun e => e.2.strings) := by
    unfold strings
    rw [subvalues, memberSubvalues_eq, List.flatMap_cons,
      List.flatMap_assoc]
    rfl
  rw [hSplit, List.mem_append, List.mem_map, List.mem_flatMap]
  constructor
  · rintro (⟨e, hMem, hEq⟩ | ⟨e, hMem, hStr⟩)
    · exact ⟨e, hMem, .inl hEq.symm⟩
    · exact ⟨e, hMem, .inr hStr⟩
  · rintro ⟨e, hMem, hEq | hStr⟩
    · exact .inl ⟨e, hMem, hEq.symm⟩
    · exact .inr ⟨e, hMem, hStr⟩

end JSON

end Json

end Ydsh
