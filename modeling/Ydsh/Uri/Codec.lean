import Ydsh.Json.Unescape

/-
  Percent-encoding.

  A byte is a signed char, and `printf` is given the int it is
  promoted to.

  Main declarations:
    * `encode`
    * `decode`
    * `decode_encode`
    * `decode_encode_iff`
-/

----
-- Encoding
----

namespace Ydsh

namespace Uri

open Json (ascii isHex hexToNum)

abbrev PERCENT : UInt8 := 0x25

abbrev SLASH : UInt8 := 0x2F

def isEscaped (ch : UInt8) : Bool :=
  if ch ∈ ascii ['.', '_', '~'] then
    false
  else if ch = SLASH then
    false
  else
    !((0x30 ≤ ch.toNat && ch.toNat ≤ 0x39) ||
      (0x61 ≤ ch.toNat && ch.toNat ≤ 0x7A) ||
      (0x41 ≤ ch.toNat && ch.toNat ≤ 0x5A))

def hexDigit (digit : Nat) : UInt8 :=
  if digit < 10 then
    UInt8.ofNat (0x30 + digit)
  else
    UInt8.ofNat (0x41 + (digit - 10))

/- The digits of an unsigned int, the highest first. -/
def hexDigits (v : Nat) : List Nat :=
  [v / 0x10000000 % 16, v / 0x1000000 % 16, v / 0x100000 % 16,
    v / 0x10000 % 16, v / 0x1000 % 16, v / 0x100 % 16,
    v / 0x10 % 16, v % 16]

/- `%02X` -/
def format02X (v : Nat) : List UInt8 :=
  (((hexDigits v).take 6).dropWhile (· = 0) ++
      (hexDigits v).drop 6).map
    hexDigit

/- A char as the unsigned int that `%X` takes it for. -/
def promoted (ch : UInt8) : Nat :=
  if ch.toNat < 0x80 then
    ch.toNat
  else
    0x100000000 - (0x100 - ch.toNat)

def encodeByte (ch : UInt8) : List UInt8 :=
  if isEscaped ch then
    PERCENT :: format02X (promoted ch)
  else
    [ch]

def encode (bytes : List UInt8) : List UInt8 :=
  bytes.flatMap encodeByte

----
-- Decoding
----

def decode : List UInt8 → List UInt8
  | [] => []
  | [ch] => [ch]
  | [ch, a] => [ch, a]
  | ch :: a :: b :: rest =>
      if ch ≠ PERCENT then
        ch :: decode (a :: b :: rest)
      else if isHex a && isHex b then
        UInt8.ofNat (16 * hexToNum a + hexToNum b) ::
          decode rest
      else
        ch :: decode (a :: b :: rest)

theorem decode_cons_of_ne
    {ch : UInt8}
    (hNe : ch ≠ PERCENT)
    (rest : List UInt8) :
    decode (ch :: rest) = ch :: decode rest := by
  rcases rest with _ | ⟨a, _ | ⟨b, rest⟩⟩
  · rfl
  · rfl
  · rw [decode, if_pos hNe]

theorem decode_percent
    {a b : UInt8}
    (hFirst : isHex a = true)
    (hSecond : isHex b = true)
    (rest : List UInt8) :
    decode (PERCENT :: a :: b :: rest) =
      UInt8.ofNat (16 * hexToNum a + hexToNum b) ::
        decode rest := by
  rw [decode, if_neg (fun hNe => hNe rfl), hFirst, hSecond]
  rfl

/- Bytes without a percent sign stand for themselves. -/
theorem decode_append_of_not_mem
    {first : List UInt8}
    (hFirst : PERCENT ∉ first)
    (rest : List UInt8) :
    decode (first ++ rest) = first ++ decode rest := by
  induction first with
  | nil => rfl
  | cons ch first ih =>
      have hNe : ch ≠ PERCENT := by
        rintro rfl
        exact hFirst List.mem_cons_self
      have hRest : PERCENT ∉ first :=
        fun hMem => hFirst (List.mem_cons_of_mem _ hMem)
      rw [List.cons_append, decode_cons_of_ne hNe, ih hRest]
      rfl

theorem decode_of_not_mem
    {bytes : List UInt8}
    (hBytes : PERCENT ∉ bytes) :
    decode bytes = bytes := by
  have hDecode := decode_append_of_not_mem hBytes []
  rw [List.append_nil] at hDecode
  exact hDecode.trans (List.append_nil bytes)

----
-- Encoded Bytes
----

/- The digits of a byte. -/
def hexPair (ch : UInt8) : List UInt8 :=
  [hexDigit (ch.toNat / 16), hexDigit (ch.toNat % 16)]

theorem format02X_promoted (ch : UInt8) :
    format02X (promoted ch) =
      if ch.toNat < 0x80 then
        hexPair ch
      else
        ascii ['F', 'F', 'F', 'F', 'F', 'F'] ++ hexPair ch := by
  have hLt := ch.toNat_lt
  by_cases hSmall : ch.toNat < 0x80
  · have hDigits :
        hexDigits ch.toNat =
          [0, 0, 0, 0, 0, 0, ch.toNat / 16, ch.toNat % 16] := by
      unfold hexDigits
      simp only [List.cons.injEq, and_true]
      omega
    unfold format02X promoted
    rw [if_pos hSmall, if_pos hSmall, hDigits]
    rfl
  · have hDigits :
        hexDigits (0x100000000 - (0x100 - ch.toNat)) =
          [15, 15, 15, 15, 15, 15, ch.toNat / 16,
            ch.toNat % 16] := by
      unfold hexDigits
      simp only [List.cons.injEq, and_true]
      omega
    unfold format02X promoted
    rw [if_neg hSmall, if_neg hSmall, hDigits]
    rfl

theorem encodeByte_eq (ch : UInt8) :
    encodeByte ch =
      if isEscaped ch then
        if ch.toNat < 0x80 then
          PERCENT :: hexPair ch
        else
          PERCENT ::
            (ascii ['F', 'F', 'F', 'F', 'F', 'F'] ++ hexPair ch)
      else
        [ch] := by
  unfold encodeByte
  rw [format02X_promoted]
  split_ifs
  all_goals rfl

theorem isHex_hexDigit :
    ∀ digit < 16, isHex (hexDigit digit) = true := by
  decide

theorem hexToNum_hexDigit :
    ∀ digit < 16, hexToNum (hexDigit digit) = digit := by
  decide

theorem isHex_of_mem_hexPair
    {ch b : UInt8}
    (hMem : b ∈ hexPair ch) :
    isHex b = true := by
  have hLt := ch.toNat_lt
  unfold hexPair at hMem
  rcases List.mem_cons.mp hMem with rfl | hMem
  · exact isHex_hexDigit _ (by omega)
  · rw [List.mem_singleton.mp hMem]
    exact isHex_hexDigit _ (by omega)

theorem ne_percent_of_isHex
    {b : UInt8}
    (hHex : isHex b = true) :
    b ≠ PERCENT := by
  rintro rfl
  exact absurd hHex (by decide)

theorem isEscaped_of_high
    {ch : UInt8}
    (hHigh : ¬ch.toNat < 0x80) :
    isEscaped ch = true := by
  have hAll :
      (ascii ['.', '_', '~'] ++ [SLASH]).all
          (fun b => decide (b.toNat < 0x80)) =
        true := by
    decide
  have hNot : ch ∉ ascii ['.', '_', '~'] ++ [SLASH] := by
    intro hMem
    exact
      hHigh
        (decide_eq_true_eq.mp (List.all_eq_true.mp hAll ch hMem))
  rw [List.mem_append, not_or, List.mem_singleton] at hNot
  unfold isEscaped
  rw [if_neg hNot.1, if_neg hNot.2]
  simp
  omega

----
-- Decoding What Was Encoded
----

/- What becomes of a byte. -/
def reread (ch : UInt8) : List UInt8 :=
  if ch.toNat < 0x80 then
    [ch]
  else
    0xFF :: (ascii ['F', 'F', 'F', 'F'] ++ hexPair ch)

theorem decode_encodeByte
    (ch : UInt8)
    (rest : List UInt8) :
    decode (encodeByte ch ++ rest) = reread ch ++ decode rest := by
  have hLt := ch.toNat_lt
  rw [encodeByte_eq]
  unfold reread
  by_cases hSmall : ch.toNat < 0x80
  · rw [if_pos hSmall, if_pos hSmall]
    by_cases hEscaped : isEscaped ch = true
    · rw [if_pos hEscaped]
      show
        decode
            (PERCENT :: hexDigit (ch.toNat / 16) ::
              hexDigit (ch.toNat % 16) :: rest) =
          _
      rw [decode_percent (isHex_hexDigit _ (by omega))
          (isHex_hexDigit _ (by omega)),
        hexToNum_hexDigit _ (by omega),
        hexToNum_hexDigit _ (by omega), Nat.div_add_mod,
        UInt8.ofNat_toNat]
      rfl
    · have hNe : ch ≠ PERCENT := by
        rintro rfl
        exact hEscaped (by decide)
      rw [if_neg hEscaped]
      exact decode_cons_of_ne hNe rest
  · rw [if_neg hSmall, if_pos (isEscaped_of_high hSmall),
      if_neg hSmall]
    have hPlain :
        PERCENT ∉ ascii ['F', 'F', 'F', 'F'] ++ hexPair ch := by
      intro hMem
      rcases List.mem_append.mp hMem with hMem | hMem
      · exact absurd hMem (by decide)
      · exact
          ne_percent_of_isHex (isHex_of_mem_hexPair hMem) rfl
    show
      decode
          (PERCENT :: 0x46 :: 0x46 ::
            ((ascii ['F', 'F', 'F', 'F'] ++ hexPair ch) ++
              rest)) =
        _
    rw [decode_percent rfl rfl, decode_append_of_not_mem hPlain]
    rfl

theorem decode_encode_append (bytes rest : List UInt8) :
    decode (encode bytes ++ rest) =
      bytes.flatMap reread ++ decode rest := by
  unfold encode
  induction bytes with
  | nil => rfl
  | cons ch bytes ih =>
      rw [List.flatMap_cons, List.append_assoc,
        decode_encodeByte, ih, List.flatMap_cons,
        List.append_assoc]

theorem decode_encode (bytes : List UInt8) :
    decode (encode bytes) = bytes.flatMap reread := by
  have hDecode := decode_encode_append bytes []
  rw [List.append_nil] at hDecode
  exact hDecode.trans (List.append_nil _)

/- All bytes are below 0x80. -/
def IsAscii (bytes : List UInt8) : Prop :=
  ∀ ch ∈ bytes, ch.toNat < 0x80

instance (bytes : List UInt8) : Decidable (IsAscii bytes) :=
  inferInstanceAs (Decidable (∀ ch ∈ bytes, ch.toNat < 0x80))

theorem reread_length (ch : UInt8) :
    (reread ch).length =
      if ch.toNat < 0x80 then 1 else 7 := by
  unfold reread
  split_ifs
  · rfl
  · rfl

theorem length_le_flatMap_reread (bytes : List UInt8) :
    bytes.length ≤ (bytes.flatMap reread).length := by
  induction bytes with
  | nil => exact Nat.le_refl _
  | cons ch bytes ih =>
      have hFirst := reread_length ch
      rw [List.flatMap_cons, List.length_append,
        List.length_cons]
      split_ifs at hFirst
      all_goals omega

theorem flatMap_reread_iff (bytes : List UInt8) :
    bytes.flatMap reread = bytes ↔ IsAscii bytes := by
  induction bytes with
  | nil =>
      constructor
      · intro _ ch hMem
        cases hMem
      · intro _
        rfl
  | cons ch bytes ih =>
      have hLe := length_le_flatMap_reread bytes
      unfold IsAscii at ih ⊢
      rw [List.flatMap_cons, List.forall_mem_cons]
      by_cases hSmall : ch.toNat < 0x80
      · have hFirst : reread ch = [ch] := if_pos hSmall
        rw [hFirst, List.singleton_append, List.cons.injEq, ih]
        simp only [true_and, hSmall]
      · constructor
        · intro hEq
          have hLength := congrArg List.length hEq
          rw [List.length_append, reread_length,
            if_neg hSmall, List.length_cons] at hLength
          omega
        · intro hBoth
          exact absurd hBoth.1 hSmall

theorem decode_encode_iff (bytes : List UInt8) :
    decode (encode bytes) = bytes ↔ IsAscii bytes := by
  rw [decode_encode]
  exact flatMap_reread_iff bytes

end Uri

end Ydsh
