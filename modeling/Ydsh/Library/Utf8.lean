import Mathlib.Algebra.Order.Group.Nat
import Mathlib.Data.Nat.Bitwise
import Mathlib.Tactic.Common

/-
  The UTF-8 encoding of a code point, as arithmetic and as the
  bit operations that are its usual form.  The sequences that
  the table of the standard has are the encodings of the scalar
  values.

  Main declarations:
    * `encode`
    * `tail_eq`
    * `head_eq`
    * `WellFormed`
-/

----
-- Encoding
----

namespace Ydsh

namespace Library

namespace Utf8

/- A later byte carries six bits. -/
def tail (n : Nat) : UInt8 :=
  UInt8.ofNat (0x80 + n % 0x40)

def encode (n : Nat) : List UInt8 :=
  if n < 0x80 then
    [UInt8.ofNat n]
  else if n < 0x800 then
    [UInt8.ofNat (0xC0 + n / 0x40), tail n]
  else if n < 0x10000 then
    [UInt8.ofNat (0xE0 + n / 0x1000), tail (n / 0x40), tail n]
  else
    [UInt8.ofNat (0xF0 + n / 0x40000), tail (n / 0x1000),
      tail (n / 0x40), tail n]

theorem encode_ne_nil (n : Nat) : encode n ≠ [] := by
  unfold encode
  split_ifs
  all_goals exact List.cons_ne_nil _ _

theorem tail_eq (n : Nat) :
    UInt8.ofNat (0x80 ||| (n &&& 0x3F)) = tail n := by
  have hLow : n &&& 0x3F = n % 0x40 :=
    Nat.and_two_pow_sub_one_eq_mod n 6
  have hLt : n % 0x40 < 2 ^ 6 :=
    Nat.mod_lt n (by decide)
  have hSum := Nat.two_pow_add_eq_or_of_lt hLt 2
  unfold tail
  rw [hLow]
  exact congrArg UInt8.ofNat hSum.symm

/- A first byte has a mark above the bits it carries. -/
theorem head_eq
    {bits : Nat}
    (top : Nat)
    {n : Nat}
    (hLt : n < 2 ^ bits) :
    UInt8.ofNat (2 ^ bits * top ||| n) =
      UInt8.ofNat (2 ^ bits * top + n) := by
  rw [Nat.two_pow_add_eq_or_of_lt hLt]

----
-- Well-Formed Sequences
----

/- A code point that is no surrogate. -/
def IsScalar (n : Nat) : Prop :=
  n < 0xD800 ∨ (0xE000 ≤ n ∧ n < 0x110000)

/- The bytes from the one to the other. -/
structure ByteRange where
  low : Nat
  high : Nat

def ByteRange.Has
    (range : ByteRange)
    (b : UInt8) : Prop :=
  range.low ≤ b.toNat ∧ b.toNat ≤ range.high

/- The sequences that are well formed, byte by byte. -/
def table : List (List ByteRange) :=
  [[⟨0x00, 0x7F⟩],
    [⟨0xC2, 0xDF⟩, ⟨0x80, 0xBF⟩],
    [⟨0xE0, 0xE0⟩, ⟨0xA0, 0xBF⟩, ⟨0x80, 0xBF⟩],
    [⟨0xE1, 0xEC⟩, ⟨0x80, 0xBF⟩, ⟨0x80, 0xBF⟩],
    [⟨0xED, 0xED⟩, ⟨0x80, 0x9F⟩, ⟨0x80, 0xBF⟩],
    [⟨0xEE, 0xEF⟩, ⟨0x80, 0xBF⟩, ⟨0x80, 0xBF⟩],
    [⟨0xF0, 0xF0⟩, ⟨0x90, 0xBF⟩, ⟨0x80, 0xBF⟩, ⟨0x80, 0xBF⟩],
    [⟨0xF1, 0xF3⟩, ⟨0x80, 0xBF⟩, ⟨0x80, 0xBF⟩, ⟨0x80, 0xBF⟩],
    [⟨0xF4, 0xF4⟩, ⟨0x80, 0x8F⟩, ⟨0x80, 0xBF⟩, ⟨0x80, 0xBF⟩]]

def InRow : List ByteRange → List UInt8 → Prop
  | [], [] => True
  | range :: row, b :: seq => range.Has b ∧ InRow row seq
  | _, _ => False

def WellFormed (seq : List UInt8) : Prop :=
  ∃ row ∈ table, InRow row seq

/- A string of well-formed sequences. -/
def Valid (bytes : List UInt8) : Prop :=
  ∃ seqs : List (List UInt8),
    (∀ seq ∈ seqs, WellFormed seq) ∧ bytes = seqs.flatten

instance
    (range : ByteRange)
    (b : UInt8) :
    Decidable (range.Has b) :=
  inferInstanceAs (Decidable (_ ∧ _))

instance decidableInRow :
    ∀ (row : List ByteRange) (seq : List UInt8),
      Decidable (InRow row seq)
  | [], [] => isTrue trivial
  | [], _ :: _ => isFalse (fun hRow => hRow)
  | _ :: _, [] => isFalse (fun hRow => hRow)
  | range :: row, b :: seq =>
      have := decidableInRow row seq
      inferInstanceAs (Decidable (range.Has b ∧ InRow row seq))

instance (seq : List UInt8) : Decidable (WellFormed seq) :=
  inferInstanceAs (Decidable (∃ row ∈ table, InRow row seq))

/- The code point that the bytes carry. -/
def decode : List UInt8 → Nat
  | [a] => a.toNat
  | [a, b] => a.toNat % 0x20 * 0x40 + b.toNat % 0x40
  | [a, b, c] =>
      a.toNat % 0x10 * 0x1000 + b.toNat % 0x40 * 0x40 +
        c.toNat % 0x40
  | [a, b, c, d] =>
      a.toNat % 0x08 * 0x40000 + b.toNat % 0x40 * 0x1000 +
        c.toNat % 0x40 * 0x40 + d.toNat % 0x40
  | _ => 0

theorem toNat_tail (n : Nat) :
    (tail n).toNat = 0x80 + n % 0x40 := by
  unfold tail
  rw [UInt8.toNat_ofNat']
  omega

theorem toNat_head
    {n : Nat}
    (hLt : n < 0x100) :
    (UInt8.ofNat n).toNat = n := by
  rw [UInt8.toNat_ofNat']
  exact Nat.mod_eq_of_lt hLt

theorem decode_encode
    {n : Nat}
    (hLt : n < 0x110000) :
    decode (encode n) = n := by
  unfold encode
  split_ifs with h1 h2 h3
  · exact toNat_head (by omega)
  · simp only [decode]
    rw [toNat_head (by omega), toNat_tail]
    omega
  · simp only [decode]
    rw [toNat_head (by omega), toNat_tail, toNat_tail]
    omega
  · simp only [decode]
    rw [toNat_head (by omega), toNat_tail, toNat_tail,
      toNat_tail]
    omega

theorem wellFormed_one (a : UInt8) :
    WellFormed [a] ↔ a.toNat < 0x80 := by
  simp [WellFormed, table, InRow, ByteRange.Has]
  omega

theorem wellFormed_two (a b : UInt8) :
    WellFormed [a, b] ↔
      (0xC2 ≤ a.toNat ∧ a.toNat ≤ 0xDF) ∧
        (0x80 ≤ b.toNat ∧ b.toNat ≤ 0xBF) := by
  simp [WellFormed, table, InRow, ByteRange.Has]

theorem wellFormed_three (a b c : UInt8) :
    WellFormed [a, b, c] ↔
      (0xE0 ≤ a.toNat ∧ a.toNat ≤ 0xEF) ∧
        (0x80 ≤ b.toNat ∧ b.toNat ≤ 0xBF) ∧
          (0x80 ≤ c.toNat ∧ c.toNat ≤ 0xBF) ∧
            (a.toNat = 0xE0 → 0xA0 ≤ b.toNat) ∧
              (a.toNat = 0xED → b.toNat ≤ 0x9F) := by
  simp [WellFormed, table, InRow, ByteRange.Has]
  omega

theorem wellFormed_four (a b c d : UInt8) :
    WellFormed [a, b, c, d] ↔
      (0xF0 ≤ a.toNat ∧ a.toNat ≤ 0xF4) ∧
        (0x80 ≤ b.toNat ∧ b.toNat ≤ 0xBF) ∧
          (0x80 ≤ c.toNat ∧ c.toNat ≤ 0xBF) ∧
            (0x80 ≤ d.toNat ∧ d.toNat ≤ 0xBF) ∧
              (a.toNat = 0xF0 → 0x90 ≤ b.toNat) ∧
                (a.toNat = 0xF4 → b.toNat ≤ 0x8F) := by
  simp [WellFormed, table, InRow, ByteRange.Has]
  omega

theorem length_of_inRow
    {row : List ByteRange}
    {seq : List UInt8}
    (hRow : InRow row seq) :
    seq.length = row.length := by
  induction row generalizing seq with
  | nil =>
      cases seq with
      | nil => rfl
      | cons b seq => exact hRow.elim
  | cons range row ih =>
      cases seq with
      | nil => exact hRow.elim
      | cons b seq =>
          rw [List.length_cons, List.length_cons, ih hRow.2]

theorem length_of_wellFormed
    {seq : List UInt8}
    (hFormed : WellFormed seq) :
    1 ≤ seq.length ∧ seq.length ≤ 4 := by
  rcases hFormed with ⟨row, hRow, hBytes⟩
  rw [length_of_inRow hBytes]
  have hAll : ∀ r ∈ table, 1 ≤ r.length ∧ r.length ≤ 4 := by
    decide
  exact hAll row hRow

/- A sequence has one to four bytes. -/
theorem WellFormed.by_length
    {motive : ∀ seq : List UInt8, WellFormed seq → Prop}
    (one : ∀ a h, motive [a] h)
    (two : ∀ a b h, motive [a, b] h)
    (three : ∀ a b c h, motive [a, b, c] h)
    (four : ∀ a b c d h, motive [a, b, c, d] h)
    {seq : List UInt8}
    (hFormed : WellFormed seq) :
    motive seq hFormed := by
  have hLength := length_of_wellFormed hFormed
  match seq, hFormed, hLength with
  | [], _, hLength => exact absurd hLength.1 (by decide)
  | [a], hFormed, _ => exact one a hFormed
  | [a, b], hFormed, _ => exact two a b hFormed
  | [a, b, c], hFormed, _ => exact three a b c hFormed
  | [a, b, c, d], hFormed, _ => exact four a b c d hFormed
  | _ :: _ :: _ :: _ :: _ :: seq, _, hLength =>
      have hLong := hLength.2
      simp only [List.length_cons] at hLong
      omega

theorem head_eq_of_toNat
    {a : UInt8}
    {n : Nat}
    (hEq : a.toNat = n) :
    UInt8.ofNat n = a := by
  rw [← hEq]
  exact UInt8.ofNat_toNat

theorem tail_eq_of_toNat
    {a : UInt8}
    {n : Nat}
    (hEq : a.toNat = 0x80 + n % 0x40) :
    tail n = a :=
  head_eq_of_toNat hEq

theorem encode_one
    {n : Nat}
    (hHigh : n < 0x80) :
    encode n = [UInt8.ofNat n] :=
  if_pos hHigh

theorem encode_two
    {n : Nat}
    (hLow : 0x80 ≤ n)
    (hHigh : n < 0x800) :
    encode n = [UInt8.ofNat (0xC0 + n / 0x40), tail n] := by
  unfold encode
  rw [if_neg (Nat.not_lt.mpr hLow), if_pos hHigh]

theorem encode_three
    {n : Nat}
    (hLow : 0x800 ≤ n)
    (hHigh : n < 0x10000) :
    encode n =
      [UInt8.ofNat (0xE0 + n / 0x1000), tail (n / 0x40),
        tail n] := by
  unfold encode
  rw [if_neg (by omega), if_neg (by omega), if_pos hHigh]

theorem encode_four
    {n : Nat}
    (hLow : 0x10000 ≤ n) :
    encode n =
      [UInt8.ofNat (0xF0 + n / 0x40000), tail (n / 0x1000),
        tail (n / 0x40), tail n] := by
  unfold encode
  rw [if_neg (by omega), if_neg (by omega),
    if_neg (by omega)]

theorem encode_decode
    {seq : List UInt8}
    (hFormed : WellFormed seq) :
    encode (decode seq) = seq := by
  cases hFormed using WellFormed.by_length with
  | one a hFormed =>
      have hLow := (wellFormed_one a).mp hFormed
      have hDecode : decode [a] = a.toNat := rfl
      rw [hDecode, encode_one hLow, UInt8.ofNat_toNat]
  | two a b hFormed =>
      have hBounds := (wellFormed_two a b).mp hFormed
      have hDecode :
          decode [a, b] =
            a.toNat % 0x20 * 0x40 + b.toNat % 0x40 :=
        rfl
      rw [encode_two (by omega) (by omega),
        @head_eq_of_toNat a _ (by omega),
        @tail_eq_of_toNat b _ (by omega)]
  | three a b c hFormed =>
      have hBounds := (wellFormed_three a b c).mp hFormed
      have hDecode :
          decode [a, b, c] =
            a.toNat % 0x10 * 0x1000 + b.toNat % 0x40 * 0x40 +
              c.toNat % 0x40 :=
        rfl
      rw [encode_three (by omega) (by omega),
        @head_eq_of_toNat a _ (by omega),
        @tail_eq_of_toNat b _ (by omega),
        @tail_eq_of_toNat c _ (by omega)]
  | four a b c d hFormed =>
      have hBounds := (wellFormed_four a b c d).mp hFormed
      have hDecode :
          decode [a, b, c, d] =
            a.toNat % 0x08 * 0x40000 +
              b.toNat % 0x40 * 0x1000 +
                c.toNat % 0x40 * 0x40 + d.toNat % 0x40 :=
        rfl
      rw [encode_four (by omega),
        @head_eq_of_toNat a _ (by omega),
        @tail_eq_of_toNat b _ (by omega),
        @tail_eq_of_toNat c _ (by omega),
        @tail_eq_of_toNat d _ (by omega)]

theorem isScalar_decode
    {seq : List UInt8}
    (hFormed : WellFormed seq) :
    IsScalar (decode seq) := by
  unfold IsScalar
  cases hFormed using WellFormed.by_length with
  | one a hFormed =>
      have hLow := (wellFormed_one a).mp hFormed
      simp only [decode]
      omega
  | two a b hFormed =>
      have hBounds := (wellFormed_two a b).mp hFormed
      simp only [decode]
      omega
  | three a b c hFormed =>
      have hBounds := (wellFormed_three a b c).mp hFormed
      simp only [decode]
      omega
  | four a b c d hFormed =>
      have hBounds := (wellFormed_four a b c d).mp hFormed
      simp only [decode]
      omega

theorem wellFormed_encode
    {n : Nat}
    (hScalar : IsScalar n) :
    WellFormed (encode n) := by
  unfold IsScalar at hScalar
  unfold encode
  split_ifs with h1 h2 h3
  · rw [wellFormed_one, toNat_head (by omega)]
    exact h1
  · rw [wellFormed_two, toNat_head (by omega), toNat_tail]
    omega
  · rw [wellFormed_three, toNat_head (by omega), toNat_tail,
      toNat_tail]
    omega
  · rw [wellFormed_four, toNat_head (by omega), toNat_tail,
      toNat_tail, toNat_tail]
    omega

end Utf8

end Library

end Ydsh
