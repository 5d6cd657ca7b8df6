import Mathlib.Tactic.Common

/-
  Numbers of an archive.

  A number is written with its highest byte first.  It is read
  back with the sign of each byte extended, so a byte from 0x80
  on sets every bit above it.

  Main declarations:
    * `writeN`
    * `readFrom`
    * `Survives`
    * `writeN_readFrom`
    * `readFrom_writeN_iff`
-/

----
-- Bytes
----

namespace Ydsh

namespace Archive

/- The lowest `n` bytes of a number. -/
def writeN : Nat → BitVec 64 → List UInt8
  | 0, _ => []
  | n + 1, b =>
      let shift := n * 8
      let mask := (0xFF : BitVec 64) <<< shift
      UInt8.ofBitVec (((b &&& mask) >>> shift).setWidth 8) ::
        writeN n b

/- A `char` is signed. -/
def ofChar (ch : UInt8) : BitVec 64 :=
  ch.toBitVec.signExtend 64

def readFrom : BitVec 64 → List UInt8 → BitVec 64
  | v, [] => v
  | v, ch :: rest =>
      readFrom (v ||| ofChar ch <<< (rest.length * 8)) rest

def isHigh (ch : UInt8) : Bool :=
  ch.toBitVec.msb

/- Bytes above a high byte are read as `0xFF`. -/
def smear : List UInt8 → List UInt8
  | [] => []
  | ch :: rest =>
      (if rest.any isHigh then 0xFF else ch) :: smear rest

/- A number is read as it was written. -/
def Survives : List UInt8 → Prop
  | [] => True
  | ch :: rest =>
      (rest.any isHigh = true → ch = 0xFF) ∧ Survives rest

instance : (bytes : List UInt8) → Decidable (Survives bytes)
  | [] => .isTrue trivial
  | ch :: rest =>
      haveI : Decidable (Survives rest) :=
        instDecidableSurvives rest
      inferInstanceAs
        (Decidable
          ((rest.any isHigh = true → ch = 0xFF) ∧
            Survives rest))

theorem survives_iff (bytes : List UInt8) :
    Survives bytes ↔ smear bytes = bytes := by
  induction bytes with
  | nil => exact ⟨fun _ => rfl, fun _ => trivial⟩
  | cons ch rest ih =>
      unfold Survives smear
      rw [List.cons.injEq, ih]
      apply and_congr_left
      intro _
      by_cases hHigh : rest.any isHigh = true
      · simp only [hHigh, if_true, forall_const]
        exact eq_comm
      · simp [hHigh]

theorem any_smear (bytes : List UInt8) :
    (smear bytes).any isHigh = bytes.any isHigh := by
  induction bytes with
  | nil => rfl
  | cons ch rest ih =>
      unfold smear
      rw [List.any_cons, List.any_cons, ih]
      by_cases hHigh : rest.any isHigh = true
      · simp only [hHigh, Bool.or_true]
      · simp [hHigh]

/- What is read from a file would be read again. -/
theorem survives_smear (bytes : List UInt8) :
    Survives (smear bytes) := by
  induction bytes with
  | nil => trivial
  | cons ch rest ih =>
      unfold smear
      constructor
      · intro hHigh
        rw [any_smear] at hHigh
        rw [if_pos hHigh]
      · exact ih

----
-- Bits
----

theorem writeN_length
    (n : Nat)
    (b : BitVec 64) :
    (writeN n b).length = n := by
  induction n with
  | zero => rfl
  | succ n ih =>
      unfold writeN
      rw [List.length_cons, ih]

/- The byte at `n`, the lowest one at zero. -/
def byteAt (b : BitVec 64) (n : Nat) : UInt8 :=
  UInt8.ofBitVec (b.extractLsb' (n * 8) 8)

theorem byte_eq
    {n : Nat}
    (hLt : n < 8)
    (b : BitVec 64) :
    UInt8.ofBitVec
        (((b &&& (0xFF : BitVec 64) <<< (n * 8)) >>>
          (n * 8)).setWidth 8) =
      byteAt b n := by
  unfold byteAt
  apply congrArg UInt8.ofBitVec
  apply BitVec.eq_of_getLsbD_eq
  intro i hBit
  have hMask : (0xFF : BitVec 64).getLsbD i = true := by
    have hCases :
        ∀ i : Fin 8, (0xFF : BitVec 64).getLsbD i = true := by
      decide
    exact hCases ⟨i, hBit⟩
  simp only [BitVec.getLsbD_setWidth, BitVec.getLsbD_ushiftRight,
    BitVec.getLsbD_and, BitVec.getLsbD_shiftLeft,
    BitVec.getLsbD_extractLsb', Nat.add_sub_cancel_left, hMask]
  have hIn : n * 8 + i < 64 := by
    omega
  simp [hBit, hIn]

theorem writeN_succ
    {n : Nat}
    (hLt : n < 8)
    (b : BitVec 64) :
    writeN (n + 1) b = byteAt b n :: writeN n b := by
  rw [← byte_eq hLt]
  rfl

/- The bytes are determined by the bits they hold. -/
theorem writeN_congr
    {n : Nat}
    (hLe : n ≤ 8)
    {b b' : BitVec 64}
    (hBits : ∀ i < n * 8, b.getLsbD i = b'.getLsbD i) :
    writeN n b = writeN n b' := by
  induction n with
  | zero => rfl
  | succ n ih =>
      rw [writeN_succ hLe, writeN_succ hLe]
      rw [ih (by omega) (fun i hLt => hBits i (by omega))]
      apply congrArg (· :: writeN n b')
      unfold byteAt
      apply congrArg UInt8.ofBitVec
      apply BitVec.eq_of_getLsbD_eq
      intro i hBit
      rw [BitVec.getLsbD_extractLsb', BitVec.getLsbD_extractLsb',
        hBits _ (by omega)]

theorem getLsbD_of_writeN_eq
    {n : Nat}
    (hLe : n ≤ 8)
    {b b' : BitVec 64}
    (hEq : writeN n b = writeN n b') :
    ∀ i < n * 8, b.getLsbD i = b'.getLsbD i := by
  induction n with
  | zero =>
      intro i hLt
      omega
  | succ n ih =>
      rw [writeN_succ hLe, writeN_succ hLe,
        List.cons.injEq] at hEq
      intro i hLt
      by_cases hLow : i < n * 8
      · exact ih (by omega) hEq.2 i hLow
      · have hByte :=
          congrArg (fun ch => ch.toBitVec.getLsbD (i - n * 8))
            hEq.1
        simp only [byteAt, UInt8.toBitVec_ofBitVec,
          BitVec.getLsbD_extractLsb'] at hByte
        have hIn : i - n * 8 < 8 := by
          omega
        have hAt : n * 8 + (i - n * 8) = i := by
          omega
        simpa [hIn, hAt] using hByte

theorem readFrom_eq
    (v : BitVec 64)
    (bytes : List UInt8) :
    readFrom v bytes = v ||| readFrom 0#64 bytes := by
  induction bytes generalizing v with
  | nil =>
      unfold readFrom
      exact (BitVec.or_zero).symm
  | cons ch rest ih =>
      unfold readFrom
      rw [ih, ih (0#64 ||| _), BitVec.zero_or, BitVec.or_assoc]

theorem readFrom_cons
    (ch : UInt8)
    (rest : List UInt8) :
    readFrom 0#64 (ch :: rest) =
      ofChar ch <<< (rest.length * 8) ||| readFrom 0#64 rest := by
  rw [readFrom, BitVec.zero_or, readFrom_eq]

theorem ofChar_getLsbD
    (ch : UInt8)
    {i : Nat}
    (hLt : i < 64) :
    (ofChar ch).getLsbD i =
      if i < 8 then ch.toBitVec.getLsbD i else isHigh ch := by
  unfold ofChar isHigh
  rw [BitVec.getLsbD_signExtend]
  simp [hLt]

/- Above the bytes that are read there are only signs. -/
theorem readFrom_above
    {bytes : List UInt8}
    {i : Nat}
    (hAbove : bytes.length * 8 ≤ i)
    (hLt : i < 64) :
    (readFrom 0#64 bytes).getLsbD i = bytes.any isHigh := by
  induction bytes with
  | nil =>
      unfold readFrom
      exact BitVec.getLsbD_zero
  | cons ch rest ih =>
      rw [List.length_cons] at hAbove
      rw [readFrom_cons, BitVec.getLsbD_or,
        BitVec.getLsbD_shiftLeft, ih (by omega),
        ofChar_getLsbD _ (by omega), List.any_cons,
        if_neg (by omega)]
      have hNot : ¬i < rest.length * 8 := by
        omega
      simp [hLt, hNot]

theorem readFrom_below
    {ch : UInt8}
    {rest : List UInt8}
    {i : Nat}
    (hLt : i < rest.length * 8) :
    (readFrom 0#64 (ch :: rest)).getLsbD i =
      (readFrom 0#64 rest).getLsbD i := by
  rw [readFrom_cons, BitVec.getLsbD_or, BitVec.getLsbD_shiftLeft]
  simp [hLt]

theorem byteAt_readFrom
    (ch : UInt8)
    (rest : List UInt8)
    (hLt : rest.length < 8) :
    byteAt (readFrom 0#64 (ch :: rest)) rest.length =
      if rest.any isHigh then 0xFF else ch := by
  have hBits :
      (readFrom 0#64 (ch :: rest)).extractLsb' (rest.length * 8) 8 =
        (if rest.any isHigh then 0xFF else ch).toBitVec := by
    apply BitVec.eq_of_getLsbD_eq
    intro i hBit
    rw [BitVec.getLsbD_extractLsb', readFrom_cons,
      BitVec.getLsbD_or, BitVec.getLsbD_shiftLeft,
      readFrom_above (by omega) (by omega),
      Nat.add_sub_cancel_left, ofChar_getLsbD _ (by omega),
      if_pos hBit]
    have hIn : rest.length * 8 + i < 64 := by
      omega
    by_cases hHigh : rest.any isHigh = true
    · have hOnes : (0xFF : UInt8).toBitVec.getLsbD i = true := by
        have hCases :
            ∀ i : Fin 8,
              (0xFF : UInt8).toBitVec.getLsbD i = true := by
          decide
        exact hCases ⟨i, hBit⟩
      rw [if_pos hHigh, hOnes, hHigh, Bool.or_true,
        Bool.and_true, decide_eq_true hBit]
    · simp [hHigh, hBit, hIn]
  unfold byteAt
  rw [hBits, UInt8.ofBitVec_toBitVec]

/- Writing what was read gives the smeared bytes. -/
theorem writeN_readFrom
    (bytes : List UInt8)
    (hLe : bytes.length ≤ 8) :
    writeN bytes.length (readFrom 0#64 bytes) = smear bytes := by
  induction bytes with
  | nil => rfl
  | cons ch rest ih =>
      rw [List.length_cons] at hLe ⊢
      rw [writeN_succ hLe, byteAt_readFrom ch rest hLe]
      rw [writeN_congr (by omega) (fun i => readFrom_below),
        ih (by omega)]
      rfl

/- A number is read back exactly if its bytes survive. -/
theorem readFrom_writeN_iff
    {n : Nat}
    (hLe : n ≤ 8)
    (b : BitVec 64) :
    (∀ i < n * 8,
        (readFrom 0#64 (writeN n b)).getLsbD i = b.getLsbD i) ↔
      Survives (writeN n b) := by
  have hLength := writeN_length n b
  have hBack :
      writeN n (readFrom 0#64 (writeN n b)) = smear (writeN n b) := by
    have hWrite :=
      writeN_readFrom (writeN n b) (by rw [hLength]; exact hLe)
    rw [hLength] at hWrite
    exact hWrite
  rw [survives_iff, ← hBack]
  constructor
  · intro hBits
    exact writeN_congr hLe hBits
  · intro hEq
    exact getLsbD_of_writeN_eq hLe hEq

end Archive

end Ydsh
