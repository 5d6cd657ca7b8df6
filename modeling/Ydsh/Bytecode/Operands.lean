import Ydsh.Bytecode.Finalized

/-
  The operands of finalized code.

  An operand that is read back is the value that the emitter
  was given, as far as it fits into its bytes: a value that is
  too large is cut, since it is converted to the type of the
  parameter before anything could look at it.  The offset of a
  label is looked at when the code is finalized.

  Main declarations:
    * `Slot.Reads`
    * `operandsFrom`
    * `ReadsBack`
    * `Slot.Fits`
    * `operands_readsBack_iff`
-/

----
-- Reading Back
----

namespace Ydsh

namespace Bytecode

open Library.BigEndian
open Library.Patching

/- The offset of a label counts from its base. -/
def Slot.Reads
    (index : Label → Nat)
    (code : List Nat)
    (start place : Nat) : Slot → Prop
  | .value width v => readN width code place = v
  | .offset label extra =>
      start + extra + readN 2 code place = index label
  | .address label => readN 4 code place = index label

/- The operands, with their instructions and their places. -/
def operandsFrom :
    Nat → List Ins → List (Nat × Nat × Slot)
  | _, [] => []
  | start, ins :: rest =>
      (slotsAt (start + 1) ins.slots).map
          (fun entry => (start, entry)) ++
        operandsFrom (start + ins.size) rest

/-
  The emissions do not run out of the buffer, and if the code
  is built, every operand reads back as it was meant.
-/
def ReadsBack (emissions : List Emission) : Prop :=
  emitAll emissions {} ≠ .error .outside ∧
    ∀ (b : CodeBuilder)
      (order : List (Label × LabelTarget))
      (c : CompiledCode),
      emitAll emissions {} = .ok b →
        order.Perm b.labelMap →
          b.build order = .done c →
            ∀ operand ∈ operandsFrom 0 (instructions emissions),
              operand.2.2.Reads (addressOf emissions) c.code
                operand.1 operand.2.1

/- A value fits if it is in the range of its bytes. -/
def Slot.Fits : Slot → Prop
  | .value width v => v < byteRange width
  | .offset _ _ => True
  | .address _ => True

/- Some label is before its base, or too far from it. -/
def TooFar (emissions : List Emission) : Prop :=
  ∃ entry ∈ targetsFrom 0 (instructions emissions),
    ¬ Reaches (addressOf emissions) entry

variable {index : Label → Nat}
variable {start place : Nat}
variable {slot : Slot}
variable {slots : List Slot}
variable {code : List Ins}
variable {emissions : List Emission}

theorem filled_at_slot
    (hMem : (place, slot) ∈ slotsAt start slots)
    (base : Nat) :
    ∃ before after,
      (slots.map (Slot.piece index base)).flatMap Piece.filled =
          before ++ ((slot.piece index base).filled ++ after) ∧
        place = start + before.length := by
  induction slots generalizing start with
  | nil => exact absurd hMem List.not_mem_nil
  | cons other slots ih =>
      have hWidth :
          (other.piece index base).filled.length =
            other.width := by
        cases other with
        | value width v => exact length_writeN width v
        | offset label extra => exact length_writeN 2 _
        | address label => exact length_writeN 4 _
      rcases List.mem_cons.mp hMem with hEq | hIn
      · rcases Prod.mk.inj hEq with ⟨hPlace, hSlot⟩
        rw [hSlot]
        exact ⟨[], _, rfl, hPlace⟩
      · rcases ih hIn with ⟨before, after, hRest, hPlace⟩
        refine
          ⟨(other.piece index base).filled ++ before, after,
            ?_, ?_⟩
        · rw [List.map_cons, List.flatMap_cons, hRest,
            List.append_assoc]
        · rw [List.length_append, hWidth, hPlace,
            Nat.add_assoc]

/- Where an operand stands in the code. -/
theorem filled_at
    {base : Nat}
    (hMem : (base, place, slot) ∈ operandsFrom start code) :
    ∃ before after,
      bytesFrom index start code =
          before ++ ((slot.piece index base).filled ++ after) ∧
        place = start + before.length := by
  induction code generalizing start with
  | nil => exact absurd hMem List.not_mem_nil
  | cons ins code ih =>
      rcases List.mem_append.mp hMem with hHere | hLater
      · rcases List.mem_map.mp hHere with ⟨entry, hIn, hEq⟩
        rcases Prod.mk.inj hEq with ⟨hBase, hEntry⟩
        rw [hEntry] at hIn
        rw [hBase] at hIn ⊢
        rcases @filled_at_slot index _ _ _ _ hIn base with
          ⟨before, after, hFilled, hPlace⟩
        refine
          ⟨ins.op.toByte :: before,
            after ++ bytesFrom index (base + ins.size) code,
            ?_, ?_⟩
        · rw [bytesFrom, bytes_eq, hFilled, List.cons_append,
            List.cons_append, List.append_assoc,
            List.append_assoc]
        · rw [hPlace, List.length_cons]
          omega
      · rcases ih hLater with ⟨before, after, hRest, hPlace⟩
        refine
          ⟨ins.bytes index start ++ before, after, ?_, ?_⟩
        · rw [bytesFrom, hRest, List.append_assoc]
        · rw [List.length_append, length_bytes, hPlace,
            Nat.add_assoc]

/- A label operand is among the targets. -/
theorem target_mem
    {base : Nat}
    {entry : Label × LabelTarget}
    (hMem : (base, place, slot) ∈ operandsFrom start code)
    (hTarget : slot.target? base place = some entry) :
    entry ∈ targetsFrom start code := by
  induction code generalizing start with
  | nil => exact absurd hMem List.not_mem_nil
  | cons ins code ih =>
      rcases List.mem_append.mp hMem with hHere | hLater
      · rcases List.mem_map.mp hHere with ⟨pair, hIn, hEq⟩
        rcases Prod.mk.inj hEq with ⟨hBase, hPair⟩
        apply List.mem_append_left
        apply List.mem_filterMap.mpr
        refine ⟨pair, hIn, ?_⟩
        rw [hPair, hBase]
        exact hTarget
      · exact List.mem_append_right _ (ih hLater)

/- What is read at the place of an operand. -/
theorem readN_at
    {base width value : Nat}
    (hMem : (base, place, slot) ∈ operandsFrom 0 code)
    (hFilled :
      (slot.piece index base).filled = writeN width value) :
    readN width (bytesFrom index 0 code) place =
      value % byteRange width := by
  rcases @filled_at index _ _ _ _ _ hMem with
    ⟨before, after, hBytes, hPlace⟩
  rw [Nat.zero_add] at hPlace
  have hRead :=
    @readN_append width 0 before
      ((slot.piece index base).filled ++ after)
  rw [Nat.add_zero] at hRead
  rw [hBytes, hPlace, hRead, hFilled]
  exact readN_writeN width value after

/- A label is marked within the code. -/
theorem addressFrom_le
    {label : Label}
    {address : Nat}
    (hAddress :
      addressFrom start emissions label = some address) :
    address ≤ start + sizeOf emissions := by
  induction emissions generalizing start with
  | nil => cases hAddress
  | cons emission rest ih =>
      have hTotal :
          sizeOf (emission :: rest) =
            emission.size + sizeOf rest :=
        rfl
      rw [addressFrom] at hAddress
      cases hRest :
          addressFrom (start + emission.size) rest label with
      | some later =>
          rw [hRest] at hAddress
          have hSame : later = address :=
            Option.some.inj hAddress
          rw [hSame] at hRest
          have hLater := ih hRest
          omega
      | none =>
          rw [hRest, Option.none_or] at hAddress
          by_cases hMark : emission = .markLabel label
          · rw [if_pos hMark] at hAddress
            have hSame : start = address :=
              Option.some.inj hAddress
            omega
          · rw [if_neg hMark] at hAddress
            cases hAddress

theorem addressOf_lt
    (hFault : fault? 0 emissions = none)
    (label : Label) :
    addressOf emissions label < UINT_RANGE := by
  have hSize := sizeOf_lt hFault (Nat.le_of_ble_eq_true rfl)
  unfold addressOf
  cases hAddress : addressFrom 0 emissions label with
  | none => exact Nat.lt_of_le_of_lt (Nat.zero_le _) hSize
  | some address =>
      exact Nat.lt_of_le_of_lt (addressFrom_le hAddress) hSize

/- Whatever reaches and fits is read back. -/
theorem reads_of_fits
    {base : Nat}
    (hMem : (base, place, slot) ∈ operandsFrom 0 code)
    (hIndex : ∀ label, index label < UINT_RANGE)
    (hReach : ∀ entry ∈ targetsFrom 0 code, Reaches index entry)
    (hFits : slot.Fits) :
    slot.Reads index (bytesFrom index 0 code) base place := by
  cases slot with
  | value width v =>
      have hRead := @readN_at index _ _ _ _ width v hMem rfl
      show readN width _ place = v
      rw [hRead]
      exact Nat.mod_eq_of_lt hFits
  | offset label extra =>
      have hEntry := hReach _ (target_mem hMem rfl)
      have hRead := @readN_at index _ _ _ _ 2 _ hMem rfl
      have hShort : index label - (base + extra) ≤ UINT16_MAX :=
        of_decide_eq_true hEntry.2
      have hBase : base + extra ≤ index label := hEntry.1
      have hLt :
          index label - (base + extra) < byteRange 2 :=
        Nat.lt_succ_of_le hShort
      show base + extra + readN 2 _ place = index label
      rw [hRead, Nat.mod_eq_of_lt hLt]
      omega
  | address label =>
      have hRead := @readN_at index _ _ _ _ 4 _ hMem rfl
      show readN 4 _ place = index label
      rw [hRead]
      exact Nat.mod_eq_of_lt (hIndex label)

/- A value that is read back fits. -/
theorem fits_of_reads
    {base : Nat}
    (hMem : (base, place, slot) ∈ operandsFrom 0 code)
    (hReads :
      slot.Reads index (bytesFrom index 0 code) base place) :
    slot.Fits := by
  cases slot with
  | value width v =>
      have hRead := @readN_at index _ _ _ _ width v hMem rfl
      have hSame : readN width _ place = v := hReads
      rw [hRead] at hSame
      show v < byteRange width
      rw [← hSame]
      exact Nat.mod_lt _ (byteRange_pos width)
  | offset label extra => trivial
  | address label => trivial

----
-- When Operands Read Back
----

/-
  The operands read back exactly if the code stays below the
  size that a buffer can have and every value fits, unless a
  limit or the distance of a label stops the build.
-/
theorem operands_readsBack_iff (emissions : List Emission) :
    ReadsBack emissions ↔
      fault? 0 emissions ≠ some .outside ∧
        (fault? 0 emissions = none →
          TooFar emissions ∨
            ∀ operand ∈ operandsFrom 0 (instructions emissions),
              operand.2.2.Fits) := by
  have hRun :
      emitAll emissions {} =
        outcome (addAll emissions {}) (fault? 0 emissions) :=
    @emitAll_eq emissions {} (Nat.le_of_ble_eq_true rfl)
  constructor
  · intro hReadsBack
    rcases hReadsBack with ⟨hInside, hReads⟩
    constructor
    · intro hFault
      rw [hRun, hFault] at hInside
      exact hInside rfl
    · intro hFault
      rw [hFault] at hRun
      by_cases hFar : TooFar emissions
      · exact Or.inl hFar
      right
      have hReach :
          ∀ entry ∈ targetsFrom 0 (instructions emissions),
            Reaches (addressOf emissions) entry := by
        intro entry hIn
        by_contra hNot
        exact hFar ⟨entry, hIn, hNot⟩
      have hDone :=
        (finalize_eq_done_iff (List.Perm.refl _)).mpr
          ⟨hReach, rfl⟩
      have hBuild :
          ∃ c : CompiledCode,
            (addAll emissions {}).build
                  (addAll emissions {}).labelMap =
                .done c ∧
              c.code =
                bytesFrom (addressOf emissions) 0
                  (instructions emissions) := by
        unfold CodeBuilder.build
        rw [hDone]
        exact ⟨_, rfl, rfl⟩
      rcases hBuild with ⟨c, hBuild, hCode⟩
      intro operand hIn
      have hOperand :=
        hReads _ _ c hRun (List.Perm.refl _) hBuild operand hIn
      rw [hCode] at hOperand
      exact fits_of_reads hIn hOperand
  · intro hCondition
    rcases hCondition with ⟨hInside, hFits⟩
    constructor
    · intro hOutside
      rw [hRun] at hOutside
      cases hFault : fault? 0 emissions with
      | none =>
          rw [hFault] at hOutside
          cases hOutside
      | some fault =>
          rw [hFault] at hOutside hInside
          exact hInside (congrArg some (Except.error.inj hOutside))
    · intro b order c hEmit hOrder hBuild operand hIn
      rcases emitAll_eq_ok_iff.mp hEmit with ⟨hFault, hB⟩
      have hFinal := (build_eq_done hBuild).1
      rw [hB] at hOrder hFinal
      rcases (finalize_eq_done_iff hOrder).mp hFinal with
        ⟨hReach, hCode⟩
      rw [hCode]
      rcases hFits hFault with hFar | hAll
      · rcases hFar with ⟨entry, hEntry, hNot⟩
        exact absurd (hReach entry hEntry) hNot
      · exact
          reads_of_fits hIn (addressOf_lt hFault) hReach
            (hAll operand hIn)

/- The index of a global variable above the first 65536. -/
theorem not_operands_readsBack :
    ¬ ∀ emissions : List Emission, ReadsBack emissions := by
  intro hAll
  have hReads :=
    (hAll [.ins2 ⟨.loadGlobal, rfl⟩ 0x10000]).2 _ _ _ rfl
      (List.Perm.refl _) rfl (0, 1, .value 2 0x10000)
      (by decide)
  have hRead : readN 2 [20, 0, 0] 1 = 0x10000 := hReads
  exact absurd hRead (by decide)

end Bytecode

end Ydsh
