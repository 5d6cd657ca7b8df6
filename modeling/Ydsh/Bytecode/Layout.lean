import Ydsh.Bytecode.Emitter

/-
  The layout of emitted code.

  An emission appends one instruction, that is a code and its
  operands, or changes no byte.  An operand is a value or is
  filled in when the unit is finalized; then the code consists
  of the instructions one after the other, with the addresses
  of the labels for the labels.

  Main declarations:
    * `Slot`
    * `Ins`
    * `Emission.ins?`
-/

----
-- Instructions
----

namespace Ydsh

namespace Bytecode

open Library.BigEndian
open Library.Patching

/-
  An operand.  The offset of a label counts from `extra` bytes
  after the start of the instruction.
-/
inductive Slot where
  | value (width v : Nat)
  | offset (label : Label) (extra : Nat)
  | address (label : Label)
  deriving DecidableEq, Repr

namespace Slot

def width : Slot → Nat
  | .value width _ => width
  | .offset _ _ => 2
  | .address _ => 4

def piece
    (index : Label → Nat)
    (start : Nat) : Slot → Piece Nat
  | .value width v => .text (writeN width v)
  | .offset label extra =>
      .hole (writeN 2 0)
        (writeN 2 (index label - (start + extra)))
  | .address label => .hole (writeN 4 0) (writeN 4 (index label))

/- The target of a label operand at the place `place`. -/
def target? (start place : Nat) :
    Slot → Option (Label × LabelTarget)
  | .value _ _ => none
  | .offset label extra =>
      some (label, ⟨place, start + extra, .len16⟩)
  | .address label => some (label, ⟨place, 0, .len32⟩)

end Slot

structure Ins where
  op : OpCode
  slots : List Slot
  deriving DecidableEq, Repr

def slotsSize (slots : List Slot) : Nat :=
  (slots.map Slot.width).sum

/- The operands with their places, the first one at `place`. -/
def slotsAt : Nat → List Slot → List (Nat × Slot)
  | _, [] => []
  | place, slot :: slots =>
      (place, slot) :: slotsAt (place + slot.width) slots

namespace Ins

def size (ins : Ins) : Nat :=
  1 + slotsSize ins.slots

def pieces
    (index : Label → Nat)
    (start : Nat)
    (ins : Ins) : List (Piece Nat) :=
  .text [ins.op.toByte] :: ins.slots.map (Slot.piece index start)

def targets
    (start : Nat)
    (ins : Ins) : List (Label × LabelTarget) :=
  (slotsAt (start + 1) ins.slots).filterMap
    (fun entry => entry.2.target? start entry.1)

/- The bytes before the labels are filled in. -/
def blank (ins : Ins) : List Nat :=
  (ins.pieces (fun _ => 0) 0).flatMap Piece.blank

def bytes
    (index : Label → Nat)
    (start : Nat)
    (ins : Ins) : List Nat :=
  (ins.pieces index start).flatMap Piece.filled

end Ins

def pipelineSlots
    (labels : List Label)
    (forkKind : ForkKind) : List Slot :=
  if forkKind ≠ .none then
    .value 1 (forkByte forkKind) :: .value 1 labels.length ::
      labels.map (fun label => .offset label 1)
  else
    .value 1 labels.length ::
      labels.map (fun label => .offset label 0)

namespace Emission

/- The constant is loaded with the shortest index. -/
def ldcIns (index : Nat) : Ins :=
  if index ≤ UINT8_MAX then
    ⟨.loadConst, [.value 1 index]⟩
  else if index ≤ UINT16_MAX then
    ⟨.loadConstW, [.value 2 index]⟩
  else
    ⟨.loadConstT, [.value 3 index]⟩

/- The instruction with the values that the emitter is given. -/
def ins? : Emission → Option Ins
  | .ins0 op => some ⟨op, []⟩
  | .ins1 op v => some ⟨op, [.value 1 v]⟩
  | .ins2 op v => some ⟨op, [.value 2 v]⟩
  | .ins2Of op v1 v2 => some ⟨op, [.value 1 v1, .value 1 v2]⟩
  | .ins3 op v => some ⟨op, [.value 3 v]⟩
  | .ins3Of op v1 v2 v3 =>
      some ⟨op, [.value 1 v1, .value 1 v2, .value 1 v3]⟩
  | .funcCall paramSize =>
      some ⟨.callFunc, [.value 1 paramSize]⟩
  | .nativeCall paramSize index =>
      some ⟨.callBuiltin2, [.value 1 paramSize, .value 1 index]⟩
  | .methodCall paramSize index =>
      some ⟨.callMethod, [.value 1 paramSize, .value 2 index]⟩
  | .glob paramSize tilde =>
      some
        ⟨.addGlobbing,
          [.value 1 paramSize, .value 1 tilde.toNat]⟩
  | .ldc index => some (ldcIns index)
  | .branch op label => some ⟨op, [.offset label 0]⟩
  | .fork kind label =>
      some ⟨.fork, [.value 1 (forkByte kind), .offset label 0]⟩
  | .jump label => some ⟨.goto, [.address label]⟩
  | .enterFinally label =>
      some ⟨.enterFinally, [.offset label 0]⟩
  | .pipeline labels lastPipe forkKind =>
      some
        ⟨CodeBuilder.pipelineOp lastPipe forkKind,
          pipelineSlots labels forkKind⟩
  | .markLabel _ => none
  | .sourcePos _ => none
  | .catchException _ _ _ _ _ => none

/- The emissions at which the program is ended. -/
def overLimit : Emission → Bool
  | .ldc index => index > 0xFFFFFF
  | .pipeline labels _ _ => labels.length > SYS_LIMIT_PIPE_LEN
  | _ => false

def size (emission : Emission) : Nat :=
  (emission.ins?.map Ins.size).getD 0

end Emission

----
-- Appending
----

namespace CodeBuilder

variable {b b' : CodeBuilder}

/- Bytes and label targets are appended at once. -/
def extend
    (bytes : List Nat)
    (targets : List (Label × LabelTarget))
    (b : CodeBuilder) : CodeBuilder :=
  { b with
    codeBuffer := b.codeBuffer ++ bytes
    labelMap := b.labelMap ++ targets }

def write
    (bytes : List Nat)
    (targets : List (Label × LabelTarget))
    (b : CodeBuilder) : Building :=
  if b.currentCodeOffset + bytes.length < UINT_RANGE then
    .ok (b.extend bytes targets)
  else
    .error .outside

theorem extend_extend
    (bytes bytes' : List Nat)
    (targets targets' : List (Label × LabelTarget)) :
    (b.extend bytes targets).extend bytes' targets' =
      b.extend (bytes ++ bytes') (targets ++ targets') := by
  unfold extend
  simp only [List.append_assoc]

theorem currentCodeOffset_extend
    (bytes : List Nat)
    (targets : List (Label × LabelTarget)) :
    (b.extend bytes targets).currentCodeOffset =
      b.currentCodeOffset + bytes.length :=
  List.length_append

/- Two writes are one. -/
theorem write_bind
    (bytes bytes' : List Nat)
    (targets targets' : List (Label × LabelTarget)) :
    (b.write bytes targets >>= write bytes' targets') =
      b.write (bytes ++ bytes') (targets ++ targets') := by
  unfold write
  rw [List.length_append]
  by_cases hFirst :
      b.currentCodeOffset + bytes.length < UINT_RANGE
  · rw [if_pos hFirst]
    show
      (if (b.extend bytes targets).currentCodeOffset +
            bytes'.length < UINT_RANGE then
          Except.ok ((b.extend bytes targets).extend bytes'
            targets')
        else
          Except.error Fault.outside) = _
    rw [currentCodeOffset_extend, extend_extend, Nat.add_assoc]
  · have hBoth :
        ¬ b.currentCodeOffset +
            (bytes.length + bytes'.length) < UINT_RANGE := by
      omega
    rw [if_neg hFirst, if_neg hBoth]
    rfl

/- A label is remembered after the bytes are written. -/
theorem write_bind_writeLabel
    (bytes : List Nat)
    (targets : List (Label × LabelTarget))
    (index : Nat)
    (label : Label)
    (baseIndex : Nat)
    (len : OffsetLen) :
    (b.write bytes targets >>=
        fun b => .ok (b.writeLabel index label baseIndex len)) =
      b.write bytes
        (targets ++ [(label, ⟨index, baseIndex, len⟩)]) := by
  unfold write
  by_cases hFirst :
      b.currentCodeOffset + bytes.length < UINT_RANGE
  · rw [if_pos hFirst, if_pos hFirst]
    show
      Except.ok ((b.extend bytes targets).writeLabel index label
        baseIndex len) = _
    unfold writeLabel extend
    simp only [List.append_assoc]
  · rw [if_neg hFirst, if_neg hFirst]
    rfl

theorem append_eq (n value : Nat) :
    append n value = write (writeN n value) [] := by
  funext b
  unfold append write extend
  rw [length_writeN, List.append_nil]

theorem append8_eq (value : Nat) :
    append8 value = write (writeN 1 value) [] := by
  funext b
  unfold append8
  rw [append_eq, writeN_mod]

theorem append16_eq (value : Nat) :
    append16 value = write (writeN 2 value) [] := by
  funext b
  unfold append16
  rw [append_eq, writeN_mod]

theorem append32_eq (value : Nat) :
    append32 value = write (writeN 4 value) [] := by
  funext b
  unfold append32
  rw [append_eq, writeN_mod]

/- Of the four bytes of the parameter three are written. -/
theorem append24_eq (value : Nat) :
    append24 value = write (writeN 3 value) [] := by
  have hDvd : byteRange 3 ∣ byteRange 4 := by
    exact ⟨0x100, rfl⟩
  funext b
  unfold append24
  rw [append_eq, ← writeN_mod 3 (value % byteRange 4),
    Nat.mod_mod_of_dvd value hDvd, writeN_mod]

theorem emitIns_eq (op : OpCode) :
    emitIns op = write [op.toByte] [] := by
  have hByte : writeN 1 op.toByte = [op.toByte] := by
    show [op.toByte >>> (8 * 0) % 0x100] = [op.toByte]
    rw [Nat.mul_zero, Nat.shiftRight_zero,
      Nat.mod_eq_of_lt op.toByte_lt]
  funext b
  unfold emitIns
  rw [append8_eq, hByte]

theorem emit1byteIns_eq (op : OpCode) (v : Nat) :
    emit1byteIns op v =
      write (op.toByte :: writeN 1 v) [] := by
  funext b
  unfold emit1byteIns
  rw [emitIns_eq, append8_eq]
  exact write_bind _ _ _ _

theorem emit2byteIns_eq (op : OpCode) (v : Nat) :
    emit2byteIns op v =
      write (op.toByte :: writeN 2 v) [] := by
  funext b
  unfold emit2byteIns
  rw [emitIns_eq, append16_eq]
  exact write_bind _ _ _ _

theorem emit3byteIns_eq (op : OpCode) (v : Nat) :
    emit3byteIns op v =
      write (op.toByte :: writeN 3 v) [] := by
  funext b
  unfold emit3byteIns
  rw [emitIns_eq, append24_eq]
  exact write_bind _ _ _ _

theorem emit4byteIns_eq (op : OpCode) (v : Nat) :
    emit4byteIns op v =
      write (op.toByte :: writeN 4 v) [] := by
  funext b
  unfold emit4byteIns
  rw [emitIns_eq, append32_eq]
  exact write_bind _ _ _ _

theorem emit2byteInsOf_eq (op : OpCode) (v1 v2 : Nat) :
    emit2byteInsOf op v1 v2 =
      write (op.toByte :: (writeN 1 v1 ++ writeN 1 v2)) [] := by
  funext b
  unfold emit2byteInsOf
  rw [emitIns_eq, append8_eq, append8_eq, ← bind_assoc]
  show
    (b.write _ [] >>= write _ []) >>= write _ [] = _
  rw [write_bind, write_bind]
  rfl

theorem emit3byteInsOf_eq (op : OpCode) (v1 v2 v3 : Nat) :
    emit3byteInsOf op v1 v2 v3 =
      write
        (op.toByte ::
          (writeN 1 v1 ++ writeN 1 v2 ++ writeN 1 v3)) [] := by
  funext b
  unfold emit3byteInsOf
  rw [emitIns_eq, append8_eq, append8_eq, append8_eq,
    ← bind_assoc, ← bind_assoc]
  show
    ((b.write _ [] >>= write _ []) >>= write _ []) >>=
      write _ [] = _
  rw [write_bind, write_bind, write_bind]
  rfl

theorem emitValIns_eq (op : OpCode) (paramSize : Nat) :
    emitValIns op paramSize =
      write (op.toByte :: writeN 1 paramSize) [] := by
  have hIns := emit1byteIns_eq op paramSize
  exact hIns

/- Every label is written as two bytes of zero. -/
theorem write_bind_labels
    (offset i : Nat)
    (labels : List Label)
    (bytes : List Nat)
    (targets : List (Label × LabelTarget)) :
    (b.write bytes targets >>=
        emitPipelineLabels offset i labels) =
      b.write (bytes ++ labels.flatMap (fun _ => writeN 2 0))
        (targets ++
          labels.mapIdx
            (fun j label =>
              (label,
                ⟨offset + 2 + (i + j) * 2, offset,
                  .len16⟩))) := by
  induction labels generalizing i bytes targets with
  | nil =>
      rw [List.flatMap_nil, List.mapIdx_nil, List.append_nil,
        List.append_nil]
      exact bind_pure _
  | cons label labels ih =>
      have hStep :
          emitPipelineLabels offset i (label :: labels) =
            fun b : CodeBuilder =>
              (write (writeN 2 0) [] b >>= fun b =>
                .ok
                  (b.writeLabel (offset + 2 + i * 2) label offset
                    .len16)) >>=
                emitPipelineLabels offset (i + 1) labels := by
        funext b
        rw [← append16_eq, bind_assoc]
        rfl
      have hFirst :
          (b.write bytes targets >>= fun b : CodeBuilder =>
              write (writeN 2 0) [] b >>= fun b =>
                .ok
                  (b.writeLabel (offset + 2 + i * 2) label offset
                    .len16)) =
            b.write (bytes ++ writeN 2 0)
              (targets ++
                [(label, ⟨offset + 2 + i * 2, offset,
                  .len16⟩)]) := by
        rw [← bind_assoc, write_bind, write_bind_writeLabel,
          List.append_nil]
      have hPlaces :
          (fun j (label : Label) =>
              (label,
                (⟨offset + 2 + (i + (j + 1)) * 2, offset,
                  .len16⟩ : LabelTarget))) =
            fun j label =>
              (label,
                ⟨offset + 2 + (i + 1 + j) * 2, offset,
                  .len16⟩) := by
        funext j label
        rw [Nat.add_comm j 1, Nat.add_assoc i 1 j]
      rw [hStep, ← bind_assoc, hFirst, ih, List.flatMap_cons,
        List.mapIdx_cons, List.append_assoc, List.append_assoc,
        hPlaces]
      rfl

/- A two-byte operand that stands for a label. -/
theorem emit2byteIns_bind_writeLabel
    (op : OpCode)
    (label : Label) :
    (b.emit2byteIns op 0 >>= fun b' =>
        .ok
          (b'.writeLabel (b.currentCodeOffset + 1) label
            b.currentCodeOffset .len16)) =
      b.write (op.toByte :: writeN 2 0)
        [(label,
          ⟨b.currentCodeOffset + 1, b.currentCodeOffset,
            .len16⟩)] := by
  rw [emit2byteIns_eq, write_bind_writeLabel]
  rfl

theorem emitForkIns_eq (kind : ForkKind) (label : Label) :
    b.emitForkIns kind label =
      b.write
        (OpCode.fork.toByte ::
          (writeN 1 (forkByte kind) ++ writeN 2 0))
        [(label,
          ⟨b.currentCodeOffset + 2, b.currentCodeOffset,
            .len16⟩)] := by
  unfold emitForkIns
  rw [emitIns_eq, append8_eq, append16_eq]
  have hBytes :
      ((b.write [OpCode.fork.toByte] [] >>=
            write (writeN 1 (forkByte kind)) []) >>=
          write (writeN 2 0) []) =
        b.write
          ([OpCode.fork.toByte] ++ writeN 1 (forkByte kind) ++
            writeN 2 0) [] := by
    rw [write_bind, write_bind]
    rfl
  have hLabel :=
    @write_bind_writeLabel b
      ([OpCode.fork.toByte] ++ writeN 1 (forkByte kind) ++
        writeN 2 0) []
      (b.currentCodeOffset + 2) label b.currentCodeOffset .len16
  rw [← hBytes, bind_assoc, bind_assoc] at hLabel
  exact hLabel

theorem emitJumpIns_eq (label : Label) :
    b.emitJumpIns label =
      b.write (OpCode.goto.toByte :: writeN 4 0)
        [(label, ⟨b.currentCodeOffset + 1, 0, .len32⟩)] := by
  unfold emitJumpIns
  rw [emit4byteIns_eq]
  exact write_bind_writeLabel _ _ _ _ _ _

theorem emitLdcIns_eq (index : Nat) :
    b.emitLdcIns index =
      if index > 0xFFFFFF then
        .error .reachLimit
      else
        b.write (Emission.ldcIns index).blank [] := by
  unfold emitLdcIns Emission.ldcIns
  by_cases hPool : index > 0xFFFFFF
  · rw [if_pos hPool, if_pos hPool]
  rw [if_neg hPool, if_neg hPool]
  by_cases hByte : index ≤ UINT8_MAX
  · rw [if_pos hByte, if_pos hByte, emit1byteIns_eq]
    rfl
  rw [if_neg hByte, if_neg hByte]
  by_cases hShort : index ≤ UINT16_MAX
  · rw [if_pos hShort, if_pos hShort, emit2byteIns_eq]
    rfl
  · rw [if_neg hShort, if_neg hShort, emit3byteIns_eq]
    rfl

theorem targets_ldcIns (index start : Nat) :
    (Emission.ldcIns index).targets start = [] := by
  unfold Emission.ldcIns
  by_cases hByte : index ≤ UINT8_MAX
  · rw [if_pos hByte]
    rfl
  rw [if_neg hByte]
  by_cases hShort : index ≤ UINT16_MAX
  · rw [if_pos hShort]
    rfl
  · rw [if_neg hShort]
    rfl

theorem targets_labels
    (labels : List Label)
    (start extra place : Nat) :
    (slotsAt place
        (labels.map (fun label => Slot.offset label extra))
      ).filterMap
        (fun entry => entry.2.target? start entry.1) =
      labels.mapIdx
        (fun j label =>
          (label, ⟨place + j * 2, start + extra, .len16⟩)) := by
  induction labels generalizing place with
  | nil => rfl
  | cons label labels ih =>
      have hPlaces :
          (fun j (label : Label) =>
              (label,
                (⟨place + (j + 1) * 2, start + extra, .len16⟩ :
                  LabelTarget))) =
            fun j label =>
              (label,
                ⟨place + 2 + j * 2, start + extra, .len16⟩) := by
        funext j label
        have hSame : place + (j + 1) * 2 = place + 2 + j * 2 := by
          omega
        rw [hSame]
      rw [List.mapIdx_cons, hPlaces, ← ih (place + 2)]
      rfl

theorem blank_labels
    (labels : List Label)
    (extra : Nat) :
    ((labels.map (fun label => Slot.offset label extra)).map
        (Slot.piece (fun _ => 0) 0)).flatMap Piece.blank =
      labels.flatMap (fun _ => writeN 2 0) := by
  rw [List.map_map, List.flatMap_map]
  rfl

/- The pipeline with its kind has one operand more. -/
theorem emitPipelineIns_eq
    (labels : List Label)
    (lastPipe : Bool)
    (forkKind : ForkKind) :
    b.emitPipelineIns labels lastPipe forkKind =
      if labels.length > SYS_LIMIT_PIPE_LEN then
        .error .reachLimit
      else
        b.write
          (Ins.mk (pipelineOp lastPipe forkKind)
            (pipelineSlots labels forkKind)).blank
          ((Ins.mk (pipelineOp lastPipe forkKind)
            (pipelineSlots labels forkKind)).targets
              b.currentCodeOffset) := by
  simp only [emitPipelineIns]
  by_cases hLimit : labels.length > SYS_LIMIT_PIPE_LEN
  · rw [if_pos hLimit, if_pos hLimit]
  rw [if_neg hLimit, if_neg hLimit]
  unfold pipelineSlots
  by_cases hKind : forkKind ≠ .none
  · rw [if_pos hKind, emitIns_eq]
    simp only [if_pos hKind]
    rw [append8_eq, append8_eq, ← bind_assoc, ← bind_assoc]
    have hHead :
        ((b.write [(pipelineOp lastPipe forkKind).toByte] [] >>=
              write (writeN 1 (forkByte forkKind)) []) >>=
            write (writeN 1 labels.length) []) =
          b.write
            ([(pipelineOp lastPipe forkKind).toByte] ++
              writeN 1 (forkByte forkKind) ++
              writeN 1 labels.length) [] := by
      rw [write_bind, write_bind]
      rfl
    have hBlank := blank_labels labels 1
    have hTargets :=
      targets_labels labels b.currentCodeOffset 1
        (b.currentCodeOffset + 1 + 1 + 1)
    show
      ((b.write [(pipelineOp lastPipe forkKind).toByte] [] >>=
            write (writeN 1 (forkByte forkKind)) []) >>=
          write (writeN 1 labels.length) []) >>=
        emitPipelineLabels (b.currentCodeOffset + 1) 0 labels = _
    rw [hHead, write_bind_labels]
    apply congrArg₂ (fun bytes targets => b.write bytes targets)
    · rw [← hBlank]
      rfl
    · have hPlaces :
          (fun j (label : Label) =>
              (label,
                (⟨b.currentCodeOffset + 1 + 2 + (0 + j) * 2,
                  b.currentCodeOffset + 1, .len16⟩ :
                  LabelTarget))) =
            fun j label =>
              (label,
                ⟨b.currentCodeOffset + 1 + 1 + 1 + j * 2,
                  b.currentCodeOffset + 1, .len16⟩) := by
        funext j label
        rw [Nat.zero_add]
      rw [hPlaces, ← hTargets]
      rfl
  · rw [if_neg hKind, emitIns_eq]
    simp only [if_neg hKind]
    rw [append8_eq, ← bind_assoc]
    have hHead :
        (b.write [(pipelineOp lastPipe forkKind).toByte] [] >>=
            write (writeN 1 labels.length) []) =
          b.write
            ([(pipelineOp lastPipe forkKind).toByte] ++
              writeN 1 labels.length) [] := by
      rw [write_bind]
      rfl
    have hBlank := blank_labels labels 0
    have hTargets :=
      targets_labels labels b.currentCodeOffset 0
        (b.currentCodeOffset + 1 + 1)
    show
      (b.write [(pipelineOp lastPipe forkKind).toByte] [] >>=
          write (writeN 1 labels.length) []) >>=
        emitPipelineLabels b.currentCodeOffset 0 labels = _
    rw [hHead, write_bind_labels]
    apply congrArg₂ (fun bytes targets => b.write bytes targets)
    · rw [← hBlank]
      rfl
    · have hPlaces :
          (fun j (label : Label) =>
              (label,
                (⟨b.currentCodeOffset + 2 + (0 + j) * 2,
                  b.currentCodeOffset, .len16⟩ :
                  LabelTarget))) =
            fun j label =>
              (label,
                ⟨b.currentCodeOffset + 1 + 1 + j * 2,
                  b.currentCodeOffset + 0, .len16⟩) := by
        funext j label
        rw [Nat.zero_add]
        rfl
      rw [hPlaces, ← hTargets]
      rfl

end CodeBuilder

/-
  Unless a limit is reached, an emitter of an instruction
  appends its bytes and the targets of its labels.
-/
theorem Emission.emit_eq
    {emission : Emission}
    {ins : Ins}
    {b : CodeBuilder}
    (hIns : emission.ins? = some ins) :
    emission.emit b =
      if emission.overLimit then
        .error .reachLimit
      else
        b.write ins.blank (ins.targets b.currentCodeOffset) := by
  cases emission with
  | ins0 op =>
      rw [← Option.some.inj hIns]
      show b.emitIns op = _
      rw [CodeBuilder.emitIns_eq]
      rfl
  | ins1 op v =>
      rw [← Option.some.inj hIns]
      show b.emit1byteIns op v = _
      rw [CodeBuilder.emit1byteIns_eq]
      rfl
  | ins2 op v =>
      rw [← Option.some.inj hIns]
      show b.emit2byteIns op v = _
      rw [CodeBuilder.emit2byteIns_eq]
      rfl
  | ins2Of op v1 v2 =>
      rw [← Option.some.inj hIns]
      show b.emit2byteInsOf op v1 v2 = _
      rw [CodeBuilder.emit2byteInsOf_eq]
      rfl
  | ins3 op v =>
      rw [← Option.some.inj hIns]
      show b.emit3byteIns op v = _
      rw [CodeBuilder.emit3byteIns_eq]
      rfl
  | ins3Of op v1 v2 v3 =>
      rw [← Option.some.inj hIns]
      show b.emit3byteInsOf op v1 v2 v3 = _
      rw [CodeBuilder.emit3byteInsOf_eq]
      rfl
  | funcCall paramSize =>
      rw [← Option.some.inj hIns]
      show b.emitValIns .callFunc paramSize = _
      rw [CodeBuilder.emitValIns_eq]
      rfl
  | nativeCall paramSize index =>
      rw [← Option.some.inj hIns]
      show b.emitNativeCallIns paramSize index = _
      unfold CodeBuilder.emitNativeCallIns
      rw [CodeBuilder.emitValIns_eq, CodeBuilder.append8_eq]
      exact CodeBuilder.write_bind _ _ _ _
  | methodCall paramSize index =>
      rw [← Option.some.inj hIns]
      show b.emitMethodCallIns paramSize index = _
      unfold CodeBuilder.emitMethodCallIns
      rw [CodeBuilder.emitValIns_eq, CodeBuilder.append16_eq]
      exact CodeBuilder.write_bind _ _ _ _
  | glob paramSize tilde =>
      rw [← Option.some.inj hIns]
      show b.emitGlobIns paramSize tilde = _
      unfold CodeBuilder.emitGlobIns
      rw [CodeBuilder.emitValIns_eq, CodeBuilder.append8_eq]
      exact CodeBuilder.write_bind _ _ _ _
  | ldc index =>
      rw [← Option.some.inj hIns]
      show b.emitLdcIns index = _
      rw [CodeBuilder.emitLdcIns_eq,
        CodeBuilder.targets_ldcIns]
      simp [Emission.overLimit]
  | branch op label =>
      rw [← Option.some.inj hIns]
      exact CodeBuilder.emit2byteIns_bind_writeLabel op label
  | fork kind label =>
      rw [← Option.some.inj hIns]
      exact CodeBuilder.emitForkIns_eq kind label
  | jump label =>
      rw [← Option.some.inj hIns]
      exact CodeBuilder.emitJumpIns_eq label
  | enterFinally label =>
      rw [← Option.some.inj hIns]
      exact
        CodeBuilder.emit2byteIns_bind_writeLabel
          .enterFinally label
  | pipeline labels lastPipe forkKind =>
      rw [← Option.some.inj hIns]
      show b.emitPipelineIns labels lastPipe forkKind = _
      rw [CodeBuilder.emitPipelineIns_eq]
      simp [Emission.overLimit]
  | markLabel label => cases hIns
  | sourcePos lineNum => cases hIns
  | catchException begin_ end_ type localOffset localSize =>
      cases hIns

end Bytecode

end Ydsh
