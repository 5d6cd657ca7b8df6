import Ydsh.Bytecode.Finalized

/-
  The dumper of code.

  The dumper goes from the code of one instruction to that of
  the next by the length of the operands.  It takes the byte
  behind the code of a pipeline for the number of its labels,
  which is right unless the pipeline is one with a kind.

  Main declarations:
    * `dumpCode`
    * `startsFrom`
    * `dumpFrom_plain`
    * `dumpCode_iff`
-/

----
-- The Walk
----

namespace Ydsh

namespace Bytecode

open Library.BigEndian

/- How far `i` is moved on behind the code of an instruction. -/
def operandSize (code : List Nat) (i : Nat) (op : OpCode) : Nat :=
  if isTypeOp op then
    3
  else
    let byteSize := getByteSize op
    if byteSize ≥ 0 then
      byteSize.toNat
    else
      (-1 * byteSize).toNat + 2 * readN 1 code (i + 1)

/- No result: the byte is no code of the table. -/
def dumpNext (code : List Nat) (i : Nat) : Option Nat :=
  (OpCode.ofByte (readN 1 code i)).map
    (fun op => (i + operandSize code i op + 1) % UINT_RANGE)

/- The offsets that are visited, and the one after the loop. -/
def dumpFrom
    (code : List Nat) : Nat → Nat → Option (List Nat × Nat)
  | 0, i => if i < code.length then none else some ([], i)
  | fuel + 1, i =>
      if i < code.length then
        (dumpNext code i).bind
          (fun next =>
            (dumpFrom code fuel next).map
              (fun result => (i :: result.1, result.2)))
      else
        some ([], i)

/- No result: more offsets are visited than there are bytes. -/
def dumpCode (code : List Nat) : Option (List Nat × Nat) :=
  dumpFrom code code.length 0

def startsFrom : Nat → List Ins → List Nat
  | _, [] => []
  | start, ins :: rest =>
      start :: startsFrom (start + ins.size) rest

----
-- Steps of the Walk
----

variable {index : Label → Nat}
variable {code before after : List Nat}
variable {fuel i next start : Nat}
variable {ins : Ins}
variable {emission : Emission}
variable {emissions rest : List Emission}

theorem dumpFrom_of_le
    (hLe : code.length ≤ i) :
    dumpFrom code fuel i = some ([], i) := by
  cases fuel with
  | zero | succ fuel => rw [dumpFrom, if_neg (Nat.not_lt_of_le hLe)]

theorem dumpFrom_succ
    (hLt : i < code.length)
    (hNext : dumpNext code i = some next) :
    dumpFrom code (fuel + 1) i =
      (dumpFrom code fuel next).map
        (fun result => (i :: result.1, result.2)) := by
  rw [dumpFrom, if_pos hLt, hNext]
  rfl

theorem readN_one_cons (byte : Nat) (rest : List Nat) :
    readN 1 (byte :: rest) 0 = byte := by
  show byte <<< (8 * 0) ||| 0 = byte
  rw [Nat.mul_zero, Nat.shiftLeft_zero, Nat.or_zero]

/- The walk reads the code and then the first operand byte. -/
theorem dumpNext_eq
    (hCode :
      code = before ++ (ins.bytes index start ++ after)) :
    dumpNext code before.length =
      some
        ((before.length + operandSize code before.length ins.op +
          1) % UINT_RANGE) := by
  have hByte : readN 1 code before.length = ins.op.toByte := by
    have hRead :=
      @readN_append 1 0 before (ins.bytes index start ++ after)
    rw [hCode]
    rw [Nat.add_zero] at hRead
    rw [hRead, bytes_eq]
    exact readN_one_cons _ _
  unfold dumpNext
  rw [hByte, OpCode.ofByte_toByte]
  rfl

theorem operandSize_of_nonneg
    {op : OpCode}
    (hSize : 0 ≤ getByteSize op) :
    operandSize code i op = (getByteSize op).toNat := by
  unfold operandSize
  by_cases hType : isTypeOp op = true
  · rw [if_pos hType, OpCode.getByteSize_of_isTypeOp hType]
    rfl
  · rw [if_neg hType]
    exact if_pos hSize

/- The byte behind the code is taken for a number of labels. -/
theorem operandSize_pipelineOp
    (lastPipe : Bool)
    (forkKind : ForkKind) :
    operandSize code i
        (CodeBuilder.pipelineOp lastPipe forkKind) =
      1 + 2 * readN 1 code (i + 1) := by
  unfold CodeBuilder.pipelineOp
  cases lastPipe with
  | true => rfl
  | false =>
      by_cases hKind : forkKind = .none
      · rw [if_neg Bool.false_ne_true, if_pos hKind]
        rfl
      · rw [if_neg Bool.false_ne_true, if_neg hKind]
        rfl

----
-- Plain Instructions
----

/- A pipeline is plain if it has no kind. -/
def Emission.plain : Emission → Bool
  | .pipeline _ _ forkKind => forkKind = .none
  | _ => true

/- The table says how many bytes an emitter writes. -/
theorem getByteSize_eq
    (hIns : emission.ins? = some ins)
    (hOther :
      ∀ labels lastPipe forkKind,
        emission ≠ .pipeline labels lastPipe forkKind) :
    getByteSize ins.op = slotsSize ins.slots := by
  cases emission with
  | ins0 op
  | ins1 op v
  | ins2 op v
  | ins2Of op v1 v2
  | ins3 op v
  | ins3Of op v1 v2 v3
  | branch op label =>
      rw [← Option.some.inj hIns]
      exact op.property
  | ldc poolIndex =>
      rw [← Option.some.inj hIns]
      unfold Emission.ldcIns
      by_cases hByte : poolIndex ≤ UINT8_MAX
      · rw [if_pos hByte]
        rfl
      rw [if_neg hByte]
      by_cases hShort : poolIndex ≤ UINT16_MAX
      · rw [if_pos hShort]
        rfl
      · rw [if_neg hShort]
        rfl
  | pipeline labels lastPipe forkKind =>
      exact absurd rfl (hOther labels lastPipe forkKind)
  | markLabel label => cases hIns
  | sourcePos lineNum => cases hIns
  | catchException begin_ end_ type localOffset localSize =>
      cases hIns
  | _ =>
      rw [← Option.some.inj hIns]
      rfl

theorem slotsSize_labels
    (labels : List Label)
    (extra : Nat) :
    slotsSize
        (labels.map (fun label => Slot.offset label extra)) =
      2 * labels.length := by
  induction labels with
  | nil => rfl
  | cons label labels ih =>
      show 2 + slotsSize _ = _
      rw [ih, List.length_cons]
      omega

/- The walk goes on behind an instruction that is plain. -/
theorem dumpNext_plain
    (hIns : emission.ins? = some ins)
    (hPlain : emission.plain = true)
    (hLimit : emission.overLimit = false)
    (hCode :
      code = before ++ (ins.bytes index start ++ after))
    (hRange : before.length + ins.size < UINT_RANGE) :
    dumpNext code before.length =
      some (before.length + ins.size) := by
  have hOperands :
      operandSize code before.length ins.op =
        slotsSize ins.slots := by
    by_cases hPipeline :
        ∃ labels lastPipe forkKind,
          emission = .pipeline labels lastPipe forkKind
    · rcases hPipeline with ⟨labels, lastPipe, forkKind, hEq⟩
      rw [hEq] at hIns hPlain hLimit
      have hKind : forkKind = .none := of_decide_eq_true hPlain
      have hLength : ¬ labels.length > SYS_LIMIT_PIPE_LEN :=
        of_decide_eq_false hLimit
      have hIns' := Option.some.inj hIns
      have hSlots :
          ins.slots =
            .value 1 labels.length ::
              labels.map (fun label => .offset label 0) := by
        rw [← hIns']
        show pipelineSlots labels forkKind = _
        unfold pipelineSlots
        rw [if_neg (fun hNe => hNe hKind)]
      have hSize :
          readN 1 code (before.length + 1) = labels.length := by
        have hByte : writeN 1 labels.length = [labels.length] := by
          show [labels.length >>> (8 * 0) % 0x100] = _
          rw [Nat.mul_zero, Nat.shiftRight_zero,
            Nat.mod_eq_of_lt]
          unfold SYS_LIMIT_PIPE_LEN at hLength
          omega
        rw [hCode, readN_append, bytes_eq, hSlots,
          List.cons_append, readN_cons, List.map_cons,
          List.flatMap_cons]
        show readN 1 (writeN 1 labels.length ++ _ ++ _) 0 = _
        rw [hByte]
        exact readN_one_cons _ _
      rw [← hIns', operandSize_pipelineOp, hSize, hIns', hSlots]
      show _ = 1 + slotsSize _
      rw [slotsSize_labels]
    · have hTable : getByteSize ins.op = slotsSize ins.slots := by
        apply getByteSize_eq hIns
        intro labels lastPipe forkKind hEq
        exact hPipeline ⟨labels, lastPipe, forkKind, hEq⟩
      rw [operandSize_of_nonneg, hTable]
      · rfl
      · rw [hTable]
        exact Int.natCast_nonneg _
  have hSum :
      before.length + slotsSize ins.slots + 1 =
        before.length + ins.size := by
    unfold Ins.size
    omega
  rw [dumpNext_eq hCode, hOperands, hSum,
    Nat.mod_eq_of_lt hRange]

----
-- The Whole Walk
----

/- The emissions before `after` are passed over. -/
theorem dumpFrom_plain
    (hPlain :
      ∀ emission ∈ emissions,
        emission.plain = true ∧ emission.overLimit = false)
    (hCode :
      code =
        before ++
          (bytesFrom index before.length
            (instructions emissions) ++ after))
    (hRange : code.length < UINT_RANGE) :
    dumpFrom code ((instructions emissions).length + fuel)
        before.length =
      (dumpFrom code fuel
          (before.length +
            ((instructions emissions).map Ins.size).sum)).map
        (fun result =>
          (startsFrom before.length (instructions emissions) ++
            result.1, result.2)) := by
  induction emissions generalizing before with
  | nil =>
      show
        dumpFrom code (0 + fuel) before.length =
          (dumpFrom code fuel (before.length + 0)).map id
      rw [Nat.zero_add, Nat.add_zero, Option.map_id]
      rfl
  | cons emission rest ih =>
      have hRest :
          ∀ e ∈ rest, e.plain = true ∧ e.overLimit = false :=
        fun e hIn => hPlain e (List.mem_cons_of_mem _ hIn)
      cases hIns : emission.ins? with
      | none =>
          rw [instructions_of_none hIns] at hCode ⊢
          exact ih hRest hCode
      | some ins =>
          rcases hPlain emission List.mem_cons_self with
            ⟨hHere, hLimit⟩
          rw [instructions_of_ins hIns] at hCode ⊢
          rw [bytesFrom, List.append_assoc] at hCode
          have hLength := congrArg List.length hCode
          rw [List.length_append, List.length_append,
            length_bytes] at hLength
          have hPos : 0 < ins.size := Nat.add_pos_left
            Nat.one_pos _
          have hNext :=
            dumpNext_plain hIns hHere hLimit hCode (by omega)
          have hBefore :
              (before ++ ins.bytes index before.length).length =
                before.length + ins.size := by
            rw [List.length_append, length_bytes]
          have hTail :=
            @ih (before ++ ins.bytes index before.length) hRest
              (by rw [hBefore, List.append_assoc]; exact hCode)
          rw [hBefore] at hTail
          rw [List.length_cons, Nat.add_right_comm,
            dumpFrom_succ (by omega) hNext, hTail,
            Option.map_map, List.map_cons, List.sum_cons,
            ← Nat.add_assoc]
          rfl

theorem length_instructions_le (code : List Ins) :
    code.length ≤ (code.map Ins.size).sum := by
  induction code with
  | nil => exact Nat.le_refl 0
  | cons ins code ih =>
      have hPos : 1 ≤ ins.size := Nat.le_add_right 1 _
      rw [List.length_cons, List.map_cons, List.sum_cons]
      omega

/- Plain code is walked from its start to its end. -/
theorem dumpCode_plain
    (hPlain :
      ∀ emission ∈ emissions,
        emission.plain = true ∧ emission.overLimit = false)
    (hRange :
      ((instructions emissions).map Ins.size).sum <
        UINT_RANGE) :
    dumpCode (bytesFrom index 0 (instructions emissions)) =
      some
        (startsFrom 0 (instructions emissions),
          (bytesFrom index 0
            (instructions emissions)).length) := by
  have hLength :=
    @length_bytesFrom index 0 (instructions emissions)
  have hCount := length_instructions_le (instructions emissions)
  have hSplit :
      bytesFrom index 0 (instructions emissions) =
        [] ++
          (bytesFrom index ([] : List Nat).length
            (instructions emissions) ++ []) := by
    rw [List.nil_append, List.append_nil]
    rfl
  have hWalk :=
    @dumpFrom_plain index _ [] []
      ((bytesFrom index 0 (instructions emissions)).length -
        (instructions emissions).length)
      emissions hPlain hSplit (by omega)
  have hFuel :
      (instructions emissions).length +
          ((bytesFrom index 0 (instructions emissions)).length -
            (instructions emissions).length) =
        (bytesFrom index 0 (instructions emissions)).length := by
    omega
  have hEnd :
      (bytesFrom index 0 (instructions emissions)).length ≤
        ([] : List Nat).length +
          ((instructions emissions).map Ins.size).sum := by
    rw [hLength]
    exact Nat.le_add_left _ _
  rw [hFuel, dumpFrom_of_le hEnd] at hWalk
  unfold dumpCode
  rw [hLength] at hWalk ⊢
  simpa using hWalk

----
-- Pipelines with a Kind
----

theorem ins_pipeline
    (labels : List Label)
    (lastPipe : Bool)
    (forkKind : ForkKind)
    (hKind : forkKind ≠ .none) :
    (Emission.pipeline labels lastPipe forkKind).ins? =
      some
        ⟨CodeBuilder.pipelineOp lastPipe forkKind,
          .value 1 (forkByte forkKind) ::
            .value 1 labels.length ::
              labels.map (fun label => .offset label 1)⟩ := by
  show
    some
        (Ins.mk (CodeBuilder.pipelineOp lastPipe forkKind)
          (pipelineSlots labels forkKind)) =
      _
  unfold pipelineSlots
  rw [if_pos hKind]

/- The distance to the next instruction is odd. -/
theorem size_pipeline
    (op : OpCode)
    (kind size : Nat)
    (labels : List Label) :
    (Ins.mk op
        (.value 1 kind :: .value 1 size ::
          labels.map (fun label => .offset label 1))).size =
      3 + 2 * labels.length := by
  show 1 + (1 + (1 + slotsSize _)) = _
  rw [slotsSize_labels]
  omega

/- The distance that the walk goes is even. -/
theorem dumpNext_kind
    {op : OpCode}
    {lastPipe : Bool}
    {forkKind : ForkKind}
    {slots : List Slot}
    (hOp : op = CodeBuilder.pipelineOp lastPipe forkKind)
    (hCode :
      code =
        before ++
          ((Ins.mk op
              (.value 1 (forkByte forkKind) :: slots)).bytes
            index start ++ after)) :
    ∃ next,
      dumpNext code before.length = some next ∧
        next % 2 = before.length % 2 := by
  have hEven : 2 ∣ UINT_RANGE := ⟨0x80000000, rfl⟩
  refine ⟨_, dumpNext_eq hCode, ?_⟩
  show
    (before.length + operandSize code before.length op + 1) %
        UINT_RANGE % 2 =
      before.length % 2
  rw [hOp, operandSize_pipelineOp,
    Nat.mod_mod_of_dvd _ hEven]
  omega

/- Offsets of one parity do not meet those of the other. -/
theorem not_dumpFrom
    (hParity : next % 2 ≠ start % 2)
    (hEnd :
      code.length = start + ((instructions rest).map Ins.size).sum) :
    dumpFrom code fuel next ≠
      some (startsFrom start (instructions rest), code.length) := by
  intro hWalk
  by_cases hLt : next < code.length
  · cases fuel with
    | zero =>
        rw [dumpFrom, if_pos hLt] at hWalk
        cases hWalk
    | succ fuel =>
        rw [dumpFrom, if_pos hLt] at hWalk
        rcases Option.bind_eq_some_iff.mp hWalk with
          ⟨_, _, hMap⟩
        rcases Option.map_eq_some_iff.mp hMap with
          ⟨result, _, hResult⟩
        have hStarts := (Prod.mk.inj hResult).1
        cases hCode : instructions rest with
        | nil =>
            rw [hCode] at hStarts
            cases hStarts
        | cons ins code =>
            rw [hCode] at hStarts
            have hHead := (List.cons.inj hStarts).1
            rw [hHead] at hParity
            exact hParity rfl
  · rw [dumpFrom_of_le (Nat.le_of_not_lt hLt)] at hWalk
    have hPair := Prod.mk.inj (Option.some.inj hWalk)
    cases hCode : instructions rest with
    | nil =>
        rw [hCode] at hEnd
        have hSame : next = start := by
          rw [hPair.2, hEnd]
          rfl
        rw [hSame] at hParity
        exact hParity rfl
    | cons ins code =>
        rw [hCode] at hPair
        cases hPair.1

theorem bytesFrom_append (code code' : List Ins) :
    bytesFrom index start (code ++ code') =
      bytesFrom index start code ++
        bytesFrom index (start + (code.map Ins.size).sum)
          code' := by
  induction code generalizing start with
  | nil => rfl
  | cons ins code ih =>
      rw [List.cons_append, bytesFrom, bytesFrom, ih,
        List.append_assoc, List.map_cons, List.sum_cons,
        Nat.add_assoc]

theorem startsFrom_append (code code' : List Ins) :
    startsFrom start (code ++ code') =
      startsFrom start code ++
        startsFrom (start + (code.map Ins.size).sum) code' := by
  induction code generalizing start with
  | nil => rfl
  | cons ins code ih =>
      rw [List.cons_append, startsFrom, startsFrom, ih,
        List.map_cons, List.sum_cons, Nat.add_assoc]
      rfl

/- What is in front of the pipeline is walked as it should be. -/
theorem dumpCode_kind
    {labels : List Label}
    {lastPipe : Bool}
    {forkKind : ForkKind}
    {all : List Emission}
    (hAll :
      all =
        emissions ++ .pipeline labels lastPipe forkKind :: rest)
    (hKind : forkKind ≠ .none)
    (hPlain :
      ∀ emission ∈ emissions,
        emission.plain = true ∧ emission.overLimit = false)
    (hRange :
      ((instructions all).map Ins.size).sum < UINT_RANGE) :
    dumpCode (bytesFrom index 0 (instructions all)) ≠
      some
        (startsFrom 0 (instructions all),
          (bytesFrom index 0 (instructions all)).length) := by
  intro hWalk
  generalize hIns :
    Ins.mk (CodeBuilder.pipelineOp lastPipe forkKind)
        (.value 1 (forkByte forkKind) ::
          .value 1 labels.length ::
            labels.map (fun label => .offset label 1)) = ins
  have hSome :
      (Emission.pipeline labels lastPipe forkKind).ins? =
        some ins := by
    rw [ins_pipeline labels lastPipe forkKind hKind, hIns]
  have hInstructions :
      instructions all =
        instructions emissions ++ ins :: instructions rest := by
    rw [hAll, ← instructions_of_ins hSome]
    exact List.filterMap_append
  generalize hFront :
    ((instructions emissions).map Ins.size).sum = front
  have hCode :
      bytesFrom index 0 (instructions all) =
        bytesFrom index 0 (instructions emissions) ++
          (ins.bytes index front ++
            bytesFrom index (front + ins.size)
              (instructions rest)) := by
    rw [hInstructions, bytesFrom_append, hFront, Nat.zero_add]
    rfl
  have hBefore :
      (bytesFrom index 0 (instructions emissions)).length =
        front := by
    rw [length_bytesFrom, hFront]
  have hLength :
      (bytesFrom index 0 (instructions all)).length =
        front + ins.size +
          ((instructions rest).map Ins.size).sum := by
    rw [length_bytesFrom, hInstructions, List.map_append,
      List.sum_append, hFront, List.map_cons, List.sum_cons,
      Nat.add_assoc]
  have hTotal :
      (bytesFrom index 0 (instructions all)).length <
        UINT_RANGE := by
    rw [length_bytesFrom]
    exact hRange
  have hSize : ins.size = 3 + 2 * labels.length := by
    rw [← hIns]
    exact size_pipeline _ _ _ labels
  have hCount := length_instructions_le (instructions emissions)
  rw [hFront] at hCount
  generalize bytesFrom index 0 (instructions all) = code at *
  generalize hFuel :
    code.length - (instructions emissions).length - 1 = fuel
  have hFuelEq :
      code.length =
        (instructions emissions).length + (fuel + 1) := by
    omega
  have hPrefix :=
    @dumpFrom_plain index code []
      (ins.bytes index front ++
        bytesFrom index (front + ins.size) (instructions rest))
      (fuel + 1) emissions hPlain hCode hTotal
  have hOdd : (front + ins.size) % 2 ≠ front % 2 := by
    rw [hSize]
    omega
  have hAt :
      code =
        bytesFrom index 0 (instructions emissions) ++
          ((Ins.mk (CodeBuilder.pipelineOp lastPipe forkKind)
              (.value 1 (forkByte forkKind) ::
                .value 1 labels.length ::
                  labels.map
                    (fun label => .offset label 1))).bytes
              index front ++
            bytesFrom index (front + ins.size)
              (instructions rest)) := by
    rw [hIns]
    exact hCode
  rcases dumpNext_kind rfl hAt with ⟨next, hNext, hParity⟩
  rw [hBefore] at hNext hParity
  have hHere :
      dumpFrom code (fuel + 1) front =
        (dumpFrom code fuel next).map
          (fun result => (front :: result.1, result.2)) :=
    dumpFrom_succ (by omega) hNext
  have hStarts :
      startsFrom 0 (instructions all) =
        startsFrom 0 (instructions emissions) ++
          front :: startsFrom (front + ins.size)
            (instructions rest) := by
    rw [hInstructions, startsFrom_append, hFront, Nat.zero_add]
    rfl
  unfold dumpCode at hWalk
  rw [hStarts] at hWalk
  have hJoined :
      (dumpFrom code (fuel + 1) front).map
          (fun result =>
            (startsFrom 0 (instructions emissions) ++ result.1,
              result.2)) =
        some
          (startsFrom 0 (instructions emissions) ++
            front :: startsFrom (front + ins.size)
              (instructions rest), code.length) := by
    rw [← hWalk, hFuelEq]
    rw [hFront] at hPrefix
    simpa using hPrefix.symm
  rw [hHere, Option.map_map] at hJoined
  rcases Option.map_eq_some_iff.mp hJoined with
    ⟨result, hResult, hPair⟩
  rcases Prod.mk.inj hPair with ⟨hFirst, hSecond⟩
  have hRest :=
    (List.cons.inj (List.append_cancel_left hFirst)).2
  apply
    not_dumpFrom (by rw [hParity]; exact hOdd.symm) hLength
  rw [hResult, ← hRest, ← hSecond]

----
-- Code of the Generator
----

theorem of_fault_none
    (hFault : fault? start emissions = none) :
    (∀ emission ∈ emissions, emission.overLimit = false) ∧
      (start < UINT_RANGE →
        start + ((instructions emissions).map Ins.size).sum <
          UINT_RANGE) := by
  induction emissions generalizing start with
  | nil =>
      refine ⟨?_, id⟩
      intro emission hIn
      exact absurd hIn List.not_mem_nil
  | cons emission rest ih =>
      rcases fault?_cons_eq_none hFault with
        ⟨hLimit, hSize, hFaultRest⟩
      rcases ih hFaultRest with ⟨hRest, hTotal⟩
      refine ⟨List.forall_mem_cons.mpr ⟨hLimit, hRest⟩, ?_⟩
      intro _
      have hAll := hTotal hSize
      cases hIns : emission.ins? with
      | none =>
          rw [instructions_of_none hIns]
          rw [size_of_none hIns] at hAll
          exact hAll
      | some ins =>
          rw [instructions_of_ins hIns, List.map_cons,
            List.sum_cons]
          rw [size_of_ins hIns] at hAll
          omega

/-
  The walk visits the starts of the instructions, and it ends
  with the code, exactly if no pipeline has a kind.
-/
theorem dumpCode_iff
    {b : CodeBuilder}
    {order : List (Label × LabelTarget)}
    {c : CompiledCode}
    (hEmit : emitAll emissions {} = .ok b)
    (hOrder : order.Perm b.labelMap)
    (hBuild : b.build order = .done c) :
    dumpCode c.code =
        some
          (startsFrom 0 (instructions emissions),
            c.code.length) ↔
      ∀ labels lastPipe forkKind,
        .pipeline labels lastPipe forkKind ∈ emissions →
          forkKind = .none := by
  rcases emitAll_eq_ok_iff.mp hEmit with ⟨hFault, hB⟩
  rcases of_fault_none hFault with ⟨hLimit, hTotal⟩
  have hRange := hTotal (Nat.le_of_ble_eq_true rfl)
  rw [Nat.zero_add] at hRange
  have hFinal := (build_eq_done hBuild).1
  rw [hB] at hOrder hFinal
  have hCode := ((finalize_eq_done_iff hOrder).mp hFinal).2
  rw [hCode]
  constructor
  · intro hWalk
    cases hFind : emissions.find? (fun e => !e.plain) with
    | none =>
        intro labels lastPipe forkKind hIn
        have hPlain := List.find?_eq_none.mp hFind _ hIn
        have hTrue :
            (Emission.pipeline labels lastPipe forkKind).plain =
              true := by
          simpa using hPlain
        exact of_decide_eq_true hTrue
    | some emission =>
        rcases List.find?_eq_some_iff_append.mp hFind with
          ⟨hNot, before, after, hSplit, hBefore⟩
        have hFront :
            ∀ e ∈ before,
              e.plain = true ∧ e.overLimit = false := by
          intro e hIn
          refine ⟨by simpa using hBefore e hIn, hLimit e ?_⟩
          rw [hSplit]
          exact List.mem_append_left _ hIn
        cases emission with
        | pipeline labels lastPipe forkKind =>
            have hKind : forkKind ≠ .none := by
              simpa [Emission.plain] using hNot
            exact
              absurd hWalk
                (dumpCode_kind hSplit hKind hFront hRange)
        | _ => cases hNot
  · intro hKinds
    apply dumpCode_plain _ hRange
    intro emission hIn
    refine ⟨?_, hLimit emission hIn⟩
    cases emission with
    | pipeline labels lastPipe forkKind =>
        exact decide_eq_true (hKinds labels lastPipe forkKind hIn)
    | _ => rfl

/- A pipeline of two commands, and an instruction behind it. -/
def twoCommands (forkKind : ForkKind) : List Emission :=
  [.pipeline [0, 1, 2] false forkKind, .markLabel 0,
    .ins0 ⟨.halt, rfl⟩, .markLabel 1, .ins0 ⟨.halt, rfl⟩,
    .markLabel 2, .ins1 ⟨.pushInt, rfl⟩ 7]

theorem dumpCode_iff_twoCommands :
    ∃ c : CompiledCode,
      dumpCode c.code =
          some
            (startsFrom 0 (instructions (twoCommands .none)),
              c.code.length) ↔
        ∀ labels lastPipe forkKind,
          .pipeline labels lastPipe forkKind ∈
              twoCommands .none →
            forkKind = .none :=
  ⟨_, @dumpCode_iff (twoCommands .none) _ _ _ rfl
    (List.Perm.refl _) rfl⟩

/- The same pipeline in the background. -/
theorem not_dumpCode :
    ¬ ∀ (emissions : List Emission) (b : CodeBuilder)
        (order : List (Label × LabelTarget))
        (c : CompiledCode),
        emitAll emissions {} = .ok b →
          order.Perm b.labelMap →
            b.build order = .done c →
              dumpCode c.code =
                some
                  (startsFrom 0 (instructions emissions),
                    c.code.length) := by
  intro hAll
  have hWalk :=
    hAll (twoCommands .job) _ _ _ rfl (List.Perm.refl _) rfl
  exact absurd hWalk (by decide)

end Bytecode

end Ydsh
