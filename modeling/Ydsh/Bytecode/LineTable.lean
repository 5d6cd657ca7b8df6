import Ydsh.Bytecode.Dumper

/-
  The line table of a code unit.

  The table records the address behind the code emitted so far,
  and only where the line changes.  The program counter has
  passed the code of an instruction when the instruction is
  executed, and it is not behind its last operand before the
  instruction is left, so that the entry before the first
  address not below it is the one of the instruction.

  Main declarations:
    * `getLineNum`
    * `pcMoves`
    * `Holds`
    * `getLineNum_of_holds`
-/

----
-- Looking up a Line
----

namespace Ydsh

namespace Bytecode

namespace LineNumEntry

/- The sentinel is the one entry that is false. -/
def isEntry (entry : LineNumEntry) : Bool :=
  entry.address ≠ SYS_LIMIT_FUNC_LEN

end LineNumEntry

/- Where the loop ends that starts at the `i`-th entry. -/
def searchFrom
    (index : Nat) : Nat → List LineNumEntry → Nat
  | i, [] => i
  | i, entry :: rest =>
      if entry.isEntry then
        if index ≤ entry.address then
          i
        else
          searchFrom index (i + 1) rest
      else
        i

def getLineNum
    (lineNumEntries : List LineNumEntry)
    (index : Nat) : Nat :=
  let i := searchFrom index 0 lineNumEntries
  (lineNumEntries[if i > 0 then i - 1 else 0]?.map
    LineNumEntry.lineNum).getD 0

----
-- The Program Counter
----

/-
  How the main loop moves the program counter on from behind
  the code of an instruction, as long as the instruction does
  not jump.  A branch and a fork go on by all of their operands
  at once.
-/
def pcMoves : OpCode → List Nat
  | .print => [3]
  | .instanceOf => [3]
  | .checkCast => [3]
  | .pushSig => [1]
  | .pushInt => [1]
  | .pushStr1 => [1]
  | .pushStr2 => [1, 1]
  | .pushStr3 => [1, 1, 1]
  | .pushMeta => [1]
  | .pushType => [3]
  | .loadConst => [1]
  | .loadConstW => [2]
  | .loadConstT => [3]
  | .loadGlobal => [2]
  | .storeGlobal => [2]
  | .loadLocal => [1]
  | .storeLocal => [1]
  | .loadField => [2]
  | .storeField => [2]
  | .importEnv => [1]
  | .new => [3]
  | .callMethod => [1, 2]
  | .callFunc => [1]
  | .callBuiltin => [1]
  | .callBuiltin2 => [1, 1]
  | .branch => [2]
  | .fork => [3]
  | .pipelineAsync => [1]
  | .addCmdArg => [1]
  | .addGlobbing => [1, 1]
  | .addRedirOp => [1]
  | .tryUnwrap => [2]
  | .reclaimLocal => [1, 1]
  | _ => []

/-
  The program counter is behind the code of the instruction at
  `start` and behind those operands that have been read.  While
  a call is waited for, all of them have been.
-/
def Holds (start : Nat) (op : OpCode) (pc : Nat) : Prop :=
  ∃ count, pc = start + 1 + ((pcMoves op).take count).sum

variable {emission : Emission}
variable {emissions before between after : List Emission}
variable {ins : Ins}
variable {b : CodeBuilder}
variable {start pc line : Nat}

theorem sum_pcMoves_le
    (op : OpCode)
    (hSize : 0 ≤ getByteSize op) :
    ((pcMoves op).sum : Int) ≤ getByteSize op := by
  revert hSize
  cases op <;> decide

theorem sum_take_le
    (moves : List Nat)
    (count : Nat) :
    (moves.take count).sum ≤ moves.sum := by
  have hSplit := congrArg List.sum (List.take_append_drop count moves)
  rw [List.sum_append] at hSplit
  omega

/- The operands that are read are those of the instruction. -/
theorem Holds.bounds
    (hHolds : Holds start ins.op pc)
    (hIns : emission.ins? = some ins) :
    start < pc ∧ pc ≤ start + ins.size := by
  rcases hHolds with ⟨count, hPc⟩
  have hTake := sum_take_le (pcMoves ins.op) count
  have hMoves : (pcMoves ins.op).sum ≤ slotsSize ins.slots := by
    by_cases hPipeline :
        ∃ labels lastPipe forkKind,
          emission = .pipeline labels lastPipe forkKind
    · rcases hPipeline with ⟨labels, lastPipe, forkKind, hEq⟩
      rw [hEq] at hIns
      have hIns' := Option.some.inj hIns
      have hOp :
          (pcMoves
              (CodeBuilder.pipelineOp lastPipe forkKind)).sum ≤
            1 := by
        unfold CodeBuilder.pipelineOp
        cases lastPipe with
        | true => exact Nat.zero_le 1
        | false =>
            by_cases hKind : forkKind = .none
            · rw [if_neg Bool.false_ne_true, if_pos hKind]
              exact Nat.zero_le 1
            · rw [if_neg Bool.false_ne_true, if_neg hKind]
              exact Nat.le_refl 1
      have hSlots : 1 ≤ slotsSize (pipelineSlots labels forkKind) := by
        unfold pipelineSlots
        by_cases hKind : forkKind ≠ .none
        · rw [if_pos hKind]
          exact Nat.le_add_right 1 _
        · rw [if_neg hKind]
          exact Nat.le_add_right 1 _
      rw [← hIns']
      exact Nat.le_trans hOp hSlots
    · have hTable : getByteSize ins.op = slotsSize ins.slots := by
        apply getByteSize_eq hIns
        intro labels lastPipe forkKind hEq
        exact hPipeline ⟨labels, lastPipe, forkKind, hEq⟩
      have hSum :=
        sum_pcMoves_le ins.op
          (by rw [hTable]; exact Int.natCast_nonneg _)
      rw [hTable] at hSum
      exact Int.ofNat_le.mp hSum
  unfold Ins.size
  omega

----
-- The Entries
----

theorem searchFrom_append
    {entries rest : List LineNumEntry}
    {i : Nat}
    (hBelow :
      ∀ entry ∈ entries,
        entry.isEntry = true ∧ entry.address < pc) :
    searchFrom pc i (entries ++ rest) =
      searchFrom pc (i + entries.length) rest := by
  induction entries generalizing i with
  | nil => rfl
  | cons entry entries ih =>
      rcases hBelow entry List.mem_cons_self with
        ⟨hEntry, hLt⟩
      rw [List.cons_append, searchFrom, if_pos hEntry,
        if_neg (Nat.not_le_of_lt hLt), ih, List.length_cons]
      · rw [Nat.add_right_comm, Nat.add_assoc]
      · intro other hIn
        exact hBelow other (List.mem_cons_of_mem _ hIn)

/- The entry before the first one that stops the loop. -/
theorem getLineNum_append
    {entries rest : List LineNumEntry}
    {entry stop : LineNumEntry}
    (hBelow :
      ∀ e ∈ entries ++ [entry],
        e.isEntry = true ∧ e.address < pc)
    (hStop : stop.isEntry = false ∨ pc ≤ stop.address) :
    getLineNum (entries ++ [entry] ++ stop :: rest) pc =
      entry.lineNum := by
  have hSearch :
      searchFrom pc 0 (entries ++ [entry] ++ stop :: rest) =
        entries.length + 1 := by
    rw [searchFrom_append hBelow, searchFrom, Nat.zero_add,
      List.length_append]
    by_cases hEntry : stop.isEntry = true
    · rw [if_pos hEntry]
      rcases hStop with hFalse | hLe
      · rw [hFalse] at hEntry
        cases hEntry
      · rw [if_pos hLe]
        rfl
    · rw [if_neg hEntry]
      rfl
  simp only [getLineNum, hSearch]
  rw [if_pos (Nat.succ_pos _), Nat.add_sub_cancel,
    List.append_assoc, List.getElem?_append_right
      (Nat.le_refl _), Nat.sub_self]
  rfl

/- An entry is recorded where the code ends. -/
structure Recorded (b : CodeBuilder) : Prop where
  le_offset :
    ∀ entry ∈ b.lineNumEntries,
      entry.address ≤ b.currentCodeOffset

theorem lineNumEntries_add
    (hOther : ∀ lineNum, emission ≠ .sourcePos lineNum) :
    (emission.add b).lineNumEntries = b.lineNumEntries := by
  cases hIns : emission.ins? with
  | some ins =>
      rw [add_of_ins hIns]
      rfl
  | none =>
      rw [add_of_none hIns]
      cases emission with
      | sourcePos lineNum => exact absurd rfl (hOther lineNum)
      | _ => rfl

/- After a position its line is the one recorded last. -/
theorem lineNumEntries_sourcePos
    (hRecorded : Recorded b) :
    ∃ entries entry,
      ((Emission.sourcePos line).add b).lineNumEntries =
          entries ++ [entry] ∧
        entry.lineNum = line ∧
          entry.address ≤ b.currentCodeOffset := by
  show
    ∃ entries entry,
      (b.emitSourcePos line).lineNumEntries =
          entries ++ [entry] ∧ _
  unfold CodeBuilder.emitSourcePos
  by_cases hSame :
      b.lineNumEntries.getLast?.map LineNumEntry.lineNum =
        some line
  · rw [if_pos hSame]
    rcases Option.map_eq_some_iff.mp hSame with
      ⟨entry, hLast, hLine⟩
    rcases List.getLast?_eq_some_iff.mp hLast with
      ⟨entries, hEntries⟩
    refine ⟨entries, entry, hEntries, hLine, ?_⟩
    apply hRecorded.le_offset
    rw [hEntries]
    exact List.mem_append_right _ List.mem_cons_self
  · rw [if_neg hSame]
    exact ⟨_, _, rfl, rfl, Nat.le_refl _⟩

theorem Recorded.add
    (hRecorded : Recorded b) :
    Recorded (emission.add b) := by
  constructor
  intro entry hIn
  rw [currentCodeOffset_add]
  by_cases hPos : ∃ lineNum, emission = .sourcePos lineNum
  · rcases hPos with ⟨lineNum, hEq⟩
    rw [hEq] at hIn ⊢
    have hEntry : entry ∈ (b.emitSourcePos lineNum).lineNumEntries :=
      hIn
    unfold CodeBuilder.emitSourcePos at hEntry
    by_cases hSame :
        b.lineNumEntries.getLast?.map LineNumEntry.lineNum =
          some lineNum
    · rw [if_pos hSame] at hEntry
      exact
        Nat.le_trans (hRecorded.le_offset entry hEntry)
          (Nat.le_add_right _ _)
    · rw [if_neg hSame] at hEntry
      rcases List.mem_append.mp hEntry with hOld | hNew
      · exact
          Nat.le_trans (hRecorded.le_offset entry hOld)
            (Nat.le_add_right _ _)
      · rw [List.mem_singleton.mp hNew]
        exact Nat.le_add_right _ _
  · rw [lineNumEntries_add
      (fun lineNum hEq => hPos ⟨lineNum, hEq⟩)] at hIn
    exact
      Nat.le_trans (hRecorded.le_offset entry hIn)
        (Nat.le_add_right _ _)

theorem Recorded.addAll
    (hRecorded : Recorded b) :
    Recorded (addAll emissions b) := by
  induction emissions generalizing b with
  | nil => exact hRecorded
  | cons emission rest ih => exact ih hRecorded.add

theorem addAll_append
    (first second : List Emission) :
    addAll (first ++ second) b =
      addAll second (addAll first b) := by
  induction first generalizing b with
  | nil => rfl
  | cons emission first ih => exact ih

theorem currentCodeOffset_addAll :
    (addAll emissions b).currentCodeOffset =
      b.currentCodeOffset + sizeOf emissions := by
  induction emissions generalizing b with
  | nil => rfl
  | cons emission rest ih =>
      have hTotal :
          sizeOf (emission :: rest) =
            emission.size + sizeOf rest :=
        rfl
      rw [addAll, ih, currentCodeOffset_add, hTotal,
        Nat.add_assoc]

/- Later entries are behind the code emitted before them. -/
theorem lineNumEntries_addAll :
    ∃ later,
      (addAll emissions b).lineNumEntries =
          b.lineNumEntries ++ later ∧
        ∀ entry ∈ later, b.currentCodeOffset ≤ entry.address := by
  induction emissions generalizing b with
  | nil =>
      refine ⟨[], (List.append_nil _).symm, ?_⟩
      intro entry hIn
      exact absurd hIn List.not_mem_nil
  | cons emission rest ih =>
      rcases @ih (emission.add b) with ⟨later, hEq, hBehind⟩
      rw [currentCodeOffset_add] at hBehind
      by_cases hPos : ∃ lineNum, emission = .sourcePos lineNum
      · rcases hPos with ⟨lineNum, hSource⟩
        have hAdd :
            (emission.add b).lineNumEntries =
              (b.emitSourcePos lineNum).lineNumEntries := by
          rw [hSource]
          rfl
        rw [addAll, hEq, hAdd]
        unfold CodeBuilder.emitSourcePos
        by_cases hSame :
            b.lineNumEntries.getLast?.map LineNumEntry.lineNum =
              some lineNum
        · rw [if_pos hSame]
          refine ⟨later, rfl, ?_⟩
          intro entry hIn
          exact
            Nat.le_trans (Nat.le_add_right _ _)
              (hBehind entry hIn)
        · rw [if_neg hSame]
          refine ⟨_ :: later, List.append_assoc _ _ _, ?_⟩
          intro entry hIn
          rcases List.mem_cons.mp hIn with hHere | hLater
          · exact Nat.le_of_eq (by rw [hHere])
          · exact
              Nat.le_trans (Nat.le_add_right _ _)
                (hBehind entry hLater)
      · have hAdd :=
          @lineNumEntries_add emission b
            (fun lineNum hEq => hPos ⟨lineNum, hEq⟩)
        rw [addAll, hEq, hAdd]
        refine ⟨later, rfl, ?_⟩
        intro entry hIn
        exact
          Nat.le_trans (Nat.le_add_right _ _)
            (hBehind entry hIn)

theorem lineNumEntries_between
    (hBetween :
      ∀ emission ∈ between,
        ∀ lineNum, emission ≠ .sourcePos lineNum) :
    (addAll between b).lineNumEntries = b.lineNumEntries := by
  induction between generalizing b with
  | nil => rfl
  | cons emission between ih =>
      rw [addAll, ih
        (fun e hIn => hBetween e (List.mem_cons_of_mem _ hIn))]
      exact
        lineNumEntries_add
          (hBetween emission List.mem_cons_self)

----
-- Lines of Instructions
----

/-
  Whatever value the program counter has while an instruction is
  executed or waits for a call, the line is that of the last
  position given before the instruction was emitted.
-/
theorem getLineNum_of_holds
    {order : List (Label × LabelTarget)}
    {c : CompiledCode}
    (hBetween :
      ∀ other ∈ between,
        ∀ lineNum, other ≠ .sourcePos lineNum)
    (hIns : emission.ins? = some ins)
    (hEmissions :
      emissions =
        before ++ .sourcePos line ::
          (between ++ emission :: after))
    (hEmit : emitAll emissions {} = .ok b)
    (hBuild : b.build order = .done c)
    (hHolds :
      Holds (sizeOf (before ++ .sourcePos line :: between))
        ins.op pc) :
    getLineNum c.lineNumEntries pc = line := by
  rcases emitAll_eq_ok_iff.mp hEmit with ⟨hFault, hB⟩
  have hEntries := (build_eq_done hBuild).2.1
  rcases Holds.bounds hHolds hIns with ⟨hLower, hUpper⟩
  generalize hFirst : addAll before {} = first
  have hRecorded : Recorded first := by
    rw [← hFirst]
    apply Recorded.addAll
    constructor
    intro entry hIn
    exact absurd hIn List.not_mem_nil
  generalize hSecond :
    (Emission.sourcePos line).add first = second
  rcases @lineNumEntries_sourcePos first line hRecorded with
    ⟨entries, entry, hTable, hLine, hAddress⟩
  rw [hSecond] at hTable
  have hSecondRecorded : Recorded second := by
    rw [← hSecond]
    exact hRecorded.add
  generalize hThird : addAll between second = third
  have hThirdTable :
      third.lineNumEntries = entries ++ [entry] := by
    rw [← hThird, lineNumEntries_between hBetween, hTable]
  have hThirdRecorded : Recorded third := by
    rw [← hThird]
    exact hSecondRecorded.addAll
  have hStart :
      third.currentCodeOffset =
        sizeOf (before ++ .sourcePos line :: between) := by
    have hSplit :
        addAll (before ++ .sourcePos line :: between) {} =
          third := by
      rw [addAll_append, hFirst, addAll, hSecond, hThird]
    have hOffset :=
      @currentCodeOffset_addAll
        (before ++ .sourcePos line :: between) {}
    rw [hSplit] at hOffset
    exact hOffset.trans (Nat.zero_add _)
  have hNotPos :
      ∀ lineNum, emission ≠ .sourcePos lineNum := by
    intro lineNum hEq
    rw [hEq] at hIns
    cases hIns
  have hLast :
      b = addAll after (emission.add third) := by
    rw [hB, hEmissions, addAll_append, hFirst, addAll, hSecond,
      addAll_append, hThird, addAll]
  rcases
      @lineNumEntries_addAll after (emission.add third) with
    ⟨later, hLater, hBehind⟩
  rw [lineNumEntries_add hNotPos, hThirdTable, ← hLast]
    at hLater
  rw [currentCodeOffset_add, hStart, size_of_ins hIns]
    at hBehind
  have hTotal :
      sizeOf (before ++ .sourcePos line :: between) + ins.size <
        UINT_RANGE := by
    have hSize :=
      sizeOf_lt hFault (Nat.le_of_ble_eq_true rfl)
    have hSplit :
        emissions =
          (before ++ .sourcePos line :: between) ++
            emission :: after := by
      rw [hEmissions, List.append_assoc]
      rfl
    have hHere :
        sizeOf (emission :: after) =
          emission.size + sizeOf after :=
      rfl
    rw [hSplit, sizeOf_append, hHere, size_of_ins hIns]
      at hSize
    omega
  have hBelow :
      ∀ e ∈ entries ++ [entry],
        e.isEntry = true ∧ e.address < pc := by
    intro e hIn
    rw [← hThirdTable] at hIn
    have hLe := hThirdRecorded.le_offset e hIn
    rw [hStart] at hLe
    refine ⟨decide_eq_true ?_, by omega⟩
    unfold SYS_LIMIT_FUNC_LEN
    unfold UINT_RANGE at hTotal
    omega
  rw [hEntries, hLater, ← hLine]
  cases later with
  | nil =>
      rw [List.append_nil]
      apply getLineNum_append hBelow
      exact Or.inl (decide_eq_false (fun hNe => hNe rfl))
  | cons stop later =>
      rw [List.append_assoc]
      apply getLineNum_append hBelow
      right
      exact
        Nat.le_trans hUpper (hBehind stop List.mem_cons_self)

/- The second operand of a call on a line of its own. -/
theorem getLineNum_of_holds_call :
    ∃ c : CompiledCode,
      getLineNum c.lineNumEntries 7 = 2 := by
  have hHolds :
      Holds
        (sizeOf
          ([.sourcePos 1, .ins1 ⟨.pushInt, rfl⟩ 5] ++
            .sourcePos 2 :: [.ins1 ⟨.pushInt, rfl⟩ 6]))
        .callBuiltin2 7 :=
    ⟨2, rfl⟩
  exact
    ⟨_,
      @getLineNum_of_holds (.nativeCall 2 9) _
        [.sourcePos 1, .ins1 ⟨.pushInt, rfl⟩ 5]
        [.ins1 ⟨.pushInt, rfl⟩ 6]
        [.sourcePos 3, .ins0 ⟨.pop, rfl⟩]
        _ _ 7 2 [] _
        (fun other hIn lineNum hEq => by
          rw [List.mem_singleton.mp hIn] at hEq
          cases hEq)
        rfl rfl rfl rfl hHolds⟩

end Bytecode

end Ydsh
