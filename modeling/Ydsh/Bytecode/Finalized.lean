import Ydsh.Bytecode.Layout

/-
  Finalized code.

  A sequence of emissions ends with a fault or leaves a builder
  whose bytes are those of its instructions.  If the builder is
  finalized, in whatever order the targets are visited, the
  addresses of the labels stand where they are used.

  Main declarations:
    * `instructions`
    * `fault?`
    * `emitAll_eq`
    * `bytesFrom`
    * `finalize_eq_done_iff`
-/

----
-- Runs of Emissions
----

namespace Ydsh

namespace Bytecode

open Library.BigEndian
open Library.Patching

def instructions (emissions : List Emission) : List Ins :=
  emissions.filterMap Emission.ins?

def sizeOf (emissions : List Emission) : Nat :=
  (emissions.map Emission.size).sum

/- The first fault, with code of the size `size` before. -/
def fault? : Nat → List Emission → Option Fault
  | _, [] => none
  | size, emission :: rest =>
      if emission.overLimit then
        some .reachLimit
      else if size + emission.size < UINT_RANGE then
        fault? (size + emission.size) rest
      else
        some .outside

namespace Emission

/- An emission that changes no byte. -/
def mark : Emission → CodeBuilder → CodeBuilder
  | .markLabel label, b => b.markLabel label
  | .sourcePos lineNum, b => b.emitSourcePos lineNum
  | .catchException begin_ end_ type localOffset localSize, b =>
      b.catchException begin_ end_ type localOffset localSize
  | _, b => b

/- What an emission without a fault leaves. -/
def add (emission : Emission) (b : CodeBuilder) : CodeBuilder :=
  match emission.ins? with
  | some ins =>
      b.extend ins.blank (ins.targets b.currentCodeOffset)
  | none => emission.mark b

end Emission

def addAll : List Emission → CodeBuilder → CodeBuilder
  | [], b => b
  | emission :: rest, b => addAll rest (emission.add b)

variable {emission : Emission}
variable {emissions rest : List Emission}
variable {ins : Ins}
variable {b b' : CodeBuilder}

theorem instructions_of_ins
    (hIns : emission.ins? = some ins) :
    instructions (emission :: rest) = ins :: instructions rest :=
  List.filterMap_cons_some hIns

theorem instructions_of_none
    (hIns : emission.ins? = none) :
    instructions (emission :: rest) = instructions rest :=
  List.filterMap_cons_none hIns

theorem length_blank_slots
    (slots : List Slot)
    (index : Label → Nat)
    (start : Nat) :
    ((slots.map (Slot.piece index start)).flatMap
        Piece.blank).length =
      slotsSize slots := by
  induction slots with
  | nil => rfl
  | cons slot slots ih =>
      have hSlot :
          (slot.piece index start).blank.length = slot.width := by
        cases slot with
        | value width v => exact length_writeN width v
        | offset label extra => rfl
        | address label => rfl
      rw [List.map_cons, List.flatMap_cons, List.length_append,
        hSlot, ih]
      rfl

theorem length_blank (ins : Ins) : ins.blank.length = ins.size := by
  have hSlots := length_blank_slots ins.slots (fun _ => 0) 0
  show
    (ins.op.toByte :: (ins.slots.map _).flatMap _).length = _
  rw [List.length_cons, hSlots, Nat.add_comm]
  rfl

theorem size_of_ins
    (hIns : emission.ins? = some ins) :
    emission.size = ins.size := by
  unfold Emission.size
  rw [hIns]
  rfl

theorem size_of_none
    (hIns : emission.ins? = none) :
    emission.size = 0 := by
  unfold Emission.size
  rw [hIns]
  rfl

theorem add_of_ins
    (hIns : emission.ins? = some ins) :
    emission.add b =
      b.extend ins.blank (ins.targets b.currentCodeOffset) := by
  unfold Emission.add
  simp only [hIns]

theorem add_of_none
    (hIns : emission.ins? = none) :
    emission.add b = emission.mark b := by
  unfold Emission.add
  simp only [hIns]

theorem codeBuffer_mark (emission : Emission) :
    (emission.mark b).codeBuffer = b.codeBuffer := by
  cases emission with
  | sourcePos lineNum =>
      simp only [Emission.mark, CodeBuilder.emitSourcePos]
      by_cases hSame :
          b.lineNumEntries.getLast?.map LineNumEntry.lineNum =
            some lineNum
      · rw [if_pos hSame]
      · rw [if_neg hSame]
  | _ => rfl

theorem codeBuffer_add :
    (emission.add b).codeBuffer =
      b.codeBuffer ++ (emission.ins?.map Ins.blank).getD [] := by
  cases hIns : emission.ins? with
  | some ins =>
      rw [add_of_ins hIns]
      rfl
  | none =>
      rw [add_of_none hIns, codeBuffer_mark]
      exact (List.append_nil _).symm

theorem currentCodeOffset_add :
    (emission.add b).currentCodeOffset =
      b.currentCodeOffset + emission.size := by
  unfold CodeBuilder.currentCodeOffset
  rw [codeBuffer_add, List.length_append]
  cases hIns : emission.ins? with
  | some ins =>
      rw [size_of_ins hIns, ← length_blank]
      rfl
  | none =>
      rw [size_of_none hIns]
      rfl

/- A mark is no instruction that could be out of a limit. -/
theorem emit_of_none
    (hIns : emission.ins? = none) :
    emission.overLimit = false ∧
      emission.emit b = .ok (emission.mark b) := by
  cases emission with
  | markLabel label => exact ⟨rfl, rfl⟩
  | sourcePos lineNum => exact ⟨rfl, rfl⟩
  | catchException begin_ end_ type localOffset localSize =>
      exact ⟨rfl, rfl⟩
  | _ => cases hIns

theorem emit_eq_add
    (hRange : b.currentCodeOffset < UINT_RANGE) :
    emission.emit b =
      if emission.overLimit then
        .error .reachLimit
      else if b.currentCodeOffset + emission.size <
          UINT_RANGE then
        .ok (emission.add b)
      else
        .error .outside := by
  cases hIns : emission.ins? with
  | some ins =>
      rw [Emission.emit_eq hIns, add_of_ins hIns,
        size_of_ins hIns, ← length_blank]
      rfl
  | none =>
      rcases @emit_of_none emission b hIns with ⟨hLimit, hEmit⟩
      rw [hEmit, hLimit, if_neg Bool.false_ne_true,
        size_of_none hIns, Nat.add_zero, if_pos hRange,
        add_of_none hIns]

def outcome (b : CodeBuilder) : Option Fault → Building
  | none => .ok b
  | some fault => .error fault

/- The emissions end with their first fault. -/
theorem emitAll_eq
    (hRange : b.currentCodeOffset < UINT_RANGE) :
    emitAll emissions b =
      outcome (addAll emissions b)
        (fault? b.currentCodeOffset emissions) := by
  induction emissions generalizing b with
  | nil => rfl
  | cons emission rest ih =>
      rw [emitAll, emit_eq_add hRange, fault?]
      by_cases hLimit : emission.overLimit = true
      · rw [if_pos hLimit, if_pos hLimit]
        rfl
      rw [if_neg hLimit, if_neg hLimit]
      by_cases hSize :
          b.currentCodeOffset + emission.size < UINT_RANGE
      · rw [if_pos hSize, if_pos hSize]
        show emitAll rest (emission.add b) = _
        have hNext := @currentCodeOffset_add emission b
        rw [← hNext] at hSize ⊢
        exact ih hSize
      · rw [if_neg hSize, if_neg hSize]
        rfl

theorem emitAll_eq_ok_iff :
    emitAll emissions {} = .ok b' ↔
      fault? 0 emissions = none ∧ b' = addAll emissions {} := by
  have hRun :
      emitAll emissions {} =
        outcome (addAll emissions {}) (fault? 0 emissions) :=
    @emitAll_eq emissions {} (Nat.le_of_ble_eq_true rfl)
  rw [hRun]
  cases hFault : fault? 0 emissions with
  | none =>
      unfold outcome
      constructor
      · intro hEq
        exact ⟨rfl, (Except.ok.inj hEq).symm⟩
      · intro hEq
        rw [hEq.2]
  | some fault =>
      unfold outcome
      constructor
      · intro hEq
        cases hEq
      · intro hEq
        cases hEq.1

/- What is emitted without a fault is in the limits. -/
theorem fault?_cons_eq_none
    {start : Nat}
    {emission : Emission}
    (hFault : fault? start (emission :: emissions) = none) :
    emission.overLimit = false ∧
      start + emission.size < UINT_RANGE ∧
        fault? (start + emission.size) emissions = none := by
  rw [fault?] at hFault
  by_cases hLimit : emission.overLimit = true
  · rw [if_pos hLimit] at hFault
    cases hFault
  rw [if_neg hLimit] at hFault
  by_cases hSize : start + emission.size < UINT_RANGE
  · rw [if_pos hSize] at hFault
    exact ⟨Bool.eq_false_iff.mpr hLimit, hSize, hFault⟩
  · rw [if_neg hSize] at hFault
    cases hFault

theorem sizeOf_append (first second : List Emission) :
    sizeOf (first ++ second) = sizeOf first + sizeOf second := by
  unfold sizeOf
  rw [List.map_append, List.sum_append]

theorem sizeOf_lt
    {start : Nat}
    (hFault : fault? start emissions = none)
    (hStart : start < UINT_RANGE) :
    start + sizeOf emissions < UINT_RANGE := by
  induction emissions generalizing start with
  | nil => exact hStart
  | cons emission rest ih =>
      rcases fault?_cons_eq_none hFault with
        ⟨_, hSize, hFaultRest⟩
      have hRest := ih hFaultRest hSize
      rw [Nat.add_assoc] at hRest
      exact hRest

----
-- The Builder
----

theorem codeBuffer_addAll :
    (addAll emissions b).codeBuffer =
      b.codeBuffer ++
        (instructions emissions).flatMap Ins.blank := by
  induction emissions generalizing b with
  | nil => exact (List.append_nil _).symm
  | cons emission rest ih =>
      rw [addAll, ih, codeBuffer_add, List.append_assoc]
      cases hIns : emission.ins? with
      | some ins =>
          rw [instructions_of_ins hIns]
          rfl
      | none =>
          rw [instructions_of_none hIns]
          rfl

def targetsFrom :
    Nat → List Ins → List (Label × LabelTarget)
  | _, [] => []
  | start, ins :: rest =>
      ins.targets start ++ targetsFrom (start + ins.size) rest

theorem labelMap_mark (emission : Emission) :
    (emission.mark b).labelMap = b.labelMap := by
  cases emission with
  | sourcePos lineNum =>
      simp only [Emission.mark, CodeBuilder.emitSourcePos]
      by_cases hSame :
          b.lineNumEntries.getLast?.map LineNumEntry.lineNum =
            some lineNum
      · rw [if_pos hSame]
      · rw [if_neg hSame]
  | _ => rfl

theorem labelMap_addAll :
    (addAll emissions b).labelMap =
      b.labelMap ++
        targetsFrom b.currentCodeOffset
          (instructions emissions) := by
  induction emissions generalizing b with
  | nil => exact (List.append_nil _).symm
  | cons emission rest ih =>
      rw [addAll, ih, currentCodeOffset_add]
      cases hIns : emission.ins? with
      | some ins =>
          rw [add_of_ins hIns, size_of_ins hIns,
            instructions_of_ins hIns]
          exact List.append_assoc _ _ _
      | none =>
          rw [add_of_none hIns, size_of_none hIns,
            labelMap_mark, instructions_of_none hIns]
          rfl

/- The label is marked last at the result. -/
def addressFrom :
    Nat → List Emission → Label → Option Nat
  | _, [], _ => none
  | start, emission :: rest, label =>
      (addressFrom (start + emission.size) rest label).or
        (if emission = .markLabel label then
          some start
        else
          none)

theorem index_add (label : Label) :
    (emission.add b).index label =
      if emission = .markLabel label then
        b.currentCodeOffset
      else
        b.index label := by
  cases hIns : emission.ins? with
  | some ins =>
      have hNot : emission ≠ .markLabel label := by
        intro hEq
        rw [hEq] at hIns
        cases hIns
      rw [add_of_ins hIns, if_neg hNot]
      rfl
  | none =>
      rw [add_of_none hIns]
      cases emission with
      | markLabel other =>
          show
            (if label = other then b.currentCodeOffset
              else b.index label) = _
          by_cases hEq : label = other
          · rw [if_pos hEq, if_pos (by rw [hEq])]
          · rw [if_neg hEq, if_neg]
            intro hSame
            exact hEq (Emission.markLabel.inj hSame).symm
      | sourcePos lineNum =>
          rw [if_neg (fun hEq => by cases hEq)]
          simp only [Emission.mark, CodeBuilder.emitSourcePos]
          by_cases hSame :
              b.lineNumEntries.getLast?.map
                  LineNumEntry.lineNum =
                some lineNum
          · rw [if_pos hSame]
          · rw [if_neg hSame]
      | catchException begin_ end_ type localOffset localSize =>
          rw [if_neg (fun hEq => by cases hEq)]
          rfl
      | _ => cases hIns

theorem index_addAll (label : Label) :
    (addAll emissions b).index label =
      (addressFrom b.currentCodeOffset emissions label).getD
        (b.index label) := by
  induction emissions generalizing b with
  | nil => rfl
  | cons emission rest ih =>
      rw [addAll, ih, currentCodeOffset_add, addressFrom,
        index_add]
      cases
          addressFrom (b.currentCodeOffset + emission.size) rest
            label with
      | some address => rfl
      | none =>
          by_cases hMark : emission = .markLabel label
          · rw [if_pos hMark, if_pos hMark]
            rfl
          · rw [if_neg hMark, if_neg hMark]
            rfl

/- A label that is never marked keeps the index zero. -/
def addressOf (emissions : List Emission) (label : Label) : Nat :=
  (addressFrom 0 emissions label).getD 0

theorem index_addAll_init :
    (addAll emissions {}).index = addressOf emissions := by
  funext label
  exact index_addAll label

----
-- Filling in the Labels
----

/- The bytes of instructions that start at `start`. -/
def bytesFrom
    (index : Label → Nat) : Nat → List Ins → List Nat
  | _, [] => []
  | start, ins :: rest =>
      ins.bytes index start ++
        bytesFrom index (start + ins.size) rest

def piecesFrom
    (index : Label → Nat) : Nat → List Ins → List (Piece Nat)
  | _, [] => []
  | start, ins :: rest =>
      ins.pieces index start ++
        piecesFrom index (start + ins.size) rest

variable {index : Label → Nat}
variable {start place : Nat}
variable {code code' : List Nat}
variable {order : List (Label × LabelTarget)}

/- The place and the bytes of a target. -/
def holeOf
    (index : Label → Nat)
    (entry : Label × LabelTarget) : Nat × List Nat :=
  (entry.2.targetIndex,
    writeN entry.2.offsetLen.size
      (index entry.1 - entry.2.baseIndex))

/- The label is not before the base and not too far from it. -/
def Reaches
    (index : Label → Nat)
    (entry : Label × LabelTarget) : Prop :=
  entry.2.baseIndex ≤ index entry.1 ∧
    entry.2.offsetLen.admits
      (index entry.1 - entry.2.baseIndex) = true

theorem finalizeFrom_eq_done_iff :
    CodeBuilder.finalizeFrom index order code = .done code' ↔
      (∀ entry ∈ order, Reaches index entry) ∧
        code' = (order.map (holeOf index)).foldl fill code := by
  induction order generalizing code with
  | nil =>
      constructor
      · intro hDone
        have hSame := Built.done.inj hDone
        refine ⟨?_, hSame.symm⟩
        intro entry hIn
        exact absurd hIn List.not_mem_nil
      · intro hBoth
        rw [hBoth.2]
        rfl
  | cons entry order ih =>
      rcases entry with ⟨label, target⟩
      rw [List.map_cons, List.foldl_cons]
      simp only [CodeBuilder.finalizeFrom]
      by_cases hBase : target.baseIndex > index label
      · rw [if_pos hBase]
        constructor
        · intro hDone
          cases hDone
        · intro hBoth
          have hReach := hBoth.1 (label, target)
            List.mem_cons_self
          exact absurd hReach.1 (Nat.not_le_of_gt hBase)
      rw [if_neg hBase]
      by_cases hAdmits :
          target.offsetLen.admits
              (index label - target.baseIndex) =
            true
      · rw [if_pos hAdmits, ih]
        have hReach : Reaches index (label, target) :=
          ⟨Nat.le_of_not_gt hBase, hAdmits⟩
        apply and_congr_left
        intro _
        constructor
        · intro hRest
          exact List.forall_mem_cons.mpr ⟨hReach, hRest⟩
        · intro hAll
          exact (List.forall_mem_cons.mp hAll).2
      · rw [if_neg hAdmits]
        constructor
        · intro hDone
          cases hDone
        · intro hBoth
          have hReach := hBoth.1 (label, target)
            List.mem_cons_self
          exact absurd hReach.2 hAdmits

theorem blank_slots
    (slots : List Slot) :
    (slots.map (Slot.piece index start)).flatMap Piece.blank =
      (slots.map (Slot.piece (fun _ => 0) 0)).flatMap
        Piece.blank := by
  induction slots with
  | nil => rfl
  | cons slot slots ih =>
      rw [List.map_cons, List.map_cons, List.flatMap_cons,
        List.flatMap_cons, ih]
      cases slot with
      | value width v => rfl
      | offset label extra => rfl
      | address label => rfl

theorem blank_pieces (ins : Ins) :
    (ins.pieces index start).flatMap Piece.blank =
      ins.blank :=
  congrArg (List.cons ins.op.toByte) (blank_slots ins.slots)

theorem blank_piecesFrom (code : List Ins) :
    (piecesFrom index start code).flatMap Piece.blank =
      code.flatMap Ins.blank := by
  induction code generalizing start with
  | nil => rfl
  | cons ins code ih =>
      rw [piecesFrom, List.flatMap_append, blank_pieces, ih,
        List.flatMap_cons]

theorem filled_piecesFrom (code : List Ins) :
    (piecesFrom index start code).flatMap Piece.filled =
      bytesFrom index start code := by
  induction code generalizing start with
  | nil => rfl
  | cons ins code ih =>
      rw [piecesFrom, List.flatMap_append, ih]
      rfl

theorem bytes_eq (ins : Ins) :
    ins.bytes index start =
      ins.op.toByte ::
        (ins.slots.map (Slot.piece index start)).flatMap
          Piece.filled :=
  rfl

theorem length_bytes (ins : Ins) :
    (ins.bytes index start).length = ins.size := by
  have hSlots :
      ∀ slots : List Slot,
        ((slots.map (Slot.piece index start)).flatMap
            Piece.filled).length =
          slotsSize slots := by
    intro slots
    induction slots with
    | nil => rfl
    | cons slot slots ih =>
        have hSlot :
            (slot.piece index start).filled.length =
              slot.width := by
          cases slot with
          | value width v => exact length_writeN width v
          | offset label extra => exact length_writeN 2 _
          | address label => exact length_writeN 4 _
        rw [List.map_cons, List.flatMap_cons,
          List.length_append, hSlot, ih]
        rfl
  rw [bytes_eq, List.length_cons, hSlots, Nat.add_comm]
  rfl

theorem length_bytesFrom (code : List Ins) :
    (bytesFrom index start code).length =
      (code.map Ins.size).sum := by
  induction code generalizing start with
  | nil => rfl
  | cons ins code ih =>
      rw [bytesFrom, List.length_append, length_bytes, ih,
        List.map_cons, List.sum_cons]

theorem fits_piecesFrom
    (code : List Ins) :
    ∀ piece ∈ piecesFrom index start code, piece.Fits := by
  induction code generalizing start with
  | nil =>
      intro piece hIn
      exact absurd hIn List.not_mem_nil
  | cons ins code ih =>
      intro piece hIn
      rcases List.mem_append.mp hIn with hHere | hLater
      · rcases List.mem_cons.mp hHere with hOp | hSlot
        · rw [hOp]
          trivial
        · rcases List.mem_map.mp hSlot with ⟨slot, _, hEq⟩
          rw [← hEq]
          cases slot with
          | value width v => trivial
          | offset label extra | address label =>
              exact ⟨List.cons_ne_nil _ _, rfl⟩
      · exact ih piece hLater

theorem holes_slots
    (slots : List Slot) :
    holes place (slots.map (Slot.piece index start)) =
      ((slotsAt place slots).filterMap
        (fun entry => entry.2.target? start entry.1)).map
          (holeOf index) := by
  induction slots generalizing place with
  | nil => rfl
  | cons slot slots ih =>
      cases slot with
      | value width v =>
          have hWidth := length_writeN width v
          show
            holes (place + (writeN width v).length) _ = _
          rw [hWidth]
          exact ih
      | offset label extra | address label =>
          exact congrArg (List.cons _) ih

theorem holes_piecesFrom (code : List Ins) :
    holes start (piecesFrom index start code) =
      (targetsFrom start code).map (holeOf index) := by
  induction code generalizing start with
  | nil => rfl
  | cons ins code ih =>
      rw [piecesFrom, holes_append, blank_pieces, length_blank,
        ih, targetsFrom, List.map_append]
      apply congrArg (fun front => front ++ _)
      exact holes_slots ins.slots

/-
  If every label reaches its uses, the code is that of the
  instructions with the addresses of the labels.
-/
theorem finalize_eq_done_iff
    (hOrder : order.Perm (addAll emissions {}).labelMap) :
    (addAll emissions {}).finalize order = .done code ↔
      (∀ entry ∈ targetsFrom 0 (instructions emissions),
        Reaches (addressOf emissions) entry) ∧
        code =
          bytesFrom (addressOf emissions) 0
            (instructions emissions) := by
  have hTargets :
      (addAll emissions {}).labelMap =
        targetsFrom 0 (instructions emissions) :=
    @labelMap_addAll emissions {}
  rw [hTargets] at hOrder
  have hBuffer :
      (addAll emissions {}).codeBuffer =
        (instructions emissions).flatMap Ins.blank :=
    @codeBuffer_addAll emissions {}
  have hFilled :
      (order.map (holeOf (addressOf emissions))).foldl fill
          (addAll emissions {}).codeBuffer =
        bytesFrom (addressOf emissions) 0
          (instructions emissions) := by
    rw [hBuffer,
      ← @blank_piecesFrom (addressOf emissions) 0,
      foldl_overwrite (fits_piecesFrom _), filled_piecesFrom]
    rw [holes_piecesFrom]
    exact hOrder.map _
  unfold CodeBuilder.finalize
  rw [finalizeFrom_eq_done_iff, index_addAll_init, hFilled]
  apply and_congr_left
  intro _
  constructor
  · intro hAll entry hIn
    exact hAll entry (hOrder.mem_iff.mpr hIn)
  · intro hAll entry hIn
    exact hAll entry (hOrder.mem_iff.mp hIn)

theorem build_eq_done
    {c : CompiledCode}
    (hBuild : b.build order = .done c) :
    b.finalize order = .done c.code ∧
      c.lineNumEntries =
          b.lineNumEntries ++ [⟨SYS_LIMIT_FUNC_LEN, 0⟩] ∧
        c.exceptionEntries = b.catchBuilders.map b.toEntry := by
  unfold CodeBuilder.build at hBuild
  cases hFinal : b.finalize order with
  | done code =>
      simp only [hFinal] at hBuild
      rw [← Built.done.inj hBuild]
      exact ⟨rfl, rfl, rfl⟩
  | failed | fatal =>
      simp only [hFinal] at hBuild
      cases hBuild

end Bytecode

end Ydsh
