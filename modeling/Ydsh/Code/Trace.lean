import Mathlib.Data.Set.Insert
import Ydsh.Checker.FlowContext
import Ydsh.Code.Generator

/-
  What the generator does with the jumps of a script.

  A trace is a fault of the generator or one of its jump
  records, both without the numbers of labels.  `Traces` says
  which traces a piece of code has; there is one rule for each
  way to put code together.

  Main declarations:
    * `GenShape`
    * `JumpTrace`
    * `Traces`
    * `Traces.seq`
    * `Traces.codeUnit`
-/

----
-- Traces
----

namespace Ydsh

/- The labels of a loop without their numbers. -/
structure LoopShape where
  blockIndex : Nat
  loopPos : Nat
  loopType : DSType
  enclosing : List Nat
  deriving DecidableEq, Repr

/- The stacks of a code builder without label numbers. -/
structure GenShape where
  kind : CodeKind
  assertion : Bool
  localVars : List (Nat × Nat)
  loops : List LoopShape
  tries : List Nat
  deriving DecidableEq, Repr

def LoopState.shape (loop : LoopState) : LoopShape :=
  { blockIndex := loop.blockIndex
    loopPos := loop.loopPos
    loopType := loop.loopType
    enclosing := loop.enclosing.map FinallyState.tryPos }

def GenEnv.shape (env : GenEnv) : GenShape :=
  { kind := env.kind
    assertion := env.assertion
    localVars := env.localVars
    loops := env.loopLabels.map LoopState.shape
    tries := env.finallyLabels.map FinallyState.tryPos }

/- A jump record without label numbers. -/
structure JumpTrace where
  pos : Nat
  op : JumpOp
  valueType : DSType
  leavingBlock : Bool
  target : Option Nat
  loop : Option LoopShape
  known : List Nat
  entered : List Nat
  deriving DecidableEq, Repr

def JumpRecord.trace (record : JumpRecord) : JumpTrace :=
  { pos := record.pos
    op := record.op
    valueType := record.valueType
    leavingBlock := record.leavingBlock
    target := record.target
    loop := record.loop.map LoopState.shape
    known := record.known.map FinallyState.tryPos
    entered := record.entered.map FinallyState.tryPos }

inductive Trace where
  | fault (kind : GenFault)
  | jump (trace : JumpTrace)
  deriving DecidableEq, Repr

def Item.record? : Item → Option JumpRecord
  | .jump record => some record
  | _ => none

/- The jump records of a finished code unit. -/
def CodeUnit.jumpRecords (unit : CodeUnit) : List JumpRecord :=
  unit.items.filterMap Item.record?

/- The jump records of finished and of unfinished code. -/
def GenState.jumpRecords
    (state : GenState)
    (items : List Item) : List JumpRecord :=
  state.units.flatMap CodeUnit.jumpRecords ++
    items.filterMap Item.record?

def GenState.HasJump
    (state : GenState)
    (items : List Item)
    (trace : JumpTrace) : Prop :=
  ∃ record ∈ state.jumpRecords items, record.trace = trace

/-
  The label is marked where the finally block of its try
  begins, behind the handler that runs the block.
-/
def FinallyState.Marked
    (found : FinallyState)
    (items : List Item) : Prop :=
  ∃ front beginLabel localOffset localSize back,
    items =
      front ++
        .mark found.label ::
          .catchException beginLabel found.label .root
              localOffset localSize ::
            .enter (.finallyBlock found.tryPos found.label) ::
              back

/-
  Every jump record stands in front of the code of its jump;
  the labels this code enters are marked or still pending.
-/
def JumpsFollowed
    (pending : List FinallyState)
    (items : List Item) : Prop :=
  ∀ front record back,
    items = front ++ .jump record :: back →
    (∃ ins, record.Leaves ins ∧ record.code ins <+: back) ∧
      ∀ found ∈ record.entered,
        found ∈ pending ∨ found.Marked items

def GenState.Followed
    (state : GenState)
    (pending : List FinallyState)
    (items : List Item) : Prop :=
  (∀ unit ∈ state.units, JumpsFollowed [] unit.items) ∧
    JumpsFollowed pending items

/-
  A code that fails has the trace of its fault.  A code that
  succeeds has no fault among its traces and records exactly
  the jumps among them.
-/
def TracesAt
    (code : Emit)
    (env : GenEnv)
    (pending : List FinallyState)
    (traces : Set Trace) : Prop :=
  ∀ state,
    match code env state with
    | .error kind => .fault kind ∈ traces
    | .ok (next, items) =>
        (∀ kind, .fault kind ∉ traces) ∧
          (∀ trace,
            next.HasJump items trace ↔
              state.HasJump [] trace ∨ .jump trace ∈ traces) ∧
            (state.Followed [] [] → next.Followed pending items)

def Traces
    (code : Emit)
    (shape : GenShape)
    (traces : Set Trace) : Prop :=
  ∀ env,
    env.shape = shape →
    TracesAt code env env.finallyLabels traces

/- A part that a node may lack has no traces when it does. -/
def OptTraces
    (code : Option Emit)
    (shape : GenShape)
    (traces : Set Trace) : Prop :=
  match code with
  | none => traces = ∅
  | some code => Traces code shape traces

----
-- Records of Code Put Together
----

theorem GenState.hasJump_append
    (state : GenState)
    (front back : List Item)
    (trace : JumpTrace) :
    state.HasJump (front ++ back) trace ↔
      state.HasJump front trace ∨ state.HasJump back trace := by
  simp only [GenState.HasJump, GenState.jumpRecords,
    List.filterMap_append, List.mem_append]
  constructor
  · rintro ⟨record, hUnits | hFront | hBack, hTrace⟩
    · exact Or.inl ⟨record, Or.inl hUnits, hTrace⟩
    · exact Or.inl ⟨record, Or.inr hFront, hTrace⟩
    · exact Or.inr ⟨record, Or.inr hBack, hTrace⟩
  · rintro (⟨record, hMem, hTrace⟩ | ⟨record, hMem, hTrace⟩)
    · rcases hMem with hUnits | hFront
      · exact ⟨record, Or.inl hUnits, hTrace⟩
      · exact ⟨record, Or.inr (Or.inl hFront), hTrace⟩
    · rcases hMem with hUnits | hBack
      · exact ⟨record, Or.inl hUnits, hTrace⟩
      · exact ⟨record, Or.inr (Or.inr hBack), hTrace⟩

/- Later code keeps the records of the code before it. -/
theorem GenState.hasJump_of_nil
    {state : GenState}
    {trace : JumpTrace}
    (items : List Item)
    (hJump : state.HasJump [] trace) :
    state.HasJump items trace := by
  have hBoth := state.hasJump_append [] items trace
  rw [List.nil_append] at hBoth
  exact hBoth.mpr (Or.inl hJump)

theorem GenState.hasJump_split
    (state : GenState)
    (items : List Item)
    (trace : JumpTrace) :
    state.HasJump items trace ↔
      state.HasJump [] trace ∨
        ∃ record ∈ items.filterMap Item.record?,
          record.trace = trace := by
  simp only [GenState.HasJump, GenState.jumpRecords,
    List.mem_append, List.filterMap_nil, List.not_mem_nil,
    or_false, or_and_right, exists_or]

/- Each of two codes adds its own records. -/
theorem GenState.hasJump_seq
    {state middle final : GenState}
    {items rest : List Item}
    {trace : JumpTrace}
    {front back : Prop}
    (hFront :
      middle.HasJump items trace ↔
        state.HasJump [] trace ∨ front)
    (hBack :
      final.HasJump rest trace ↔
        middle.HasJump [] trace ∨ back) :
    final.HasJump (items ++ rest) trace ↔
      state.HasJump [] trace ∨ front ∨ back := by
  rw [GenState.hasJump_append]
  constructor
  · rintro (hItems | hRest)
    · rcases (final.hasJump_split items trace).mp hItems with
        hUnits | hOwn
      · rcases hBack.mp (GenState.hasJump_of_nil rest hUnits) with
          hMiddle | hNew
        · have hAll := hFront.mp (hasJump_of_nil items hMiddle)
          exact hAll.imp_right Or.inl
        · exact Or.inr (Or.inr hNew)
      · have hMiddle :=
          (middle.hasJump_split items trace).mpr (Or.inr hOwn)
        exact (hFront.mp hMiddle).imp_right Or.inl
    · rcases hBack.mp hRest with hMiddle | hNew
      · have hAll := hFront.mp (hasJump_of_nil items hMiddle)
        exact hAll.imp_right Or.inl
      · exact Or.inr (Or.inr hNew)
  · intro hAny
    have hCases : middle.HasJump items trace ∨ back := by
      rcases hAny with hState | hNew | hNew
      · exact Or.inl (hFront.mpr (Or.inl hState))
      · exact Or.inl (hFront.mpr (Or.inr hNew))
      · exact Or.inr hNew
    rcases hCases with hMiddle | hNew
    · rcases (middle.hasJump_split items trace).mp hMiddle with
        hUnits | hOwn
      · exact Or.inr (hBack.mpr (Or.inl hUnits))
      · exact
          Or.inl ((final.hasJump_split items trace).mpr
            (Or.inr hOwn))
    · exact Or.inr (hBack.mpr (Or.inr hNew))

/- Finishing a unit moves its records, it loses none. -/
theorem GenState.hasJump_finish
    (state : GenState)
    (unit : CodeUnit)
    (trace : JumpTrace) :
    GenState.HasJump
        { state with units := state.units ++ [unit] } [] trace ↔
      state.HasJump unit.items trace := by
  simp only [GenState.HasJump, GenState.jumpRecords,
    List.flatMap_append, List.flatMap_cons, List.flatMap_nil,
    List.append_nil, CodeUnit.jumpRecords, List.filterMap_nil]

theorem JumpRecord.code_noRecord
    (record : JumpRecord)
    (ins : Ins Label) :
    ∀ item ∈ record.code ins, item.record? = none := by
  intro item hItem
  rcases List.mem_append.mp hItem with hEnter | hIns
  · rcases List.mem_map.mp hEnter with ⟨state, _, hIs⟩
    rw [← hIs]
    rfl
  · rw [List.mem_singleton.mp hIns]
    rfl

theorem FinallyState.Marked.append
    {found : FinallyState}
    {items : List Item}
    (hMarked : found.Marked items)
    (before after : List Item) :
    found.Marked (before ++ items ++ after) := by
  rcases hMarked with
    ⟨front, beginLabel, localOffset, localSize, back, hItems⟩
  refine
    ⟨before ++ front, beginLabel, localOffset, localSize,
      back ++ after, ?_⟩
  simp only [hItems, List.append_assoc, List.cons_append]

section

variable {pending : List FinallyState}

theorem jumpsFollowed_nil : JumpsFollowed pending [] := by
  intro front record back hEq
  cases front <;> cases hEq

theorem jumpsFollowed_append
    {first second : List Item}
    (hFirst : JumpsFollowed pending first)
    (hSecond : JumpsFollowed pending second) :
    JumpsFollowed pending (first ++ second) := by
  have hInSecond :
      ∀ front record back,
        second = front ++ .jump record :: back →
        (∃ ins, record.Leaves ins ∧ record.code ins <+: back) ∧
          ∀ found ∈ record.entered,
            found ∈ pending ∨ found.Marked (first ++ second) := by
    intro front record back hEq
    rcases hSecond front record back hEq with ⟨hCode, hEntered⟩
    refine ⟨hCode, fun found hFound => ?_⟩
    refine (hEntered found hFound).imp_right (fun hMarked => ?_)
    have hAppended := hMarked.append first []
    rwa [List.append_nil] at hAppended
  intro front record back hEq
  rcases List.append_eq_append_iff.mp hEq with
    ⟨middle, hFront, hRest⟩ | ⟨middle, hFront, hRest⟩
  · exact hInSecond middle record back hRest
  · cases middle with
    | nil => exact hInSecond [] record back hRest.symm
    | cons item middle =>
        cases hRest
        rcases hFirst front record middle hFront with
          ⟨⟨ins, hLeaves, hPrefix⟩, hEntered⟩
        refine
          ⟨⟨ins, hLeaves,
              hPrefix.trans (List.prefix_append middle second)⟩,
            fun found hFound => ?_⟩
        exact
          (hEntered found hFound).imp_right
            (fun hMarked => hMarked.append [] second)

theorem jumpsFollowed_of_noRecord
    {items : List Item}
    (hItems : ∀ item ∈ items, item.record? = none) :
    JumpsFollowed pending items := by
  intro front record back hEq
  have hMem : Item.jump record ∈ items := by
    rw [hEq]
    exact List.mem_append_right _ List.mem_cons_self
  cases hItems _ hMem

/- A record together with the code of its jump. -/
theorem jumpsFollowed_jump
    {record : JumpRecord}
    {ins : Ins Label}
    (hLeaves : record.Leaves ins)
    (hEntered : record.entered ⊆ pending) :
    JumpsFollowed pending (.jump record :: record.code ins) := by
  intro front found back hEq
  cases front with
  | nil =>
      cases hEq
      exact
        ⟨⟨ins, hLeaves, List.prefix_refl _⟩,
          fun _ hFound => Or.inl (hEntered hFound)⟩
  | cons item front =>
      have hMem : Item.jump found ∈ record.code ins := by
        rw [(List.cons.inj hEq).2]
        exact List.mem_append_right _ List.mem_cons_self
      cases record.code_noRecord ins _ hMem

theorem jumpsFollowed_cons
    (found : FinallyState)
    {items : List Item}
    (hItems : JumpsFollowed pending items) :
    JumpsFollowed (found :: pending) items := by
  intro front record back hEq
  rcases hItems front record back hEq with ⟨hCode, hEntered⟩
  exact
    ⟨hCode, fun other hOther =>
      (hEntered other hOther).imp_left (List.mem_cons_of_mem _)⟩

theorem jumpsFollowed_tail
    {found : FinallyState}
    {items : List Item}
    (hItems : JumpsFollowed (found :: pending) items)
    (hMarked : found.Marked items) :
    JumpsFollowed pending items := by
  intro front record back hEq
  rcases hItems front record back hEq with ⟨hCode, hEntered⟩
  refine ⟨hCode, fun other hOther => ?_⟩
  rcases hEntered other hOther with hPending | hIs
  · rcases List.mem_cons.mp hPending with hFound | hRest
    · exact Or.inr (hFound ▸ hMarked)
    · exact Or.inl hRest
  · exact Or.inr hIs

end

----
-- Rules
----

namespace TracesAt

variable
  {env : GenEnv}
  {pending : List FinallyState}
  {code : Emit}
  {traces : Set Trace}

theorem congr
    {found : Set Trace}
    (hCode : TracesAt code env pending found)
    (hEq : found = traces) :
    TracesAt code env pending traces := by
  rw [← hEq]
  exact hCode

/- A record in front of the code of its jump. -/
theorem jump
    {record : JumpRecord}
    {ins : Ins Label}
    (hLeaves : record.Leaves ins)
    (hEntered : record.entered ⊆ pending)
    (hCode :
      ∀ state, code env state = .ok (state, record.code ins)) :
    TracesAt (Emit.seq (Emit.item (.jump record)) code) env
      pending {.jump record.trace} := by
  intro state
  have hRun :
      Emit.seq (Emit.item (.jump record)) code env state =
        .ok (state, .jump record :: record.code ins) := by
    simp only [Emit.seq, Emit.item, hCode, List.cons_append,
      List.nil_append]
  rw [hRun]
  refine
    ⟨fun kind hFault => ?_, fun trace => ?_, fun hUnits =>
      ⟨hUnits.1, jumpsFollowed_jump hLeaves hEntered⟩⟩
  · cases hFault
  · have hCodeRecords :
        (record.code ins).filterMap Item.record? = [] :=
      List.filterMap_eq_nil_iff.mpr (record.code_noRecord ins)
    have hRecords :
        (Item.jump record :: record.code ins).filterMap
            Item.record? = [record] := by
      rw [List.filterMap_cons_some
        (rfl : (Item.jump record).record? = some record),
        hCodeRecords]
    rw [GenState.hasJump_split, hRecords]
    simp only [List.mem_singleton, exists_eq_left,
      Set.mem_singleton_iff, Trace.jump.injEq,
      eq_comm (a := trace)]

theorem seq
    {first second : Emit}
    {front back : Set Trace}
    (hFirst : TracesAt first env pending front)
    (hSecond : TracesAt second env pending back) :
    TracesAt (Emit.seq first second) env pending
      (front ∪ back) := by
  intro state
  have hFront := hFirst state
  unfold Emit.seq
  cases hRun : first env state with
  | error kind =>
      rw [hRun] at hFront
      exact Or.inl hFront
  | ok result =>
      rcases result with ⟨middle, items⟩
      rw [hRun] at hFront
      have hBack := hSecond middle
      dsimp only
      cases hRest : second env middle with
      | error kind =>
          rw [hRest] at hBack
          exact Or.inr hBack
      | ok result =>
          rcases result with ⟨final, rest⟩
          rw [hRest] at hBack
          refine
            ⟨fun kind hFault => ?_, fun trace => ?_,
              fun hUnits => ?_⟩
          · rcases hFault with hFault | hFault
            · exact hFront.1 kind hFault
            · exact hBack.1 kind hFault
          · have hMiddle := hFront.2.1 trace
            have hFinal := hBack.2.1 trace
            exact GenState.hasJump_seq hMiddle hFinal
          · have hMiddle := hFront.2.2 hUnits
            have hFinal :=
              hBack.2.2 ⟨hMiddle.1, jumpsFollowed_nil⟩
            exact
              ⟨hFinal.1,
                jumpsFollowed_append hMiddle.2 hFinal.2⟩

/- The code behind a try does not know its finally block. -/
theorem behind
    (found : FinallyState)
    (hCode : TracesAt code env pending traces) :
    TracesAt code env (found :: pending) traces := by
  intro state
  have hRun := hCode state
  cases hIs : code env state with
  | error kind =>
      rw [hIs] at hRun
      exact hRun
  | ok result =>
      rw [hIs] at hRun
      refine ⟨hRun.1, hRun.2.1, fun hUnits => ?_⟩
      have hAfter := hRun.2.2 hUnits
      exact ⟨hAfter.1, jumpsFollowed_cons found hAfter.2⟩

/- The finally block of a try is no longer pending behind it. -/
theorem marked
    (found : FinallyState)
    (hCode : TracesAt code env (found :: pending) traces)
    (hMarked :
      ∀ state next items,
        code env state = .ok (next, items) →
        found.Marked items) :
    TracesAt code env pending traces := by
  intro state
  have hRun := hCode state
  cases hIs : code env state with
  | error kind =>
      rw [hIs] at hRun
      exact hRun
  | ok result =>
      rw [hIs] at hRun
      refine ⟨hRun.1, hRun.2.1, fun hUnits => ?_⟩
      have hAfter := hRun.2.2 hUnits
      exact
        ⟨hAfter.1,
          jumpsFollowed_tail hAfter.2 (hMarked _ _ _ hIs)⟩

end TracesAt

namespace Traces

open Emit

variable {shape : GenShape}

theorem congr
    {code : Emit}
    {traces found : Set Trace}
    (hCode : Traces code shape found)
    (hEq : found = traces) :
    Traces code shape traces := by
  rw [← hEq]
  exact hCode

theorem skip : Traces Emit.skip shape ∅ := by
  intro env _ state
  refine
    ⟨fun _ hFault => hFault, fun trace => ?_, fun hUnits =>
      ⟨hUnits.1, jumpsFollowed_nil⟩⟩
  exact (or_iff_left (Set.notMem_empty _)).symm

theorem fault (kind : GenFault) :
    Traces (Emit.fault kind) shape {.fault kind} := by
  intro env _ state
  exact Set.mem_singleton _

/- An item that is no jump record leaves no trace. -/
theorem item
    {item : Item}
    (hItem : item.record? = none) :
    Traces (Emit.item item) shape ∅ := by
  intro env _ state
  refine
    ⟨fun _ hFault => hFault, fun trace => ?_, fun hUnits => ?_⟩
  · rw [GenState.hasJump_split, List.filterMap_cons_none hItem]
    simp only [List.filterMap_nil, List.not_mem_nil, false_and,
      exists_false, Set.mem_empty_iff_false]
  · refine ⟨hUnits.1, jumpsFollowed_of_noRecord ?_⟩
    intro found hFound
    rw [List.mem_singleton.mp hFound]
    exact hItem

theorem emitIns (ins : Ins Label) :
    Traces (Emit.emitIns ins) shape ∅ :=
  item rfl

theorem seq
    {first second : Emit}
    {front back : Set Trace}
    (hFirst : Traces first shape front)
    (hSecond : Traces second shape back) :
    Traces (Emit.seq first second) shape (front ∪ back) :=
  fun env hShape => (hFirst env hShape).seq (hSecond env hShape)

theorem seqs_nil : Traces (seqs []) shape ∅ := skip

theorem seqs_cons
    {first : Emit}
    {rest : List Emit}
    {front back : Set Trace}
    (hFirst : Traces first shape front)
    (hRest : Traces (seqs rest) shape back) :
    Traces (seqs (first :: rest)) shape (front ∪ back) :=
  seq hFirst hRest

/- Code without traces in front of a sequence. -/
theorem seqs_silent
    {first : Emit}
    {rest : List Emit}
    {traces : Set Trace}
    (hFirst : Traces first shape ∅)
    (hRest : Traces (seqs rest) shape traces) :
    Traces (seqs (first :: rest)) shape traces :=
  (seq hFirst hRest).congr (Set.empty_union _)

theorem seqs_emitIns
    {ins : Ins Label}
    {rest : List Emit}
    {traces : Set Trace}
    (hRest : Traces (seqs rest) shape traces) :
    Traces (seqs (Emit.emitIns ins :: rest)) shape traces :=
  seqs_silent (emitIns ins) hRest

theorem seqs_item
    {found : Item}
    {rest : List Emit}
    {traces : Set Trace}
    (hItem : found.record? = none)
    (hRest : Traces (seqs rest) shape traces) :
    Traces (seqs (Emit.item found :: rest)) shape traces :=
  seqs_silent (item hItem) hRest

/- Code in front of a sequence without traces. -/
theorem seqs_cons_silent
    {first : Emit}
    {rest : List Emit}
    {traces : Set Trace}
    (hFirst : Traces first shape traces)
    (hRest : Traces (seqs rest) shape ∅) :
    Traces (seqs (first :: rest)) shape traces :=
  (seq hFirst hRest).congr (Set.union_empty _)

theorem seq_silent
    {first second : Emit}
    {traces : Set Trace}
    (hFirst : Traces first shape traces)
    (hSecond : Traces second shape ∅) :
    Traces (Emit.seq first second) shape traces :=
  (seq hFirst hSecond).congr (Set.union_empty _)

theorem silent_seq
    {first second : Emit}
    {traces : Set Trace}
    (hFirst : Traces first shape ∅)
    (hSecond : Traces second shape traces) :
    Traces (Emit.seq first second) shape traces :=
  (seq hFirst hSecond).congr (Set.empty_union _)

theorem within
    (region : Region)
    {code : Emit}
    {traces : Set Trace}
    (hCode : Traces code shape traces) :
    Traces (Emit.within region code) shape traces :=
  (item rfl).silent_seq (hCode.seq_silent (item rfl))

theorem when
    (condition : Bool)
    {code : Emit}
    (hCode : Traces code shape ∅) :
    Traces (Emit.when condition code) shape ∅ := by
  cases condition with
  | false => exact skip
  | true => exact hCode

theorem makeLabel
    {rest : Label → Emit}
    {traces : Set Trace}
    (hRest : ∀ label, Traces (rest label) shape traces) :
    Traces (Emit.makeLabel rest) shape traces := by
  intro env hShape state
  exact
    hRest state.nextLabel env hShape
      { state with nextLabel := state.nextLabel + 1 }

theorem readEnv
    {code : GenEnv → Emit}
    {traces : Set Trace}
    (hCode :
      ∀ env,
        env.shape = shape →
        TracesAt (code env) env env.finallyLabels traces) :
    Traces (Emit.readEnv code) shape traces :=
  hCode

/- The code may run with other ranges and loops. -/
theorem localEnv
    {change : GenEnv → GenEnv}
    {inner : GenShape}
    {code : Emit}
    {traces : Set Trace}
    (hChange :
      ∀ env,
        env.shape = shape →
        (change env).shape = inner ∧
          (change env).finallyLabels = env.finallyLabels)
    (hCode : Traces code inner traces) :
    Traces (Emit.localEnv change code) shape traces := by
  intro env hShape
  rcases hChange env hShape with ⟨hInner, hLabels⟩
  rw [← hLabels]
  exact hCode (change env) hInner

/- The guarded code of a try in front of its finally block. -/
theorem withFinallyLabel
    {label : Label}
    {tryPos : Nat}
    {guarded block : Emit}
    {inner : GenShape}
    {front back : Set Trace}
    (hInner : inner = { shape with tries := tryPos :: shape.tries })
    (hGuarded : Traces guarded inner front)
    (hBlock : Traces block shape back)
    (hMarked :
      ∀ env state next items,
        block env state = .ok (next, items) →
        FinallyState.Marked { label, tryPos } items) :
    Traces
      (Emit.seq (Emit.withFinallyLabel label tryPos guarded)
        block)
      shape (front ∪ back) := by
  intro env hShape
  refine
    TracesAt.marked { label, tryPos }
      (TracesAt.seq ?_ ((hBlock env hShape).behind _)) ?_
  · refine hGuarded _ ?_
    rw [hInner, ← hShape]
    rfl
  · intro state next items hRun
    unfold Emit.seq at hRun
    split at hRun
    next => cases hRun
    next middle front hFront =>
      split at hRun
      next => cases hRun
      next final rest hRest =>
        cases hRun
        have hAppended :=
          (hMarked env middle next rest hRest).append front []
        rwa [List.append_nil] at hAppended

/- The traces of a function body are those of its unit. -/
theorem codeUnit
    {kind : CodeKind}
    {name : String}
    {localVarNum : Nat}
    {type : DSType}
    {code : Emit}
    {rest : Nat → Emit}
    {traces : Set Trace}
    (hCode :
      Traces code
        { kind
          assertion := shape.assertion
          localVars := []
          loops := []
          tries := [] }
        traces)
    (hRest : ∀ unit, Traces (rest unit) shape ∅) :
    Traces (Emit.codeUnit kind name localVarNum type code rest)
      shape traces := by
  intro env hShape state
  have hUnit :=
    hCode
      { kind
        assertion := env.assertion
        localVars := []
        loopLabels := []
        finallyLabels := [] }
      (by rw [← hShape]; rfl) state
  unfold Emit.codeUnit
  cases hRun :
      code
        { kind
          assertion := env.assertion
          localVars := []
          loopLabels := []
          finallyLabels := [] }
        state with
  | error fault =>
      rw [hRun] at hUnit
      exact hUnit
  | ok result =>
      rcases result with ⟨next, items⟩
      rw [hRun] at hUnit
      dsimp only at hUnit ⊢
      have hFinal :=
        hRest next.units.length env hShape
          { next with
            units :=
              next.units ++
                [{ kind, name, localVarNum, type, items }] }
      split at hFinal
      next fault hError =>
        cases hFinal
      next final rest hOk =>
        refine
          ⟨hUnit.1, fun trace => ?_, fun hUnits => ?_⟩
        · rw [hFinal.2.1 trace, GenState.hasJump_finish,
            hUnit.2.1 trace]
          exact or_iff_left (Set.notMem_empty _)
        · have hBody := hUnit.2.2 hUnits
          refine
            hFinal.2.2 ⟨fun unit hIn => ?_, jumpsFollowed_nil⟩
          rcases List.mem_append.mp hIn with hOld | hNew
          · exact hBody.1 unit hOld
          · rw [List.mem_singleton.mp hNew]
            exact hBody.2

end Traces

end Ydsh
