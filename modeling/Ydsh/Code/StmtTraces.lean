import Ydsh.Code.ExprTraces

/-
  Traces of the visitors of statements.

  Blocks, loops and tries are the visitors that change the
  stacks of the code builder; jumps are the ones with traces
  of their own.

  Main declarations:
    * `Generator.traces_generateBlock`
    * `Generator.traces_visitLoopNode`
    * `Generator.traces_visitTryNode`
    * `Generator.traces_generateBreakContinue`
-/

----
-- Blocks and Child Processes
----

namespace Ydsh

namespace Generator

open Emit

section

variable {assertion : Bool}
variable {shape : GenShape}
variable {traces : Set Trace}
variable {nodes : List Node}

theorem traces_generateBlock
    {code : Emit}
    (localOffset localSize : Nat)
    (needReclaim : Bool)
    (hCode :
      Traces code (shape.enterSlots localOffset localSize)
        traces) :
    Traces
      (generateBlock localOffset localSize needReclaim code)
      shape traces := by
  refine Traces.localEnv (fun env hShape => ?_)
    (hCode.seq_silent (Traces.when _ (Traces.emitIns _)))
  rw [← hShape]
  exact ⟨rfl, rfl⟩

theorem traces_makeLabels
    {rest : List Label → Emit}
    (n : Nat)
    (hRest :
      ∀ labels, labels.length = n →
        Traces (rest labels) shape traces) :
    Traces (makeLabels n rest) shape traces := by
  induction n generalizing rest with
  | zero => exact hRest [] rfl
  | succ n ih =>
      refine Traces.makeLabel (fun label => ?_)
      refine ih (fun labels hLength => ?_)
      exact hRest (label :: labels) (congrArg Nat.succ hLength)

theorem traces_pipelineChildren
    {labels : List Label}
    (hNodes :
      ∀ node ∈ nodes, NodeTraces assertion shape node)
    (hLength : labels.length = nodes.length)
    (first : Bool) :
    Traces
      (pipelineChildren first
        (nodes.map (fun node => (code node).visit)) labels)
      shape (listTraces assertion shape nodes) := by
  induction nodes generalizing labels first with
  | nil =>
      refine Traces.congr ?_ listTraces_nil.symm
      unfold pipelineChildren
      exact Traces.skip
  | cons node nodes ih =>
      cases labels with
      | nil => cases hLength
      | cons label labels =>
          have hHead := (hNodes node List.mem_cons_self).visit
          have hTail :=
            ih
              (fun rest hRest =>
                hNodes rest (List.mem_cons_of_mem _ hRest))
              (Nat.succ.inj hLength) false
          rw [List.map_cons]
          unfold pipelineChildren
          refine
            Traces.seqs_silent (Traces.when _ (Traces.emitIns _))
              ?_
          refine Traces.seqs_item rfl ?_
          refine
            (Traces.seqs_cons hHead
              (Traces.seqs_cons hTail Traces.seqs_nil)).congr ?_
          rw [listTraces_cons, Set.union_empty]

theorem traces_generatePipeline
    {last : Option Emit}
    {lastTraces : Set Trace}
    (ann : Ann)
    (hNodes :
      ∀ node ∈ nodes, NodeTraces assertion shape node)
    (baseIndex : Nat)
    (hLast :
      OptTraces last (shape.enterSlots baseIndex 1) lastTraces)
    (forkKind : ForkKind) :
    Traces
      (generatePipeline ann
        (nodes.map (fun node => (code node).visit)) last
        baseIndex forkKind)
      shape
      (listTraces assertion shape nodes ∪ lastTraces) := by
  refine traces_makeLabels _ (fun labels hLength => ?_)
  rw [List.length_map] at hLength
  refine Traces.makeLabel (fun lastLabel => ?_)
  refine Traces.makeLabel (fun begin_ => ?_)
  refine Traces.makeLabel (fun end_ => ?_)
  refine Traces.seqs_item rfl ?_
  refine Traces.seqs_emitIns ?_
  refine Traces.seqs_item rfl ?_
  refine
    Traces.seqs_cons
      ((traces_pipelineChildren hNodes hLength true).within _)
      ?_
  refine Traces.seqs_item rfl ?_
  refine Traces.seqs_item rfl ?_
  refine Traces.seqs_emitIns ?_
  refine Traces.seqs_item rfl ?_
  refine Traces.seqs_cons_silent ?_ Traces.seqs_nil
  cases last with
  | none =>
      exact Traces.skip.congr (Eq.symm hLast)
  | some code =>
      exact
        traces_generateBlock baseIndex 1 true
          (Traces.silent_seq (Traces.emitIns _) hLast)

theorem traces_visitWithNode
    {expr : Emit}
    (baseIndex : Nat)
    (hExpr :
      Traces expr (shape.enterSlots baseIndex 1) traces)
    (hRedirs :
      ∀ node ∈ nodes,
        NodeTraces assertion (shape.enterSlots baseIndex 1)
          node) :
    Traces (visitWithNode expr (visits nodes) baseIndex) shape
      (traces ∪
        listTraces assertion (shape.enterSlots baseIndex 1)
          nodes) := by
  refine traces_generateBlock baseIndex 1 true ?_
  refine Traces.seqs_emitIns ?_
  refine
    (Traces.seqs_cons (traces_visits hRedirs) ?_).congr
      (Set.union_comm _ _)
  refine Traces.seqs_emitIns ?_
  refine Traces.seqs_emitIns ?_
  exact Traces.seqs_cons_silent hExpr Traces.seqs_nil

theorem traces_generateFork
    {expr : Emit}
    (hExpr : Traces expr shape traces)
    (opKind : ForkKind) :
    Traces (generateFork expr opKind) shape traces := by
  refine Traces.makeLabel (fun beginLabel => ?_)
  refine Traces.makeLabel (fun endLabel => ?_)
  refine Traces.makeLabel (fun mergeLabel => ?_)
  have hChild :
      Traces
        (within .child
          (seq (emitIns (.fork opKind mergeLabel)) expr))
        shape traces :=
    ((Traces.emitIns _).silent_seq hExpr).within _
  refine Traces.seqs_item rfl ?_
  refine Traces.seqs_cons_silent hChild ?_
  refine Traces.seqs_item rfl ?_
  refine Traces.seqs_item rfl ?_
  refine Traces.seqs_emitIns ?_
  exact Traces.seqs_item rfl Traces.seqs_nil

theorem traces_visitForkNode
    {exprNode : Node}
    (hExpr : NodeTraces assertion shape exprNode)
    (opKind : ForkKind) :
    Traces (visitForkNode (code exprNode) opKind) shape
      (nodeTraces assertion shape exprNode) := by
  unfold visitForkNode
  split
  next pipeline hPipeline =>
    split
    · exact traces_generateFork hExpr.visit opKind
    · exact hExpr.pipeline pipeline hPipeline opKind
  next => exact traces_generateFork hExpr.visit opKind

theorem traces_visitBlockNode
    (baseIndex varSize : Nat)
    (hNodes :
      ∀ node ∈ nodes,
        NodeTraces assertion (shape.enterSlots baseIndex varSize)
          node) :
    Traces
      (visitBlockNode nodes (visits nodes) baseIndex varSize)
      shape
      (listTraces assertion (shape.enterSlots baseIndex varSize)
        nodes) := by
  unfold visitBlockNode
  split
  next hEmpty =>
    rw [List.isEmpty_iff.mp hEmpty, listTraces_nil]
    exact Traces.skip
  next =>
    refine Traces.readEnv (fun env hShape => ?_)
    exact
      traces_generateBlock baseIndex varSize _
        (traces_visits hNodes) env hShape

theorem traces_visitAssertNode
    {condNode message : Emit}
    (hCond :
      shape.assertion = true → Traces condNode shape traces)
    (hMessage : Traces message shape ∅) :
    Traces (visitAssertNode condNode message) shape
      (if shape.assertion then traces else ∅) := by
  refine Traces.readEnv (fun env hShape => ?_)
  have hAssertion : env.assertion = shape.assertion := by
    rw [← hShape]
    rfl
  rw [hAssertion]
  cases hFlag : shape.assertion with
  | false => exact Traces.skip env hShape
  | true =>
      exact
        traces_then_two (hCond hFlag) hMessage
          (Traces.emitIns _) env hShape

----
-- Loops and Branches
----

theorem traces_withLoopLabels
    {code : Emit}
    (breakLabel continueLabel breakWithValueLabel : Label)
    (pos : Nat)
    (type : DSType)
    (declared : Option Nat)
    (hCode :
      Traces code (shape.enterLoop pos type declared) traces) :
    Traces
      (withLoopLabels breakLabel continueLabel
        breakWithValueLabel pos type code)
      (shape.enterSlots (declared.getD 0)
        (if declared.isSome then 1 else 0))
      traces := by
  refine Traces.localEnv (fun env hShape => ⟨?_, rfl⟩) hCode
  have hVars :
      env.localVars =
        shape.localVars ++
          [(declared.getD 0,
            if declared.isSome then 1 else 0)] :=
    congrArg GenShape.localVars hShape
  have hTries :
      env.finallyLabels.map FinallyState.tryPos = shape.tries :=
    congrArg GenShape.tries hShape
  have hLoops :
      env.loopLabels.map LoopState.shape = shape.loops :=
    congrArg GenShape.loops hShape
  have hKind : env.kind = shape.kind :=
    congrArg GenShape.kind hShape
  have hAssertion : env.assertion = shape.assertion :=
    congrArg GenShape.assertion hShape
  simp only [GenEnv.shape, GenShape.enterLoop, LoopState.shape,
    List.map_cons, hVars, hTries, hKind, hAssertion,
    List.length_append, List.length_singleton, hLoops]

theorem traces_visitLoopNode
    {init iter block : Emit}
    {condition : Option Emit}
    {initTraces condTraces iterTraces blockTraces : Set Trace}
    (ann : Ann)
    (declared : Option Nat)
    (iterEmpty : Bool)
    (hInit :
      Traces init (shape.enterLoop ann.pos ann.type declared)
        initTraces)
    (hCondition :
      OptTraces condition
        (shape.enterLoop ann.pos ann.type declared) condTraces)
    (hIter :
      Traces iter (shape.enterLoop ann.pos ann.type declared)
        iterTraces)
    (hBlock :
      Traces block (shape.enterLoop ann.pos ann.type declared)
        blockTraces)
    (doWhile : Bool) :
    Traces
      (visitLoopNode ann declared iterEmpty init condition iter
        block doWhile)
      shape
      (initTraces ∪
        (condTraces ∪ (iterTraces ∪ blockTraces))) := by
  have hCond :
      Traces (condition.getD (emitIns .pushTrue))
        (shape.enterLoop ann.pos ann.type declared)
        condTraces := by
    cases condition with
    | none =>
        exact (Traces.emitIns _).congr (Eq.symm hCondition)
    | some code => exact hCondition
  refine traces_generateBlock _ _ _ ?_
  refine Traces.makeLabel (fun initLabel => ?_)
  refine Traces.makeLabel (fun startLabel => ?_)
  refine Traces.makeLabel (fun breakLabel => ?_)
  refine Traces.makeLabel (fun continueLabel => ?_)
  refine Traces.makeLabel (fun breakWithValueLabel => ?_)
  refine traces_withLoopLabels _ _ _ _ _ declared ?_
  refine Traces.seqs_cons hInit ?_
  refine Traces.seqs_silent (Traces.when _ (Traces.emitIns _)) ?_
  refine Traces.seqs_silent (Traces.when _ (Traces.emitIns _)) ?_
  refine Traces.seqs_item rfl ?_
  refine
    (Traces.seqs_cons hIter
      (Traces.seqs_item rfl
        (Traces.seqs_cons hCond ?_))).congr
      (Set.union_left_comm _ _ _)
  refine Traces.seqs_emitIns ?_
  refine Traces.seqs_item rfl ?_
  refine Traces.seqs_cons_silent hBlock ?_
  refine Traces.seqs_item rfl ?_
  exact
    Traces.seqs_silent
      (Traces.when _
        ((Traces.emitIns _).silent_seq (Traces.item rfl)))
      Traces.seqs_nil

theorem traces_visitIfNode
    {condition thenCode elseCode : Emit}
    {condTraces thenTraces elseTraces : Set Trace}
    (thenType : DSType)
    (elseEmpty : Bool)
    (hCond : Traces condition shape condTraces)
    (hThen : Traces thenCode shape thenTraces)
    (hElse : Traces elseCode shape elseTraces) :
    Traces
      (visitIfNode thenType elseEmpty condition thenCode
        elseCode)
      shape (condTraces ∪ (thenTraces ∪ elseTraces)) := by
  refine Traces.makeLabel (fun elseLabel => ?_)
  refine Traces.makeLabel (fun mergeLabel => ?_)
  refine Traces.seqs_cons hCond ?_
  refine Traces.seqs_emitIns ?_
  refine Traces.seqs_cons hThen ?_
  refine Traces.seqs_silent (Traces.when _ (Traces.emitIns _)) ?_
  refine Traces.seqs_item rfl ?_
  refine Traces.seqs_cons_silent hElse ?_
  exact Traces.seqs_item rfl Traces.seqs_nil

----
-- Case Expressions
----

theorem traces_mapCaseArms
    {labels : List Label}
    (hLength : labels.length = nodes.length)
    (hNodes :
      ∀ node ∈ nodes, NodeTraces assertion shape node)
    (mergeLabel : Label)
    (prevType : Option DSType) :
    Traces
      (mapCaseArms mergeLabel prevType
        (labels.zip
          (nodes.zip
            (nodes.map (fun node => (code node).visit)))))
      shape (listTraces assertion shape nodes) := by
  induction nodes generalizing labels prevType with
  | nil =>
      rw [List.zip_nil_left, List.zip_nil_right]
      exact Traces.skip.congr listTraces_nil.symm
  | cons node nodes ih =>
      cases labels with
      | nil => cases hLength
      | cons label labels =>
          have hHead := (hNodes node List.mem_cons_self).visit
          have hTail :=
            ih (Nat.succ.inj hLength)
              (fun rest hRest =>
                hNodes rest (List.mem_cons_of_mem _ hRest))
              (some node.type)
          rw [List.map_cons, List.zip_cons_cons,
            List.zip_cons_cons]
          unfold mapCaseArms
          refine
            Traces.seqs_silent (Traces.when _ (Traces.emitIns _))
              ?_
          refine Traces.seqs_item rfl ?_
          refine
            (Traces.seqs_cons hHead
              (Traces.seqs_cons hTail Traces.seqs_nil)).congr ?_
          rw [listTraces_cons, Set.union_empty]

theorem traces_generateMapCase
    {expr : Emit}
    (hExpr : Traces expr shape traces)
    (hNodes :
      ∀ node ∈ nodes, NodeTraces assertion shape node) :
    Traces (generateMapCase expr nodes (visits nodes)) shape
      (traces ∪ listTraces assertion shape nodes) := by
  rw [visits_eq]
  refine Traces.makeLabel (fun mergeLabel => ?_)
  refine traces_makeLabels _ (fun labels hLength => ?_)
  refine Traces.seqs_emitIns ?_
  refine Traces.seqs_cons hExpr ?_
  refine Traces.seqs_emitIns ?_
  refine Traces.seqs_emitIns ?_
  refine
    Traces.seqs_cons_silent
      (traces_mapCaseArms hLength hNodes mergeLabel none)
      ?_
  exact Traces.seqs_item rfl Traces.seqs_nil

theorem traces_armPatterns
    (armMerge : Label)
    (handle : DSType → MethodHandle)
    (hNodes :
      ∀ node ∈ nodes, NodeTraces assertion shape node)
    (first : Bool) :
    Traces
      (armPatterns armMerge handle first
        ((nodes.map Node.type).zip
          (nodes.map (fun node => (code node).visit))))
      shape (listTraces assertion shape nodes) := by
  induction nodes generalizing first with
  | nil => exact Traces.skip.congr listTraces_nil.symm
  | cons node nodes ih =>
      have hHead := (hNodes node List.mem_cons_self).visit
      have hTail :=
        ih
          (fun rest hRest =>
            hNodes rest (List.mem_cons_of_mem _ hRest))
          false
      rw [List.map_cons, List.map_cons, List.zip_cons_cons]
      unfold armPatterns
      refine Traces.seqs_silent (Traces.when _ ?_) ?_
      · refine Traces.makeLabel (fun elseLabel => ?_)
        refine Traces.seqs_emitIns ?_
        refine Traces.seqs_emitIns ?_
        refine Traces.seqs_emitIns ?_
        exact Traces.seqs_item rfl Traces.seqs_nil
      · refine Traces.seqs_emitIns ?_
        refine
          (Traces.seqs_cons hHead
            (Traces.seqs_silent (traces_emitMethodCallIns _ _)
              (Traces.seqs_cons hTail Traces.seqs_nil))).congr ?_
        rw [listTraces_cons, Set.union_empty]

/- An arm of a chain: its patterns, then its action. -/
theorem traces_generateIfElseArm
    {arm : Node}
    (eqHandle matchHandle : MethodHandle)
    (mergeLabel : Label)
    (hArm : TypeChecker.isArm arm = true)
    (hPatterns :
      ∀ node ∈ arm.patternNodes, NodeTraces assertion shape node)
    (hAction : NodeTraces assertion shape arm) :
    Traces
      (generateIfElseArm
        ((patternTypes arm).zip (code arm).patterns)
        (code arm).visit eqHandle matchHandle mergeLabel)
      shape
      (listTraces assertion shape arm.patternNodes ∪
        nodeTraces assertion shape arm) := by
  cases arm <;>
    simp only [TypeChecker.isArm, Bool.false_eq_true] at hArm
  next ann patternNodes actionNode =>
    have hCodes :
        (code (.arm ann patternNodes actionNode)).patterns =
          patternNodes.map (fun node => (code node).visit) := by
      rw [← visits_eq, code]
    rw [hCodes]
    refine Traces.makeLabel (fun armElse => ?_)
    refine Traces.makeLabel (fun armMerge => ?_)
    refine
      Traces.seqs_cons (traces_armPatterns _ _ hPatterns true) ?_
    refine Traces.seqs_item rfl ?_
    refine Traces.seqs_emitIns ?_
    refine Traces.seqs_emitIns ?_
    refine Traces.seqs_cons_silent hAction.visit ?_
    refine Traces.seqs_emitIns ?_
    exact Traces.seqs_item rfl Traces.seqs_nil

theorem traces_generateIfElseCase
    {expr : Emit}
    (hExpr : Traces expr shape traces)
    (eqHandle matchHandle : MethodHandle)
    (hArms : nodes.all TypeChecker.isArm = true)
    (hDefault : nodes.countP Node.isDefaultArm ≤ 1)
    (hPatterns :
      ∀ node ∈ nodes.flatMap Node.patternNodes,
        NodeTraces assertion shape node)
    (hNodes :
      ∀ node ∈ nodes, NodeTraces assertion shape node) :
    Traces
      (generateIfElseCase expr nodes (codes nodes) eqHandle
        matchHandle)
      shape
      (traces ∪
        (listTraces assertion shape
            (nodes.flatMap Node.patternNodes) ∪
          listTraces assertion shape nodes)) := by
  have hPairs :
      nodes.zip (codes nodes) =
        nodes.map (fun node => (node, code node)) := by
    rw [codes_eq, List.map_prod_left_eq_zip]
  unfold generateIfElseCase
  refine Traces.makeLabel (fun mergeLabel => ?_)
  refine Traces.seqs_cons hExpr ?_
  have hChain :
      Traces
        (seqs
          (((nodes.zip (codes nodes)).filter
              (fun arm => !arm.1.isDefaultArm)).map
            (fun arm =>
              generateIfElseArm
                ((patternTypes arm.1).zip arm.2.patterns)
                arm.2.visit eqHandle matchHandle mergeLabel)))
        shape
        { trace |
          ∃ node ∈ nodes.filter (fun node => !node.isDefaultArm),
            trace ∈
              listTraces assertion shape node.patternNodes ∪
                nodeTraces assertion shape node } := by
    rw [hPairs, List.filter_map, List.map_map]
    refine Traces.seqs_map_of (fun node hNode => ?_)
    have hMem : node ∈ nodes := (List.mem_filter.mp hNode).1
    refine
      traces_generateIfElseArm eqHandle matchHandle mergeLabel
        (List.all_eq_true.mp hArms node hMem) ?_
        (hNodes node hMem)
    exact fun pattern hPattern =>
      hPatterns pattern
        (List.mem_flatMap.mpr ⟨node, hMem, hPattern⟩)
  refine
    (Traces.seqs_cons hChain
      (Traces.seqs_cons
        (show Traces _ shape
          { trace |
            ∃ node ∈ nodes.filter Node.isDefaultArm,
              trace ∈ nodeTraces assertion shape node } from ?_)
        (Traces.seqs_item rfl
          Traces.seqs_nil))).congr ?_
  · rw [hPairs, List.filter_map, List.getLast?_map]
    rw [List.countP_eq_length_filter] at hDefault
    have hSame :
        nodes.filter
            ((fun arm => arm.1.isDefaultArm) ∘
              fun node => (node, code node)) =
          nodes.filter Node.isDefaultArm := rfl
    rw [hSame]
    cases hFilter : nodes.filter Node.isDefaultArm with
    | nil =>
        refine Traces.skip.congr ?_
        ext trace
        simp only [Set.mem_empty_iff_false, List.not_mem_nil,
          false_and, exists_false, Set.mem_ofPred_eq]
    | cons node rest =>
        rw [hFilter] at hDefault
        have hRest : rest = [] :=
          List.eq_nil_of_length_eq_zero
            (Nat.le_zero.mp (Nat.le_of_succ_le_succ hDefault))
        have hMem : node ∈ nodes :=
          (List.mem_filter.mp
            (hFilter ▸ List.mem_cons_self :
              node ∈ nodes.filter Node.isDefaultArm)).1
        rw [hRest]
        refine
          (Traces.silent_seq (Traces.emitIns _)
            (hNodes node hMem).visit).congr ?_
        ext trace
        simp only [List.mem_singleton, exists_eq_left,
          Set.mem_ofPred_eq]
  · rw [Set.union_empty]
    ext trace
    simp only [Set.mem_union, Set.mem_ofPred_eq,
      mem_listTraces_iff, List.mem_filter, List.mem_flatMap,
      Bool.not_eq_true']
    constructor
    · rintro (⟨node, ⟨hMem, _⟩, hPattern | hAction⟩ | hDefault)
      · rcases hPattern with ⟨pattern, hPattern, hTrace⟩
        exact Or.inl ⟨pattern, ⟨node, hMem, hPattern⟩, hTrace⟩
      · exact Or.inr ⟨node, hMem, hAction⟩
      · rcases hDefault with ⟨node, ⟨hMem, _⟩, hTrace⟩
        exact Or.inr ⟨node, hMem, hTrace⟩
    · rintro (⟨pattern, ⟨node, hMem, hPattern⟩, hTrace⟩ | hAction)
      · refine
          Or.inl ⟨node, ⟨hMem, ?_⟩, Or.inl ⟨pattern, hPattern, hTrace⟩⟩
        cases node with
        | arm ann patternNodes actionNode =>
            cases patternNodes with
            | nil => cases hPattern
            | cons first rest => rfl
        | _ => cases hPattern
      · rcases hAction with ⟨node, hMem, hTrace⟩
        cases hIs : node.isDefaultArm with
        | false => exact Or.inl ⟨node, ⟨hMem, hIs⟩, Or.inr hTrace⟩
        | true => exact Or.inr ⟨node, ⟨hMem, hIs⟩, hTrace⟩

----
-- Jumps
----

/- The code emitted behind the record of a jump. -/
theorem enterMultiFinally_run
    (entered : List FinallyState)
    (ins : Ins Label)
    (rest : List Emit)
    (hRest :
      ∀ env state,
        seqs rest env state = .ok (state, [.ins ins]))
    (env : GenEnv)
    (state : GenState) :
    seqs (enterMultiFinally entered :: rest) env state =
      .ok
        (state,
          entered.map
              (fun found => .ins (.enterFinally found.label)) ++
            [.ins ins]) := by
  have hEnter :
      enterMultiFinally entered env state =
        .ok
          (state,
            entered.map
              (fun found =>
                Item.ins (.enterFinally found.label))) := by
    unfold enterMultiFinally
    induction entered with
    | nil => rfl
    | cons found entered ih =>
        have hFirst :
            enterFinally found.label env state =
              .ok (state, [.ins (.enterFinally found.label)]) :=
          rfl
        simp only [List.map_cons, seqs, seq, hFirst, ih,
          List.cons_append, List.nil_append]
  simp only [seqs, seq, hEnter, hRest]

theorem seqs_emitIns_run
    (ins : Ins Label)
    (env : GenEnv)
    (state : GenState) :
    seqs [emitIns ins] env state = .ok (state, [.ins ins]) :=
  rfl

theorem reclaimRange_eq_none_iff
    (localVars : List (Nat × Nat))
    (blockIndex : Nat) :
    reclaimRange localVars blockIndex = none ↔
      localVars.length ≤ blockIndex := by
  unfold reclaimRange
  constructor
  · intro hNone
    by_contra hLt
    have hFirst := List.getElem?_eq_getElem (Nat.lt_of_not_le hLt)
    have hNonempty : localVars ≠ [] := by
      intro hNil
      rw [hNil] at hLt
      exact hLt (Nat.zero_le _)
    have hLast := List.getLast?_eq_some_getLast hNonempty
    rw [hFirst, hLast] at hNone
    cases hNone
  · intro hLe
    rw [List.getElem?_eq_none hLe]

theorem traces_generateBreakContinue
    {expr : Emit}
    (ann : Ann)
    (op : JumpOp)
    (exprType : DSType)
    (leavingBlock : Bool)
    (target : Option Nat)
    (hExpr : Traces expr shape traces) :
    Traces
      (generateBreakContinue ann op exprType leavingBlock target
        expr)
      shape
      ({shape.breakTrace ann.pos op exprType leavingBlock
          target} ∪ traces) := by
  refine Traces.readEnv (fun env hShape => ?_)
  have hLoops :
      env.loopLabels.map LoopState.shape = shape.loops :=
    congrArg GenShape.loops hShape
  have hVars : env.localVars = shape.localVars :=
    congrArg GenShape.localVars hShape
  have hTries :
      env.finallyLabels.map FinallyState.tryPos = shape.tries :=
    congrArg GenShape.tries hShape
  unfold GenShape.breakTrace
  rw [← hLoops]
  cases hLabels : env.loopLabels with
  | nil =>
      intro state
      exact Or.inl rfl
  | cons loop rest =>
      rw [List.map_cons]
      dsimp only
      refine TracesAt.congr ?_ (Set.union_comm _ _)
      refine (hExpr env hShape).seq ?_
      cases hRange :
          reclaimRange env.localVars loop.blockIndex with
      | none =>
          have hLe := (reclaimRange_eq_none_iff _ _).mp hRange
          rw [hVars] at hLe
          have hNot :
              ¬ loop.shape.blockIndex < shape.localVars.length :=
            Nat.not_lt.mpr hLe
          rw [if_neg hNot]
          exact Traces.fault _ env hShape
      | some range =>
          rcases range with ⟨offset, size⟩
          have hLt :
              loop.shape.blockIndex < shape.localVars.length := by
            by_contra hNot
            have hNone :=
              (reclaimRange_eq_none_iff env.localVars
                loop.blockIndex).mpr
                (hVars ▸ Nat.le_of_not_lt hNot)
            rw [hNone] at hRange
            cases hRange
          rw [if_pos hLt]
          have hReclaim :=
            Traces.when (size != 0)
              (Traces.emitIns (.reclaimLocal offset size))
              env hShape
          refine
            TracesAt.congr
              (TracesAt.seq hReclaim (TracesAt.jump rfl ?_ ?_)) ?_
          · cases leavingBlock with
            | false => exact List.nil_subset _
            | true => exact List.Subset.refl _
          · intro state
            cases leavingBlock with
            | false => rfl
            | true =>
                exact
                  enterMultiFinally_run env.finallyLabels _ _
                    (seqs_emitIns_run _) env state
          · rw [Set.empty_union]
            cases leavingBlock with
            | false =>
                simp only [JumpRecord.trace, Option.map_some,
                  hTries, Bool.false_eq_true, if_false,
                  List.map_nil]
            | true =>
                simp only [JumpRecord.trace, Option.map_some,
                  hTries, if_true]

theorem traces_visitReturn
    {expr : Emit}
    (ann : Ann)
    (exprType : DSType)
    (hExpr : Traces expr shape traces) :
    Traces (visitReturn ann exprType expr) shape
      ({shape.returnTrace ann.pos exprType} ∪ traces) := by
  refine Traces.readEnv (fun env hShape => ?_)
  have hTries :
      env.finallyLabels.map FinallyState.tryPos = shape.tries :=
    congrArg GenShape.tries hShape
  refine
    TracesAt.congr
      ((hExpr env hShape).seq
        (TracesAt.jump ?_ (List.Subset.refl _)
          (enterMultiFinally_run env.finallyLabels _ _
            (seqs_emitIns_run _) env)))
      ?_
  · simp only [JumpRecord.Leaves]
    split
    · exact Or.inr (Or.inr rfl)
    · split
      · exact Or.inl rfl
      · exact Or.inr (Or.inl rfl)
  · rw [Set.union_comm]
    simp only [GenShape.returnTrace, JumpRecord.trace,
      Option.map_none, hTries]

theorem traces_visitJumpNode
    {exprNode : Node}
    (ann : Ann)
    (op : JumpOp)
    (leavingBlock : Bool)
    (target : Option Nat)
    (hExpr : NodeTraces assertion shape exprNode) :
    Traces
      (visitJumpNode ann op exprNode.type leavingBlock target
        (code exprNode).visit)
      shape
      (shape.own (.jump ann op exprNode leavingBlock target) ∪
        nodeTraces assertion shape exprNode) := by
  cases op with
  | «break» =>
      exact
        traces_generateBreakContinue ann .break _ _ _ hExpr.visit
  | «continue» =>
      exact
        traces_generateBreakContinue ann .continue _ _ _
          hExpr.visit
  | «throw» =>
      refine
        (hExpr.visit.seq_silent (Traces.emitIns _)).congr ?_
      exact (Set.empty_union _).symm
  | «return» => exact traces_visitReturn ann _ hExpr.visit

----
-- Exceptions
----

theorem traces_visitCatchNode
    {blockNode : Node}
    (hBlock : NodeTraces assertion shape blockNode)
    (varIndex : Nat) :
    Traces
      (visitCatchNode blockNode.isEmptyCode
        (code blockNode).visit varIndex)
      shape (nodeTraces assertion shape blockNode) := by
  unfold visitCatchNode
  split
  next hEmpty =>
    refine (Traces.emitIns _).congr ?_
    cases blockNode <;>
      simp only [Node.isEmptyCode, Bool.false_eq_true] at hEmpty
    next ann nodes baseIndex varSize maxVarSize =>
      rw [nodeTraces_eq _ _ _ rfl]
      unfold Node.compiledParts
      rw [Node.parts, List.isEmpty_iff.mp hEmpty, Part.each_nil,
        partTraces_nil]
    next ann =>
      rw [nodeTraces_eq _ _ _ rfl]
      exact (partTraces_nil _ _).symm
  next => exact Traces.silent_seq (Traces.emitIns _) hBlock.visit

theorem traces_leaveTry
    (type : DSType)
    (hasFinally : Bool)
    (finallyLabel mergeLabel : Label) :
    Traces (leaveTry type hasFinally finallyLabel mergeLabel)
      shape ∅ :=
  Traces.when _
    ((Traces.when _ (Traces.emitIns _)).silent_seq
      (Traces.emitIns _))

theorem traces_visitCatches
    (tryPos : Nat)
    (slots : Nat × Nat × Nat)
    (hasFinally : Bool)
    (beginLabel endLabel finallyLabel mergeLabel : Label)
    (hNodes :
      ∀ node ∈ nodes, NodeTraces assertion shape node) :
    Traces
      (visitCatches tryPos slots hasFinally beginLabel endLabel
        finallyLabel mergeLabel
        (nodes.zip (nodes.map (fun node => (code node).visit))))
      shape (listTraces assertion shape nodes) := by
  induction nodes with
  | nil => exact Traces.skip.congr listTraces_nil.symm
  | cons node nodes ih =>
      have hHead := (hNodes node List.mem_cons_self).visit
      have hTail :=
        ih (fun rest hRest =>
          hNodes rest (List.mem_cons_of_mem _ hRest))
      rw [List.map_cons, List.zip_cons_cons]
      unfold visitCatches
      refine Traces.seqs_item rfl ?_
      refine
        (Traces.seqs_cons
          ((hHead.seq_silent (traces_leaveTry _ _ _ _)).within _)
          (Traces.seqs_cons hTail Traces.seqs_nil)).congr ?_
      rw [listTraces_cons, Set.union_empty]

theorem traces_generateGuarded
    {exprNode : Node}
    (tryPos : Nat)
    (hasFinally : Bool)
    (beginLabel endLabel finallyLabel mergeLabel : Label)
    (hExpr : NodeTraces assertion shape exprNode)
    (hNodes :
      ∀ node ∈ nodes, NodeTraces assertion shape node) :
    Traces
      (generateGuarded tryPos exprNode nodes
        (code exprNode).visit (visits nodes) hasFinally
        beginLabel endLabel finallyLabel mergeLabel)
      shape
      (nodeTraces assertion shape exprNode ∪
        listTraces assertion shape nodes) := by
  rw [visits_eq]
  refine Traces.seqs_item rfl ?_
  refine Traces.seqs_cons (hExpr.visit.within _) ?_
  refine Traces.seqs_item rfl ?_
  refine
    Traces.seqs_silent ((traces_leaveTry _ _ _ _).within _) ?_
  exact
    Traces.seqs_cons_silent
      (traces_visitCatches _ _ _ _ _ _ _ hNodes)
      Traces.seqs_nil

theorem traces_generateFinally
    {finallyCode : Emit}
    (exprNode : Node)
    (nodes : List Node)
    (tryPos : Nat)
    (beginLabel finallyLabel : Label)
    (hFinally : Traces finallyCode shape traces) :
    Traces
      (generateFinally tryPos exprNode nodes beginLabel
        finallyLabel finallyCode)
      shape traces := by
  refine Traces.seqs_item rfl ?_
  refine Traces.seqs_item rfl ?_
  exact
    Traces.seqs_cons_silent
      ((hFinally.seq_silent (Traces.emitIns _)).within _)
      Traces.seqs_nil

/- The label of a finally block is marked where it begins. -/
theorem marked_generateFinally
    {finallyCode rest : Emit}
    (exprNode : Node)
    (nodes : List Node)
    (tryPos : Nat)
    (beginLabel finallyLabel : Label)
    {env : GenEnv}
    {state next : GenState}
    {items : List Item}
    (hRun :
      seq
          (generateFinally tryPos exprNode nodes beginLabel
            finallyLabel finallyCode)
          rest env state =
        .ok (next, items)) :
    FinallyState.Marked { label := finallyLabel, tryPos }
      items := by
  cases hCode : finallyCode env state with
  | error kind =>
      simp only [generateFinally, seqs, seq, within, markLabel,
        catchException, item, hCode, reduceCtorEq] at hRun
  | ok result =>
      simp only [generateFinally, seqs, seq, within, markLabel,
        catchException, item, emitIns, skip, hCode] at hRun
      split at hRun
      next => cases hRun
      next =>
        cases hRun
        exact ⟨[], _, _, _, _, rfl⟩

theorem traces_visitTryNode
    {exprNode : Node}
    {finallyCode : Option Emit}
    {finallyTraces : Set Trace}
    (ann : Ann)
    (hExpr :
      NodeTraces assertion
        (shape.enterTry ann.pos finallyCode.isSome) exprNode)
    (hNodes :
      ∀ node ∈ nodes,
        NodeTraces assertion
          (shape.enterTry ann.pos finallyCode.isSome) node)
    (hFinally : OptTraces finallyCode shape finallyTraces) :
    Traces
      (visitTryNode ann exprNode nodes (code exprNode).visit
        (visits nodes) finallyCode)
      shape
      (nodeTraces assertion
          (shape.enterTry ann.pos finallyCode.isSome) exprNode ∪
        (listTraces assertion
            (shape.enterTry ann.pos finallyCode.isSome) nodes ∪
          finallyTraces)) := by
  refine Traces.makeLabel (fun finallyLabel => ?_)
  refine Traces.makeLabel (fun beginLabel => ?_)
  refine Traces.makeLabel (fun endLabel => ?_)
  refine Traces.makeLabel (fun mergeLabel => ?_)
  have hGuarded :=
    traces_generateGuarded ann.pos finallyCode.isSome beginLabel
      endLabel finallyLabel mergeLabel hExpr hNodes
  cases finallyCode with
  | none =>
      have hNone : finallyTraces = ∅ := hFinally
      rw [hNone, Set.union_empty]
      exact hGuarded.seq_silent (Traces.item rfl)
  | some finallyCode =>
      have hBlock :=
        traces_generateFinally exprNode nodes ann.pos
          beginLabel finallyLabel hFinally
      refine
        (Traces.withFinallyLabel rfl hGuarded
          (Traces.seqs_cons hBlock
            (Traces.seqs_item rfl
              Traces.seqs_nil))
          ?_).congr ?_
      · intro env state next items hRun
        exact
          marked_generateFinally exprNode nodes ann.pos
            beginLabel finallyLabel hRun
      · rw [Set.union_empty, Set.union_assoc]

----
-- Declarations and Assignments
----

theorem traces_visitVarDeclNode
    {expr : Option Emit}
    (ann : Ann)
    (kind : VarDeclKind)
    (varName : String)
    (varIndex : Nat)
    (global : Bool)
    (hKind : (kind == .importEnv || expr.isSome) = true)
    (hExpr : OptTraces expr shape traces) :
    Traces
      (visitVarDeclNode ann kind varName expr varIndex global)
      shape traces := by
  have hStore :
      ∀ {code : Emit} {found : Set Trace},
        Traces code shape found →
        Traces (seqs [code, storeVar varIndex global]) shape
          found := by
    intro code found hCode
    exact
      Traces.seqs_cons_silent hCode
        (Traces.seqs_silent (traces_storeVar varIndex global)
          Traces.seqs_nil)
  refine hStore ?_
  cases expr with
  | none =>
      cases kind with
      | importEnv =>
          refine Traces.seqs_emitIns ?_
          refine Traces.seqs_emitIns ?_
          refine
            (Traces.seqs_silent Traces.skip ?_).congr (Eq.symm hExpr)
          refine Traces.seqs_item rfl ?_
          exact Traces.seqs_emitIns Traces.seqs_nil
      | _ => cases hKind
  | some code =>
      cases kind with
      | var => exact hExpr
      | «let» => exact hExpr
      | importEnv =>
          refine Traces.seqs_emitIns ?_
          refine Traces.seqs_emitIns ?_
          refine Traces.seqs_cons_silent hExpr ?_
          refine Traces.seqs_item rfl ?_
          exact Traces.seqs_emitIns Traces.seqs_nil
      | exportEnv =>
          refine Traces.seqs_emitIns ?_
          refine Traces.seqs_emitIns ?_
          refine Traces.seqs_cons_silent hExpr ?_
          exact Traces.seqs_emitIns Traces.seqs_nil

/- A variable has no parts. -/
theorem nodeTraces_var
    (ann : Ann)
    (varName : String)
    (index : Nat)
    (attr : VarAttr) :
    nodeTraces assertion shape (.var ann varName index attr) =
      ∅ := by
  rw [nodeTraces_eq _ _ _ rfl]
  exact partTraces_nil _ _

theorem traces_visitFieldAssign
    {left recv right : Emit}
    {leftTraces rightTraces : Set Trace}
    (recvType : DSType)
    (hLeft : Traces left shape leftTraces)
    (hRecv : Traces recv shape leftTraces)
    (hRight : Traces right shape rightTraces)
    (index : Nat)
    (selfAssign : Bool) :
    Traces
      (visitFieldAssign recvType left recv right index
        selfAssign)
      shape (leftTraces ∪ rightTraces) := by
  refine Traces.seqs_cons ?_ ?_
  · split
    · exact hLeft
    · exact hRecv.seq_silent (Traces.when _ (Traces.emitIns _))
  · refine
      Traces.seqs_cons_silent hRight
        (Traces.seqs_silent ?_ Traces.seqs_nil)
    split
    · exact Traces.emitIns _
    · exact Traces.emitIns _

theorem traces_visitVarAssign
    {left right : Emit}
    (hLeft : Traces left shape ∅)
    (hRight : Traces right shape traces)
    (index : Nat)
    (attr : VarAttr)
    (selfAssign : Bool) :
    Traces (visitVarAssign left right index attr selfAssign)
      shape traces := by
  refine Traces.seqs_silent (Traces.when _ hLeft) ?_
  refine
    Traces.seqs_cons_silent hRight
      (Traces.seqs_silent ?_ Traces.seqs_nil)
  split
  · refine Traces.seqs_silent (traces_loadVar index attr) ?_
    refine Traces.seqs_emitIns ?_
    exact Traces.seqs_emitIns Traces.seqs_nil
  · split
    · exact Traces.emitIns _
    · exact traces_storeVar index attr.global

theorem traces_visitAssignNode
    {leftNode rightNode : Node}
    (hAssignable : TypeChecker.isAssignable leftNode = true)
    (hLeft : NodeTraces assertion shape leftNode)
    (hRight : NodeTraces assertion shape rightNode)
    (selfAssign : Bool) :
    Traces
      (visitAssignNode leftNode rightNode (code leftNode)
        (code rightNode) selfAssign)
      shape
      (nodeTraces assertion shape leftNode ∪
        nodeTraces assertion shape rightNode) := by
  cases leftNode <;>
    simp only [TypeChecker.isAssignable, Bool.false_eq_true]
      at hAssignable
  case var ann varName index attr =>
    have hLeftVisit := hLeft.visit
    rw [nodeTraces_var] at hLeftVisit
    rw [nodeTraces_var, Set.empty_union]
    refine traces_visitVarAssign hLeftVisit ?_ _ _ _
    split
    next hCmdArg =>
      refine hRight.cmdArg ?_
      cases rightNode <;>
        simp only [isCmdArgNode, Bool.false_eq_true] at hCmdArg
      rfl
    next => exact hRight.visit
  case access ann recvNode index dupRecv =>
    exact
      traces_visitFieldAssign recvNode.type hLeft.visit
        (hLeft.recv _ _ _ _ rfl) hRight.visit index selfAssign

theorem traces_envAssign
    {leftNode rightNode : Node}
    {ann : Ann}
    {selfAssign : Bool}
    (hShape :
      TypeChecker.isEnvAssign
          (.assign ann leftNode rightNode selfAssign) = true)
    (hRight : NodeTraces assertion shape rightNode) :
    Traces (envAssign leftNode (code rightNode).cmdArg) shape
      (nodeTraces assertion shape leftNode ∪
        nodeTraces assertion shape rightNode) := by
  cases leftNode <;>
    simp only [TypeChecker.isEnvAssign, Bool.false_eq_true]
      at hShape
  next leftAnn varName index attr =>
    rw [nodeTraces_var, Set.empty_union]
    refine Traces.seqs_emitIns ?_
    refine Traces.seqs_emitIns ?_
    refine Traces.seqs_emitIns ?_
    refine Traces.seqs_cons_silent (hRight.cmdArg hShape) ?_
    exact Traces.seqs_emitIns Traces.seqs_nil

theorem traces_visitPrefixAssignNode
    {expr : Option Emit}
    (baseIndex varSize : Nat)
    (hAssigns :
      expr.isSome = true →
        nodes.all TypeChecker.isEnvAssign = true)
    (hNodes :
      ∀ node ∈ nodes,
        NodeTraces assertion
          (if expr.isSome then
            shape.enterSlots baseIndex varSize
          else
            shape)
          node)
    (hExpr :
      OptTraces expr (shape.enterSlots baseIndex varSize)
        traces) :
    Traces
      (visitPrefixAssignNode (codes nodes) expr baseIndex
        varSize)
      shape
      (listTraces assertion
          (if expr.isSome then
            shape.enterSlots baseIndex varSize
          else
            shape)
          nodes ∪ traces) := by
  rw [codes_eq]
  cases expr with
  | none =>
      have hNone : traces = ∅ := hExpr
      rw [hNone, Set.union_empty]
      unfold visitPrefixAssignNode
      dsimp only
      rw [List.map_map]
      exact
        Traces.seqs_map
          (fun node hNode => (hNodes node hNode).visit)
  | some expr =>
      refine traces_generateBlock baseIndex varSize true ?_
      refine Traces.seqs_emitIns ?_
      refine Traces.seqs_cons ?_ ?_
      · rw [List.map_map]
        refine Traces.seqs_map (fun node hNode => ?_)
        exact
          (hNodes node hNode).envAssign
            (List.all_eq_true.mp (hAssigns rfl) node hNode)
      · refine Traces.seqs_emitIns ?_
        exact Traces.seqs_cons_silent hExpr Traces.seqs_nil

end

end Generator

end Ydsh
