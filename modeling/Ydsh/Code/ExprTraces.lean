import Ydsh.Code.NodeTraces

/-
  Traces of the visitors of expressions and commands.

  Every visitor has the traces of the code it is given: its
  own instructions are no jumps of the script.

  Main declarations:
    * `Generator.traces_visits`
    * `Generator.traces_visitBinaryOpNode`
    * `Generator.traces_visitApplyNode`
    * `Generator.traces_generateCmdArg`
-/

----
-- Literals and Concatenation
----

namespace Ydsh

namespace Generator

open Emit

section

variable {assertion : Bool}
variable {shape : GenShape}
variable {traces : Set Trace}
variable {nodes : List Node}

theorem traces_generateConcat
    {code : Emit}
    (hCode : Traces code shape traces)
    (fragment : Bool) :
    Traces (generateConcat code fragment) shape traces :=
  hCode.seq_silent (Traces.when _ (Traces.emitIns _))

theorem traces_visitNumberNode
    (kind : NumberKind)
    (value : Int) :
    Traces (visitNumberNode kind value) shape ∅ := by
  cases kind with
  | int =>
      unfold visitNumberNode
      dsimp only
      split
      · exact Traces.emitIns _
      · exact Traces.emitIns _
  | float => exact Traces.emitIns _
  | signal => exact Traces.emitIns _

theorem traces_visitStringNode (value : String) :
    Traces (visitStringNode value) shape ∅ := by
  unfold visitStringNode
  split
  · exact Traces.emitIns _
  · exact Traces.emitIns _

theorem traces_concatStringNode
    (value : String)
    (fragment : Bool) :
    Traces (concatStringNode value fragment) shape ∅ := by
  unfold concatStringNode
  split
  · exact Traces.skip
  · exact
      traces_generateConcat (traces_visitStringNode value) _

theorem traces_concatExprNodes
    (hNodes :
      ∀ node ∈ nodes, NodeTraces assertion shape node)
    (fragment : Bool) :
    Traces
      (concatExprNodes
        (nodes.map (fun node => (code node).concat)) fragment)
      shape (listTraces assertion shape nodes) := by
  induction nodes generalizing fragment with
  | nil => exact Traces.skip.congr listTraces_nil.symm
  | cons node nodes ih =>
      refine
        (((hNodes node List.mem_cons_self).concat fragment).seq
          (ih ?_ true)).congr (listTraces_cons node).symm
      exact fun rest hRest =>
        hNodes rest (List.mem_cons_of_mem _ hRest)

theorem traces_concatStringExprNode
    (hNodes :
      ∀ node ∈ nodes, NodeTraces assertion shape node)
    (fragment : Bool) :
    Traces (concatStringExprNode (concats nodes) fragment) shape
      (listTraces assertion shape nodes) := by
  rw [concats_eq]
  unfold concatStringExprNode
  split
  next hEmpty =>
    have hNil : nodes = [] := by simpa using hEmpty
    rw [hNil, listTraces_nil]
    exact Traces.when _ (Traces.emitIns _)
  next => exact traces_concatExprNodes hNodes fragment

theorem traces_visitArrayNode
    (type : DSType)
    (hNodes :
      ∀ node ∈ nodes, NodeTraces assertion shape node) :
    Traces (visitArrayNode type (visits nodes)) shape
      (listTraces assertion shape nodes) := by
  rw [visits_eq]
  unfold visitArrayNode
  rw [List.map_map]
  refine Traces.silent_seq (Traces.emitIns _) ?_
  refine Traces.seqs_map (fun node hNode => ?_)
  exact (hNodes node hNode).visit.seq_silent (Traces.emitIns _)

theorem traces_visitMapEntries
    {keys values : List Node}
    (hLength : keys.length = values.length)
    (hKeys : ∀ node ∈ keys, NodeTraces assertion shape node)
    (hValues :
      ∀ node ∈ values, NodeTraces assertion shape node) :
    Traces
      (visitMapEntries
        (keys.map (fun node => (code node).visit))
        (values.map (fun node => (code node).visit)))
      shape
      (listTraces assertion shape keys ∪
        listTraces assertion shape values) := by
  induction keys generalizing values with
  | nil =>
      have hNil : values = [] :=
        List.eq_nil_of_length_eq_zero hLength.symm
      rw [hNil, listTraces_nil, Set.empty_union]
      exact Traces.skip
  | cons key keys ih =>
      cases values with
      | nil => cases hLength
      | cons value values =>
          have hRest :=
            ih (Nat.succ.inj hLength)
              (fun node hNode =>
                hKeys node (List.mem_cons_of_mem _ hNode))
              (fun node hNode =>
                hValues node (List.mem_cons_of_mem _ hNode))
          have hKey := (hKeys key List.mem_cons_self).visit
          have hValue := (hValues value List.mem_cons_self).visit
          refine
            (Traces.seqs_cons hKey
              (Traces.seqs_cons hValue
                (Traces.seqs_emitIns
                  (Traces.seqs_cons hRest
                    Traces.seqs_nil)))).congr ?_
          rw [listTraces_cons, listTraces_cons, Set.union_empty]
          ext trace
          simp only [Set.mem_union]
          tauto

theorem traces_visitTupleFields
    (hNodes :
      ∀ node ∈ nodes, NodeTraces assertion shape node)
    (i : Nat) :
    Traces
      (visitTupleFields
        (nodes.map (fun node => (code node).visit)) i)
      shape (listTraces assertion shape nodes) := by
  induction nodes generalizing i with
  | nil => exact Traces.skip.congr listTraces_nil.symm
  | cons node nodes ih =>
      have hRest :=
        ih
          (fun rest hRest =>
            hNodes rest (List.mem_cons_of_mem _ hRest))
          (i + 1)
      refine
        (Traces.seqs_emitIns
          (Traces.seqs_cons (hNodes node List.mem_cons_self).visit
            (Traces.seqs_emitIns
              (Traces.seqs_cons hRest
                Traces.seqs_nil)))).congr ?_
      rw [listTraces_cons, Set.union_empty]


----
-- Variables and Operators
----

theorem traces_loadVar
    (index : Nat)
    (attr : VarAttr) :
    Traces (loadVar index attr) shape ∅ := by
  unfold loadVar
  split
  · exact Traces.emitIns _
  · exact Traces.emitIns _

theorem traces_storeVar
    (index : Nat)
    (global : Bool) :
    Traces (storeVar index global) shape ∅ := by
  unfold storeVar
  split
  · exact Traces.emitIns _
  · exact Traces.emitIns _

theorem traces_emitMethodCallIns
    (paramSize : Nat)
    (handle : MethodHandle) :
    Traces (emitMethodCallIns paramSize handle) shape ∅ := by
  unfold emitMethodCallIns
  split
  · exact Traces.emitIns _
  · exact Traces.emitIns _

theorem traces_visitVarNode
    (ann : Ann)
    (index : Nat)
    (attr : VarAttr) :
    Traces (visitVarNode ann index attr) shape ∅ := by
  unfold visitVarNode
  refine Traces.silent_seq (Traces.item rfl) ?_
  split
  · exact
      (traces_loadVar index attr).silent_seq (Traces.emitIns _)
  · split
    · exact Traces.emitIns _
    · split
      · exact Traces.emitIns _
      · split
        · exact Traces.emitIns _
        · exact traces_loadVar index attr

theorem traces_visitAccessNode
    {recv : Emit}
    (recvType : DSType)
    (hRecv : Traces recv shape traces)
    (index : Nat)
    (dupRecv : Bool) :
    Traces (visitAccessNode recvType recv index dupRecv) shape
      traces := by
  unfold visitAccessNode
  refine hRecv.seq_silent ?_
  split
  · exact (Traces.emitIns _).silent_seq (Traces.emitIns _)
  · exact
      (Traces.when _ (Traces.emitIns _)).silent_seq
        (Traces.emitIns _)

theorem traces_emitToString :
    Traces emitToString shape ∅ :=
  traces_emitMethodCallIns 0 handleStr

theorem traces_visitPrint
    {expr : Emit}
    (exprType : DSType)
    (hExpr : Traces expr shape traces) :
    Traces (visitPrint exprType expr) shape traces := by
  unfold visitPrint
  refine
    Traces.seqs_cons_silent hExpr
      (Traces.seqs_silent ?_
        (Traces.seqs_emitIns
          Traces.seqs_nil))
  split
  next elementType =>
    refine Traces.makeLabel (fun thenLabel => ?_)
    refine Traces.makeLabel (fun mergeLabel => ?_)
    refine Traces.seqs_emitIns ?_
    refine Traces.seqs_emitIns ?_
    refine Traces.seqs_emitIns ?_
    refine Traces.seqs_item rfl ?_
    refine
      Traces.seqs_silent (Traces.when _ traces_emitToString) ?_
    exact Traces.seqs_item rfl Traces.seqs_nil
  next => exact Traces.when _ traces_emitToString

/- Code followed by two silent pieces. -/
theorem traces_then_two
    {expr first second : Emit}
    (hExpr : Traces expr shape traces)
    (hFirst : Traces first shape ∅)
    (hSecond : Traces second shape ∅) :
    Traces (seqs [expr, first, second]) shape traces :=
  Traces.seqs_cons_silent hExpr
    (Traces.seqs_silent hFirst
      (Traces.seqs_silent hSecond Traces.seqs_nil))

theorem traces_visitTypeOpNode
    {expr : Emit}
    (ann : Ann)
    (exprType : DSType)
    (hExpr : Traces expr shape traces)
    (kind : TypeOpKind) :
    Traces (visitTypeOpNode ann exprType expr kind) shape
      traces := by
  have hPos :
      Traces (emitSourcePos ann.pos) shape ∅ := Traces.item rfl
  cases kind with
  | noCast => exact hExpr
  | toVoid => exact hExpr.seq_silent (Traces.emitIns _)
  | numCast handle =>
      exact hExpr.seq_silent (traces_emitMethodCallIns 0 handle)
  | toString =>
      exact traces_then_two hExpr hPos traces_emitToString
  | toBool handle =>
      exact
        traces_then_two hExpr hPos
          (traces_emitMethodCallIns 0 handle)
  | checkCast | checkUnwrap =>
      exact traces_then_two hExpr hPos (Traces.emitIns _)
  | print =>
      exact traces_visitPrint exprType (hExpr.seq_silent hPos)
  | alwaysFalse | alwaysTrue =>
      exact
        traces_then_two hExpr (Traces.emitIns _)
          (Traces.emitIns _)
  | instanceOf targetType =>
      exact hExpr.seq_silent (Traces.emitIns _)

theorem traces_visitCondOp
    {left right : Emit}
    {leftTraces rightTraces : Set Trace}
    (isAnd : Bool)
    (hLeft : Traces left shape leftTraces)
    (hRight : Traces right shape rightTraces) :
    Traces (visitCondOp isAnd left right) shape
      (leftTraces ∪ rightTraces) := by
  refine Traces.makeLabel (fun elseLabel => ?_)
  refine Traces.makeLabel (fun mergeLabel => ?_)
  cases isAnd with
  | true =>
      refine Traces.seqs_cons hLeft ?_
      refine Traces.seqs_emitIns ?_
      refine Traces.seqs_cons_silent hRight ?_
      refine Traces.seqs_emitIns ?_
      refine Traces.seqs_item rfl ?_
      refine Traces.seqs_emitIns ?_
      exact Traces.seqs_item rfl Traces.seqs_nil
  | false =>
      refine Traces.seqs_cons hLeft ?_
      refine Traces.seqs_emitIns ?_
      refine Traces.seqs_emitIns ?_
      refine Traces.seqs_emitIns ?_
      refine Traces.seqs_item rfl ?_
      refine Traces.seqs_cons_silent hRight ?_
      exact Traces.seqs_item rfl Traces.seqs_nil

theorem traces_visitStrCheck
    {left right : Emit}
    {leftTraces rightTraces : Set Trace}
    (hLeft : Traces left shape leftTraces)
    (hRight : Traces right shape rightTraces)
    (emptyHandle : MethodHandle) :
    Traces (visitStrCheck left right emptyHandle) shape
      (leftTraces ∪ rightTraces) := by
  refine Traces.makeLabel (fun mergeLabel => ?_)
  refine Traces.seqs_cons hLeft ?_
  refine Traces.seqs_emitIns ?_
  refine Traces.seqs_silent (traces_emitMethodCallIns 0 _) ?_
  refine Traces.seqs_emitIns ?_
  refine Traces.seqs_emitIns ?_
  refine Traces.seqs_cons_silent hRight ?_
  exact Traces.seqs_item rfl Traces.seqs_nil

theorem traces_visitNullCoale
    {left right : Emit}
    {leftTraces rightTraces : Set Trace}
    (hLeft : Traces left shape leftTraces)
    (hRight : Traces right shape rightTraces) :
    Traces (visitNullCoale left right) shape
      (leftTraces ∪ rightTraces) := by
  refine Traces.makeLabel (fun mergeLabel => ?_)
  refine Traces.seqs_cons hLeft ?_
  refine Traces.seqs_emitIns ?_
  refine Traces.seqs_cons_silent hRight ?_
  exact Traces.seqs_item rfl Traces.seqs_nil

theorem traces_visitBinaryOpNode
    {leftNode rightNode : Node}
    (op : BinaryOp)
    (hLeft : NodeTraces assertion shape leftNode)
    (hRight : NodeTraces assertion shape rightNode)
    (emptyHandle : MethodHandle) :
    Traces
      (visitBinaryOpNode op leftNode.isEmptyNode
        (code leftNode) (code rightNode) emptyHandle)
      shape
      (nodeTraces assertion shape leftNode ∪
        nodeTraces assertion shape rightNode) := by
  cases op with
  | condAnd =>
      exact traces_visitCondOp true hLeft.visit hRight.visit
  | condOr =>
      exact traces_visitCondOp false hLeft.visit hRight.visit
  | strCheck =>
      exact
        traces_visitStrCheck hLeft.visit hRight.visit emptyHandle
  | nullCoale =>
      exact traces_visitNullCoale hLeft.visit hRight.visit
  | eq | ne =>
      refine Traces.seqs_cons hLeft.visit ?_
      refine Traces.seqs_cons_silent hRight.visit ?_
      exact Traces.seqs_emitIns Traces.seqs_nil
  | add =>
      cases hEmpty : leftNode.isEmptyNode with
      | false => exact (hLeft.concat false).seq (hRight.concat true)
      | true =>
          cases leftNode <;> simp only [Node.isEmptyNode,
            Bool.false_eq_true] at hEmpty
          next ann =>
            have hNone :
                nodeTraces assertion shape (.empty ann) = ∅ :=
              (nodeTraces_eq assertion shape (.empty ann)
                rfl).trans (partTraces_nil assertion shape)
            rw [hNone, Set.empty_union]
            exact hRight.visit.seq_silent (Traces.emitIns _)

----
-- Calls and Commands
----

theorem traces_visits
    (hNodes :
      ∀ node ∈ nodes, NodeTraces assertion shape node) :
    Traces (seqs (visits nodes)) shape
      (listTraces assertion shape nodes) := by
  rw [visits_eq]
  exact
    Traces.seqs_map (fun node hNode => (hNodes node hNode).visit)

theorem traces_visitApplyNode
    {expr : Emit}
    (ann : Ann)
    (hExpr : Traces expr shape traces)
    (hArgs :
      ∀ node ∈ nodes, NodeTraces assertion shape node)
    (handle : Option MethodHandle) :
    Traces (visitApplyNode ann expr (visits nodes) handle) shape
      (traces ∪ listTraces assertion shape nodes) := by
  unfold visitApplyNode
  refine Traces.seqs_cons hExpr ?_
  refine Traces.seqs_cons_silent (traces_visits hArgs) ?_
  refine Traces.seqs_item rfl ?_
  refine Traces.seqs_silent ?_ Traces.seqs_nil
  cases handle with
  | none => exact Traces.emitIns _
  | some handle => exact traces_emitMethodCallIns _ _

/- A container takes no arguments. -/
theorem traces_visitNewNode
    (checker : TypeChecker)
    (ann : Ann)
    (handle : Option MethodHandle)
    (hVisit : checker.visit (.new ann nodes handle) = true)
    (hArgs :
      ∀ node ∈ nodes, NodeTraces assertion shape node) :
    Traces (visitNewNode ann (visits nodes) handle) shape
      (listTraces assertion shape nodes) := by
  have hNone :
      nodes.isEmpty = true →
        listTraces assertion shape nodes = ∅ := by
    intro hEmpty
    rw [List.isEmpty_iff.mp hEmpty, listTraces_nil]
  unfold TypeChecker.visit at hVisit
  unfold visitNewNode
  split
  next hType =>
    simp only [hType] at hVisit
    exact (Traces.emitIns _).congr (hNone hVisit).symm
  next hType =>
    simp only [hType] at hVisit
    exact (Traces.emitIns _).congr (hNone hVisit).symm
  next hType =>
    simp only [hType] at hVisit
    exact (Traces.emitIns _).congr (hNone hVisit).symm
  next hOption hArray hMap =>
    have hSome : handle.isSome = true := by
      simpa only using hVisit
    cases handle with
    | none => cases hSome
    | some handle =>
        refine Traces.seqs_emitIns ?_
        refine Traces.seqs_cons_silent (traces_visits hArgs) ?_
        refine Traces.seqs_item rfl ?_
        exact
          Traces.seqs_silent (traces_emitMethodCallIns _ _)
            Traces.seqs_nil

theorem traces_visitEmbedNode
    {expr : Emit}
    (ann : Ann)
    (hExpr : Traces expr shape traces)
    (handle : Option MethodHandle) :
    Traces (visitEmbedNode ann expr handle) shape traces := by
  cases handle with
  | none => exact hExpr
  | some handle =>
      exact
        traces_then_two hExpr (Traces.item rfl)
          (traces_emitMethodCallIns 0 handle)

theorem traces_visitCmdNode
    (ann : Ann)
    (name : String)
    (tilde : Bool)
    (hArgs :
      ∀ node ∈ nodes, NodeTraces assertion shape node)
    (hasRedir needFork : Bool) :
    Traces
      (visitCmdNode ann name tilde (visits nodes) hasRedir
        needFork)
      shape (listTraces assertion shape nodes) := by
  unfold visitCmdNode
  refine Traces.seqs_silent (traces_visitStringNode name) ?_
  refine Traces.seqs_silent (Traces.when _ (Traces.emitIns _)) ?_
  refine Traces.seqs_emitIns ?_
  refine Traces.seqs_emitIns ?_
  refine Traces.seqs_cons_silent (traces_visits hArgs) ?_
  refine Traces.seqs_silent (Traces.when _ (Traces.emitIns _)) ?_
  refine Traces.seqs_item rfl ?_
  exact Traces.seqs_emitIns Traces.seqs_nil

theorem traces_closeSegment (first tilde : Bool) :
    Traces (closeSegment first tilde) shape ∅ :=
  (Traces.when _ (Traces.emitIns _)).silent_seq
    (Traces.when _ (Traces.emitIns _))

theorem traces_concatSegments
    (hNodes :
      ∀ node ∈ nodes, NodeTraces assertion shape node)
    (first tilde : Bool) :
    Traces
      (concatSegments first tilde
        (nodes.map
          (fun node => (node.isTilde, (code node).concat))))
      shape (listTraces assertion shape nodes) := by
  induction nodes generalizing first tilde with
  | nil =>
      exact
        (traces_closeSegment first tilde).congr
          listTraces_nil.symm
  | cons node nodes ih =>
      have hHead := hNodes node List.mem_cons_self
      have hTail :=
        ih (fun rest hRest =>
          hNodes rest (List.mem_cons_of_mem _ hRest))
      rw [List.map_cons]
      unfold concatSegments
      split
      · refine
          Traces.seqs_silent (traces_closeSegment first tilde) ?_
        refine
          (Traces.seqs_cons (hHead.concat false)
            (Traces.seqs_cons (hTail false true)
              Traces.seqs_nil)).congr ?_
        rw [listTraces_cons, Set.union_empty]
      · exact
          ((hHead.concat true).seq (hTail first tilde)).congr
            (listTraces_cons node).symm

theorem traces_generateCmdArg
    (hNodes :
      ∀ node ∈ nodes, NodeTraces assertion shape node) :
    Traces (generateCmdArg (tildeConcats nodes)) shape
      (listTraces assertion shape nodes) := by
  rw [tildeConcats_eq]
  cases nodes with
  | nil => exact Traces.skip.congr listTraces_nil.symm
  | cons node nodes =>
      have hRest :
          ∀ rest ∈ nodes, NodeTraces assertion shape rest :=
        fun rest hRest =>
          hNodes rest (List.mem_cons_of_mem _ hRest)
      have hTail := traces_concatSegments hRest true node.isTilde
      exact
        (((hNodes node List.mem_cons_self).concat false).seq
          hTail).congr (listTraces_cons node).symm

theorem traces_globSegments
    (hNodes :
      ∀ node ∈ nodes, NodeTraces assertion shape node)
    (fragment : Bool) :
    Traces
      (globSegments fragment
        (nodes.map (fun node => (node.isWildCard, code node))))
      shape (listTraces assertion shape nodes) := by
  induction nodes generalizing fragment with
  | nil => exact Traces.skip.congr listTraces_nil.symm
  | cons node nodes ih =>
      have hHead := hNodes node List.mem_cons_self
      have hTail :=
        ih (fun rest hRest =>
          hNodes rest (List.mem_cons_of_mem _ hRest))
      rw [List.map_cons]
      unfold globSegments
      split
      · exact
          (hHead.visit.seq (hTail false)).congr
            (listTraces_cons node).symm
      · exact
          ((hHead.concat fragment).seq (hTail true)).congr
            (listTraces_cons node).symm

theorem traces_visitCmdArgNode
    (globPathSize : Nat)
    (tilde ignorableEmpty : Bool)
    (hNodes :
      ∀ node ∈ nodes, NodeTraces assertion shape node) :
    Traces
      (visitCmdArgNode globPathSize tilde ignorableEmpty
        (wildCards nodes) (generateCmdArg (tildeConcats nodes)))
      shape (listTraces assertion shape nodes) := by
  unfold visitCmdArgNode
  split
  · rw [wildCards_eq]
    exact
      traces_then_two (traces_globSegments hNodes false)
        (Traces.emitIns _) (Traces.emitIns _)
  · exact
      (traces_generateCmdArg hNodes).seq_silent
        (Traces.emitIns _)

theorem traces_visitArgArrayNode
    (type : DSType)
    (hNodes :
      ∀ node ∈ nodes, NodeTraces assertion shape node) :
    Traces (visitArgArrayNode type (visits nodes)) shape
      (listTraces assertion shape nodes) := by
  unfold visitArgArrayNode
  refine Traces.seqs_emitIns ?_
  refine Traces.seqs_emitIns ?_
  refine Traces.seqs_cons_silent (traces_visits hNodes) ?_
  exact Traces.seqs_emitIns Traces.seqs_nil

end

end Generator

end Ydsh
