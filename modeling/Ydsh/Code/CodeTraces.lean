import Ydsh.Code.StmtTraces

/-
  Traces of generated code.

  The code of a node has the traces collected from the node,
  by induction over the node: each kind of node is put
  together from the code of its parts.

  Main declarations:
    * `Generator.nodeTraces_of_parts`
    * `Generator.nodeTraces_of_visitAll`
    * `generate_traces`
-/

----
-- One Node
----

namespace Ydsh

namespace Generator

open Emit

section

variable {assertion : Bool}
variable {shape : GenShape}

/- Only an access has code for its receiver. -/
def isAccess : Node → Bool
  | .access .. => true
  | _ => false

/- A node whose own code is all there is to it. -/
theorem nodeTraces_ofVisit
    {node : Node}
    {type : DSType}
    {visit : Emit}
    (hCode : code node = ofVisit type visit)
    (hPlain :
      (TypeChecker.isCmdArg node || TypeChecker.isEnvAssign node ||
        isAccess node) = false)
    (hVisit :
      Traces visit shape (nodeTraces assertion shape node)) :
    NodeTraces assertion shape node := by
  simp only [Bool.or_eq_false_iff] at hPlain
  rcases hPlain with ⟨⟨hCmdArg, hEnvAssign⟩, hRecv⟩
  constructor
  · rw [hCode]
    exact hVisit.within _
  · intro fragment
    rw [hCode]
    exact traces_generateConcat (hVisit.within _) fragment
  · intro hIs
    cases hIs.symm.trans hCmdArg
  · rintro ann recvNode index dupRecv rfl
    cases hRecv
  · intro pipeline hIs
    rw [hCode] at hIs
    cases hIs
  · intro hIs
    cases hIs.symm.trans hEnvAssign

theorem partTraces_eq
    {node : Node}
    {parts : List (Part × Node)}
    (hOwn : shape.own node = ∅)
    (hParts : node.compiledParts assertion = parts) :
    partTraces assertion shape parts =
      nodeTraces assertion shape node := by
  rw [nodeTraces_eq assertion shape node hOwn, hParts]

/- A node whose parts are a list of nodes. -/
theorem listTraces_eq
    {node : Node}
    {nodes : List Node}
    (hOwn : shape.own node = ∅)
    (hParts :
      node.compiledParts assertion = Part.plain.each nodes) :
    listTraces assertion shape nodes =
      nodeTraces assertion shape node :=
  partTraces_eq hOwn hParts

/- A node without parts, with one part, with two parts. -/
theorem nodeTraces_leaf
    {node : Node}
    (hOwn : shape.own node = ∅)
    (hParts : node.compiledParts assertion = []) :
    ∅ = nodeTraces assertion shape node := by
  rw [← partTraces_eq hOwn hParts, partTraces_nil]

theorem nodeTraces_one
    {node part : Node}
    (label : Part)
    (hOwn : shape.own node = ∅)
    (hParts : node.compiledParts assertion = [(label, part)]) :
    nodeTraces assertion (shape.enter label) part =
      nodeTraces assertion shape node := by
  rw [← partTraces_eq hOwn hParts, partTraces_cons,
    partTraces_nil, Set.union_empty]

theorem nodeTraces_single
    {node part : Node}
    (hOwn : shape.own node = ∅)
    (hParts : node.compiledParts assertion = [(.plain, part)]) :
    nodeTraces assertion shape part =
      nodeTraces assertion shape node :=
  nodeTraces_one .plain hOwn hParts

theorem nodeTraces_pair
    {node left right : Node}
    (hOwn : shape.own node = ∅)
    (hParts :
      node.compiledParts assertion =
        [(.plain, left), (.plain, right)]) :
    nodeTraces assertion shape left ∪
        nodeTraces assertion shape right =
      nodeTraces assertion shape node := by
  rw [← partTraces_eq hOwn hParts, partTraces_cons,
    partTraces_cons, partTraces_nil, Set.union_empty]
  rfl

theorem optVisit_traces
    {label : Part}
    {optNode : Option Node}
    (hNode :
      ∀ node, optNode = some node →
        NodeTraces assertion (shape.enter label) node) :
    OptTraces (optVisit optNode) (shape.enter label)
      (partTraces assertion shape (label.ofOption optNode)) := by
  rw [optVisit_eq]
  cases optNode with
  | none => exact partTraces_nil assertion shape
  | some node =>
      refine (hNode node rfl).visit.congr ?_
      rw [Part.ofOption_some, partTraces_cons, partTraces_nil,
        Set.union_empty]

theorem nodeTraces_pipeline
    (ann : Ann)
    (nodes : List Node)
    (baseIndex : Nat)
    (lastPipe : Bool)
    (hParts :
      ∀ label part,
        (label, part) ∈
            (Node.pipeline ann nodes baseIndex lastPipe).parts →
          NodeTraces assertion (shape.enter label) part) :
    NodeTraces assertion shape
      (.pipeline ann nodes baseIndex lastPipe) := by
  have hFront :
      ∀ node ∈ nodes.dropLast,
        NodeTraces assertion shape node :=
    fun node hNode =>
      hParts .child node
        (List.mem_append_left _
          (List.mem_map.mpr ⟨node, hNode, rfl⟩))
  have hLast :
      ∀ node, nodes.getLast? = some node →
        NodeTraces assertion
          (shape.enter
            (if lastPipe then
              Part.slots baseIndex 1
            else
              Part.plain))
          node := by
    intro node hNode
    refine hParts _ node (List.mem_append_right _ ?_)
    rw [hNode]
    exact List.mem_cons_self
  have hEq :
      nodeTraces assertion shape
          (.pipeline ann nodes baseIndex lastPipe) =
        listTraces assertion shape nodes.dropLast ∪
          partTraces assertion shape
            ((if lastPipe then
              Part.slots baseIndex 1
            else
              Part.plain).ofOption nodes.getLast?) := by
    refine Eq.trans (Eq.symm (partTraces_eq rfl rfl)) ?_
    refine Eq.trans (partTraces_append _ _ _ _) ?_
    rw [partTraces_each]
    rfl
  have hPipeline :
      ∀ kind,
        Traces
          (if lastPipe then
            generatePipeline ann (visits nodes).dropLast
              (visits nodes).getLast? baseIndex kind
          else
            generatePipeline ann (visits nodes) none baseIndex
              kind)
          shape
          (nodeTraces assertion shape
            (.pipeline ann nodes baseIndex lastPipe)) := by
    intro kind
    rw [hEq, visits_eq]
    cases lastPipe with
    | true =>
        rw [if_pos rfl, if_pos rfl, ← List.map_dropLast,
          List.getLast?_map]
        refine
          traces_generatePipeline ann hFront baseIndex ?_ kind
        cases hSome : nodes.getLast? with
        | none => exact partTraces_nil _ _
        | some node =>
            refine (hLast node hSome).visit.congr ?_
            rw [Part.ofOption_some, partTraces_cons,
              partTraces_nil, Set.union_empty]
            rfl
    | false =>
        rw [if_neg Bool.false_ne_true, if_neg Bool.false_ne_true]
        have hAll :
            ∀ node ∈ nodes,
              NodeTraces assertion shape node := by
          intro node hNode
          rcases List.eq_nil_or_concat nodes with
            hNil | ⟨front, last, hConcat⟩
          · rw [hNil] at hNode
            cases hNode
          · rw [List.concat_eq_append] at hConcat
            rw [hConcat] at hNode hFront hLast
            rw [List.dropLast_concat] at hFront
            rcases List.mem_append.mp hNode with hIn | hIs
            · exact hFront node hIn
            · rw [List.mem_singleton.mp hIs]
              exact hLast last List.getLast?_concat
        refine
          (traces_generatePipeline ann hAll baseIndex
            (show OptTraces none _ ∅ from rfl) kind).congr ?_
        rw [Set.union_empty]
        rcases List.eq_nil_or_concat nodes with
          hNil | ⟨front, last, hConcat⟩
        · rw [hNil]
          exact
            (partTraces_append assertion shape [] []).trans rfl
        · rw [List.concat_eq_append] at hConcat
          rw [hConcat, List.dropLast_concat,
            List.getLast?_concat, Part.ofOption_some]
          ext trace
          simp only [mem_listTraces_iff, List.mem_append,
            List.mem_singleton, Set.mem_union, partTraces_cons,
            partTraces_nil, Set.union_empty, or_and_right,
            exists_or, exists_eq_left]
          rfl
  refine ⟨?_, ?_, by rintro ⟨⟩, by rintro _ _ _ _ ⟨⟩, ?_, by rintro ⟨⟩⟩
  · rw [code]
    have hNone := hPipeline .none
    cases lastPipe with
    | true => exact hNone.within _
    | false => exact hNone.within _
  · intro fragment
    rw [code]
    have hNone := hPipeline .none
    cases lastPipe with
    | true | false =>
        exact traces_generateConcat (hNone.within _) fragment
  · intro pipeline hIs kind
    rw [code] at hIs
    cases hIs
    have hKind := hPipeline kind
    cases lastPipe with
    | true => exact hKind
    | false => exact hKind

theorem nodeTraces_loop
    (ann : Ann)
    (initNode iterNode blockNode : Node)
    (condNode : Option Node)
    (doWhile : Bool)
    (hParts :
      ∀ label part,
        (label, part) ∈
            (Node.loop ann initNode condNode iterNode blockNode
              doWhile).parts →
          NodeTraces assertion (shape.enter label) part) :
    NodeTraces assertion shape
      (.loop ann initNode condNode iterNode blockNode
        doWhile) := by
  have hInit :=
    hParts (.header ann.pos ann.type initNode.declaredVarIndex)
      initNode List.mem_cons_self
  have hIter :=
    hParts (.header ann.pos ann.type initNode.declaredVarIndex)
      iterNode
      (List.mem_cons_of_mem _
        (List.mem_append_right _ List.mem_cons_self))
  have hBlock :=
    hParts (.body ann.pos ann.type initNode.declaredVarIndex)
      blockNode
      (List.mem_cons_of_mem _
        (List.mem_append_right _
          (List.mem_of_getElem? (i := 1) rfl)))
  have hCond :
      ∀ node, condNode = some node →
        NodeTraces assertion
          (shape.enter
            (.header ann.pos ann.type
              initNode.declaredVarIndex)) node := by
    intro node hNode
    refine
      hParts _ node
        (List.mem_cons_of_mem _ (List.mem_append_left _ ?_))
    rw [hNode]
    exact List.mem_cons_self
  refine nodeTraces_ofVisit (by rw [code]) rfl ?_
  refine
    (traces_visitLoopNode ann initNode.declaredVarIndex
      iterNode.isEmptyCode hInit.visit
      (optVisit_traces hCond) hIter.visit hBlock.visit
      doWhile).congr ?_
  refine Eq.trans ?_ (partTraces_eq rfl rfl)
  refine Eq.trans ?_ (partTraces_cons _ _ _ _ _).symm
  rw [partTraces_append, partTraces_cons, partTraces_cons,
    partTraces_nil, Set.union_empty]

theorem nodeTraces_case
    (checker : TypeChecker)
    (ann : Ann)
    (exprNode : Node)
    (armNodes : List Node)
    (kind : CaseKind)
    (eqHandle matchHandle : MethodHandle)
    (hVisit :
      checker.visit
          (.case ann exprNode armNodes kind eqHandle
            matchHandle) = true)
    (hParts :
      ∀ label part,
        (label, part) ∈
            (Node.case ann exprNode armNodes kind eqHandle
              matchHandle).parts →
          NodeTraces assertion (shape.enter label) part) :
    NodeTraces assertion shape
      (.case ann exprNode armNodes kind eqHandle
        matchHandle) := by
  have hArms := (Bool.and_eq_true _ _).mp hVisit
  have hExpr := hParts .plain exprNode List.mem_cons_self
  have hNodes :
      ∀ node ∈ armNodes, NodeTraces assertion shape node :=
    fun node hNode =>
      hParts .plain node
        (List.mem_cons_of_mem _
          (List.mem_append_right _
            (List.mem_map.mpr ⟨node, hNode, rfl⟩)))
  cases kind with
  | map =>
      refine nodeTraces_ofVisit (by rw [code]) rfl ?_
      refine
        (traces_generateMapCase hExpr.visit hNodes).congr ?_
      refine Eq.trans ?_ (partTraces_eq rfl rfl)
      exact (partTraces_cons _ _ _ _ _).symm
  | ifElse =>
      have hPatterns :
          ∀ node ∈ armNodes.flatMap Node.patternNodes,
            NodeTraces assertion shape node :=
        fun node hNode =>
          hParts .plain node
            (List.mem_cons_of_mem _
              (List.mem_append_left _
                (List.mem_map.mpr ⟨node, hNode, rfl⟩)))
      refine nodeTraces_ofVisit (by rw [code]) rfl ?_
      refine
        (traces_generateIfElseCase hExpr.visit eqHandle
          matchHandle hArms.1 (of_decide_eq_true hArms.2)
          hPatterns hNodes).congr ?_
      refine Eq.trans ?_ (partTraces_eq rfl rfl)
      refine Eq.trans ?_ (partTraces_cons _ _ _ _ _).symm
      rw [partTraces_append]
      rfl

theorem nodeTraces_try
    (ann : Ann)
    (exprNode : Node)
    (catchNodes : List Node)
    (finallyNode : Option Node)
    (hParts :
      ∀ label part,
        (label, part) ∈
            (Node.try ann exprNode catchNodes
              finallyNode).parts →
          NodeTraces assertion (shape.enter label) part) :
    NodeTraces assertion shape
      (.try ann exprNode catchNodes finallyNode) := by
  have hSome :
      (optVisit finallyNode).isSome = finallyNode.isSome := by
    rw [optVisit_eq, Option.isSome_map]
  have hExpr :=
    hParts (.tryBody ann.pos finallyNode.isSome) exprNode
      List.mem_cons_self
  have hNodes :
      ∀ node ∈ catchNodes,
        NodeTraces assertion
          (shape.enterTry ann.pos finallyNode.isSome) node :=
    fun node hNode =>
      hParts (.catchClause ann.pos finallyNode.isSome) node
        (List.mem_cons_of_mem _
          (List.mem_append_left _
            (List.mem_map.mpr ⟨node, hNode, rfl⟩)))
  have hFinally :
      ∀ node, finallyNode = some node →
        NodeTraces assertion
          (shape.enter (.finallyBlock ann.pos)) node := by
    intro node hNode
    refine
      hParts _ node
        (List.mem_cons_of_mem _ (List.mem_append_right _ ?_))
    rw [hNode]
    exact List.mem_cons_self
  refine nodeTraces_ofVisit (by rw [code]) rfl ?_
  rw [← hSome] at hExpr hNodes
  refine
    Traces.congr
      (traces_visitTryNode ann hExpr hNodes
        (optVisit_traces hFinally))
      ?_
  rw [hSome]
  refine Eq.trans ?_ (partTraces_eq rfl rfl)
  refine Eq.trans ?_ (partTraces_cons _ _ _ _ _).symm
  rw [partTraces_append, partTraces_each]
  rfl

theorem nodeTraces_prefixAssign
    (checker : TypeChecker)
    (ann : Ann)
    (assignNodes : List Node)
    (exprNode : Option Node)
    (baseIndex varSize : Nat)
    (hVisit :
      checker.visit
          (.prefixAssign ann assignNodes exprNode baseIndex
            varSize) = true)
    (hParts :
      ∀ label part,
        (label, part) ∈
            (Node.prefixAssign ann assignNodes exprNode baseIndex
              varSize).parts →
          NodeTraces assertion (shape.enter label) part) :
    NodeTraces assertion shape
      (.prefixAssign ann assignNodes exprNode baseIndex
        varSize) := by
  have hSome :
      (optVisit exprNode).isSome = exprNode.isSome := by
    rw [optVisit_eq, Option.isSome_map]
  have hNodes :
      ∀ node ∈ assignNodes,
        NodeTraces assertion
          (shape.enter
            (if exprNode.isSome then
              Part.slots baseIndex varSize
            else
              Part.plain))
          node :=
    fun node hNode =>
      hParts _ node
        (List.mem_append_left _
          (List.mem_map.mpr ⟨node, hNode, rfl⟩))
  have hExpr :
      ∀ node, exprNode = some node →
        NodeTraces assertion
          (shape.enter (.slots baseIndex varSize)) node := by
    intro node hNode
    refine hParts _ node (List.mem_append_right _ ?_)
    rw [hNode]
    exact List.mem_cons_self
  have hEnter :
      shape.enter
          (if exprNode.isSome then
            Part.slots baseIndex varSize
          else
            Part.plain) =
        if exprNode.isSome then
          shape.enterSlots baseIndex varSize
        else
          shape := by
    cases exprNode with
    | none => rfl
    | some node => rfl
  refine nodeTraces_ofVisit (by rw [code]) rfl ?_
  refine
    (traces_visitPrefixAssignNode baseIndex varSize ?_
      (by rw [hSome, ← hEnter]; exact hNodes)
      (optVisit_traces hExpr)).congr ?_
  · intro hIs
    rw [hSome] at hIs
    cases exprNode with
    | none => cases hIs
    | some node => exact hVisit
  · rw [hSome, ← hEnter]
    refine Eq.trans ?_ (partTraces_eq rfl rfl)
    refine Eq.trans ?_ (partTraces_append _ _ _ _).symm
    rw [partTraces_each]

/- The views of a node's code, from those of its parts. -/
theorem nodeTraces_of_parts
    (checker : TypeChecker)
    (hAssertion : shape.assertion = assertion)
    (node : Node)
    (hVisit : checker.visit node = true)
    (hParts :
      ∀ label part, (label, part) ∈ node.parts →
        NodeTraces assertion (shape.enter label) part) :
    NodeTraces assertion shape node := by
  have hPlain :
      ∀ {nodes : List Node},
        Part.plain.each nodes ⊆ node.parts →
        ∀ part ∈ nodes, NodeTraces assertion shape part := by
    intro nodes hSubset part hPart
    exact
      hParts .plain part
        (hSubset (List.mem_map.mpr ⟨part, hPart, rfl⟩))
  cases node with
  | number ann kind value =>
      refine nodeTraces_ofVisit (by rw [code]) rfl ?_
      exact
        (traces_visitNumberNode kind value).congr
          (nodeTraces_leaf rfl rfl)
  | string ann value tilde =>
      have hEq :
          nodeTraces assertion shape (.string ann value tilde) =
            ∅ :=
        Eq.symm (nodeTraces_leaf rfl rfl)
      refine ⟨?_, ?_, by rintro ⟨⟩, by rintro _ _ _ _ ⟨⟩, ?_, by rintro ⟨⟩⟩
      · rw [code, hEq]
        exact (traces_visitStringNode value).within _
      · intro fragment
        rw [code, hEq]
        exact traces_concatStringNode value fragment
      · intro pipeline hIs
        rw [code] at hIs
        cases hIs
  | stringExpr ann exprNodes =>
      have hNodes := hPlain (List.Subset.refl _)
      have hEq :
          nodeTraces assertion shape (.stringExpr ann exprNodes) =
            listTraces assertion shape exprNodes :=
        Eq.symm (listTraces_eq rfl rfl)
      refine ⟨?_, ?_, by rintro ⟨⟩, by rintro _ _ _ _ ⟨⟩, ?_, by rintro ⟨⟩⟩
      · rw [code, hEq]
        exact
          (traces_concatStringExprNode hNodes false).within _
      · intro fragment
        rw [code, hEq]
        exact traces_concatStringExprNode hNodes fragment
      · intro pipeline hIs
        rw [code] at hIs
        cases hIs
  | regex ann reStr =>
      refine nodeTraces_ofVisit (by rw [code]) rfl ?_
      exact
        (Traces.emitIns _).congr (nodeTraces_leaf rfl rfl)
  | array ann exprNodes =>
      refine nodeTraces_ofVisit (by rw [code]) rfl ?_
      exact
        (traces_visitArrayNode ann.type
          (hPlain (List.Subset.refl _))).congr
          (listTraces_eq rfl rfl)
  | map ann keyNodes valueNodes =>
      refine nodeTraces_ofVisit (by rw [code]) rfl ?_
      have hEntries :=
        traces_visitMapEntries
          (beq_iff_eq.mp hVisit)
          (hPlain (List.subset_append_left _ _))
          (hPlain (List.subset_append_right _ _))
      rw [visits_eq, visits_eq]
      refine (Traces.silent_seq (Traces.emitIns _) hEntries).congr ?_
      refine Eq.trans ?_ (partTraces_eq rfl rfl)
      exact (partTraces_append _ _ _ _).symm
  | tuple ann nodes =>
      refine nodeTraces_ofVisit (by rw [code]) rfl ?_
      rw [visits_eq]
      exact
        (Traces.silent_seq (Traces.emitIns _)
          (traces_visitTupleFields
            (hPlain (List.Subset.refl _)) 0)).congr
          (listTraces_eq rfl rfl)
  | var ann varName index attr =>
      refine nodeTraces_ofVisit (by rw [code]) rfl ?_
      exact
        (traces_visitVarNode ann index attr).congr
          (nodeTraces_leaf rfl rfl)
  | access ann recvNode index dupRecv =>
      have hRecv := hParts .plain recvNode List.mem_cons_self
      have hEq :
          nodeTraces assertion shape
              (.access ann recvNode index dupRecv) =
            nodeTraces assertion shape recvNode :=
        Eq.symm (nodeTraces_single rfl rfl)
      have hAccess :=
        traces_visitAccessNode recvNode.type hRecv.visit index
          dupRecv
      refine ⟨?_, ?_, by rintro ⟨⟩, ?_, ?_, by rintro ⟨⟩⟩
      · rw [code, hEq]
        exact hAccess.within _
      · intro fragment
        rw [code, hEq]
        exact
          traces_generateConcat (hAccess.within _) fragment
      · intro _ _ _ _ _
        rw [code, hEq]
        exact hRecv.visit
      · intro pipeline hIs
        rw [code] at hIs
        cases hIs
  | typeOp ann exprNode kind =>
      have hExpr := hParts .plain exprNode List.mem_cons_self
      refine nodeTraces_ofVisit (by rw [code]) rfl ?_
      exact
        (traces_visitTypeOpNode ann exprNode.type hExpr.visit
          kind).congr (nodeTraces_single rfl rfl)
  | unaryOp ann operand unwrap =>
      have hOperand := hParts .plain operand List.mem_cons_self
      refine nodeTraces_ofVisit (by rw [code]) rfl ?_
      exact
        (hOperand.visit.seq_silent
          (Traces.when _ (Traces.emitIns _))).congr
          (nodeTraces_single rfl rfl)
  | binaryOp ann op leftNode rightNode emptyHandle =>
      have hLeft := hParts .plain leftNode List.mem_cons_self
      have hRight :=
        hParts .plain rightNode
          (List.mem_of_getElem? (i := 1) rfl)
      have hPair :
          nodeTraces assertion shape leftNode ∪
              nodeTraces assertion shape rightNode =
            nodeTraces assertion shape
              (.binaryOp ann op leftNode rightNode
                emptyHandle) :=
        nodeTraces_pair rfl rfl
      have hOp :=
        (traces_visitBinaryOpNode op hLeft hRight
          emptyHandle).congr hPair
      by_cases hConcat :
          ((Node.binaryOp ann op leftNode rightNode
              emptyHandle).isBinaryStrConcat &&
            !leftNode.isEmptyNode) = true
      · refine ⟨?_, ?_, by rintro ⟨⟩, by rintro _ _ _ _ ⟨⟩, ?_, by rintro ⟨⟩⟩
        · rw [code, if_pos hConcat]
          exact hOp.within _
        · intro fragment
          rw [code, if_pos hConcat]
          exact
            ((hLeft.concat fragment).seq
              (hRight.concat true)).congr hPair
        · intro pipeline hIs
          rw [code, if_pos hConcat] at hIs
          cases hIs
      · refine
          nodeTraces_ofVisit (by rw [code, if_neg hConcat]) rfl hOp
  | binaryApply ann optNode =>
      have hOpt := hParts .plain optNode List.mem_cons_self
      refine nodeTraces_ofVisit (by rw [code]) rfl ?_
      exact hOpt.visit.congr (nodeTraces_single rfl rfl)
  | apply ann exprNode args handle =>
      have hExpr := hParts .plain exprNode List.mem_cons_self
      refine nodeTraces_ofVisit (by rw [code]) rfl ?_
      refine
        (traces_visitApplyNode ann hExpr.visit
          (hPlain (List.subset_cons_self _ _)) handle).congr ?_
      refine Eq.trans ?_ (partTraces_eq rfl rfl)
      exact (partTraces_cons _ _ _ _ _).symm
  | new ann args handle =>
      refine nodeTraces_ofVisit (by rw [code]) rfl ?_
      exact
        (traces_visitNewNode checker ann handle hVisit
          (hPlain (List.Subset.refl _))).congr
          (listTraces_eq rfl rfl)
  | embed ann exprNode handle =>
      have hExpr := hParts .plain exprNode List.mem_cons_self
      have hEmbed := traces_visitEmbedNode ann hExpr.visit handle
      have hEq :
          nodeTraces assertion shape
              (.embed ann exprNode handle) =
            nodeTraces assertion shape exprNode :=
        Eq.symm (nodeTraces_single rfl rfl)
      refine ⟨?_, ?_, by rintro ⟨⟩, by rintro _ _ _ _ ⟨⟩, ?_, by rintro ⟨⟩⟩
      · rw [code, hEq]
        exact hEmbed.within _
      · intro fragment
        rw [code, hEq]
        unfold codeOfConcat
        dsimp only
        split
        · exact hExpr.concat fragment
        · exact
            traces_generateConcat (hEmbed.within _) fragment
      · intro pipeline hIs
        rw [code] at hIs
        cases hIs
  | cmd ann name tilde argNodes hasRedir needFork =>
      refine nodeTraces_ofVisit (by rw [code]) rfl ?_
      exact
        (traces_visitCmdNode ann name tilde
          (hPlain (List.Subset.refl _)) hasRedir needFork).congr
          (listTraces_eq rfl rfl)
  | cmdArg ann segmentNodes globPathSize =>
      have hNodes := hPlain (List.Subset.refl _)
      have hEq :
          nodeTraces assertion shape
              (.cmdArg ann segmentNodes globPathSize) =
            listTraces assertion shape segmentNodes :=
        Eq.symm (listTraces_eq rfl rfl)
      have hVisitArg :=
        traces_visitCmdArgNode globPathSize
          (segmentNodes.head?.any Node.isTilde)
          (isIgnorableEmptyString segmentNodes) hNodes
      refine ⟨?_, ?_, ?_, by rintro _ _ _ _ ⟨⟩, ?_, by rintro ⟨⟩⟩
      · rw [code, hEq]
        exact hVisitArg.within _
      · intro fragment
        rw [code, hEq]
        exact
          traces_generateConcat (hVisitArg.within _) fragment
      · intro _
        rw [code, hEq]
        exact traces_generateCmdArg hNodes
      · intro pipeline hIs
        rw [code] at hIs
        cases hIs
  | argArray ann cmdArgNodes =>
      refine nodeTraces_ofVisit (by rw [code]) rfl ?_
      exact
        (traces_visitArgArrayNode ann.type
          (hPlain (List.Subset.refl _))).congr
          (listTraces_eq rfl rfl)
  | redir ann targetNode op =>
      have hTarget := hParts .plain targetNode List.mem_cons_self
      refine nodeTraces_ofVisit (by rw [code]) rfl ?_
      exact
        ((hTarget.cmdArg hVisit).seq_silent
          (Traces.emitIns _)).congr
          (nodeTraces_single rfl rfl)
  | wildCard ann globMeta =>
      refine nodeTraces_ofVisit (by rw [code]) rfl ?_
      exact
        (Traces.emitIns _).congr (nodeTraces_leaf rfl rfl)
  | pipeline ann nodes baseIndex lastPipe =>
      exact
        nodeTraces_pipeline ann nodes baseIndex lastPipe hParts
  | «with» ann exprNode redirNodes baseIndex =>
      have hExpr :=
        hParts (.slots baseIndex 1) exprNode List.mem_cons_self
      refine nodeTraces_ofVisit (by rw [code]) rfl ?_
      refine
        (traces_visitWithNode baseIndex hExpr.visit
          (fun node hNode =>
            hParts (.slots baseIndex 1) node
              (List.mem_cons_of_mem _
                (List.mem_map.mpr ⟨node, hNode, rfl⟩)))).congr
          ?_
      refine Eq.trans ?_ (partTraces_eq rfl rfl)
      refine Eq.trans ?_ (partTraces_cons _ _ _ _ _).symm
      rw [partTraces_each]
      rfl
  | fork ann exprNode opKind =>
      have hExpr := hParts .child exprNode List.mem_cons_self
      refine nodeTraces_ofVisit (by rw [code]) rfl ?_
      exact
        (traces_visitForkNode hExpr opKind).congr
          (nodeTraces_one .child rfl rfl)
  | assert ann condNode messageNode =>
      have hCond := hParts .plain condNode List.mem_cons_self
      have hMessage :=
        hParts .plain messageNode
          (List.mem_of_getElem? (i := 1) rfl)
      refine nodeTraces_ofVisit (by rw [code]) rfl ?_
      refine
        Traces.congr
          (traces_visitAssertNode
            (fun _ => hCond.visit.seq hMessage.visit)
            (Traces.item rfl))
          ?_
      rw [hAssertion]
      cases assertion with
      | false => exact (nodeTraces_leaf rfl rfl)
      | true => exact (nodeTraces_pair rfl rfl)
  | block ann nodes baseIndex varSize maxVarSize =>
      refine nodeTraces_ofVisit (by rw [code]) rfl ?_
      refine
        (traces_visitBlockNode baseIndex varSize
          (fun node hNode =>
            hParts (.slots baseIndex varSize) node
              (List.mem_map.mpr ⟨node, hNode, rfl⟩))).congr ?_
      refine Eq.trans ?_ (partTraces_eq rfl rfl)
      exact
        (partTraces_each (.slots baseIndex varSize) nodes).symm
  | typeAlias ann =>
      refine nodeTraces_ofVisit (by rw [code]) rfl ?_
      exact Traces.skip.congr (nodeTraces_leaf rfl rfl)
  | loop ann initNode condNode iterNode blockNode doWhile =>
      exact
        nodeTraces_loop ann initNode iterNode blockNode condNode
          doWhile hParts
  | ifElse ann condNode thenNode elseNode =>
      have hCond := hParts .plain condNode List.mem_cons_self
      have hThen :=
        hParts .plain thenNode (List.mem_of_getElem? (i := 1) rfl)
      have hElse :=
        hParts .plain elseNode (List.mem_of_getElem? (i := 2) rfl)
      refine nodeTraces_ofVisit (by rw [code]) rfl ?_
      refine
        (traces_visitIfNode thenNode.type elseNode.isEmptyCode
          hCond.visit hThen.visit hElse.visit).congr ?_
      refine Eq.trans ?_ (partTraces_eq rfl rfl)
      refine Eq.trans ?_ (partTraces_cons _ _ _ _ _).symm
      rw [partTraces_cons, partTraces_cons, partTraces_nil,
        Set.union_empty]
  | case ann exprNode armNodes kind eqHandle matchHandle =>
      exact
        nodeTraces_case checker ann exprNode armNodes kind
          eqHandle matchHandle hVisit hParts
  | arm ann patternNodes actionNode =>
      have hAction := hParts .plain actionNode List.mem_cons_self
      have hEq :
          nodeTraces assertion shape
              (.arm ann patternNodes actionNode) =
            nodeTraces assertion shape actionNode :=
        Eq.symm (nodeTraces_single rfl rfl)
      refine ⟨?_, ?_, by rintro ⟨⟩, by rintro _ _ _ _ ⟨⟩, ?_, by rintro ⟨⟩⟩
      · rw [code, hEq]
        exact hAction.visit.within _
      · intro fragment
        rw [code, hEq]
        exact
          traces_generateConcat (hAction.visit.within _) fragment
      · intro pipeline hIs
        rw [code] at hIs
        cases hIs
  | jump ann op exprNode leavingBlock target =>
      have hExpr := hParts .plain exprNode List.mem_cons_self
      refine nodeTraces_ofVisit (by rw [code]) rfl ?_
      refine
        (traces_visitJumpNode ann op leavingBlock target
          hExpr).congr ?_
      ext trace
      have hMem :=
        Library.mem_collect_iff (Node.compiledParts assertion)
          GenShape.enter GenShape.own shape
          (.jump ann op exprNode leavingBlock target) trace
      refine Iff.trans (or_congr_right ?_) hMem.symm
      refine Iff.trans ?_ (Set.ext_iff.mp
        (partTraces_cons _ _ _ _ _) trace).symm
      rw [partTraces_nil, Set.union_empty]
  | «catch» ann catchType blockNode varIndex =>
      have hBlock := hParts .plain blockNode List.mem_cons_self
      refine nodeTraces_ofVisit (by rw [code]) rfl ?_
      exact
        (traces_visitCatchNode hBlock varIndex).congr
          (nodeTraces_single rfl rfl)
  | «try» ann exprNode catchNodes finallyNode =>
      exact
        nodeTraces_try ann exprNode catchNodes finallyNode hParts
  | varDecl ann kind varName exprNode varIndex global =>
      refine nodeTraces_ofVisit (by rw [code]) rfl ?_
      have hSome :
          (optVisit exprNode).isSome = exprNode.isSome := by
        rw [optVisit_eq, Option.isSome_map]
      have hKind :
          (kind == .importEnv || (optVisit exprNode).isSome) =
            true := by
        rw [hSome]
        exact hVisit
      have hExpr :
          ∀ node, exprNode = some node →
            NodeTraces assertion (shape.enter .plain) node := by
        intro node hNode
        refine hParts .plain node ?_
        rw [hNode]
        exact List.mem_cons_self
      exact
        Traces.congr
          (traces_visitVarDeclNode ann kind varName varIndex
            global hKind (optVisit_traces hExpr))
          (partTraces_eq rfl rfl)
  | assign ann leftNode rightNode selfAssign =>
      have hLeft := hParts .plain leftNode List.mem_cons_self
      have hRight :=
        hParts .plain rightNode
          (List.mem_of_getElem? (i := 1) rfl)
      have hEq :
          nodeTraces assertion shape
              (.assign ann leftNode rightNode selfAssign) =
            nodeTraces assertion shape leftNode ∪
              nodeTraces assertion shape rightNode :=
        Eq.symm (nodeTraces_pair rfl rfl)
      have hAssign :=
        traces_visitAssignNode hVisit hLeft hRight selfAssign
      refine ⟨?_, ?_, by rintro ⟨⟩, by rintro _ _ _ _ ⟨⟩, ?_, ?_⟩
      · rw [code, hEq]
        exact hAssign.within _
      · intro fragment
        rw [code, hEq]
        exact
          traces_generateConcat (hAssign.within _) fragment
      · intro pipeline hIs
        rw [code] at hIs
        cases hIs
      · intro hIs
        rw [code, hEq]
        exact traces_envAssign hIs hRight
  | elementSelfAssign ann recvNode indexNode getterNode rightNode
      setterNode =>
      have hRecv := hParts .plain recvNode List.mem_cons_self
      have hIndex :=
        hParts .plain indexNode
          (List.mem_of_getElem? (i := 1) rfl)
      have hGetter :=
        hParts .plain getterNode
          (List.mem_of_getElem? (i := 2) rfl)
      have hRight :=
        hParts .plain rightNode
          (List.mem_of_getElem? (i := 3) rfl)
      have hSetter :=
        hParts .plain setterNode
          (List.mem_of_getElem? (i := 4) rfl)
      refine nodeTraces_ofVisit (by rw [code]) rfl ?_
      refine
        (Traces.seqs_cons hRecv.visit
          (Traces.seqs_cons hIndex.visit
            (Traces.seqs_emitIns
              (Traces.seqs_cons hGetter.visit
                (Traces.seqs_cons hRight.visit
                  (Traces.seqs_cons hSetter.visit
                    Traces.seqs_nil)))))).congr ?_
      refine Eq.trans ?_ (partTraces_eq rfl rfl)
      refine Eq.trans ?_ (partTraces_cons _ _ _ _ _).symm
      rw [partTraces_cons, partTraces_cons, partTraces_cons,
        partTraces_cons, partTraces_nil]
  | prefixAssign ann assignNodes exprNode baseIndex varSize =>
      exact
        nodeTraces_prefixAssign checker ann assignNodes exprNode
          baseIndex varSize hVisit hParts
  | function ann name blockNode maxVarNum varIndex funcType =>
      have hBlock :=
        hParts (.function funcType.returnType) blockNode
          List.mem_cons_self
      refine nodeTraces_ofVisit (by rw [code]) rfl ?_
      refine
        (Traces.codeUnit hBlock.visit (fun unit => ?_)).congr
          (nodeTraces_one (.function funcType.returnType) rfl rfl)
      exact (Traces.emitIns _).silent_seq (Traces.emitIns _)
  | interface ann =>
      refine nodeTraces_ofVisit (by rw [code]) rfl ?_
      exact Traces.skip.congr (nodeTraces_leaf rfl rfl)
  | userDefinedCmd ann name blockNode maxVarNum udcIndex =>
      have hBlock :=
        hParts .userDefinedCmd blockNode List.mem_cons_self
      refine nodeTraces_ofVisit (by rw [code]) rfl ?_
      refine
        (Traces.codeUnit hBlock.visit (fun unit => ?_)).congr
          (nodeTraces_one .userDefinedCmd rfl rfl)
      exact (Traces.emitIns _).silent_seq (Traces.emitIns _)
  | source ann nodes maxVarNum modIndex =>
      have hNodes :
          ∀ node ∈ nodes,
            NodeTraces assertion (shape.ofUnit .toplevel)
              node :=
        fun node hNode =>
          hParts .module node
            (List.mem_map.mpr ⟨node, hNode, rfl⟩)
      refine nodeTraces_ofVisit (by rw [code]) rfl ?_
      refine
        (Traces.codeUnit
          ((traces_visits hNodes).seq_silent (Traces.emitIns _))
          (fun unit => ?_)).congr ?_
      · refine Traces.seqs_emitIns ?_
        refine Traces.seqs_item rfl ?_
        refine Traces.seqs_emitIns ?_
        refine Traces.seqs_emitIns ?_
        exact Traces.seqs_emitIns Traces.seqs_nil
      · refine Eq.trans ?_ (partTraces_eq rfl rfl)
        exact (partTraces_each .module nodes).symm
  | codeComp ann =>
      refine nodeTraces_ofVisit (by rw [code]) rfl ?_
      exact Traces.skip.congr (nodeTraces_leaf rfl rfl)
  | empty ann =>
      refine nodeTraces_ofVisit (by rw [code]) rfl ?_
      exact Traces.skip.congr (nodeTraces_leaf rfl rfl)

end

----
-- Whole Scripts
----

/- A node that the checker lets pass, wherever it occurs. -/
theorem nodeTraces_of_visitAll
    {assertion : Bool}
    (node : Node)
    {shape : GenShape}
    {checker : TypeChecker}
    (hAssertion : shape.assertion = assertion)
    (hAll : checker.visitAll node = true) :
    NodeTraces assertion shape node := by
  refine
    nodeTraces_of_parts checker hAssertion node
      (TypeChecker.visitAll_node hAll) ?_
  intro label part hPart
  have hSize := Node.parts_sizeOf node label part hPart
  exact
    nodeTraces_of_visitAll part
      ((shape.enter_assertion label).trans hAssertion)
      (TypeChecker.visitAll_part hAll hPart)
termination_by sizeOf node

theorem traces_generateToplevel
    {assertion : Bool}
    {shape : GenShape}
    {nodes : List Node}
    (hAssertion : shape.assertion = assertion)
    (hAccepts : TypeChecker.Accepts nodes) :
    Traces (generateToplevel nodes) shape
      (listTraces assertion shape nodes) := by
  refine Traces.seq_silent ?_ (Traces.emitIns _)
  exact
    traces_visits (fun node hNode =>
      nodeTraces_of_visitAll node hAssertion
        (hAccepts node hNode))

end Generator

def GenShape.toplevel (assertion : Bool) : GenShape :=
  { kind := .toplevel
    assertion
    localVars := []
    loops := []
    tries := [] }

/- The jump records of all code units. -/
def jumpRecords (units : List CodeUnit) : List JumpRecord :=
  units.flatMap CodeUnit.jumpRecords

/-
  The generator fails only for a fault among the traces of the
  script.  Otherwise there is none, the jumps recorded are the
  jumps among the traces, and every record stands in front of
  the code of its jump.
-/
theorem generate_traces
    (assertion : Bool)
    (nodes : List Node)
    (maxVarIndex : Nat)
    (hAccepts : TypeChecker.Accepts nodes) :
    match generate assertion nodes maxVarIndex with
    | .error kind =>
        .fault kind ∈
          listTraces assertion (.toplevel assertion) nodes
    | .ok units =>
        (∀ kind,
          .fault kind ∉
            listTraces assertion (.toplevel assertion) nodes) ∧
          (∀ trace,
            (∃ record ∈ jumpRecords units,
              record.trace = trace) ↔
              .jump trace ∈
                listTraces assertion (.toplevel assertion)
                  nodes) ∧
            ∀ unit ∈ units, JumpsFollowed [] unit.items := by
  have hCode :
      Traces (Generator.generateToplevel nodes)
        (.toplevel assertion)
        (listTraces assertion (.toplevel assertion) nodes) :=
    Generator.traces_generateToplevel rfl hAccepts
  have hTraces :=
    hCode
      { kind := .toplevel
        assertion
        localVars := []
        loopLabels := []
        finallyLabels := [] }
      rfl { nextLabel := 0, units := [] }
  unfold generate
  generalize Generator.generateToplevel nodes _ _ = outcome
    at hTraces ⊢
  rcases outcome with kind | ⟨state, items⟩
  · exact hTraces
  · refine ⟨hTraces.1, fun trace => ?_, fun unit hUnit => ?_⟩
    · refine Iff.trans ?_ ((hTraces.2.1 trace).trans ?_)
      · simp only [GenState.HasJump, GenState.jumpRecords,
          jumpRecords, List.flatMap_append, List.flatMap_cons,
          List.flatMap_nil, List.append_nil,
          CodeUnit.jumpRecords]
      · refine or_iff_right ?_
        rintro ⟨record, hMem, _⟩
        cases hMem
    · have hFollowed :=
        hTraces.2.2 ⟨by rintro _ ⟨⟩, jumpsFollowed_nil⟩
      rcases List.mem_append.mp hUnit with hOld | hNew
      · exact hFollowed.1 unit hOld
      · rw [List.mem_singleton.mp hNew]
        exact hFollowed.2

end Ydsh
