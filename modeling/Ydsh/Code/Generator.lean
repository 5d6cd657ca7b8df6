import Ydsh.Code.Emit

/-
  The byte code generator.

  `code` maps a node to the code of the visitor functions that
  may be applied to it.  Each visitor is a definition of its
  own that takes the code of the child nodes.

  Main declarations:
    * `NodeCode`
    * `generateConcat`
    * `visitLoopNode`
    * `visitTryNode`
    * `generateBreakContinue`
    * `Node.code`
    * `generateToplevel`
-/

----
-- Code of a Node
----

namespace Ydsh

/-
  What the generator may ask of a node: its code, its code as
  a fragment of a concatenation, the segments of a command
  argument, the receiver of an access, a pipeline run in a
  fork, and an assignment made in an environment context.
-/
structure NodeCode where
  visit : Emit
  concat : Bool → Emit
  cmdArg : Emit := .fault .badCast
  recv : Emit := .fault .badCast
  pipeline : Option (ForkKind → Emit) := none
  envAssign : Emit := .fault .badCast
  patterns : List Emit := []

namespace Generator

open Emit

/- Code that is concatenated by an instruction of its own. -/
def generateConcat
    (code : Emit)
    (fragment : Bool) : Emit :=
  seq code (when fragment (emitIns .concat))

/- The code of a node that is visited and nothing else. -/
def ofVisit (type : DSType) (visit : Emit) : NodeCode :=
  { visit := within (.node type) visit
    concat := generateConcat (within (.node type) visit) }

/- The native `OP_STR` of type `Any`. -/
def handleStr : MethodHandle :=
  { native := true, methodIndex := 0, returnType := .string }

def emitToString : Emit := emitMethodCallIns 0 handleStr

----
-- Literals and Concatenation
----

def visitNumberNode
    (kind : NumberKind)
    (value : Int) : Emit :=
  match kind with
  | .int =>
      if 0 ≤ value ∧ value ≤ 255 then
        emitIns (.pushInt value)
      else
        emitLdcIns (.int value)
  | .float => emitLdcIns (.float value)
  | .signal => emitIns (.pushSig value)

def visitStringNode (value : String) : Emit :=
  if value.utf8ByteSize ≤ 3 then
    emitIns (.pushStr value)
  else
    emitLdcIns (.string value)

/- An empty fragment adds nothing. -/
def concatStringNode
    (value : String)
    (fragment : Bool) : Emit :=
  if value.isEmpty && fragment then
    skip
  else
    generateConcat (visitStringNode value) fragment

def concatExprNodes : List (Bool → Emit) → Bool → Emit
  | [], _ => skip
  | code :: rest, fragment =>
      seq (code fragment) (concatExprNodes rest true)

def concatStringExprNode
    (codes : List (Bool → Emit))
    (fragment : Bool) : Emit :=
  if codes.isEmpty then
    when (!fragment) (emitIns (.pushStr ""))
  else
    concatExprNodes codes fragment

def visitArrayNode
    (type : DSType)
    (exprs : List Emit) : Emit :=
  seq (emitIns (.new type))
    (seqs (exprs.map
      (fun expr => seq expr (emitIns .appendArray))))

def visitMapEntries : List Emit → List Emit → Emit
  | key :: keys, value :: values =>
      seqs [key, value, emitIns .appendMap,
        visitMapEntries keys values]
  | _, _ => skip

def visitMapNode
    (type : DSType)
    (keys values : List Emit) : Emit :=
  seq (emitIns (.new type)) (visitMapEntries keys values)

def visitTupleFields : List Emit → Nat → Emit
  | [], _ => skip
  | node :: nodes, i =>
      seqs [emitIns .dup, node, emitIns (.storeField i),
        visitTupleFields nodes (i + 1)]

def visitTupleNode
    (type : DSType)
    (nodes : List Emit) : Emit :=
  seq (emitIns (.new type)) (visitTupleFields nodes 0)

def loadVar (index : Nat) (attr : VarAttr) : Emit :=
  if attr.global then
    emitIns (.loadGlobal index)
  else
    emitIns (.loadLocal index)

def storeVar (index : Nat) (global : Bool) : Emit :=
  if global then
    emitIns (.storeGlobal index)
  else
    emitIns (.storeLocal index)

def visitVarNode
    (ann : Ann)
    (index : Nat)
    (attr : VarAttr) : Emit :=
  seq (emitSourcePos ann.pos)
    (if attr.env then
      seq (loadVar index attr) (emitIns .loadEnv)
    else if attr.random then
      emitIns .rand
    else if attr.seconds then
      emitIns .getSecond
    else if attr.modConst then
      emitIns (.loadConst (.module index))
    else
      loadVar index attr)

def visitAccessNode
    (recvType : DSType)
    (recv : Emit)
    (index : Nat)
    (dupRecv : Bool) : Emit :=
  seq recv
    (if recvType.isModType then
      seq (emitIns .pop) (emitIns (.loadGlobal index))
    else
      seq (when dupRecv (emitIns .dup))
        (emitIns (.loadField index)))

----
-- Operators
----

def visitPrint
    (exprType : DSType)
    (expr : Emit) : Emit :=
  seqs
    [expr,
      match exprType with
      | .option elementType =>
          makeLabel (fun thenLabel =>
          makeLabel (fun mergeLabel =>
            seqs
              [emitIns (.tryUnwrap thenLabel),
                emitLdcIns (.string "(invalid)"),
                emitJumpIns mergeLabel,
                markLabel thenLabel,
                when (elementType != .string) emitToString,
                markLabel mergeLabel]))
      | _ => when (exprType != .string) emitToString,
      emitIns (.print exprType)]

def visitTypeOpNode
    (ann : Ann)
    (exprType : DSType)
    (expr : Emit)
    (kind : TypeOpKind) : Emit :=
  match kind with
  | .noCast => expr
  | .toVoid => seq expr (emitIns .pop)
  | .numCast handle => seq expr (emitMethodCallIns 0 handle)
  | .toString =>
      seqs [expr, emitSourcePos ann.pos, emitToString]
  | .toBool handle =>
      seqs
        [expr, emitSourcePos ann.pos,
          emitMethodCallIns 0 handle]
  | .checkCast =>
      seqs
        [expr, emitSourcePos ann.pos,
          emitIns (.checkCast ann.type)]
  | .checkUnwrap =>
      seqs
        [expr, emitSourcePos ann.pos, emitIns .checkUnwrap]
  | .print =>
      visitPrint exprType (seq expr (emitSourcePos ann.pos))
  | .alwaysFalse =>
      seqs [expr, emitIns .pop, emitIns .pushFalse]
  | .alwaysTrue =>
      seqs [expr, emitIns .pop, emitIns .pushTrue]
  | .instanceOf targetType =>
      seq expr (emitIns (.instanceOf targetType))

def visitUnaryOpNode
    (operand : Emit)
    (unwrap : Bool) : Emit :=
  seq operand (when unwrap (emitIns .unwrap))

def visitCondOp (isAnd : Bool) (left right : Emit) : Emit :=
  makeLabel (fun elseLabel =>
  makeLabel (fun mergeLabel =>
    if isAnd then
      seqs
        [left, emitBranchIns elseLabel, right,
          emitJumpIns mergeLabel, markLabel elseLabel,
          emitIns .pushFalse, markLabel mergeLabel]
    else
      seqs
        [left, emitBranchIns elseLabel, emitIns .pushTrue,
          emitJumpIns mergeLabel, markLabel elseLabel,
          right, markLabel mergeLabel]))

def visitStrCheck
    (left right : Emit)
    (emptyHandle : MethodHandle) : Emit :=
  makeLabel (fun mergeLabel =>
    seqs
      [left, emitIns .dup, emitMethodCallIns 0 emptyHandle,
        emitBranchIns mergeLabel, emitIns .pop, right,
        markLabel mergeLabel])

def visitNullCoale (left right : Emit) : Emit :=
  makeLabel (fun mergeLabel =>
    seqs
      [left, emitIns (.tryUnwrap mergeLabel), right,
        markLabel mergeLabel])

def visitBinaryOpNode
    (op : BinaryOp)
    (leftEmpty : Bool)
    (left right : NodeCode)
    (emptyHandle : MethodHandle) : Emit :=
  match op with
  | .condAnd => visitCondOp true left.visit right.visit
  | .condOr => visitCondOp false left.visit right.visit
  | .strCheck =>
      visitStrCheck left.visit right.visit emptyHandle
  | .nullCoale => visitNullCoale left.visit right.visit
  | .eq => seqs [left.visit, right.visit, emitIns .refEq]
  | .ne => seqs [left.visit, right.visit, emitIns .refNe]
  | .add =>
      if leftEmpty then
        seq right.visit (emitIns .append)
      else
        seq (left.concat false) (right.concat true)

def visitApplyNode
    (ann : Ann)
    (expr : Emit)
    (args : List Emit)
    (handle : Option MethodHandle) : Emit :=
  seqs
    [expr, seqs args, emitSourcePos ann.pos,
      match handle with
      | some handle => emitMethodCallIns args.length handle
      | none => emitFuncCallIns args.length ann.type]

def visitNewNode
    (ann : Ann)
    (args : List Emit)
    (handle : Option MethodHandle) : Emit :=
  match ann.type with
  | .option _ => emitIns .pushInvalid
  | .array _ => emitIns (.new ann.type)
  | .map _ _ => emitIns (.new ann.type)
  | _ =>
      match handle with
      | none => fault .badCast
      | some handle =>
          seqs
            [emitIns (.new ann.type), seqs args,
              emitSourcePos ann.pos,
              emitMethodCallIns args.length handle]

def visitEmbedNode
    (ann : Ann)
    (expr : Emit)
    (handle : Option MethodHandle) : Emit :=
  match handle with
  | none => expr
  | some handle =>
      seqs
        [expr, emitSourcePos ann.pos,
          emitMethodCallIns 0 handle]

----
-- Commands
----

def visitCmdNode
    (ann : Ann)
    (name : String)
    (tilde : Bool)
    (args : List Emit)
    (hasRedir needFork : Bool) : Emit :=
  seqs
    [visitStringNode name,
      when tilde (emitIns .expandTilde),
      emitIns .newCmd,
      emitIns (if hasRedir then .newRedir else .pushNull),
      seqs args,
      when hasRedir (emitIns .doRedir),
      emitSourcePos ann.pos,
      emitIns
        (if needFork then
          .callCmd (ann.type != .nothing)
        else
          .callCmdNofork (ann.type != .nothing))]

/- The end of a run of segments that starts at a tilde. -/
def closeSegment (first tilde : Bool) : Emit :=
  seq (when tilde (emitIns .expandTilde))
    (when (!first) (emitIns .concat))

def concatSegments
    (first tilde : Bool) :
    List (Bool × (Bool → Emit)) → Emit
  | [] => closeSegment first tilde
  | (isTilde, code) :: rest =>
      if isTilde then
        seqs
          [closeSegment first tilde, code false,
            concatSegments false true rest]
      else
        seq (code true) (concatSegments first tilde rest)

def generateCmdArg :
    List (Bool × (Bool → Emit)) → Emit
  | [] => skip
  | (isTilde, code) :: rest =>
      seq (code false) (concatSegments true isTilde rest)

/- Fragments between wild cards are concatenated. -/
def globSegments :
    Bool → List (Bool × NodeCode) → Emit
  | _, [] => skip
  | fragment, (isWildCard, code) :: rest =>
      if isWildCard then
        seq code.visit (globSegments false rest)
      else
        seq (code.concat fragment) (globSegments true rest)

def visitCmdArgNode
    (globPathSize : Nat)
    (tilde ignorableEmpty : Bool)
    (segments : List (Bool × NodeCode))
    (cmdArg : Emit) : Emit :=
  if globPathSize > 0 then
    seqs
      [globSegments false segments, emitIns .pushNull,
        emitIns (.addGlobbing globPathSize tilde)]
  else
    seq cmdArg (emitIns (.addCmdArg ignorableEmpty))

def visitArgArrayNode
    (type : DSType)
    (args : List Emit) : Emit :=
  seqs
    [emitIns (.new type), emitIns .pushNull, seqs args,
      emitIns .pop]

def visitRedirNode (target : Emit) (op : Nat) : Emit :=
  seq target (emitIns (.addRedirOp op))

----
-- Child Processes
----

def makeLabels :
    Nat → (List Label → Emit) → Emit
  | 0, rest => rest []
  | n + 1, rest =>
      makeLabel (fun label =>
        makeLabels n (fun labels => rest (label :: labels)))

/- The children of a pipeline, separated by `HALT`. -/
def pipelineChildren :
    Bool → List Emit → List Label → Emit
  | first, node :: nodes, label :: labels =>
      seqs
        [when (!first) (emitIns .halt), markLabel label, node,
          pipelineChildren false nodes labels]
  | _, _, _ => skip

def generatePipeline
    (ann : Ann)
    (children : List Emit)
    (last : Option Emit)
    (baseIndex : Nat)
    (forkKind : ForkKind) : Emit :=
  makeLabels children.length (fun labels =>
  makeLabel (fun lastLabel =>
  makeLabel (fun begin_ =>
  makeLabel (fun end_ =>
    seqs
      [emitSourcePos ann.pos,
        emitIns
          (.pipeline last.isSome forkKind
            (labels ++ [lastLabel])),
        markLabel begin_,
        within .child (pipelineChildren true children labels),
        markLabel end_,
        catchException begin_ end_ .procGuard 0 0,
        emitIns .halt,
        markLabel lastLabel,
        match last with
        | none => skip
        | some node =>
            generateBlock baseIndex 1 true
              (seq (emitIns (.storeLocal baseIndex)) node)]))))

def visitWithNode
    (expr : Emit)
    (redirs : List Emit)
    (baseIndex : Nat) : Emit :=
  generateBlock baseIndex 1 true
    (seqs
      [emitIns .newRedir, seqs redirs, emitIns .doRedir,
        emitIns (.storeLocal baseIndex), expr])

def generateFork (expr : Emit) (opKind : ForkKind) : Emit :=
  makeLabel (fun beginLabel =>
  makeLabel (fun endLabel =>
  makeLabel (fun mergeLabel =>
    seqs
      [markLabel beginLabel,
        within .child
          (seq (emitIns (.fork opKind mergeLabel)) expr),
        markLabel endLabel,
        catchException beginLabel endLabel .procGuard 0 0,
        emitIns .halt,
        markLabel mergeLabel])))

/- A pipeline is forked as a whole unless its output is read. -/
def visitForkNode
    (expr : NodeCode)
    (opKind : ForkKind) : Emit :=
  match expr.pipeline with
  | some pipeline =>
      if opKind = .array ∨ opKind = .str then
        generateFork expr.visit opKind
      else
        pipeline opKind
  | none => generateFork expr.visit opKind

----
-- Statements
----

def visitAssertNode (condNode message : Emit) : Emit :=
  readEnv (fun env =>
    when env.assertion
      (seqs [condNode, message, emitIns .assert]))

/- Whether a block clears its local variables at its end. -/
def needReclaim
    (env : GenEnv)
    (nodes : List Node)
    (varSize : Nat) : Bool :=
  match nodes.getLast? with
  | none => false
  | some last =>
      last.type != .nothing &&
        varSize != 0 &&
        !((env.kind == .function ||
            env.kind == .userDefinedCmd) &&
          env.localVars.isEmpty)

def visitBlockNode
    (nodes : List Node)
    (codes : List Emit)
    (baseIndex varSize : Nat) : Emit :=
  if nodes.isEmpty then
    skip
  else
    readEnv (fun env =>
      generateBlock baseIndex varSize
        (needReclaim env nodes varSize)
        (seqs codes))

def visitLoopNode
    (ann : Ann)
    (declared : Option Nat)
    (iterEmpty : Bool)
    (init : Emit)
    (condition : Option Emit)
    (iter block : Emit)
    (doWhile : Bool) : Emit :=
  generateBlock (declared.getD 0)
    (if declared.isSome then 1 else 0) declared.isSome
    (makeLabel (fun initLabel =>
    makeLabel (fun startLabel =>
    makeLabel (fun breakLabel =>
    makeLabel (fun continueLabel =>
    makeLabel (fun breakWithValueLabel =>
      withLoopLabels breakLabel continueLabel
        breakWithValueLabel ann.pos ann.type
        (seqs
          [init,
            when (!iterEmpty) (emitJumpIns initLabel),
            when doWhile (emitJumpIns startLabel),
            markLabel continueLabel,
            iter,
            markLabel initLabel,
            condition.getD (emitIns .pushTrue),
            emitBranchIns breakLabel,
            markLabel startLabel,
            block,
            markLabel breakLabel,
            when (ann.type != .void)
              (seq (emitIns .pushInvalid)
                (markLabel breakWithValueLabel))])))))))

def visitIfNode
    (thenType : DSType)
    (elseEmpty : Bool)
    (condition thenCode elseCode : Emit) : Emit :=
  makeLabel (fun elseLabel =>
  makeLabel (fun mergeLabel =>
    seqs
      [condition, emitBranchIns elseLabel, thenCode,
        when (!elseEmpty && thenType != .nothing)
          (emitJumpIns mergeLabel),
        markLabel elseLabel, elseCode,
        markLabel mergeLabel]))

----
-- Case Expressions
----

/- The constant a pattern stands for in the table. -/
def newObject : Node → Option CaseKey
  | .number _ .signal value => some (.signal value)
  | .number _ _ value => some (.int value)
  | .string _ value _ => some (.string value)
  | _ => none

def caseKeys : Node → List CaseKey
  | .arm _ patternNodes _ => patternNodes.filterMap newObject
  | _ => []

/-
  The arms of a case compiled to a table.  The jump to the end
  is left out after an arm that never completes.
-/
def mapCaseArms
    (mergeLabel : Label)
    (prevType : Option DSType) :
    List (Label × Node × Emit) → Emit
  | [] => skip
  | (label, node, action) :: arms =>
      seqs
        [when
            (match prevType with
            | none => false
            | some type => type != .nothing)
            (emitJumpIns mergeLabel),
          markLabel label,
          action,
          mapCaseArms mergeLabel (some node.type) arms]

/-
  Every arm gets a label.  The table holds the labels of the
  arms with patterns; the label of the default arm is where a
  failed lookup goes.
-/
def generateMapCase
    (expr : Emit)
    (armNodes : List Node)
    (arms : List Emit) : Emit :=
  makeLabel (fun mergeLabel =>
  makeLabels armNodes.length (fun labels =>
    let table :=
      (labels.zip armNodes).flatMap
        (fun arm => (caseKeys arm.2).map (fun key => (key, arm.1)))
    let elseLabel :=
      ((labels.zip armNodes).find?
        (fun arm => arm.2.isDefaultArm)).map Prod.fst
    seqs
      [emitLdcIns (.caseMap table),
        expr,
        emitIns .lookupHash,
        emitJumpIns (elseLabel.getD mergeLabel),
        mapCaseArms mergeLabel none
          (labels.zip (armNodes.zip arms)),
        markLabel mergeLabel]))

def armPatterns
    (armMerge : Label)
    (handle : DSType → MethodHandle) :
    Bool → List (DSType × Emit) → Emit
  | _, [] => skip
  | first, (type, pattern) :: patterns =>
      seqs
        [when (!first)
            (makeLabel (fun elseLabel =>
              seqs
                [emitBranchIns elseLabel, emitIns .pushTrue,
                  emitJumpIns armMerge, markLabel elseLabel])),
          emitIns .dup,
          pattern,
          emitMethodCallIns 1 (handle type),
          armPatterns armMerge handle false patterns]

def generateIfElseArm
    (patterns : List (DSType × Emit))
    (action : Emit)
    (eqHandle matchHandle : MethodHandle)
    (mergeLabel : Label) : Emit :=
  makeLabel (fun armElse =>
  makeLabel (fun armMerge =>
    seqs
      [armPatterns armMerge
          (fun type =>
            if type = .string then eqHandle else matchHandle)
          true patterns,
        markLabel armMerge,
        emitBranchIns armElse,
        emitIns .pop,
        action,
        emitJumpIns mergeLabel,
        markLabel armElse]))

def patternTypes : Node → List DSType
  | .arm _ patternNodes _ => patternNodes.map Node.type
  | _ => []

/- The default arm comes last; without one nothing does. -/
def generateIfElseCase
    (expr : Emit)
    (armNodes : List Node)
    (arms : List NodeCode)
    (eqHandle matchHandle : MethodHandle) : Emit :=
  let pairs := armNodes.zip arms
  makeLabel (fun mergeLabel =>
    seqs
      [expr,
        seqs
          ((pairs.filter (fun arm => !arm.1.isDefaultArm)).map
            (fun arm =>
              generateIfElseArm
                ((patternTypes arm.1).zip arm.2.patterns)
                arm.2.visit eqHandle matchHandle mergeLabel)),
        match
          (pairs.filter (fun arm => arm.1.isDefaultArm)).getLast? with
        | none => skip
        | some arm => seq (emitIns .pop) arm.2.visit,
        markLabel mergeLabel])

----
-- Jumps
----

/-
  The local variables left by the jump: from the first block
  of the loop body to the end of the innermost block.
-/
def reclaimRange
    (localVars : List (Nat × Nat))
    (blockIndex : Nat) : Option (Nat × Nat) :=
  match localVars[blockIndex]?, localVars.getLast? with
  | some first, some last =>
      some (first.1, last.1 + last.2 - first.1)
  | _, _ => none

def generateBreakContinue
    (ann : Ann)
    (op : JumpOp)
    (exprType : DSType)
    (leavingBlock : Bool)
    (target : Option Nat)
    (expr : Emit) : Emit :=
  readEnv (fun env =>
    match env.loopLabels with
    | [] => fault .emptyLoopLabels
    | loop :: _ =>
        seq expr
          (match reclaimRange env.localVars loop.blockIndex with
          | none => fault .blockIndexOutOfRange
          | some (offset, size) =>
              seqs
                [when (size != 0)
                    (emitIns (.reclaimLocal offset size)),
                  item
                    (.jump
                      { pos := ann.pos
                        op
                        valueType := exprType
                        leavingBlock
                        target
                        loop := some loop
                        known := env.finallyLabels
                        entered :=
                          if leavingBlock then
                            env.finallyLabels
                          else
                            [] }),
                  when leavingBlock
                    (enterMultiFinally env.finallyLabels),
                  emitJumpIns
                    (if op = .break then
                      if exprType = .void then
                        loop.breakLabel
                      else
                        loop.breakWithValueLabel
                    else
                      loop.continueLabel)]))

def visitReturn
    (ann : Ann)
    (exprType : DSType)
    (expr : Emit) : Emit :=
  readEnv (fun env =>
    seqs
      [expr,
        item
          (.jump
            { pos := ann.pos
              op := .return
              valueType := exprType
              leavingBlock := true
              target := none
              loop := none
              known := env.finallyLabels
              entered := env.finallyLabels }),
        enterMultiFinally env.finallyLabels,
        emitIns
          (if env.kind = .userDefinedCmd then
            .returnUdc
          else if exprType = .void then
            .return
          else
            .returnV)])

def visitJumpNode
    (ann : Ann)
    (op : JumpOp)
    (exprType : DSType)
    (leavingBlock : Bool)
    (target : Option Nat)
    (expr : Emit) : Emit :=
  match op with
  | .break =>
      generateBreakContinue ann .break exprType leavingBlock
        target expr
  | .continue =>
      generateBreakContinue ann .continue exprType leavingBlock
        target expr
  | .throw => seq expr (emitIns .throw)
  | .return => visitReturn ann exprType expr

----
-- Exceptions
----

def visitCatchNode
    (blockEmpty : Bool)
    (block : Emit)
    (varIndex : Nat) : Emit :=
  if blockEmpty then
    emitIns .pop
  else
    seq (emitIns (.storeLocal varIndex)) block

/- Base index, size and largest size of a block's slots. -/
def blockSlots : Node → Nat × Nat × Nat
  | .block _ _ baseIndex varSize maxVarSize =>
      (baseIndex, varSize, maxVarSize)
  | _ => (0, 0, 0)

def catchTypeOf : Node → DSType
  | .catch _ catchType _ _ => catchType
  | _ => .any

def catchSlots : Node → Nat × Nat × Nat
  | .catch _ _ blockNode _ => blockSlots blockNode
  | _ => (0, 0, 0)

/- The largest number of slots of the body and the clauses. -/
def maxLocalSize
    (exprNode : Node)
    (catchNodes : List Node) : Nat :=
  catchNodes.foldl
    (fun size node =>
      max size (catchSlots node.innerNode).2.2)
    (blockSlots exprNode.innerNode).2.2

/- The jump behind a part of a try that may complete. -/
def leaveTry
    (type : DSType)
    (hasFinally : Bool)
    (finallyLabel mergeLabel : Label) : Emit :=
  when (type != .nothing)
    (seq (when hasFinally (enterFinally finallyLabel))
      (emitJumpIns mergeLabel))

def visitCatches
    (tryPos : Nat)
    (slots : Nat × Nat × Nat)
    (hasFinally : Bool)
    (beginLabel endLabel finallyLabel mergeLabel : Label) :
    List (Node × Emit) → Emit
  | [] => skip
  | (node, clause) :: clauses =>
      seqs
        [catchException beginLabel endLabel
            (catchTypeOf node.innerNode) slots.1 slots.2.1,
          within (.guarded tryPos hasFinally)
            (seq clause
              (leaveTry node.type hasFinally finallyLabel
                mergeLabel)),
          visitCatches tryPos slots hasFinally beginLabel
            endLabel finallyLabel mergeLabel clauses]

/- The body and the catch clauses of a try. -/
def generateGuarded
    (tryPos : Nat)
    (exprNode : Node)
    (catchNodes : List Node)
    (expr : Emit)
    (clauses : List Emit)
    (hasFinally : Bool)
    (beginLabel endLabel finallyLabel mergeLabel : Label) :
    Emit :=
  seqs
    [markLabel beginLabel,
      within
        (.tryBody tryPos
          (catchNodes.map
            (fun node => catchTypeOf node.innerNode))
          hasFinally)
        expr,
      markLabel endLabel,
      within (.guarded tryPos hasFinally)
        (leaveTry exprNode.type hasFinally finallyLabel
          mergeLabel),
      visitCatches tryPos (blockSlots exprNode.innerNode)
        hasFinally beginLabel endLabel finallyLabel mergeLabel
        (catchNodes.zip clauses)]

/- The handler that runs a finally block, and the block. -/
def generateFinally
    (tryPos : Nat)
    (exprNode : Node)
    (catchNodes : List Node)
    (beginLabel finallyLabel : Label)
    (code : Emit) : Emit :=
  seqs
    [markLabel finallyLabel,
      catchException beginLabel finallyLabel .root
        (blockSlots exprNode.innerNode).1
        (maxLocalSize exprNode catchNodes),
      within (.finallyBlock tryPos finallyLabel)
        (seq code (emitIns .exitFinally))]

def visitTryNode
    (ann : Ann)
    (exprNode : Node)
    (catchNodes : List Node)
    (expr : Emit)
    (clauses : List Emit)
    (finallyCode : Option Emit) : Emit :=
  makeLabel (fun finallyLabel =>
  makeLabel (fun beginLabel =>
  makeLabel (fun endLabel =>
  makeLabel (fun mergeLabel =>
    match finallyCode with
    | none =>
        seq
          (generateGuarded ann.pos exprNode catchNodes expr
            clauses false beginLabel endLabel finallyLabel
            mergeLabel)
          (markLabel mergeLabel)
    | some code =>
        seqs
          [withFinallyLabel finallyLabel ann.pos
              (generateGuarded ann.pos exprNode catchNodes expr
                clauses true beginLabel endLabel finallyLabel
                mergeLabel),
            generateFinally ann.pos exprNode catchNodes
              beginLabel finallyLabel code,
            markLabel mergeLabel]))))

----
-- Declarations and Assignments
----

def visitVarDeclNode
    (ann : Ann)
    (kind : VarDeclKind)
    (varName : String)
    (expr : Option Emit)
    (varIndex : Nat)
    (global : Bool) : Emit :=
  seqs
    [match kind with
      | .var => expr.getD (fault .badCast)
      | .let => expr.getD (fault .badCast)
      | .importEnv =>
          seqs
            [emitLdcIns (.string varName), emitIns .dup,
              expr.getD skip, emitSourcePos ann.pos,
              emitIns (.importEnv expr.isSome)]
      | .exportEnv =>
          seqs
            [emitLdcIns (.string varName), emitIns .dup,
              expr.getD (fault .badCast), emitIns .storeEnv],
      storeVar varIndex global]

def visitFieldAssign
    (recvType : DSType)
    (left recv right : Emit)
    (index : Nat)
    (selfAssign : Bool) : Emit :=
  seqs
    [if selfAssign then
        left
      else
        seq recv (when recvType.isModType (emitIns .pop)),
      right,
      if recvType.isModType then
        emitIns (.storeGlobal index)
      else
        emitIns (.storeField index)]

def visitVarAssign
    (left right : Emit)
    (index : Nat)
    (attr : VarAttr)
    (selfAssign : Bool) : Emit :=
  seqs
    [when selfAssign left,
      right,
      if attr.env then
        seqs
          [loadVar index attr, emitIns .swap, emitIns .storeEnv]
      else if attr.seconds then
        emitIns .setSecond
      else
        storeVar index attr.global]

/- Whether an argument that is an empty string is dropped. -/
def isIgnorableEmptyString (segmentNodes : List Node) : Bool :=
  segmentNodes.length > 1 ||
    !(match segmentNodes.getLast? with
      | some (.string _ _ _) => true
      | some (.stringExpr _ _) => true
      | _ => false)

def isCmdArgNode : Node → Bool
  | .cmdArg _ _ _ => true
  | _ => false

/- A command argument is assigned without being added. -/
def visitAssignNode
    (leftNode rightNode : Node)
    (left right : NodeCode)
    (selfAssign : Bool) : Emit :=
  match leftNode with
  | .access _ recvNode index _ =>
      visitFieldAssign recvNode.type left.visit left.recv
        right.visit index selfAssign
  | .var _ _ index attr =>
      visitVarAssign left.visit
        (if isCmdArgNode rightNode then
          right.cmdArg
        else
          right.visit)
        index attr selfAssign
  | _ => fault .badCast

def visitElementSelfAssignNode
    (recv index getter right setter : Emit) : Emit :=
  seqs [recv, index, emitIns .dup2, getter, right, setter]

/- One assignment made in an environment context. -/
def envAssign
    (leftNode : Node)
    (right : Emit) : Emit :=
  match leftNode with
  | .var _ varName index _ =>
      seqs
        [emitLdcIns (.string varName), emitIns .dup,
          emitIns (.storeLocal index), right,
          emitIns .add2EnvCtx]
  | _ => fault .badCast

def visitPrefixAssignNode
    (assigns : List NodeCode)
    (expr : Option Emit)
    (baseIndex varSize : Nat) : Emit :=
  match expr with
  | some expr =>
      generateBlock baseIndex varSize true
        (seqs
          [emitIns .newEnvCtx,
            seqs (assigns.map NodeCode.envAssign),
            emitIns (.storeLocal baseIndex),
            expr])
  | none => seqs (assigns.map NodeCode.visit)

def visitFunctionNode
    (name : String)
    (block : Emit)
    (maxVarNum varIndex : Nat)
    (type : DSType) : Emit :=
  codeUnit .function name maxVarNum type block (fun unit =>
    seq (emitLdcIns (.func unit type))
      (emitIns (.storeGlobal varIndex)))

def visitUserDefinedCmdNode
    (name : String)
    (block : Emit)
    (maxVarNum udcIndex : Nat) : Emit :=
  codeUnit .userDefinedCmd name maxVarNum .void block
    (fun unit =>
      seq (emitLdcIns (.func unit .void))
        (emitIns (.storeGlobal udcIndex)))

def visitSourceNode
    (ann : Ann)
    (nodes : List Emit)
    (maxVarNum modIndex : Nat)
    (modType : DSType) : Emit :=
  codeUnit .toplevel "" maxVarNum modType
    (seq (seqs nodes) (emitIns .return))
    (fun unit =>
      seqs
        [emitLdcIns (.func unit modType),
          emitSourcePos ann.pos,
          emitIns .dup,
          emitIns .callModule,
          emitIns (.storeGlobal modIndex)])

----
-- Visitor
----

def codeOfConcat
    (type : DSType)
    (node : Node)
    (expr : NodeCode)
    (visit : Emit) : NodeCode :=
  { ofVisit type visit with
    concat :=
      if node.isConcatenated then
        expr.concat
      else
        (ofVisit type visit).concat }

mutual

def code : Node → NodeCode
  | .number ann kind value =>
      ofVisit ann.type (visitNumberNode kind value)
  | .string ann value _ =>
      { visit := within (.node ann.type) (visitStringNode value)
        concat := concatStringNode value }
  | .stringExpr ann exprNodes =>
      { visit :=
          within (.node ann.type)
            (concatStringExprNode (concats exprNodes) false)
        concat := concatStringExprNode (concats exprNodes) }
  | .regex ann reStr =>
      ofVisit ann.type (emitLdcIns (.regex reStr))
  | .array ann exprNodes =>
      ofVisit ann.type (visitArrayNode ann.type (visits exprNodes))
  | .map ann keyNodes valueNodes =>
      ofVisit ann.type
        (visitMapNode ann.type (visits keyNodes)
          (visits valueNodes))
  | .tuple ann nodes =>
      ofVisit ann.type (visitTupleNode ann.type (visits nodes))
  | .var ann _ index attr =>
      ofVisit ann.type (visitVarNode ann index attr)
  | .access ann recvNode index dupRecv =>
      { ofVisit ann.type
          (visitAccessNode recvNode.type (code recvNode).visit
            index dupRecv) with
        recv := (code recvNode).visit }
  | .typeOp ann exprNode kind =>
      ofVisit ann.type
        (visitTypeOpNode ann exprNode.type (code exprNode).visit
          kind)
  | .unaryOp ann operand unwrap =>
      ofVisit ann.type
        (visitUnaryOpNode (code operand).visit unwrap)
  | .binaryOp ann op leftNode rightNode emptyHandle =>
      let visit :=
        visitBinaryOpNode op leftNode.isEmptyNode
          (code leftNode) (code rightNode) emptyHandle
      if (Node.binaryOp ann op leftNode rightNode
            emptyHandle).isBinaryStrConcat &&
          !leftNode.isEmptyNode then
        { visit := within (.node ann.type) visit
          concat := fun fragment =>
            seq ((code leftNode).concat fragment)
              ((code rightNode).concat true) }
      else
        ofVisit ann.type visit
  | .binaryApply ann optNode =>
      ofVisit ann.type (code optNode).visit
  | .apply ann exprNode args handle =>
      ofVisit ann.type
        (visitApplyNode ann (code exprNode).visit (visits args)
          handle)
  | .new ann args handle =>
      ofVisit ann.type (visitNewNode ann (visits args) handle)
  | .embed ann exprNode handle =>
      codeOfConcat ann.type exprNode (code exprNode)
        (visitEmbedNode ann (code exprNode).visit handle)
  | .cmd ann name tilde argNodes hasRedir needFork =>
      ofVisit ann.type
        (visitCmdNode ann name tilde (visits argNodes) hasRedir
          needFork)
  | .cmdArg ann segmentNodes globPathSize =>
      let cmdArg := generateCmdArg (tildeConcats segmentNodes)
      { ofVisit ann.type
          (visitCmdArgNode globPathSize
            (segmentNodes.head?.any Node.isTilde)
            (isIgnorableEmptyString segmentNodes)
            (wildCards segmentNodes) cmdArg) with
        cmdArg }
  | .argArray ann cmdArgNodes =>
      ofVisit ann.type
        (visitArgArrayNode ann.type (visits cmdArgNodes))
  | .redir ann targetNode op =>
      ofVisit ann.type
        (visitRedirNode (code targetNode).cmdArg op)
  | .wildCard ann globMeta =>
      ofVisit ann.type (emitIns (.pushMeta globMeta))
  | .pipeline ann nodes baseIndex lastPipe =>
      let codes := visits nodes
      let pipeline :=
        if lastPipe then
          generatePipeline ann codes.dropLast codes.getLast?
            baseIndex
        else
          generatePipeline ann codes none baseIndex
      { ofVisit ann.type (pipeline .none) with
        pipeline := some pipeline }
  | .with ann exprNode redirNodes baseIndex =>
      ofVisit ann.type
        (visitWithNode (code exprNode).visit (visits redirNodes)
          baseIndex)
  | .fork ann exprNode opKind =>
      ofVisit ann.type (visitForkNode (code exprNode) opKind)
  | .assert ann condNode messageNode =>
      ofVisit ann.type
        (visitAssertNode
          (seq (code condNode).visit (code messageNode).visit)
          (emitSourcePos condNode.pos))
  | .block ann nodes baseIndex varSize _ =>
      ofVisit ann.type
        (visitBlockNode nodes (visits nodes) baseIndex varSize)
  | .typeAlias ann => ofVisit ann.type skip
  | .loop ann initNode condNode iterNode blockNode doWhile =>
      ofVisit ann.type
        (visitLoopNode ann initNode.declaredVarIndex
          iterNode.isEmptyCode (code initNode).visit
          (optVisit condNode) (code iterNode).visit
          (code blockNode).visit doWhile)
  | .ifElse ann condNode thenNode elseNode =>
      ofVisit ann.type
        (visitIfNode thenNode.type elseNode.isEmptyCode
          (code condNode).visit (code thenNode).visit
          (code elseNode).visit)
  | .case ann exprNode armNodes kind eqHandle matchHandle =>
      ofVisit ann.type
        (match kind with
        | .map =>
            generateMapCase (code exprNode).visit armNodes
              (visits armNodes)
        | .ifElse =>
            generateIfElseCase (code exprNode).visit armNodes
              (codes armNodes) eqHandle matchHandle)
  | .arm ann patternNodes actionNode =>
      { ofVisit ann.type (code actionNode).visit with
        patterns := visits patternNodes }
  | .jump ann op exprNode leavingBlock target =>
      ofVisit ann.type
        (visitJumpNode ann op exprNode.type leavingBlock target
          (code exprNode).visit)
  | .catch ann _ blockNode varIndex =>
      ofVisit ann.type
        (visitCatchNode blockNode.isEmptyCode
          (code blockNode).visit varIndex)
  | .try ann exprNode catchNodes finallyNode =>
      ofVisit ann.type
        (visitTryNode ann exprNode catchNodes
          (code exprNode).visit (visits catchNodes)
          (optVisit finallyNode))
  | .varDecl ann kind varName exprNode varIndex global =>
      ofVisit ann.type
        (visitVarDeclNode ann kind varName (optVisit exprNode)
          varIndex global)
  | .assign ann leftNode rightNode selfAssign =>
      { ofVisit ann.type
          (visitAssignNode leftNode rightNode (code leftNode)
            (code rightNode) selfAssign) with
        envAssign :=
          Generator.envAssign leftNode (code rightNode).cmdArg }
  | .elementSelfAssign ann recvNode indexNode getterNode rightNode
      setterNode =>
      ofVisit ann.type
        (visitElementSelfAssignNode (code recvNode).visit
          (code indexNode).visit (code getterNode).visit
          (code rightNode).visit (code setterNode).visit)
  | .prefixAssign ann assignNodes exprNode baseIndex varSize =>
      ofVisit ann.type
        (visitPrefixAssignNode (codes assignNodes)
          (optVisit exprNode) baseIndex varSize)
  | .function ann name blockNode maxVarNum varIndex funcType =>
      ofVisit ann.type
        (visitFunctionNode name (code blockNode).visit maxVarNum
          varIndex funcType)
  | .interface ann => ofVisit ann.type skip
  | .userDefinedCmd ann name blockNode maxVarNum udcIndex =>
      ofVisit ann.type
        (visitUserDefinedCmdNode name (code blockNode).visit
          maxVarNum udcIndex)
  | .source ann nodes maxVarNum modIndex =>
      ofVisit ann.type
        (visitSourceNode ann (visits nodes) maxVarNum modIndex
          (.module modIndex))
  | .codeComp ann => ofVisit ann.type skip
  | .empty ann => ofVisit ann.type skip

def codes : List Node → List NodeCode
  | [] => []
  | node :: nodes => code node :: codes nodes

def visits : List Node → List Emit
  | [] => []
  | node :: nodes => (code node).visit :: visits nodes

def concats : List Node → List (Bool → Emit)
  | [] => []
  | node :: nodes => (code node).concat :: concats nodes

def tildeConcats : List Node → List (Bool × (Bool → Emit))
  | [] => []
  | node :: nodes =>
      (node.isTilde, (code node).concat) :: tildeConcats nodes

def wildCards : List Node → List (Bool × NodeCode)
  | [] => []
  | node :: nodes =>
      (node.isWildCard, code node) :: wildCards nodes

def optVisit : Option Node → Option Emit
  | none => none
  | some node => some (code node).visit

end

/-
  The code of a script: its statements in order, then a
  return.
-/
def generateToplevel (nodes : List Node) : Emit :=
  seq (seqs (visits nodes)) (emitIns .return)

/- The equations that proofs unfold. -/
attribute [local simp] code codes visits concats tildeConcats
  wildCards optVisit

end Generator

/- The code units of a script, its own code last. -/
def generate
    (assertion : Bool)
    (nodes : List Node)
    (maxVarIndex : Nat) : Except GenFault (List CodeUnit) :=
  match
    Generator.generateToplevel nodes
      { kind := .toplevel
        assertion
        localVars := []
        loopLabels := []
        finallyLabels := [] }
      { nextLabel := 0, units := [] } with
  | .error fault => .error fault
  | .ok (state, items) =>
      .ok
        (state.units ++
          [{ kind := .toplevel
             name := ""
             localVarNum := maxVarIndex
             type := .void
             items }])

end Ydsh
