import Ydsh.Code.Trace

/-
  Traces of a node.

  The traces of a node are collected from the jumps that occur
  in it, each judged by the stacks the generator has there.

  Main declarations:
    * `GenShape.enter`
    * `GenShape.own`
    * `nodeTraces`
    * `NodeTraces`
    * `listTraces`
-/

----
-- Traces of a Node
----

namespace Ydsh

namespace GenShape

def ofUnit (kind : CodeKind) (shape : GenShape) : GenShape :=
  { kind
    assertion := shape.assertion
    localVars := []
    loops := []
    tries := [] }

def enterSlots
    (offset size : Nat)
    (shape : GenShape) : GenShape :=
  { shape with localVars := shape.localVars ++ [(offset, size)] }

def enterLoop
    (pos : Nat)
    (type : DSType)
    (declared : Option Nat)
    (shape : GenShape) : GenShape :=
  { shape with
    localVars :=
      shape.localVars ++
        [(declared.getD 0, if declared.isSome then 1 else 0)]
    loops :=
      { blockIndex := shape.localVars.length + 1
        loopPos := pos
        loopType := type
        enclosing := shape.tries } :: shape.loops }

def enterTry
    (pos : Nat)
    (hasFinally : Bool)
    (shape : GenShape) : GenShape :=
  if hasFinally then
    { shape with tries := pos :: shape.tries }
  else
    shape

/- The stacks of the generator in a part. -/
def enter (part : Part) (shape : GenShape) : GenShape :=
  match part with
  | .plain => shape
  | .slots offset size => shape.enterSlots offset size
  | .header pos type declared =>
      shape.enterLoop pos type declared
  | .body pos type declared => shape.enterLoop pos type declared
  | .tryBody pos hasFinally => shape.enterTry pos hasFinally
  | .catchClause pos hasFinally => shape.enterTry pos hasFinally
  | .finallyBlock _ => shape
  | .child => shape
  | .function _ => shape.ofUnit .function
  | .userDefinedCmd => shape.ofUnit .userDefinedCmd
  | .module => shape.ofUnit .toplevel

@[simp] theorem enter_assertion
    (part : Part)
    (shape : GenShape) :
    (shape.enter part).assertion = shape.assertion := by
  cases part with
  | tryBody pos hasFinally => cases hasFinally <;> rfl
  | catchClause pos hasFinally => cases hasFinally <;> rfl
  | _ => rfl

/- A jump to a loop, as far as its labels are known. -/
def breakTrace
    (shape : GenShape)
    (pos : Nat)
    (op : JumpOp)
    (valueType : DSType)
    (leavingBlock : Bool)
    (target : Option Nat) : Trace :=
  match shape.loops with
  | [] => .fault .emptyLoopLabels
  | loop :: _ =>
      if loop.blockIndex < shape.localVars.length then
        .jump
          { pos
            op
            valueType
            leavingBlock
            target
            loop := some loop
            known := shape.tries
            entered := if leavingBlock then shape.tries else [] }
      else
        .fault .blockIndexOutOfRange

def returnTrace
    (shape : GenShape)
    (pos : Nat)
    (valueType : DSType) : Trace :=
  .jump
    { pos
      op := .return
      valueType
      leavingBlock := true
      target := none
      loop := none
      known := shape.tries
      entered := shape.tries }

/- What a node adds to the traces of its parts. -/
def own (shape : GenShape) : Node → Set Trace
  | .jump ann op exprNode leavingBlock target =>
      match op with
      | .throw => ∅
      | .return => {shape.returnTrace ann.pos exprNode.type}
      | op =>
          {shape.breakTrace ann.pos op exprNode.type leavingBlock
            target}
  | _ => ∅

end GenShape

section

variable (assertion : Bool)

def nodeTraces (shape : GenShape) (node : Node) : Set Trace :=
  Library.collect (Node.compiledParts assertion) GenShape.enter
    GenShape.own shape node

def partTraces
    (shape : GenShape)
    (labelled : List (Part × Node)) : Set Trace :=
  Library.collectParts (Node.compiledParts assertion)
    GenShape.enter GenShape.own shape labelled

@[simp] theorem partTraces_nil (shape : GenShape) :
    partTraces assertion shape [] = ∅ :=
  Library.collectParts_nil _ _ _ _

@[simp] theorem partTraces_cons
    (shape : GenShape)
    (label : Part)
    (node : Node)
    (labelled : List (Part × Node)) :
    partTraces assertion shape ((label, node) :: labelled) =
      nodeTraces assertion (shape.enter label) node ∪
        partTraces assertion shape labelled :=
  Library.collectParts_cons _ _ _ _ _ _

@[simp] theorem partTraces_append
    (shape : GenShape)
    (front back : List (Part × Node)) :
    partTraces assertion shape (front ++ back) =
      partTraces assertion shape front ∪
        partTraces assertion shape back :=
  Library.collectParts_append _ _ _ _ _ _

theorem nodeTraces_eq
    (shape : GenShape)
    (node : Node)
    (hOwn : shape.own node = ∅) :
    nodeTraces assertion shape node =
      partTraces assertion shape
        (node.compiledParts assertion) :=
  Library.collect_eq _ _ _ _ _ hOwn

end

/- What the views of a node's code trace. -/
structure NodeTraces
    (assertion : Bool)
    (shape : GenShape)
    (node : Node) : Prop where
  visit :
    Traces (Generator.code node).visit shape
      (nodeTraces assertion shape node)
  concat :
    ∀ fragment,
      Traces ((Generator.code node).concat fragment) shape
        (nodeTraces assertion shape node)
  cmdArg :
    TypeChecker.isCmdArg node = true →
      Traces (Generator.code node).cmdArg shape
        (nodeTraces assertion shape node)
  recv :
    ∀ ann recvNode index dupRecv,
      node = .access ann recvNode index dupRecv →
        Traces (Generator.code node).recv shape
          (nodeTraces assertion shape node)
  pipeline :
    ∀ pipeline,
      (Generator.code node).pipeline = some pipeline →
        ∀ kind,
          Traces (pipeline kind) shape
            (nodeTraces assertion shape node)
  envAssign :
    TypeChecker.isEnvAssign node = true →
      Traces (Generator.code node).envAssign shape
        (nodeTraces assertion shape node)

----
-- Lists of Nodes
----

namespace Generator

open Emit

theorem visits_eq (nodes : List Node) :
    visits nodes = nodes.map (fun node => (code node).visit) := by
  induction nodes with
  | nil => rw [visits]; rfl
  | cons node nodes ih => rw [visits, ih]; rfl

theorem codes_eq (nodes : List Node) :
    codes nodes = nodes.map code := by
  induction nodes with
  | nil => rw [codes]; rfl
  | cons node nodes ih => rw [codes, ih]; rfl

theorem concats_eq (nodes : List Node) :
    concats nodes =
      nodes.map (fun node => (code node).concat) := by
  induction nodes with
  | nil => rw [concats]; rfl
  | cons node nodes ih => rw [concats, ih]; rfl

theorem tildeConcats_eq (nodes : List Node) :
    tildeConcats nodes =
      nodes.map (fun node => (node.isTilde, (code node).concat)) := by
  induction nodes with
  | nil => rw [tildeConcats]; rfl
  | cons node nodes ih => rw [tildeConcats, ih]; rfl

theorem wildCards_eq (nodes : List Node) :
    wildCards nodes =
      nodes.map (fun node => (node.isWildCard, code node)) := by
  induction nodes with
  | nil => rw [wildCards]; rfl
  | cons node nodes ih => rw [wildCards, ih]; rfl

theorem optVisit_eq (optNode : Option Node) :
    optVisit optNode =
      optNode.map (fun node => (code node).visit) := by
  cases optNode with
  | none => rw [optVisit]; rfl
  | some node => rw [optVisit]; rfl

end Generator

section

variable {assertion : Bool}
variable {shape : GenShape}
variable {nodes : List Node}

/- The traces of a list of nodes. -/
def listTraces
    (assertion : Bool)
    (shape : GenShape)
    (nodes : List Node) : Set Trace :=
  partTraces assertion shape (Part.plain.each nodes)

@[simp] theorem listTraces_nil :
    listTraces assertion shape [] = ∅ :=
  partTraces_nil _ _

@[simp] theorem listTraces_cons
    (node : Node) :
    listTraces assertion shape (node :: nodes) =
      nodeTraces assertion shape node ∪
        listTraces assertion shape nodes :=
  partTraces_cons _ _ _ _ _

theorem mem_listTraces_iff
    (trace : Trace) :
    trace ∈ listTraces assertion shape nodes ↔
      ∃ node ∈ nodes,
        trace ∈ nodeTraces assertion shape node := by
  induction nodes with
  | nil =>
      rw [listTraces_nil]
      simp only [Set.mem_empty_iff_false, List.not_mem_nil,
        false_and, exists_false]
  | cons node nodes ih =>
      rw [listTraces_cons, Set.mem_union, ih]
      simp only [List.mem_cons, exists_eq_or_imp]

@[simp] theorem partTraces_each
    (label : Part)
    (nodes : List Node) :
    partTraces assertion shape (label.each nodes) =
      listTraces assertion (shape.enter label) nodes := by
  induction nodes with
  | nil => rw [Part.each_nil, partTraces_nil, listTraces_nil]
  | cons node nodes ih =>
      rw [Part.each_cons, partTraces_cons, ih, listTraces_cons]

/- Code that runs through a list of nodes. -/
theorem Traces.seqs_map_of
    {code : Node → Emit}
    {traces : Node → Set Trace}
    (hNodes :
      ∀ node ∈ nodes, Traces (code node) shape (traces node)) :
    Traces (Emit.seqs (nodes.map code)) shape
      { trace | ∃ node ∈ nodes, trace ∈ traces node } := by
  induction nodes with
  | nil =>
      refine Traces.seqs_nil.congr ?_
      ext trace
      simp only [Set.mem_empty_iff_false, Set.mem_ofPred_eq,
        List.not_mem_nil, false_and, exists_false]
  | cons node nodes ih =>
      refine
        (Traces.seqs_cons (hNodes node List.mem_cons_self)
          (ih ?_)).congr ?_
      · exact fun rest hRest =>
          hNodes rest (List.mem_cons_of_mem _ hRest)
      · ext trace
        simp only [Set.mem_union, Set.mem_ofPred_eq,
          List.mem_cons, exists_eq_or_imp]

theorem Traces.seqs_map
    {code : Node → Emit}
    (hNodes :
      ∀ node ∈ nodes,
        Traces (code node) shape
          (nodeTraces assertion shape node)) :
    Traces (Emit.seqs (nodes.map code)) shape
      (listTraces assertion shape nodes) := by
  refine (Traces.seqs_map_of hNodes).congr ?_
  ext trace
  exact (mem_listTraces_iff trace).symm

end

end Ydsh
