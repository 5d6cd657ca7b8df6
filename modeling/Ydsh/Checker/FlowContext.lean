import Ydsh.Syntax.Parts

/-
  What the type checker knows about control flow.

  `FlowContext` is the stack of levels the checker keeps while
  it walks a script, and `BreakGather` the loops it is in.  A
  script is accepted if every jump carries the flags that the
  checker gives it and every loop the type of its breaks.

  Main declarations:
    * `FlowContext`
    * `TypeChecker`
    * `TypeChecker.visitJumpNode`
    * `TypeChecker.enter`
    * `TypeChecker.Accepts`
-/

----
-- Flow Context
----

namespace Ydsh

/- Every level is the size of the stack when it was entered. -/
structure Context where
  tryLevel : Nat
  finallyLevel : Nat
  loopLevel : Nat
  childLevel : Nat
  deriving DecidableEq, Repr

/- The stack is never empty; `back` is its last entry. -/
structure FlowContext where
  below : List Context
  back : Context
  deriving DecidableEq, Repr

namespace FlowContext

def init : FlowContext :=
  { below := [], back := ⟨0, 0, 0, 0⟩ }

def size (fctx : FlowContext) : Nat := fctx.below.length + 1

def tryCatchLevel (fctx : FlowContext) : Nat :=
  fctx.back.tryLevel

def finallyLevel (fctx : FlowContext) : Nat :=
  fctx.back.finallyLevel

def loopLevel (fctx : FlowContext) : Nat :=
  fctx.back.loopLevel

def childLevel (fctx : FlowContext) : Nat :=
  fctx.back.childLevel

def push (fctx : FlowContext) (back : Context) : FlowContext :=
  { below := fctx.back :: fctx.below, back }

def enterTry (fctx : FlowContext) : FlowContext :=
  fctx.push { fctx.back with tryLevel := fctx.size }

def enterFinally (fctx : FlowContext) : FlowContext :=
  fctx.push { fctx.back with finallyLevel := fctx.size }

def enterLoop (fctx : FlowContext) : FlowContext :=
  fctx.push { fctx.back with loopLevel := fctx.size }

def enterChild (fctx : FlowContext) : FlowContext :=
  fctx.push { fctx.back with childLevel := fctx.size }

end FlowContext

@[simp] theorem size_push
    (fctx : FlowContext)
    (back : Context) :
    (fctx.push back).size = fctx.size + 1 := rfl

@[simp] theorem back_push
    (fctx : FlowContext)
    (back : Context) :
    (fctx.push back).back = back := rfl

----
-- Jumps
----

inductive TCError where
  | insideLoop
  | insideFinally
  | insideChild
  | insideFunc
  | outsideToplevel
  | unacceptable
  | required
  | notNeedExpr
  deriving DecidableEq, Repr

/-
  The part of the checker's state that follows control flow.
  `breakGather` lists the loops the checker is in, from the
  innermost one, by position.
-/
structure TypeChecker where
  fctx : FlowContext
  breakGather : List Nat
  curReturnType : Option DSType
  toplevel : Bool
  deriving DecidableEq, Repr

namespace TypeChecker

def init : TypeChecker :=
  { fctx := .init
    breakGather := []
    curReturnType := none
    toplevel := true }

/-
  The leaving flag of a break or continue, and the loop that
  gathers it.
-/
def checkTypeAsBreakContinue
    (checker : TypeChecker)
    (op : JumpOp)
    (exprNode : Node) : Except TCError (Bool × Option Nat) :=
  if checker.fctx.loopLevel = 0 then
    .error .insideLoop
  else if
    checker.fctx.finallyLevel > checker.fctx.loopLevel then
    .error .insideFinally
  else if checker.fctx.childLevel > checker.fctx.loopLevel then
    .error .insideChild
  else if
    !exprNode.isEmptyNode && op = .break &&
      (exprNode.type = .void || exprNode.type = .nothing) then
    .error .unacceptable
  else
    .ok
      (decide
          (checker.fctx.tryCatchLevel > checker.fctx.loopLevel),
        checker.breakGather.head?)

def checkTypeAsReturn
    (checker : TypeChecker)
    (exprNode : Node) : Except TCError Unit :=
  if checker.fctx.finallyLevel > 0 then
    .error .insideFinally
  else if checker.fctx.childLevel > 0 then
    .error .insideChild
  else
    match checker.curReturnType with
    | none => .error .insideFunc
    | some returnType =>
        if !returnType.isSameOrBaseTypeOf exprNode.type then
          .error .required
        else if
          exprNode.type = .void && !exprNode.isEmptyNode then
          .error .notNeedExpr
        else
          .ok ()

def checkTypeAsThrow
    (checker : TypeChecker)
    (exprNode : Node) : Except TCError Unit :=
  if checker.fctx.finallyLevel > 0 then
    .error .insideFinally
  else if !DSType.any.isSameOrBaseTypeOf exprNode.type then
    .error .required
  else
    .ok ()

/- Only a break or continue gets a flag and a loop. -/
def visitJumpNode
    (checker : TypeChecker)
    (op : JumpOp)
    (exprNode : Node) : Except TCError (Bool × Option Nat) :=
  match op with
  | .break => checker.checkTypeAsBreakContinue .break exprNode
  | .continue =>
      checker.checkTypeAsBreakContinue .continue exprNode
  | .throw =>
      (checker.checkTypeAsThrow exprNode).map
        (fun _ => (false, none))
  | .return =>
      (checker.checkTypeAsReturn exprNode).map
        (fun _ => (false, none))

----
-- Nested Nodes
----

/- A break or continue that passes is inside some loop. -/
theorem checkTypeAsBreakContinue_ok
    {checker : TypeChecker}
    {op : JumpOp}
    {exprNode : Node}
    {leavingBlock : Bool}
    {target : Option Nat}
    (hOk :
      checker.checkTypeAsBreakContinue op exprNode =
        .ok (leavingBlock, target)) :
    checker.fctx.loopLevel ≠ 0 ∧
      checker.fctx.finallyLevel ≤ checker.fctx.loopLevel ∧
        checker.fctx.childLevel ≤ checker.fctx.loopLevel ∧
          leavingBlock =
              decide
                (checker.fctx.tryCatchLevel >
                  checker.fctx.loopLevel) ∧
            target = checker.breakGather.head? := by
  unfold checkTypeAsBreakContinue at hOk
  split at hOk
  next => cases hOk
  next hLoop =>
    split at hOk
    next => cases hOk
    next hFinally =>
      split at hOk
      next => cases hOk
      next hChild =>
        split at hOk
        next => cases hOk
        next =>
          cases hOk
          exact
            ⟨hLoop, Nat.le_of_not_lt hFinally,
              Nat.le_of_not_lt hChild, rfl, rfl⟩

/-
  The state in which a part is checked.  The header of a loop
  is checked before the loop is entered.
-/
def enter (part : Part) (checker : TypeChecker) : TypeChecker :=
  match part with
  | .plain => { checker with toplevel := false }
  | .slots _ _ => { checker with toplevel := false }
  | .header _ _ _ => { checker with toplevel := false }
  | .body pos _ _ =>
      { checker with
        fctx := checker.fctx.enterLoop
        breakGather := pos :: checker.breakGather
        toplevel := false }
  | .tryBody _ _ =>
      { checker with
        fctx := checker.fctx.enterTry
        toplevel := false }
  | .catchClause _ _ =>
      { checker with
        fctx := checker.fctx.enterTry
        toplevel := false }
  | .finallyBlock _ =>
      { checker with
        fctx := checker.fctx.enterFinally
        toplevel := false }
  | .child =>
      { checker with
        fctx := checker.fctx.enterChild
        toplevel := false }
  | .function returnType =>
      { checker with
        curReturnType := some returnType
        toplevel := false }
  | .userDefinedCmd =>
      { checker with
        curReturnType := some .int
        toplevel := false }
  | .module => init

/- The part belongs to another loop than its parent. -/
def leavesGather : Part → Bool
  | .body _ _ _ => true
  | .function _ => true
  | .userDefinedCmd => true
  | .module => true
  | _ => false

/- The types of the break values gathered in a loop body. -/
def gatherBreaks (blockNode : Node) : List DSType :=
  blockNode.occurrences.filterMap
    (fun found =>
      match found.2 with
      | .jump _ .break exprNode _ _ =>
          if found.1.any leavesGather || exprNode.isEmptyNode then
            none
          else
            some exprNode.type
      | _ => none)

theorem mem_gatherBreaks
    {blockNode : Node}
    {path : List Part}
    {ann : Ann}
    {exprNode : Node}
    {leavingBlock : Bool}
    {target : Option Nat}
    (hOccurs :
      Library.Occurs Node.parts blockNode path
        (.jump ann .break exprNode leavingBlock target))
    (hPath : path.any leavesGather = false)
    (hExpr : exprNode.isEmptyNode = false) :
    exprNode.type ∈ gatherBreaks blockNode := by
  refine
    List.mem_filterMap.mpr
      ⟨_, (Node.mem_occurrences_iff _ _ _).mpr hOccurs, ?_⟩
  dsimp only
  rw [hPath, hExpr]
  rfl

/-
  The first break value gives a loop its type; the others have
  been coerced to its type.
-/
def resolveCoercionOfJumpValue
    (types : List DSType) : Option DSType :=
  match types with
  | [] => some .void
  | firstType :: rest =>
      if rest.all firstType.isSameOrBaseTypeOf then
        some firstType.createOptionType
      else
        none

/- The type of a loop covers every value its breaks carry. -/
theorem resolveCoercionOfJumpValue_base
    {types : List DSType}
    {loopType valueType : DSType}
    (hResolve : resolveCoercionOfJumpValue types = some loopType)
    (hMem : valueType ∈ types) :
    loopType.isSameOrBaseTypeOf valueType = true := by
  cases types with
  | nil => cases hMem
  | cons firstType rest =>
      unfold resolveCoercionOfJumpValue at hResolve
      dsimp only at hResolve
      split at hResolve
      next hAll =>
        cases hResolve
        refine DSType.isSameOrBaseTypeOf_createOptionType ?_
        rcases List.mem_cons.mp hMem with hFirst | hRest
        · rw [hFirst]
          exact DSType.isSameOrBaseTypeOf_refl firstType
        · exact List.all_eq_true.mp hAll valueType hRest
      next => cases hResolve

def isBlock : Node → Bool
  | .block _ _ _ _ _ => true
  | _ => false

def isCatch : Node → Bool
  | .catch _ _ _ _ => true
  | _ => false

def isCmdArg : Node → Bool
  | .cmdArg _ _ _ => true
  | _ => false

def isArm : Node → Bool
  | .arm _ _ _ => true
  | _ => false

def isAssignable : Node → Bool
  | .var _ _ _ _ => true
  | .access _ _ _ _ => true
  | _ => false

/- An assignment in front of a command. -/
def isEnvAssign : Node → Bool
  | .assign _ (.var _ _ _ _) rightNode _ => isCmdArg rightNode
  | _ => false

/- What the checker makes sure of at one node. -/
def visit (checker : TypeChecker) (node : Node) : Bool :=
  match node with
  | .jump ann op exprNode leavingBlock target =>
      checker.visitJumpNode op exprNode ==
          .ok (leavingBlock, target) &&
        ann.type == .nothing &&
        (!exprNode.isEmptyNode || exprNode.type == .void)
  | .loop ann _ _ _ blockNode _ =>
      isBlock blockNode &&
        resolveCoercionOfJumpValue (gatherBreaks blockNode) ==
          some ann.type
  | .map _ keyNodes valueNodes =>
      keyNodes.length == valueNodes.length
  | .case _ _ armNodes _ _ _ =>
      armNodes.all isArm &&
        decide (armNodes.countP Node.isDefaultArm ≤ 1)
  | .new ann args handle =>
      match ann.type with
      | .option _ => args.isEmpty
      | .array _ => args.isEmpty
      | .map _ _ => args.isEmpty
      | _ => handle.isSome
  | .redir _ targetNode _ => isCmdArg targetNode
  | .try _ exprNode catchNodes _ =>
      isBlock exprNode.innerNode &&
        catchNodes.all (fun node => isCatch node.innerNode)
  | .varDecl _ kind _ exprNode _ _ =>
      kind == .importEnv || exprNode.isSome
  | .assign _ leftNode _ _ => isAssignable leftNode
  | .prefixAssign _ assignNodes exprNode _ _ =>
      exprNode.isNone || assignNodes.all isEnvAssign
  | .function _ _ blockNode _ _ _ =>
      checker.toplevel && isBlock blockNode
  | .userDefinedCmd _ _ blockNode _ _ =>
      checker.toplevel && isBlock blockNode
  | .source _ _ _ _ => checker.toplevel
  | _ => true

/- Every node below a node passes in its own state. -/
def visitAll (checker : TypeChecker) (node : Node) : Bool :=
  node.occurrences.all
    (fun found =>
      (Library.enterAll enter found.1 checker).visit found.2)

/- The checker accepts the statements of a script. -/
def Accepts (nodes : List Node) : Prop :=
  ∀ node ∈ nodes, init.visitAll node = true

instance (nodes : List Node) : Decidable (Accepts nodes) :=
  inferInstanceAs (Decidable (∀ node ∈ nodes, _))

theorem visitAll_iff
    (checker : TypeChecker)
    (node : Node) :
    checker.visitAll node = true ↔
      ∀ path target,
        Library.Occurs Node.parts node path target →
        (Library.enterAll enter path checker).visit target =
          true := by
  constructor
  · intro hAll path target hOccurs
    exact
      List.all_eq_true.mp hAll (path, target)
        ((Node.mem_occurrences_iff _ _ _).mpr hOccurs)
  · intro hAll
    refine List.all_eq_true.mpr ?_
    rintro ⟨path, target⟩ hMem
    exact
      hAll path target ((Node.mem_occurrences_iff _ _ _).mp hMem)

theorem visitAll_node
    {checker : TypeChecker}
    {node : Node}
    (hAll : checker.visitAll node = true) :
    checker.visit node = true :=
  (visitAll_iff checker node).mp hAll [] node
    (Library.Occurs.here node)

theorem visitAll_part
    {checker : TypeChecker}
    {node part : Node}
    {label : Part}
    (hAll : checker.visitAll node = true)
    (hPart : (label, part) ∈ node.parts) :
    (enter label checker).visitAll part = true := by
  refine (visitAll_iff _ part).mpr ?_
  intro path target hOccurs
  exact
    (visitAll_iff checker node).mp hAll (label :: path) target
      (Library.Occurs.there hPart hOccurs)

end TypeChecker

end Ydsh
