import Ydsh.Code.Ins

/-
  Emission of code.

  `Emit` is the code one call of the generator appends to the
  current code builder.  The stacks of the builder are an
  environment, since every call leaves them as it found them;
  labels come from a counter, and the code units of functions
  are collected as they are finished.

  Main declarations:
    * `LoopState`
    * `JumpRecord`
    * `Region`
    * `Item`
    * `CodeUnit`
    * `GenEnv`
    * `Emit`
-/

----
-- Code Under Construction
----

namespace Ydsh

abbrev Label := Nat

inductive CodeKind where
  | toplevel
  | function
  | userDefinedCmd
  deriving DecidableEq, Repr

/- The label of a finally block and the position of its try. -/
structure FinallyState where
  label : Label
  tryPos : Nat
  deriving DecidableEq, Repr

/-
  The labels of a loop.  The position and the type of the loop
  node and the finally blocks pending around it say whose
  labels they are; no code depends on them.
-/
structure LoopState where
  breakLabel : Label
  continueLabel : Label
  breakWithValueLabel : Label
  blockIndex : Nat
  loopPos : Nat
  loopType : DSType
  enclosing : List FinallyState
  deriving DecidableEq, Repr

/-
  What the generator did for one break, continue or return:
  the loop whose labels it used, the finally blocks it knew of
  and those it entered.  The loop the checker was in is
  recorded beside the one of the generator.
-/
structure JumpRecord where
  pos : Nat
  op : JumpOp
  valueType : DSType
  leavingBlock : Bool
  target : Option Nat
  loop : Option LoopState
  known : List FinallyState
  entered : List FinallyState
  deriving DecidableEq, Repr

/-
  The part of the script a piece of code belongs to: a whole
  node, the body of a try, other code whose finally block is
  still to be run, a finally block, or code of a child process.
-/
inductive Region where
  | node (type : DSType)
  | tryBody
      (tryPos : Nat) (catchTypes : List DSType)
      (hasFinally : Bool)
  | guarded (tryPos : Nat) (hasFinally : Bool)
  | finallyBlock (tryPos : Nat) (label : Label)
  | child
  deriving DecidableEq, Repr

/-
  One step of emission: an instruction, a label, an entry of
  the exception table or a source position.  The ends of a
  region and the record of a jump stand for no code.
-/
inductive Item where
  | ins (ins : Ins Label)
  | mark (label : Label)
  | catchException
      (begin_ end_ : Label) (type : DSType)
      (localOffset localSize : Nat)
  | sourcePos (pos : Nat)
  | enter (region : Region)
  | leave
  | jump (record : JumpRecord)
  deriving DecidableEq, Repr

namespace JumpRecord

/- The label a break or continue of a loop goes to. -/
def targetLabel
    (record : JumpRecord)
    (loop : LoopState) : Label :=
  if record.op = .break then
    if record.valueType = .void then
      loop.breakLabel
    else
      loop.breakWithValueLabel
  else
    loop.continueLabel

/- The instruction that ends the jump. -/
def Leaves (record : JumpRecord) (ins : Ins Label) : Prop :=
  match record.loop with
  | some loop => ins = .goto (record.targetLabel loop)
  | none => ins = .return ∨ ins = .returnV ∨ ins = .returnUdc

/-
  The code of the jump: the finally blocks it enters, then the
  instruction that leaves.
-/
def code (record : JumpRecord) (ins : Ins Label) : List Item :=
  record.entered.map (fun state => .ins (.enterFinally state.label))
    ++ [.ins ins]

end JumpRecord

/- A finished code unit; `type` is the type of its function. -/
structure CodeUnit where
  kind : CodeKind
  name : String
  localVarNum : Nat
  type : DSType
  items : List Item
  deriving DecidableEq, Repr

----
-- Generator State
----

/-
  The stacks of the current builder.  Local ranges are listed
  from the outermost one, loops and finally blocks from the
  innermost one.
-/
structure GenEnv where
  kind : CodeKind
  assertion : Bool
  localVars : List (Nat × Nat)
  loopLabels : List LoopState
  finallyLabels : List FinallyState
  deriving DecidableEq, Repr

structure GenState where
  nextLabel : Label
  units : List CodeUnit
  deriving DecidableEq, Repr

/- A lookup on an empty or too short stack, or a bad cast. -/
inductive GenFault where
  | emptyLoopLabels
  | blockIndexOutOfRange
  | badCast
  deriving DecidableEq, Repr

def Emit : Type :=
  GenEnv → GenState → Except GenFault (GenState × List Item)

namespace Emit

def skip : Emit :=
  fun _ state => .ok (state, [])

def fault (kind : GenFault) : Emit :=
  fun _ _ => .error kind

def item (item : Item) : Emit :=
  fun _ state => .ok (state, [item])

def seq (first second : Emit) : Emit :=
  fun env state =>
    match first env state with
    | .error kind => .error kind
    | .ok (middle, items) =>
        match second env middle with
        | .error kind => .error kind
        | .ok (final, rest) => .ok (final, items ++ rest)

def seqs : List Emit → Emit
  | [] => skip
  | first :: rest => seq first (seqs rest)

def when (condition : Bool) (code : Emit) : Emit :=
  if condition then code else skip

/- A new label, used by the rest of the code. -/
def makeLabel (rest : Label → Emit) : Emit :=
  fun env state =>
    rest state.nextLabel env
      { state with nextLabel := state.nextLabel + 1 }

def readEnv (code : GenEnv → Emit) : Emit :=
  fun env state => code env env state

def localEnv
    (change : GenEnv → GenEnv)
    (code : Emit) : Emit :=
  fun env state => code (change env) state

def within (region : Region) (code : Emit) : Emit :=
  seq (item (.enter region)) (seq code (item .leave))

----
-- Calls on the Code Builder
----

def emitIns (ins : Ins Label) : Emit :=
  item (.ins ins)

def markLabel (label : Label) : Emit :=
  item (.mark label)

def emitSourcePos (pos : Nat) : Emit :=
  item (.sourcePos pos)

def emitBranchIns (label : Label) : Emit :=
  emitIns (.branch label)

def emitJumpIns (label : Label) : Emit :=
  emitIns (.goto label)

def emitLdcIns (const : Const Label) : Emit :=
  emitIns (.loadConst const)

def catchException
    (begin_ end_ : Label)
    (type : DSType)
    (localOffset localSize : Nat) : Emit :=
  item (.catchException begin_ end_ type localOffset localSize)

def enterFinally (label : Label) : Emit :=
  emitIns (.enterFinally label)

/- Every pending finally block, the innermost one first. -/
def enterMultiFinally
    (finallyLabels : List FinallyState) : Emit :=
  seqs
    (finallyLabels.map (fun state => enterFinally state.label))

def emitMethodCallIns
    (paramSize : Nat)
    (handle : MethodHandle) : Emit :=
  if handle.native then
    emitIns
      (.callBuiltin2 (paramSize + 1) handle.methodIndex
        (handle.returnType != .void))
  else
    emitIns
      (.callMethod paramSize handle.methodIndex
        (handle.returnType != .void))

def emitFuncCallIns
    (paramSize : Nat)
    (returnType : DSType) : Emit :=
  emitIns (.callFunc paramSize returnType)

/- The code of a block, with its local range on the stack. -/
def generateBlock
    (localOffset localSize : Nat)
    (needReclaim : Bool)
    (code : Emit) : Emit :=
  localEnv
    (fun env =>
      { env with
        localVars := env.localVars ++ [(localOffset, localSize)] })
    (seq code
      (when needReclaim
        (emitIns (.reclaimLocal localOffset localSize))))

/- The code of a loop, with its labels on the stack. -/
def withLoopLabels
    (breakLabel continueLabel breakWithValueLabel : Label)
    (loopPos : Nat)
    (loopType : DSType)
    (code : Emit) : Emit :=
  localEnv
    (fun env =>
      { env with
        loopLabels :=
          { breakLabel
            continueLabel
            breakWithValueLabel
            blockIndex := env.localVars.length
            loopPos
            loopType
            enclosing := env.finallyLabels } ::
              env.loopLabels })
    code

/- The code of a try statement before its finally block. -/
def withFinallyLabel
    (label : Label)
    (tryPos : Nat)
    (code : Emit) : Emit :=
  localEnv
    (fun env =>
      { env with
        finallyLabels :=
          { label, tryPos } :: env.finallyLabels })
    code

/-
  The code unit of a function is built with empty stacks; the
  rest of the code refers to it by its index.
-/
def codeUnit
    (kind : CodeKind)
    (name : String)
    (localVarNum : Nat)
    (type : DSType)
    (code : Emit)
    (rest : Nat → Emit) : Emit :=
  fun env state =>
    match
      code
        { kind
          assertion := env.assertion
          localVars := []
          loopLabels := []
          finallyLabels := [] }
        state with
    | .error fault => .error fault
    | .ok (next, items) =>
        rest next.units.length env
          { next with
            units :=
              next.units ++
                [{ kind, name, localVarNum, type, items }] }

end Emit

end Ydsh
