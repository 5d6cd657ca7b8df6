import Ydsh.Type.DSType

/-
  Syntax trees after type checking.

  A tree is what the type checker hands to the byte code
  generator: every node carries its type, coercions have been
  inserted as type operations, and loop bodies and functions
  end with the jumps the checker appended.  Fields that the
  generator does not read are left out.

  Main declarations:
    * `Ann`
    * `MethodHandle`
    * `Node`
    * `Node.type`
-/

----
-- Node Attributes
----

namespace Ydsh

/- The source position and the resolved type of a node. -/
structure Ann where
  pos : Nat
  type : DSType
  deriving DecidableEq, Repr

structure MethodHandle where
  native : Bool
  methodIndex : Nat
  returnType : DSType
  deriving DecidableEq, Repr

inductive NumberKind where
  | int
  | float
  | signal
  deriving DecidableEq, Repr

/- Where a variable lives and how it is accessed. -/
structure VarAttr where
  global : Bool
  env : Bool
  random : Bool
  seconds : Bool
  modConst : Bool
  deriving DecidableEq, Repr

inductive TypeOpKind where
  | noCast
  | toVoid
  | numCast (handle : MethodHandle)
  | toString
  | toBool (handle : MethodHandle)
  | checkCast
  | checkUnwrap
  | print
  | alwaysFalse
  | alwaysTrue
  | instanceOf (targetType : DSType)
  deriving DecidableEq, Repr

inductive BinaryOp where
  | condAnd
  | condOr
  | strCheck
  | nullCoale
  | add
  | eq
  | ne
  deriving DecidableEq, Repr

inductive GlobMeta where
  | any
  | zeroOrMore
  deriving DecidableEq, Repr

inductive ForkKind where
  | none
  | str
  | array
  | inPipe
  | outPipe
  | job
  | coproc
  | disown
  deriving DecidableEq, Repr

inductive CaseKind where
  | map
  | ifElse
  deriving DecidableEq, Repr

inductive JumpOp where
  | break
  | continue
  | throw
  | return
  deriving DecidableEq, Repr

inductive VarDeclKind where
  | var
  | let
  | importEnv
  | exportEnv
  deriving DecidableEq, Repr

----
-- Nodes
----

/-
  `binaryOp` is a binary operation compiled inline and
  `binaryApply` one that became a method call.  The operand
  `empty` stands for a value left on the stack by an enclosing
  assignment.  The `target` of a jump is the position of the
  loop the checker was in; the generator does not read it.
-/
inductive Node where
  | number (ann : Ann) (kind : NumberKind) (value : Int)
  | string (ann : Ann) (value : String) (tilde : Bool)
  | stringExpr (ann : Ann) (exprNodes : List Node)
  | regex (ann : Ann) (reStr : String)
  | array (ann : Ann) (exprNodes : List Node)
  | map (ann : Ann) (keyNodes valueNodes : List Node)
  | tuple (ann : Ann) (nodes : List Node)
  | var
      (ann : Ann) (varName : String) (index : Nat)
      (attr : VarAttr)
  | access
      (ann : Ann) (recvNode : Node) (index : Nat)
      (dupRecv : Bool)
  | typeOp (ann : Ann) (exprNode : Node) (kind : TypeOpKind)
  | unaryOp (ann : Ann) (operand : Node) (unwrap : Bool)
  | binaryOp
      (ann : Ann) (op : BinaryOp)
      (leftNode rightNode : Node)
      (emptyHandle : MethodHandle)
  | binaryApply (ann : Ann) (optNode : Node)
  | apply
      (ann : Ann) (exprNode : Node) (args : List Node)
      (handle : Option MethodHandle)
  | new
      (ann : Ann) (args : List Node)
      (handle : Option MethodHandle)
  | embed
      (ann : Ann) (exprNode : Node)
      (handle : Option MethodHandle)
  | cmd
      (ann : Ann) (name : String) (tilde : Bool)
      (argNodes : List Node) (hasRedir needFork : Bool)
  | cmdArg
      (ann : Ann) (segmentNodes : List Node)
      (globPathSize : Nat)
  | argArray (ann : Ann) (cmdArgNodes : List Node)
  | redir (ann : Ann) (targetNode : Node) (op : Nat)
  | wildCard (ann : Ann) (globMeta : GlobMeta)
  | pipeline
      (ann : Ann) (nodes : List Node) (baseIndex : Nat)
      (lastPipe : Bool)
  | with
      (ann : Ann) (exprNode : Node) (redirNodes : List Node)
      (baseIndex : Nat)
  | fork (ann : Ann) (exprNode : Node) (opKind : ForkKind)
  | assert (ann : Ann) (condNode messageNode : Node)
  | block
      (ann : Ann) (nodes : List Node)
      (baseIndex varSize maxVarSize : Nat)
  | typeAlias (ann : Ann)
  | loop
      (ann : Ann) (initNode : Node) (condNode : Option Node)
      (iterNode blockNode : Node) (doWhile : Bool)
  | ifElse (ann : Ann) (condNode thenNode elseNode : Node)
  | case
      (ann : Ann) (exprNode : Node) (armNodes : List Node)
      (kind : CaseKind) (eqHandle matchHandle : MethodHandle)
  | arm
      (ann : Ann) (patternNodes : List Node)
      (actionNode : Node)
  | jump
      (ann : Ann) (op : JumpOp) (exprNode : Node)
      (leavingBlock : Bool) (target : Option Nat)
  | catch
      (ann : Ann) (catchType : DSType) (blockNode : Node)
      (varIndex : Nat)
  | try
      (ann : Ann) (exprNode : Node) (catchNodes : List Node)
      (finallyNode : Option Node)
  | varDecl
      (ann : Ann) (kind : VarDeclKind) (varName : String)
      (exprNode : Option Node) (varIndex : Nat)
      (global : Bool)
  | assign
      (ann : Ann) (leftNode rightNode : Node)
      (selfAssign : Bool)
  | elementSelfAssign
      (ann : Ann)
      (recvNode indexNode getterNode rightNode setterNode :
        Node)
  | prefixAssign
      (ann : Ann) (assignNodes : List Node)
      (exprNode : Option Node) (baseIndex varSize : Nat)
  | function
      (ann : Ann) (name : String) (blockNode : Node)
      (maxVarNum varIndex : Nat) (funcType : DSType)
  | interface (ann : Ann)
  | userDefinedCmd
      (ann : Ann) (name : String) (blockNode : Node)
      (maxVarNum udcIndex : Nat)
  | source
      (ann : Ann) (nodes : List Node)
      (maxVarNum modIndex : Nat)
  | codeComp (ann : Ann)
  | empty (ann : Ann)

namespace Node

def ann : Node → Ann
  | number ann _ _ => ann
  | string ann _ _ => ann
  | stringExpr ann _ => ann
  | regex ann _ => ann
  | array ann _ => ann
  | map ann _ _ => ann
  | tuple ann _ => ann
  | var ann _ _ _ => ann
  | access ann _ _ _ => ann
  | typeOp ann _ _ => ann
  | unaryOp ann _ _ => ann
  | binaryOp ann _ _ _ _ => ann
  | binaryApply ann _ => ann
  | apply ann _ _ _ => ann
  | new ann _ _ => ann
  | embed ann _ _ => ann
  | cmd ann _ _ _ _ _ => ann
  | cmdArg ann _ _ => ann
  | argArray ann _ => ann
  | redir ann _ _ => ann
  | wildCard ann _ => ann
  | pipeline ann _ _ _ => ann
  | .with ann _ _ _ => ann
  | fork ann _ _ => ann
  | assert ann _ _ => ann
  | block ann _ _ _ _ => ann
  | typeAlias ann => ann
  | loop ann _ _ _ _ _ => ann
  | ifElse ann _ _ _ => ann
  | case ann _ _ _ _ _ => ann
  | arm ann _ _ => ann
  | jump ann _ _ _ _ => ann
  | .catch ann _ _ _ => ann
  | .try ann _ _ _ => ann
  | varDecl ann _ _ _ _ _ => ann
  | assign ann _ _ _ => ann
  | elementSelfAssign ann _ _ _ _ _ => ann
  | prefixAssign ann _ _ _ _ => ann
  | function ann _ _ _ _ _ => ann
  | interface ann => ann
  | userDefinedCmd ann _ _ _ _ => ann
  | source ann _ _ _ => ann
  | codeComp ann => ann
  | empty ann => ann

def type (node : Node) : DSType := node.ann.type

def pos (node : Node) : Nat := node.ann.pos

def isEmptyNode : Node → Bool
  | empty _ => true
  | _ => false

/- The node emits no code. -/
def isEmptyCode : Node → Bool
  | empty _ => true
  | block _ nodes _ _ _ => nodes.isEmpty
  | _ => false

/- The slot of the variable a loop initialiser declares. -/
def declaredVarIndex : Node → Option Nat
  | varDecl _ _ _ _ varIndex _ => some varIndex
  | _ => none

def isDefaultArm : Node → Bool
  | arm _ patternNodes _ => patternNodes.isEmpty
  | _ => false

def isTilde : Node → Bool
  | string _ _ tilde => tilde
  | _ => false

def isWildCard : Node → Bool
  | wildCard _ _ => true
  | _ => false

/- A string addition compiled by concatenation. -/
def isBinaryStrConcat : Node → Bool
  | binaryOp _ .add leftNode _ _ =>
      leftNode.type == .string
  | _ => false

/- An expression whose segments are concatenated in place. -/
def isConcatenated : Node → Bool
  | stringExpr _ _ => true
  | string _ _ _ => true
  | node => node.isBinaryStrConcat

/- The block or catch clause under inserted coercions. -/
def innerNode : Node → Node
  | typeOp _ exprNode _ => exprNode.innerNode
  | node => node

end Node

end Ydsh
