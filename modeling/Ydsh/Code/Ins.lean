import Ydsh.Syntax.Node

/-
  Instructions of the virtual machine.

  An instruction is parameterised by what its jumps refer to:
  labels while code is being emitted, addresses afterwards.
  Instructions that differ only in the width of an operand are
  one constructor.

  Main declarations:
    * `Const`
    * `Ins`
-/

----
-- Constants
----

namespace Ydsh

/- A pattern of a case expression compiled to a table. -/
inductive CaseKey where
  | int (value : Int)
  | signal (value : Int)
  | string (value : String)
  deriving DecidableEq, Repr

/- A code unit is referred to by its index. -/
inductive Const (L : Type) where
  | int (value : Int)
  | float (value : Int)
  | string (value : String)
  | regex (reStr : String)
  | func (unit : Nat) (type : DSType)
  | caseMap (entries : List (CaseKey × L))
  | module (index : Nat)
  deriving DecidableEq, Repr

----
-- Instructions
----

/-
  The flag `hasRet` and the return type of a call are known to
  the generator only; they decide how the call changes the
  stack depth.  `callModule` is the call without arguments that
  runs a module, for which no change is counted.  A command
  call with `returns` unset is one of a command that leaves the
  shell.
-/
inductive Ins (L : Type) where
  | halt
  | assert
  | print (type : DSType)
  | instanceOf (type : DSType)
  | checkCast (type : DSType)
  | pushNull
  | pushTrue
  | pushFalse
  | pushSig (value : Int)
  | pushInt (value : Int)
  | pushStr (value : String)
  | pushMeta (globMeta : GlobMeta)
  | pushInvalid
  | loadConst (const : Const L)
  | loadGlobal (index : Nat)
  | storeGlobal (index : Nat)
  | loadLocal (index : Nat)
  | storeLocal (index : Nat)
  | loadField (index : Nat)
  | storeField (index : Nat)
  | importEnv (hasDefault : Bool)
  | loadEnv
  | storeEnv
  | newEnvCtx
  | add2EnvCtx
  | pop
  | dup
  | dup2
  | swap
  | concat
  | append
  | appendArray
  | appendMap
  | new (type : DSType)
  | callMethod (paramSize index : Nat) (hasRet : Bool)
  | callFunc (paramSize : Nat) (returnType : DSType)
  | callModule
  | callBuiltin (index : Nat) (hasRet : Bool)
  | callBuiltin2 (paramSize index : Nat) (hasRet : Bool)
  | return
  | returnV
  | returnUdc
  | exitSig
  | branch (label : L)
  | goto (label : L)
  | throw
  | enterFinally (label : L)
  | exitFinally
  | lookupHash
  | refEq
  | refNe
  | fork (kind : ForkKind) (label : L)
  | pipeline
      (lastPipe : Bool) (kind : ForkKind) (labels : List L)
  | expandTilde
  | newCmd
  | addCmdArg (ignorableEmpty : Bool)
  | addGlobbing (paramSize : Nat) (tilde : Bool)
  | callCmd (returns : Bool)
  | callCmdNofork (returns : Bool)
  | builtinCmd
  | builtinEval
  | builtinExec
  | newRedir
  | addRedirOp (op : Nat)
  | doRedir
  | rand
  | getSecond
  | setSecond
  | unwrap
  | checkUnwrap
  | tryUnwrap (label : L)
  | reclaimLocal (offset size : Nat)
  deriving DecidableEq, Repr

end Ydsh
