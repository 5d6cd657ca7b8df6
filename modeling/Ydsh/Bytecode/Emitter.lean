import Mathlib.Tactic.Common
import Ydsh.Library.Patching
import Ydsh.Syntax.Node

/-
  The operation codes of the virtual machine, and their
  emission.

  An instruction is a code of one byte and the bytes of its
  operands.  Each code has its own number of operand bytes; an
  instruction of variable length has a negative one.

  A code unit is written into a buffer of bytes.  An operand
  that stands for a label is written as zero and remembered
  together with its place; when the unit is finalized, every
  such place is overwritten.

  Main declarations:
    * `OpCode`
    * `OPCODE_LIST`
    * `getByteSize`
    * `isTypeOp`
    * `CodeBuilder`
    * `CodeBuilder.finalize`
    * `CodeBuilder.build`
    * `Emission`
    * `emitAll`
-/

----
-- Codes
----

namespace Ydsh

namespace Bytecode

inductive OpCode where
  | halt
  | assert
  | print
  | instanceOf
  | checkCast
  | pushNull
  | pushTrue
  | pushFalse
  | pushSig
  | pushInt
  | pushStr0
  | pushStr1
  | pushStr2
  | pushStr3
  | pushMeta
  | pushType
  | pushInvalid
  | loadConst
  | loadConstW
  | loadConstT
  | loadGlobal
  | storeGlobal
  | loadLocal
  | storeLocal
  | loadField
  | storeField
  | importEnv
  | loadEnv
  | storeEnv
  | newEnvCtx
  | add2EnvCtx
  | pop
  | dup
  | dup2
  | swap
  | concat
  | append
  | appendArray
  | appendMap
  | new
  | callMethod
  | callFunc
  | callBuiltin
  | callBuiltin2
  | return_
  | returnV
  | returnUdc
  | exitSig
  | branch
  | goto
  | throw
  | enterFinally
  | exitFinally
  | lookupHash
  | refEq
  | refNe
  | fork
  | pipeline
  | pipelineLp
  | pipelineAsync
  | expandTilde
  | newCmd
  | addCmdArg
  | addGlobbing
  | callCmd
  | callCmdNofork
  | builtinCmd
  | builtinEval
  | builtinExec
  | newRedir
  | addRedirOp
  | doRedir
  | rand
  | getSecond
  | setSecond
  | unwrap
  | checkUnwrap
  | tryUnwrap
  | reclaimLocal
  deriving DecidableEq, Repr

/- The codes in their order, with their operand lengths. -/
def OPCODE_LIST : List (OpCode × Int) :=
  [ (.halt, 0), (.assert, 0), (.print, 3), (.instanceOf, 3),
    (.checkCast, 3), (.pushNull, 0), (.pushTrue, 0),
    (.pushFalse, 0), (.pushSig, 1), (.pushInt, 1),
    (.pushStr0, 0), (.pushStr1, 1), (.pushStr2, 2),
    (.pushStr3, 3), (.pushMeta, 1), (.pushType, 3),
    (.pushInvalid, 0), (.loadConst, 1), (.loadConstW, 2),
    (.loadConstT, 3), (.loadGlobal, 2), (.storeGlobal, 2),
    (.loadLocal, 1), (.storeLocal, 1), (.loadField, 2),
    (.storeField, 2), (.importEnv, 1), (.loadEnv, 0),
    (.storeEnv, 0), (.newEnvCtx, 0), (.add2EnvCtx, 0),
    (.pop, 0), (.dup, 0), (.dup2, 0), (.swap, 0), (.concat, 0),
    (.append, 0), (.appendArray, 0), (.appendMap, 0),
    (.new, 3), (.callMethod, 3), (.callFunc, 1),
    (.callBuiltin, 1), (.callBuiltin2, 2), (.return_, 0),
    (.returnV, 0), (.returnUdc, 0), (.exitSig, 0),
    (.branch, 2), (.goto, 4), (.throw, 0), (.enterFinally, 2),
    (.exitFinally, 0), (.lookupHash, 0), (.refEq, 0),
    (.refNe, 0), (.fork, 3), (.pipeline, -1),
    (.pipelineLp, -1), (.pipelineAsync, -1), (.expandTilde, 0),
    (.newCmd, 0), (.addCmdArg, 1), (.addGlobbing, 2),
    (.callCmd, 0), (.callCmdNofork, 0), (.builtinCmd, 0),
    (.builtinEval, 0), (.builtinExec, 0), (.newRedir, 0),
    (.addRedirOp, 1), (.doRedir, 0), (.rand, 0),
    (.getSecond, 0), (.setSecond, 0), (.unwrap, 0),
    (.checkUnwrap, 0), (.tryUnwrap, 2), (.reclaimLocal, 2) ]

namespace OpCode

def toByte (code : OpCode) : Nat :=
  code.ctorIdx

/- No result: the byte is no code. -/
def ofByte (byte : Nat) : Option OpCode :=
  OPCODE_LIST[byte]?.map Prod.fst

end OpCode

/- The table is indexed by the code. -/
def getByteSize (code : OpCode) : Int :=
  (OPCODE_LIST[code.toByte]?.map Prod.snd).getD 0

def isTypeOp : OpCode → Bool
  | .print => true
  | .instanceOf => true
  | .checkCast => true
  | .pushType => true
  | .new => true
  | _ => false

namespace OpCode

theorem ofByte_toByte (code : OpCode) :
    ofByte code.toByte = some code := by
  cases code <;> rfl

theorem toByte_lt (code : OpCode) : code.toByte < 0x100 := by
  cases code <;> exact Nat.le_of_ble_eq_true rfl

/- The assertion of `isTypeOp`. -/
theorem getByteSize_of_isTypeOp
    {code : OpCode}
    (hType : isTypeOp code = true) :
    getByteSize code = 3 := by
  cases code <;> first | rfl | cases hType

end OpCode

end Bytecode

end Ydsh

----
-- Code Builders
----

namespace Ydsh

namespace Bytecode

open Library.BigEndian
open Library.Patching

/- The number of values of an unsigned int. -/
abbrev UINT_RANGE : Nat := 0x100000000

abbrev UINT8_MAX : Nat := 0xFF

abbrev UINT16_MAX : Nat := 0xFFFF

abbrev SYS_LIMIT_PIPE_LEN : Nat := 250

abbrev SYS_LIMIT_FUNC_LEN : Nat := 0xFFFFFFFF

/- A label is known by its identity. -/
abbrev Label := Nat

inductive OffsetLen where
  | len8
  | len16
  | len32
  deriving DecidableEq, Repr

structure LabelTarget where
  targetIndex : Nat
  baseIndex : Nat
  offsetLen : OffsetLen
  deriving DecidableEq, Repr

structure LineNumEntry where
  address : Nat
  lineNum : Nat
  deriving DecidableEq, Repr

/- The type is known by its number. -/
structure CatchBuilder where
  begin_ : Label
  end_ : Label
  type : Nat
  address : Nat
  localOffset : Nat
  localSize : Nat
  deriving DecidableEq, Repr

/-
  `index` is the index of each label, and `labelMap` lists the
  targets of the labels.
-/
structure CodeBuilder where
  codeBuffer : List Nat := []
  index : Label → Nat := fun _ => 0
  labelMap : List (Label × LabelTarget) := []
  lineNumEntries : List LineNumEntry := []
  catchBuilders : List CatchBuilder := []

/-
  `reachLimit` ends the program.  With `outside` the size of the
  buffer wraps around and bytes are written behind it.
-/
inductive Fault where
  | reachLimit
  | outside
  deriving DecidableEq, Repr

abbrev Building := Except Fault CodeBuilder

namespace CodeBuilder

def currentCodeOffset (b : CodeBuilder) : Nat :=
  b.codeBuffer.length

def append
    (n value : Nat)
    (b : CodeBuilder) : Building :=
  if b.currentCodeOffset + n < UINT_RANGE then
    .ok { b with codeBuffer := b.codeBuffer ++ writeN n value }
  else
    .error .outside

/- The value is converted to the type of the parameter. -/
def append8 (value : Nat) (b : CodeBuilder) : Building :=
  b.append 1 (value % byteRange 1)

def append16 (value : Nat) (b : CodeBuilder) : Building :=
  b.append 2 (value % byteRange 2)

def append24 (value : Nat) (b : CodeBuilder) : Building :=
  b.append 3 (value % byteRange 4)

def append32 (value : Nat) (b : CodeBuilder) : Building :=
  b.append 4 (value % byteRange 4)

def writeLabel
    (index : Nat)
    (label : Label)
    (baseIndex : Nat)
    (len : OffsetLen)
    (b : CodeBuilder) : CodeBuilder :=
  { b with
    labelMap := b.labelMap ++ [(label, ⟨index, baseIndex, len⟩)] }

def markLabel (label : Label) (b : CodeBuilder) : CodeBuilder :=
  { b with
    index := fun other =>
      if other = label then
        b.currentCodeOffset
      else
        b.index other }

/- A line is recorded where it differs from the last one. -/
def emitSourcePos
    (lineNum : Nat)
    (b : CodeBuilder) : CodeBuilder :=
  if b.lineNumEntries.getLast?.map LineNumEntry.lineNum =
      some lineNum then
    b
  else
    { b with
      lineNumEntries :=
        b.lineNumEntries ++
          [{ address := b.currentCodeOffset
             lineNum := lineNum }] }

def catchException
    (begin_ end_ : Label)
    (type localOffset localSize : Nat)
    (b : CodeBuilder) : CodeBuilder :=
  { b with
    catchBuilders :=
      b.catchBuilders ++
        [{ begin_ := begin_
           end_ := end_
           type := type
           address := b.currentCodeOffset
           localOffset := localOffset
           localSize := localSize }] }

----
-- Finalization
----

end CodeBuilder

structure ExceptionEntry where
  type : Nat
  begin_ : Nat
  end_ : Nat
  dest : Nat
  localOffset : Nat
  localSize : Nat
  deriving DecidableEq, Repr

/- The last line number entry is the sentinel. -/
structure CompiledCode where
  code : List Nat
  lineNumEntries : List LineNumEntry
  exceptionEntries : List ExceptionEntry
  deriving DecidableEq, Repr

/- `failed` is the empty code, and `fatal` ends the program. -/
inductive Built (β : Type) where
  | done (result : β)
  | failed
  | fatal
  deriving DecidableEq, Repr

namespace OffsetLen

def size : OffsetLen → Nat
  | .len8 => 1
  | .len16 => 2
  | .len32 => 4

/- An offset of 32 bits is not checked. -/
def admits : OffsetLen → Nat → Bool
  | .len8, offset => offset ≤ UINT8_MAX
  | .len16, offset => offset ≤ UINT16_MAX
  | .len32, _ => true

end OffsetLen

namespace CodeBuilder

/- The targets are visited in the order of a hash table. -/
def finalizeFrom
    (index : Label → Nat) :
    List (Label × LabelTarget) → List Nat → Built (List Nat)
  | [], code => .done code
  | (label, target) :: rest, code =>
      let location := index label
      if target.baseIndex > location then
        .fatal
      else
        let offset := location - target.baseIndex
        if target.offsetLen.admits offset then
          finalizeFrom index rest
            (overwrite code target.targetIndex
              (writeN target.offsetLen.size offset))
        else
          .failed

def finalize
    (b : CodeBuilder)
    (order : List (Label × LabelTarget)) : Built (List Nat) :=
  finalizeFrom b.index order b.codeBuffer

def toEntry
    (b : CodeBuilder)
    (builder : CatchBuilder) : ExceptionEntry :=
  { type := builder.type
    begin_ := b.index builder.begin_
    end_ := b.index builder.end_
    dest := builder.address
    localOffset := builder.localOffset
    localSize := builder.localSize }

def build
    (b : CodeBuilder)
    (order : List (Label × LabelTarget)) : Built CompiledCode :=
  match b.finalize order with
  | .done code =>
      .done
        { code := code
          lineNumEntries :=
            b.lineNumEntries ++ [⟨SYS_LIMIT_FUNC_LEN, 0⟩]
          exceptionEntries := b.catchBuilders.map b.toEntry }
  | .failed => .failed
  | .fatal => .fatal

----
-- Instructions
----

end CodeBuilder

def forkByte : ForkKind → Nat
  | .none => 0
  | .str => 1
  | .array => 2
  | .inPipe => 3
  | .outPipe => 4
  | .coproc => 5
  | .job => 6
  | .disown => 7

namespace CodeBuilder

def emitIns (op : OpCode) (b : CodeBuilder) : Building :=
  b.append8 op.toByte

def emit0byteIns (op : OpCode) (b : CodeBuilder) : Building :=
  b.emitIns op

def emit1byteIns
    (op : OpCode)
    (v : Nat)
    (b : CodeBuilder) : Building := do
  let b ← b.emitIns op
  b.append8 v

def emit2byteIns
    (op : OpCode)
    (v : Nat)
    (b : CodeBuilder) : Building := do
  let b ← b.emitIns op
  b.append16 v

def emit2byteInsOf
    (op : OpCode)
    (v1 v2 : Nat)
    (b : CodeBuilder) : Building := do
  let b ← b.emitIns op
  let b ← b.append8 v1
  b.append8 v2

def emit3byteIns
    (op : OpCode)
    (v : Nat)
    (b : CodeBuilder) : Building := do
  let b ← b.emitIns op
  b.append24 v

def emit3byteInsOf
    (op : OpCode)
    (v1 v2 v3 : Nat)
    (b : CodeBuilder) : Building := do
  let b ← b.emitIns op
  let b ← b.append8 v1
  let b ← b.append8 v2
  b.append8 v3

def emit4byteIns
    (op : OpCode)
    (v : Nat)
    (b : CodeBuilder) : Building := do
  let b ← b.emitIns op
  b.append32 v

/- The change of the stack depth is left out here. -/
def emitValIns
    (op : OpCode)
    (paramSize : Nat)
    (b : CodeBuilder) : Building := do
  let b ← b.append8 op.toByte
  b.append8 paramSize

def emitFuncCallIns
    (paramSize : Nat)
    (b : CodeBuilder) : Building :=
  b.emitValIns .callFunc paramSize

def emitNativeCallIns
    (paramSize index : Nat)
    (b : CodeBuilder) : Building := do
  let b ← b.emitValIns .callBuiltin2 paramSize
  b.append8 index

/- A method that is not native. -/
def emitMethodCallIns
    (paramSize index : Nat)
    (b : CodeBuilder) : Building := do
  let b ← b.emitValIns .callMethod paramSize
  b.append16 index

def emitGlobIns
    (paramSize : Nat)
    (tilde : Bool)
    (b : CodeBuilder) : Building := do
  let b ← b.emitValIns .addGlobbing paramSize
  b.append8 tilde.toNat

/- `index` is the index of the constant in the pool. -/
def emitLdcIns (index : Nat) (b : CodeBuilder) : Building :=
  if index > 0xFFFFFF then
    .error .reachLimit
  else if index ≤ UINT8_MAX then
    b.emit1byteIns .loadConst index
  else if index ≤ UINT16_MAX then
    b.emit2byteIns .loadConstW index
  else
    b.emit3byteIns .loadConstT index

def emitBranchIns
    (op : OpCode)
    (label : Label)
    (b : CodeBuilder) : Building := do
  let index := b.currentCodeOffset
  let b ← b.emit2byteIns op 0
  return b.writeLabel (index + 1) label index .len16

def emitForkIns
    (kind : ForkKind)
    (label : Label)
    (b : CodeBuilder) : Building := do
  let offset := b.currentCodeOffset
  let b ← b.emitIns .fork
  let b ← b.append8 (forkByte kind)
  let b ← b.append16 0
  return b.writeLabel (offset + 2) label offset .len16

def emitJumpIns
    (label : Label)
    (b : CodeBuilder) : Building := do
  let index := b.currentCodeOffset
  let b ← b.emit4byteIns .goto 0
  return b.writeLabel (index + 1) label 0 .len32

def enterFinally
    (label : Label)
    (b : CodeBuilder) : Building := do
  let index := b.currentCodeOffset
  let b ← b.emit2byteIns .enterFinally 0
  return b.writeLabel (index + 1) label index .len16

/- The operands of a pipeline from the label `i` on. -/
def emitPipelineLabels
    (offset : Nat) :
    Nat → List Label → CodeBuilder → Building
  | _, [], b => .ok b
  | i, label :: labels, b => do
      let b ← b.append16 0
      emitPipelineLabels offset (i + 1) labels
        (b.writeLabel (offset + 2 + i * 2) label offset .len16)

def pipelineOp (lastPipe : Bool) (forkKind : ForkKind) : OpCode :=
  if lastPipe then
    .pipelineLp
  else if forkKind = .none then
    .pipeline
  else
    .pipelineAsync

def emitPipelineIns
    (labels : List Label)
    (lastPipe : Bool)
    (forkKind : ForkKind)
    (b : CodeBuilder) : Building :=
  let size := labels.length
  if size > SYS_LIMIT_PIPE_LEN then
    .error .reachLimit
  else do
    let offset := b.currentCodeOffset
    let b ← b.emitIns (pipelineOp lastPipe forkKind)
    if forkKind ≠ .none then
      let b ← b.append8 (forkByte forkKind)
      let b ← b.append8 size
      emitPipelineLabels (offset + 1) 0 labels b
    else
      let b ← b.append8 size
      emitPipelineLabels offset 0 labels b

end CodeBuilder

----
-- Sequences of Emissions
----

/- The codes for which the size of an emitter is asserted. -/
abbrev OfSize (n : Int) : Type :=
  { op : OpCode // getByteSize op = n }

/-
  A call of an emitter, with the values that it is given.  A
  type is given by its number, and the line of a position by
  the lexer.
-/
inductive Emission where
  | ins0 (op : OfSize 0)
  | ins1 (op : OfSize 1) (v : Nat)
  | ins2 (op : OfSize 2) (v : Nat)
  | ins2Of (op : OfSize 2) (v1 v2 : Nat)
  | ins3 (op : OfSize 3) (v : Nat)
  | ins3Of (op : OfSize 3) (v1 v2 v3 : Nat)
  | funcCall (paramSize : Nat)
  | nativeCall (paramSize index : Nat)
  | methodCall (paramSize index : Nat)
  | glob (paramSize : Nat) (tilde : Bool)
  | ldc (index : Nat)
  | branch (op : OfSize 2) (label : Label)
  | fork (kind : ForkKind) (label : Label)
  | jump (label : Label)
  | enterFinally (label : Label)
  | pipeline
      (labels : List Label)
      (lastPipe : Bool)
      (forkKind : ForkKind)
  | markLabel (label : Label)
  | sourcePos (lineNum : Nat)
  | catchException
      (begin_ end_ : Label)
      (type localOffset localSize : Nat)
  deriving DecidableEq, Repr

namespace Emission

def emit : Emission → CodeBuilder → Building
  | .ins0 op, b => b.emit0byteIns op
  | .ins1 op v, b => b.emit1byteIns op v
  | .ins2 op v, b => b.emit2byteIns op v
  | .ins2Of op v1 v2, b => b.emit2byteInsOf op v1 v2
  | .ins3 op v, b => b.emit3byteIns op v
  | .ins3Of op v1 v2 v3, b => b.emit3byteInsOf op v1 v2 v3
  | .funcCall paramSize, b => b.emitFuncCallIns paramSize
  | .nativeCall paramSize index, b =>
      b.emitNativeCallIns paramSize index
  | .methodCall paramSize index, b =>
      b.emitMethodCallIns paramSize index
  | .glob paramSize tilde, b => b.emitGlobIns paramSize tilde
  | .ldc index, b => b.emitLdcIns index
  | .branch op label, b => b.emitBranchIns op label
  | .fork kind label, b => b.emitForkIns kind label
  | .jump label, b => b.emitJumpIns label
  | .enterFinally label, b => b.enterFinally label
  | .pipeline labels lastPipe forkKind, b =>
      b.emitPipelineIns labels lastPipe forkKind
  | .markLabel label, b => .ok (b.markLabel label)
  | .sourcePos lineNum, b => .ok (b.emitSourcePos lineNum)
  | .catchException begin_ end_ type localOffset localSize, b =>
      .ok
        (b.catchException begin_ end_ type localOffset localSize)

end Emission

def emitAll : List Emission → CodeBuilder → Building
  | [], b => .ok b
  | emission :: rest, b => do
      let b ← emission.emit b
      emitAll rest b

end Bytecode

end Ydsh
