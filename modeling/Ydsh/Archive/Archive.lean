import Ydsh.Archive.Numbers
import Ydsh.Archive.DSType

/-
  Archives of field handles.

  A handle is written as its numbers and its type.  A type that
  is predefined is written as its id, other types are written
  after a tag for their kind.

  Main declarations:
    * `Archiver.add`
    * `Unarchiver`
    * `unpackType`
    * `unpack`
-/

----
-- Writing
----

namespace Ydsh

namespace Archive

inductive ArchiveType where
  | PREDEFINED
  | ARRAY
  | MAP
  | TUPLE
  | OPTION
  | FUNC
  | MOD
  deriving DecidableEq, Repr

def ArchiveType.code : ArchiveType → UInt8
  | .PREDEFINED => 0
  | .ARRAY => 1
  | .MAP => 2
  | .TUPLE => 3
  | .OPTION => 4
  | .FUNC => 5
  | .MOD => 6

def write8 (b : UInt8) : List UInt8 :=
  writeN 1 (b.toBitVec.setWidth 64)

def write16 (b : UInt16) : List UInt8 :=
  writeN 2 (b.toBitVec.setWidth 64)

def write32 (b : UInt32) : List UInt8 :=
  writeN 4 (b.toBitVec.setWidth 64)

def writeT (t : ArchiveType) : List UInt8 :=
  write8 t.code

def write (str : List UInt8) : List UInt8 :=
  write32 (UInt32.ofNat str.length) ++ str.flatMap write8

structure Archiver where
  pool : TypePool
  builtinTypeIdCount : Nat

namespace Archiver

/- The id that a type is written as. -/
def predefined
    (archiver : Archiver)
    (type : DSType) : Option Nat :=
  (archiver.pool.typeId type).filter
    (fun id =>
      id < archiver.builtinTypeIdCount &&
        decide (archiver.builtinTypeIdCount ≤ UINT8_MAX))

def addPredefined (id : Nat) : List UInt8 :=
  writeT .PREDEFINED ++ write8 (UInt8.ofNat id)

/- The bytes of a type that is predefined, or those given. -/
def addOr
    (archiver : Archiver)
    (type : DSType)
    (bytes : List UInt8) : List UInt8 :=
  (archiver.predefined type).elim bytes addPredefined

def addChild (e : ImportedModEntry DSType) : List UInt8 :=
  write8 (if e.isGlobal then 1 else 0) ++
    write16 e.type.getModID

mutual

/- A predefined type of another kind is not written at all. -/
def add (archiver : Archiver) : DSType → List UInt8
  | .builtin names => archiver.addOr (.builtin names) []
  | .array e =>
      archiver.addOr (.array e)
        (writeT .ARRAY ++ archiver.add e)
  | .map k v =>
      archiver.addOr (.map k v)
        (writeT .MAP ++ archiver.add k ++ archiver.add v)
  | .tuple es =>
      archiver.addOr (.tuple es)
        (writeT .TUPLE ++ write8 (UInt8.ofNat es.length) ++
          archiver.addTypes es)
  | .option e =>
      archiver.addOr (.option e)
        (writeT .OPTION ++ archiver.add e)
  | .function r ps =>
      archiver.addOr (.function r ps)
        (writeT .FUNC ++ archiver.add r ++
          write8 (UInt8.ofNat ps.length) ++
          archiver.addTypes ps)
  | .module modID index children handleMap =>
      archiver.addOr (.module modID index children handleMap)
        (writeT .MOD ++ write16 modID ++ write32 index ++
          write16 (UInt16.ofNat children.length) ++
          children.flatMap addChild ++
          write32 (UInt32.ofNat handleMap.length) ++
          archiver.addHandles handleMap)

def addTypes (archiver : Archiver) : List DSType → List UInt8
  | [] => []
  | e :: es => archiver.add e ++ archiver.addTypes es

def addHandles
    (archiver : Archiver) :
    List (List UInt8 × FieldHandle DSType) → List UInt8
  | [] => []
  | e :: es => archiver.addEntry e ++ archiver.addHandles es

def addEntry
    (archiver : Archiver) :
    List UInt8 × FieldHandle DSType → List UInt8
  | ⟨name, handle⟩ => write name ++ archiver.addHandle handle

def addHandle
    (archiver : Archiver) : FieldHandle DSType → List UInt8
  | ⟨commitID, type, index, attr, modID⟩ =>
      write32 commitID ++ write32 index ++ write16 attr ++
        write16 modID ++ archiver.add type

end

end Archiver

----
-- Reading
----

structure Unarchiver where
  pool : TypePool
  pos : Nat

inductive Fault where
  -- no handle
  | invalid
  -- a read past the data
  | outside
  -- types are nested deeper than the limit
  | tooDeep
  deriving DecidableEq, Repr

abbrev Unarchive := StateT Unarchiver (Except Fault)

/- The numbers of an unsigned int. -/
abbrev UINT_RANGE : Nat := 0x100000000

section Reading

variable (data : List UInt8)

/- A string ends with a null character. -/
def terminated : List UInt8 :=
  data ++ [0]

def next : Unarchive UInt8 := fun self =>
  match (terminated data)[self.pos]? with
  | some ch =>
      .ok (ch, { self with pos := (self.pos + 1) % UINT_RANGE })
  | none => .error .outside

def readInto : Nat → BitVec 64 → Unarchive (BitVec 64)
  | 0, v => pure v
  | n + 1, v => do
      let ch ← next data
      readInto n (v ||| ofChar ch <<< (n * 8))

def readN (n : Nat) : Unarchive (BitVec 64) :=
  readInto data n 0

def read8 : Unarchive UInt8 := do
  let v ← readN data 1
  pure (UInt8.ofBitVec (v.setWidth 8))

def read16 : Unarchive UInt16 := do
  let v ← readN data 2
  pure (UInt16.ofBitVec (v.setWidth 16))

def read32 : Unarchive UInt32 := do
  let v ← readN data 4
  pure (UInt32.ofBitVec (v.setWidth 32))

def readBytes (length : Nat) : Unarchive (List UInt8) :=
  fun self =>
    if self.pos + length ≤ (terminated data).length then
      .ok
        (((terminated data).drop self.pos).take length,
          { self with pos := (self.pos + length) % UINT_RANGE })
    else
      .error .outside

def readStr : Unarchive (List UInt8) := do
  let length ← read32 data
  readBytes data length.toNat

/- A type or nothing, as the pool gives it. -/
def create
    (make : TypePool → Option (TypePool × DSType)) :
    Unarchive DSType := fun self =>
  match make self.pool with
  | some (pool, type) => .ok (type, { self with pool := pool })
  | none => .error .invalid

def readPredefined : Unarchive DSType := do
  let id ← read8 data
  let self ← get
  match self.pool.get id.toNat with
  | some type => pure type
  | none => throw .outside

def readChild : Unarchive (ImportedModEntry DSType) := do
  let isGlobal ← read8 data
  let modID ← read16 data
  let self ← get
  match self.pool.getModTypeById modID with
  | some type => pure ⟨type, decide (0 < isGlobal)⟩
  | none => throw .invalid

def times
    {α : Type}
    (one : Unarchive α) : Nat → Unarchive (List α)
  | 0 => pure []
  | n + 1 => do
      let first ← one
      let rest ← times one n
      pure (first :: rest)

def unpackHandle
    (unpackType : Unarchive DSType) :
    Unarchive (FieldHandle DSType) := do
  let commitID ← read32 data
  let index ← read32 data
  let attr ← read16 data
  let modID ← read16 data
  let type ← unpackType
  pure ⟨commitID, type, index, attr, modID⟩

/- A name that is there already is an error. -/
def readHandles
    (unpackType : Unarchive DSType) :
    Nat → HandleMap → Unarchive HandleMap
  | 0, handleMap => pure handleMap
  | n + 1, handleMap => do
      let name ← readStr data
      let handle ← unpackHandle data unpackType
      if name ∈ handleMap.map Prod.fst then
        throw .invalid
      else
        readHandles unpackType n (handleMap ++ [(name, handle)])

def readModType
    (unpackType : Unarchive DSType) : Unarchive DSType := do
  let modID ← read16 data
  let index ← read32 data
  let childSize ← read16 data
  let children ← times (readChild data) childSize.toNat
  let len ← read32 data
  let handleMap ← readHandles data unpackType len.toNat []
  create
    (fun pool =>
      some (pool.createModType modID handleMap children index))

/- The types that a type holds are read by `unpackType`. -/
def unpackKind
    (unpackType : Unarchive DSType)
    (k : UInt8) : Unarchive DSType :=
  if k = ArchiveType.PREDEFINED.code then
    readPredefined data
  else if k = ArchiveType.ARRAY.code then do
    let type ← unpackType
    create (fun pool => pool.createArrayType type)
  else if k = ArchiveType.MAP.code then do
    let key ← unpackType
    let value ← unpackType
    create (fun pool => pool.createMapType key value)
  else if k = ArchiveType.TUPLE.code then do
    let n ← read8 data
    let types ← times unpackType n.toNat
    create (fun pool => pool.createTupleType types)
  else if k = ArchiveType.OPTION.code then do
    let type ← unpackType
    create (fun pool => pool.createOptionType type)
  else if k = ArchiveType.FUNC.code then do
    let retType ← unpackType
    let n ← read8 data
    let types ← times unpackType n.toNat
    create (fun pool => pool.createFuncType retType types)
  else if k = ArchiveType.MOD.code then
    readModType data unpackType
  else
    throw .invalid

def unpackType : Nat → Unarchive DSType
  | 0 => throw .tooDeep
  | limit + 1 => do
      let k ← read8 data
      unpackKind data (unpackType limit) k

/- Each type takes a byte, so no type is nested deeper. -/
def unpack
    (pool : TypePool) :
    Except Fault (FieldHandle DSType × Unarchiver) :=
  unpackHandle data (unpackType data (data.length + 1)) ⟨pool, 0⟩

end Reading

end Archive

end Ydsh
