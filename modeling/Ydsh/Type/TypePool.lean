import Mathlib.Tactic.Common
import Ydsh.Scope.NameScope

/-
  The pool of types.

  A type is known by its place in the type table, and its name
  leads back to that place.  The methods of a type are entered
  with the index of a native function when the type is made;
  the types in the signature of a method are only looked up,
  and made, when the method is first used.

  Main declarations:
    * `PoolType`
    * `TypePool`
    * `TypePool.createReifiedType`
    * `TypePool.createFuncType`
    * `TypePool.lookupMethod`
    * `TypePool.discard`
-/

----
-- Types of the Pool
----

namespace Ydsh

namespace Pool

open Scope (ModType HandleMap ImportedModEntry toModTypeName)

abbrev SYS_LIMIT_TYPE_ID : Nat := 0xFFFFFF
abbrev SYS_LIMIT_TUPLE_NUM : Nat := 255
abbrev SYS_LIMIT_FUNC_PARAM_NUM : Nat := 255

abbrev TypeId := Nat

namespace TYPE

abbrev Root : TypeId := 1
abbrev Any : TypeId := 2
abbrev Void : TypeId := 3
abbrev Nothing : TypeId := 4
abbrev Value : TypeId := 5
abbrev Int : TypeId := 6
abbrev Float : TypeId := 7
abbrev Boolean : TypeId := 8
abbrev String : TypeId := 9
abbrev Regex : TypeId := 10
abbrev Signal : TypeId := 11
abbrev Signals : TypeId := 12
abbrev Error : TypeId := 13
abbrev Job : TypeId := 14
abbrev Func : TypeId := 15
abbrev StringIter : TypeId := 16
abbrev UnixFD : TypeId := 17
abbrev InternalStatus : TypeId := 30

end TYPE

inductive TypeTemplate where
  | array
  | map
  | tuple
  | option
  deriving DecidableEq, Repr

namespace TypeTemplate

def getName : TypeTemplate → String
  | .array => "Array"
  | .map => "Map"
  | .tuple => "Tuple"
  | .option => "Option"

/- Tuple and option take any number of elements here. -/
def getAcceptableTypes : TypeTemplate → List TypeId
  | .array => [TYPE.Any]
  | .map => [TYPE.Value, TYPE.Any]
  | .tuple => []
  | .option => []

end TypeTemplate

inductive TypeShape where
  | builtin
  | reified (template : TypeTemplate) (elementTypes : List TypeId)
  | function (returnType : TypeId) (paramTypes : List TypeId)
  | module (type : ModType)
  deriving DecidableEq, Repr

structure PoolType where
  name : String
  superType : Option TypeId
  shape : TypeShape
  deriving DecidableEq, Repr

namespace PoolType

def isOptionType (type : PoolType) : Bool :=
  match type.shape with
  | .reified .option _ => true
  | _ => false

def isFuncType (type : PoolType) : Bool :=
  match type.shape with
  | .function _ _ => true
  | _ => false

/- The element types that a method of the type may mention. -/
def elementTypes (type : PoolType) : List TypeId :=
  match type.shape with
  | .reified _ elementTypes => elementTypes
  | _ => []

end PoolType

----
-- Methods
----

/- The predefined types that a signature may mention. -/
inductive HandleType where
  | void
  | any
  | value
  | int
  | float
  | boolean
  | string
  | unixFD
  | error
  | job
  | stringIter
  | regex
  | signal
  | signals
  deriving DecidableEq, Repr

def HandleType.typeId : HandleType → TypeId
  | .void => TYPE.Void
  | .any => TYPE.Any
  | .value => TYPE.Value
  | .int => TYPE.Int
  | .float => TYPE.Float
  | .boolean => TYPE.Boolean
  | .string => TYPE.String
  | .unixFD => TYPE.UnixFD
  | .error => TYPE.Error
  | .job => TYPE.Job
  | .stringIter => TYPE.StringIter
  | .regex => TYPE.Regex
  | .signal => TYPE.Signal
  | .signals => TYPE.Signals

theorem HandleType.typeId_le (type : HandleType) :
    type.typeId ≤ TYPE.UnixFD := by
  cases type <;> decide

/- A signature is encoded as a sequence, operators first. -/
inductive HandleInfo where
  | type (type : HandleType)
  | array
  | map
  | tuple
  | option
  | func
  | num (count : Nat)
  | typeParam (index : Nat)
  deriving DecidableEq, Repr

structure NativeFuncInfo where
  funcName : String
  handleInfo : List HandleInfo
  deriving DecidableEq, Repr

/- The native functions of a type are consecutive. -/
structure NativeTypeInfo where
  offset : Nat
  methodSize : Nat
  deriving DecidableEq, Repr

/-
  The table of native functions and what part of it belongs to
  which type.  It is generated when the program is built.
-/
structure NativeTable where
  funcInfo : Nat → NativeFuncInfo
  builtinInfo : TypeId → NativeTypeInfo
  templateInfo : TypeTemplate → NativeTypeInfo

structure MethodHandle where
  methodId : Nat
  recvType : TypeId
  methodIndex : Nat
  returnType : TypeId
  paramTypes : List TypeId
  deriving DecidableEq, Repr

inductive MethodValue where
  | index (methodIndex : Nat)
  | handle (handle : MethodHandle)
  deriving DecidableEq, Repr

/- A method first used after the point is unused again. -/
def MethodValue.discard
    (methodIdOffset : Nat) : MethodValue → MethodValue
  | .index methodIndex => .index methodIndex
  | .handle method =>
      if methodIdOffset ≤ method.methodId then
        .index method.methodIndex
      else
        .handle method

abbrev MethodMap := List ((TypeId × String) × MethodValue)

----
-- The Pool
----

structure TypePool where
  typeTable : List PoolType
  nameMap : List (String × TypeId)
  methodMap : MethodMap
  methodIdCount : Nat
  deriving DecidableEq, Repr

inductive TypeLookupError where
  | elementLimit
  | undefinedType (typeName : String)
  | notTemplate (typeName : String)
  | invalidElement (typeName : String)
  | unmatchElement (template : String) (required actual : Nat)
  -- the shell ends
  | typeLimit
  deriving DecidableEq, Repr

structure TypeDiscardPoint where
  typeIdOffset : Nat
  methodIdOffset : Nat
  deriving DecidableEq, Repr

namespace TypePool

def empty : TypePool := ⟨[], [], [], 0⟩

def get (pool : TypePool) (id : TypeId) : PoolType :=
  pool.typeTable.getD id ⟨"", none, .builtin⟩

def getName (pool : TypePool) (id : TypeId) : String :=
  (pool.get id).name

def find (pool : TypePool) (name : String) : Option TypeId :=
  pool.nameMap.lookup name

def getType
    (pool : TypePool)
    (typeName : String) : Except TypeLookupError TypeId :=
  match pool.find typeName with
  | some id => .ok id
  | none => .error (.undefinedType typeName)

def getTypeTemplate
    (typeName : String) : Except TypeLookupError TypeTemplate :=
  if typeName = "Array" then
    .ok .array
  else if typeName = "Map" then
    .ok .map
  else if typeName = "Tuple" then
    .ok .tuple
  else if typeName = "Option" then
    .ok .option
  else
    .error (.notTemplate typeName)

def getDiscardPoint (pool : TypePool) : TypeDiscardPoint :=
  ⟨pool.typeTable.length, pool.methodIdCount⟩

/-
  The option types are looked through before the super types
  of the other type are tried; both steps lead to smaller ids.
-/
def isSameOrBaseWithin
    (pool : TypePool) : Nat → TypeId → TypeId → Bool
  | 0, _, _ => false
  | limit + 1, type, target =>
      if type = target then
        true
      else if target = TYPE.Nothing then
        true
      else
        match (pool.get type).shape with
        | .reified .option (element :: _) =>
            pool.isSameOrBaseWithin limit element target
        | _ =>
            match (pool.get target).superType with
            | some super => pool.isSameOrBaseWithin limit type super
            | none => false

def isSameOrBaseTypeOf
    (pool : TypePool)
    (type target : TypeId) : Bool :=
  pool.isSameOrBaseWithin (type + target + 1) type target

/- The names of elements, separated by `", "`. -/
def joinNames : List String → String
  | [] => ""
  | [name] => name
  | name :: names => name ++ ", " ++ joinNames names

def toReifiedTypeName
    (pool : TypePool)
    (template : TypeTemplate)
    (elementTypes : List TypeId) : String :=
  match template, elementTypes with
  | .array, element :: _ => "[" ++ pool.getName element ++ "]"
  | .map, key :: value :: _ =>
      "[" ++ pool.getName key ++ " : " ++
        pool.getName value ++ "]"
  | .option, element :: _ =>
      if (pool.get element).isFuncType then
        "(" ++ pool.getName element ++ ")!"
      else
        pool.getName element ++ "!"
  | _, _ =>
      template.getName ++ "<" ++
        ",".intercalate (elementTypes.map pool.getName) ++ ">"

def toTupleTypeName
    (pool : TypePool)
    (elementTypes : List TypeId) : String :=
  "(" ++ joinNames (elementTypes.map pool.getName) ++
    (if elementTypes.length = 1 then "," else "") ++ ")"

def toFunctionTypeName
    (pool : TypePool)
    (returnType : TypeId)
    (paramTypes : List TypeId) : String :=
  "(" ++ joinNames (paramTypes.map pool.getName) ++ ") -> " ++
    pool.getName returnType

----
-- Creation of Types
----

def addType
    (pool : TypePool)
    (type : PoolType) :
    Except TypeLookupError (TypePool × TypeId) :=
  if pool.typeTable.length + 1 = SYS_LIMIT_TYPE_ID then
    .error .typeLimit
  else
    .ok
      ({ pool with
          typeTable := pool.typeTable ++ [type]
          nameMap :=
            pool.nameMap ++ [(type.name, pool.typeTable.length)] },
        pool.typeTable.length)

def registerHandles
    (pool : TypePool)
    (table : NativeTable)
    (recv : TypeId)
    (info : NativeTypeInfo) : TypePool :=
  { pool with
    methodMap :=
      pool.methodMap ++
        (List.range' info.offset info.methodSize).map
          (fun index =>
            ((recv, (table.funcInfo index).funcName),
              .index index)) }

/- The type of that name, made first if there is none. -/
def findOrAdd
    (pool : TypePool)
    (table : NativeTable)
    (type : PoolType)
    (info : NativeTypeInfo) :
    Except TypeLookupError (TypePool × TypeId) :=
  match pool.find type.name with
  | some id => .ok (pool, id)
  | none =>
      match pool.addType type with
      | .ok (pool, id) => .ok (pool.registerHandles table id info, id)
      | .error e => .error e

/- The element that is none, if there is one. -/
def checkElements
    (pool : TypePool)
    (limit : Nat)
    (elementTypes : List TypeId) : Except TypeLookupError Unit :=
  if limit < elementTypes.length then
    .error .elementLimit
  else
    match elementTypes.find?
        (fun type => type == TYPE.Void || type == TYPE.Nothing) with
    | some type => .error (.invalidElement (pool.getName type))
    | none => .ok ()

def isAcceptable
    (pool : TypePool)
    (acceptType elementType : TypeId) : Bool :=
  pool.isSameOrBaseTypeOf acceptType elementType &&
      elementType != TYPE.Nothing ||
    acceptType == TYPE.Any && (pool.get elementType).isOptionType

def checkTemplateElements
    (pool : TypePool)
    (template : TypeTemplate)
    (elementTypes : List TypeId) : Except TypeLookupError Unit :=
  let accepted := template.getAcceptableTypes
  if accepted.length ≠ elementTypes.length then
    .error
      (.unmatchElement template.getName accepted.length
        elementTypes.length)
  else
    match (accepted.zip elementTypes).find?
        (fun types => !pool.isAcceptable types.1 types.2) with
    | some types => .error (.invalidElement (pool.getName types.2))
    | none => .ok ()

/- A type is made only if its elements pass the check. -/
def afterCheck
    (check : Except TypeLookupError Unit)
    (created : Except TypeLookupError (TypePool × TypeId)) :
    Except TypeLookupError (TypePool × TypeId) :=
  match check with
  | .error e => .error e
  | .ok _ => created

theorem afterCheck_eq_ok
    {check : Except TypeLookupError Unit}
    {created : Except TypeLookupError (TypePool × TypeId)}
    {result : TypePool × TypeId} :
    afterCheck check created = .ok result ↔
      check = .ok () ∧ created = .ok result := by
  cases check with
  | error e => simp [afterCheck]
  | ok u => simp [afterCheck]

def createTupleType
    (pool : TypePool)
    (table : NativeTable)
    (elementTypes : List TypeId) :
    Except TypeLookupError (TypePool × TypeId) :=
  afterCheck
    (pool.checkElements SYS_LIMIT_TUPLE_NUM elementTypes)
    (pool.findOrAdd table
      ⟨pool.toTupleTypeName elementTypes, some TYPE.Any,
        .reified .tuple elementTypes⟩
      (table.templateInfo .tuple))

/- Only the first element of an option type is looked at. -/
def createOptionReified
    (pool : TypePool)
    (table : NativeTable)
    (elementTypes : List TypeId) :
    Except TypeLookupError (TypePool × TypeId) :=
  let element := elementTypes.headD 0
  if element = TYPE.Void ∨ element = TYPE.Nothing then
    .error (.invalidElement (pool.getName element))
  else if (pool.get element).isOptionType then
    .ok (pool, element)
  else
    pool.findOrAdd table
      ⟨pool.toReifiedTypeName .option elementTypes, none,
        .reified .option elementTypes⟩
      (table.templateInfo .option)

def createReifiedType
    (pool : TypePool)
    (table : NativeTable)
    (template : TypeTemplate)
    (elementTypes : List TypeId) :
    Except TypeLookupError (TypePool × TypeId) :=
  match template with
  | .tuple => pool.createTupleType table elementTypes
  | .option => pool.createOptionReified table elementTypes
  | template =>
      afterCheck
        (pool.checkTemplateElements template elementTypes)
        (pool.findOrAdd table
          ⟨pool.toReifiedTypeName template elementTypes,
            some TYPE.Any, .reified template elementTypes⟩
          (table.templateInfo template))

def createArrayType
    (pool : TypePool)
    (table : NativeTable)
    (elementType : TypeId) :=
  pool.createReifiedType table .array [elementType]

def createOptionType
    (pool : TypePool)
    (table : NativeTable)
    (elementType : TypeId) :=
  pool.createReifiedType table .option [elementType]

/- A function type has no native methods. -/
def createFuncType
    (pool : TypePool)
    (table : NativeTable)
    (returnType : TypeId)
    (paramTypes : List TypeId) :
    Except TypeLookupError (TypePool × TypeId) :=
  afterCheck
    (pool.checkElements SYS_LIMIT_FUNC_PARAM_NUM paramTypes)
    (pool.findOrAdd table
      ⟨pool.toFunctionTypeName returnType paramTypes,
        some TYPE.Func, .function returnType paramTypes⟩
      ⟨0, 0⟩)

def createModType
    (pool : TypePool)
    (table : NativeTable)
    (type : ModType) :
    Except TypeLookupError (TypePool × TypeId) :=
  pool.findOrAdd table
    ⟨toModTypeName type.modId, some TYPE.Any,
      .module { type with typeId := pool.typeTable.length }⟩
    ⟨0, 0⟩

----
-- Signatures of Methods
----

/-
  Types made before a signature turns out to be bad stay in
  the pool, so the pool is returned in any case.
-/
def finish
    (pool : TypePool)
    (rest : List HandleInfo)
    (created : Except TypeLookupError (TypePool × TypeId)) :
    TypePool × Option (TypeId × List HandleInfo) :=
  match created with
  | .ok (pool, type) => (pool, some (type, rest))
  | .error _ => (pool, none)

def decodeNum :
    List HandleInfo → Option (Nat × List HandleInfo)
  | .num count :: rest => some (count, rest)
  | _ => none

/- The types that a sequence of signatures stands for. -/
abbrev DecodeMany :=
  TypePool → Nat → List HandleInfo →
    TypePool × Option (List TypeId × List HandleInfo)

/- A template or a function type, from its elements. -/
def decodeReified
    (table : NativeTable)
    (decodeMany : DecodeMany)
    (pool : TypePool)
    (template : TypeTemplate)
    (infos : List HandleInfo) :
    TypePool × Option (TypeId × List HandleInfo) :=
  match decodeNum infos with
  | none => (pool, none)
  | some (count, rest) =>
      match decodeMany pool count rest with
      | (pool, none) => (pool, none)
      | (pool, some (elementTypes, rest)) =>
          pool.finish rest
            (pool.createReifiedType table template elementTypes)

def decodeFunc
    (table : NativeTable)
    (decodeMany : DecodeMany)
    (pool : TypePool)
    (infos : List HandleInfo) :
    TypePool × Option (TypeId × List HandleInfo) :=
  match decodeMany pool 1 infos with
  | (pool, none) => (pool, none)
  | (pool, some (returnTypes, rest)) =>
      match decodeNum rest with
      | none => (pool, none)
      | some (count, rest) =>
          match decodeMany pool count rest with
          | (pool, none) => (pool, none)
          | (pool, some (paramTypes, rest)) =>
              pool.finish rest
                (pool.createFuncType table
                  (returnTypes.headD 0) paramTypes)

/- `typeParams` are the element types of the receiver. -/
def decodeType
    (table : NativeTable)
    (typeParams : List TypeId)
    (decodeMany : DecodeMany)
    (pool : TypePool) :
    List HandleInfo →
      TypePool × Option (TypeId × List HandleInfo)
  | [] => (pool, none)
  | .type type :: rest => (pool, some (type.typeId, rest))
  | .typeParam index :: rest =>
      (pool, typeParams[index]?.map (fun type => (type, rest)))
  | .num _ :: _ => (pool, none)
  | .array :: rest =>
      decodeReified table decodeMany pool .array rest
  | .map :: rest =>
      decodeReified table decodeMany pool .map rest
  | .option :: rest =>
      decodeReified table decodeMany pool .option rest
  | .tuple :: .num 0 :: rest =>
      pool.finish rest (pool.createTupleType table typeParams)
  | .tuple :: rest =>
      decodeReified table decodeMany pool .tuple rest
  | .func :: rest => decodeFunc table decodeMany pool rest

/- `limit` is larger than the length of the sequence. -/
def decodeMany
    (table : NativeTable)
    (typeParams : List TypeId) : Nat → DecodeMany
  | 0, pool, _, _ => (pool, none)
  | _ + 1, pool, 0, rest => (pool, some ([], rest))
  | limit + 1, pool, count + 1, infos =>
      match decodeType table typeParams
          (decodeMany table typeParams limit) pool infos with
      | (pool, none) => (pool, none)
      | (pool, some (type, rest)) =>
          match decodeMany table typeParams limit pool count
              rest with
          | (pool, none) => (pool, none)
          | (pool, some (types, rest)) =>
              (pool, some (type :: types, rest))

/- Every element of a sequence takes at most two steps. -/
def decode
    (table : NativeTable)
    (typeParams : List TypeId)
    (pool : TypePool)
    (count : Nat)
    (infos : List HandleInfo) :
    TypePool × Option (List TypeId × List HandleInfo) :=
  decodeMany table typeParams (2 * infos.length + count + 1)
    pool count infos

/- Each type parameter must be of the type that bounds it. -/
def checkConstraints
    (table : NativeTable)
    (typeParams : List TypeId) :
    Nat → TypePool → List HandleInfo →
      TypePool × Option (List HandleInfo)
  | 0, pool, infos => (pool, some infos)
  | count + 1, pool, infos =>
      match decode table typeParams pool 2 infos with
      | (pool, some ([typeParam, reqType], rest)) =>
          if pool.isSameOrBaseTypeOf reqType typeParam then
            checkConstraints table typeParams count pool rest
          else
            (pool, none)
      | (pool, _) => (pool, none)

----
-- Use of Methods
----

/- Each method has one entry. -/
def replaceMethod
    (key : TypeId × String)
    (value : MethodValue) : MethodMap → MethodMap
  | [] => []
  | entry :: rest =>
      if entry.1 = key then
        (key, value) :: rest
      else
        entry :: replaceMethod key value rest

/-
  The return type, then the parameters with the receiver first.
  The method is numbered before the other parameter types are
  decoded.
-/
def allocChecked
    (pool : TypePool)
    (table : NativeTable)
    (recv : TypeId)
    (methodName : String)
    (methodIndex : Nat)
    (typeParams : List TypeId)
    (infos : List HandleInfo) : TypePool × Option MethodHandle :=
  match decode table typeParams pool 1 infos with
  | (pool, none) => (pool, none)
  | (pool, some (returnTypes, infos)) =>
      match decodeNum infos with
      | none => (pool, none)
      | some (paramSize, infos) =>
          match decode table typeParams pool 1 infos with
          | (pool, none) => (pool, none)
          | (pool, some (recvTypes, infos)) =>
              let methodId := pool.methodIdCount
              let pool :=
                { pool with methodIdCount := methodId + 1 }
              match decode table typeParams pool
                  (paramSize - 1) infos with
              | (pool, none) => (pool, none)
              | (pool, some (paramTypes, _)) =>
                  let handle :=
                    { methodId := methodId
                      recvType := recvTypes.headD 0
                      methodIndex := methodIndex
                      returnType := returnTypes.headD 0
                      paramTypes := paramTypes }
                  ({ pool with
                      methodMap :=
                        replaceMethod (recv, methodName)
                          (.handle handle) pool.methodMap },
                    some handle)

/- A signature begins with its constraints. -/
def allocMethodHandle
    (pool : TypePool)
    (table : NativeTable)
    (recv : TypeId)
    (methodName : String)
    (methodIndex : Nat) : TypePool × Option MethodHandle :=
  let typeParams := (pool.get recv).elementTypes
  let infos := (table.funcInfo methodIndex).handleInfo
  match decodeNum infos with
  | none => (pool, none)
  | some (constraintSize, infos) =>
      match checkConstraints table typeParams constraintSize pool
          infos with
      | (pool, none) => (pool, none)
      | (pool, some infos) =>
          pool.allocChecked table recv methodName methodIndex
            typeParams infos

/- The method of the type or of the nearest super type. -/
def lookupMethodWithin
    (table : NativeTable)
    (methodName : String) :
    Nat → TypePool → TypeId → TypePool × Option MethodHandle
  | 0, pool, _ => (pool, none)
  | limit + 1, pool, recvType =>
      match pool.methodMap.lookup (recvType, methodName) with
      | some (.handle handle) => (pool, some handle)
      | some (.index methodIndex) =>
          pool.allocMethodHandle table recvType methodName
            methodIndex
      | none =>
          match (pool.get recvType).superType with
          | some super =>
              lookupMethodWithin table methodName limit pool super
          | none => (pool, none)

def lookupMethod
    (pool : TypePool)
    (table : NativeTable)
    (recvType : TypeId)
    (methodName : String) : TypePool × Option MethodHandle :=
  lookupMethodWithin table methodName (recvType + 1) pool recvType

----
-- The Predefined Types
----

def initBuiltinType
    (table : NativeTable)
    (pool : TypePool)
    (type : String × Option TypeId) : TypePool :=
  match pool.addType ⟨type.1, type.2, .builtin⟩ with
  | .ok (pool, id) =>
      pool.registerHandles table id (table.builtinInfo id)
  | .error _ => pool

/- An error type has the methods of `Error` only. -/
def initErrorType
    (pool : TypePool)
    (typeName : String) : TypePool :=
  match pool.addType ⟨typeName, some TYPE.Error, .builtin⟩ with
  | .ok (pool, _) => pool
  | .error _ => pool

def builtinTypes : List (String × Option TypeId) :=
  [("process guard%%", none),
    ("pseudo top%%", some 0),
    ("Any", some TYPE.Root),
    ("Void", none),
    ("Nothing", none),
    ("Value%%", some TYPE.Any),
    ("Int", some TYPE.Value),
    ("Float", some TYPE.Value),
    ("Boolean", some TYPE.Value),
    ("String", some TYPE.Value),
    ("Regex", some TYPE.Any),
    ("Signal", some TYPE.Value),
    ("Signals", some TYPE.Any),
    ("Error", some TYPE.Any),
    ("Job", some TYPE.Any),
    ("Func", some TYPE.Any),
    ("StringIter%%", some TYPE.Any),
    ("UnixFD", some TYPE.Any)]

def errorTypes : List String :=
  ["ArithmeticError", "OutOfRangeError", "KeyNotFoundError",
    "TypeCastError", "SystemError", "StackOverflowError",
    "RegexSyntaxError", "GlobbingError", "UnwrappingError",
    "IllegalAccessError", "InvalidOperationError"]

def statusTypes : List (String × Option TypeId) :=
  [("internal status%%", some TYPE.Root),
    ("Shell Exit", some TYPE.InternalStatus),
    ("Assertion Error", some TYPE.InternalStatus)]

/- The array of strings comes before the error types. -/
def initStringArray
    (table : NativeTable)
    (pool : TypePool) : TypePool :=
  match pool.createArrayType table TYPE.String with
  | .ok (pool, _) => pool
  | .error _ => pool

def init (table : NativeTable) : TypePool :=
  let pool := builtinTypes.foldl (initBuiltinType table) empty
  let pool := errorTypes.foldl initErrorType (initStringArray table pool)
  statusTypes.foldl (initBuiltinType table) pool

def discard
    (pool : TypePool)
    (point : TypeDiscardPoint) : TypePool :=
  { typeTable := pool.typeTable.take point.typeIdOffset
    nameMap :=
      pool.nameMap.filter
        (fun entry => entry.2 < point.typeIdOffset)
    methodMap :=
      (pool.methodMap.filter
        (fun entry => entry.1.1 < point.typeIdOffset)).map
        (fun entry =>
          (entry.1,
            MethodValue.discard point.methodIdOffset entry.2))
    methodIdCount := point.methodIdOffset }

/- The equations that proofs unfold. -/
attribute [local simp] joinNames toReifiedTypeName

end TypePool

end Pool

end Ydsh
