import Mathlib.Data.List.Basic

/-
  Types that are archived, and the pool they are read into.

  A type is what it is made of: a handle holds its type itself
  in place of the id, since ids differ from pool to pool, and
  two types are structurally equal if they are equal.  A handle
  map is the list of its entries in the order it is walked.

  The name of a type determines what it is made of, so a type is
  looked up by its elements, and a module type by the id of its
  module.

  Main declarations:
    * `DSType`
    * `DSType.induct`
    * `TypePool`
    * `TypePool.createModType`
    * `TypePool.createArrayType`
    * `TypePool.createFuncType`
-/

----
-- Types
----

namespace Ydsh

namespace Archive

structure FieldHandle (τ : Type) where
  commitID : UInt32
  type : τ
  index : UInt32
  attr : UInt16
  modID : UInt16
  deriving DecidableEq, Repr

structure ImportedModEntry (τ : Type) where
  type : τ
  isGlobal : Bool
  deriving DecidableEq, Repr

/- A predefined type has the names of its super types too. -/
inductive DSType where
  | builtin (names : List String)
  | array (elementType : DSType)
  | map (keyType valueType : DSType)
  | tuple (elementTypes : List DSType)
  | option (elementType : DSType)
  | function (returnType : DSType) (paramTypes : List DSType)
  | module
      (modID : UInt16)
      (index : UInt32)
      (children : List (ImportedModEntry DSType))
      (handleMap : List (List UInt8 × FieldHandle DSType))

abbrev HandleMap := List (List UInt8 × FieldHandle DSType)

namespace DSType

/- Types are built from the types they hold. -/
theorem induct
    {motive : DSType → Prop}
    (builtin : ∀ names, motive (.builtin names))
    (array :
      ∀ elementType,
        motive elementType → motive (.array elementType))
    (map :
      ∀ keyType valueType,
        motive keyType → motive valueType →
          motive (.map keyType valueType))
    (tuple :
      ∀ elementTypes, (∀ e ∈ elementTypes, motive e) →
        motive (.tuple elementTypes))
    (option :
      ∀ elementType,
        motive elementType → motive (.option elementType))
    (function :
      ∀ returnType paramTypes,
        motive returnType → (∀ e ∈ paramTypes, motive e) →
          motive (.function returnType paramTypes))
    (module :
      ∀ modID index children (handleMap : HandleMap),
        (∀ e ∈ children, motive e.type) →
          (∀ e ∈ handleMap, motive e.2.type) →
            motive (.module modID index children handleMap)) :
    ∀ type, motive type
  | .builtin names => builtin names
  | .array e =>
      array e
        (induct builtin array map tuple option function module e)
  | .map k v =>
      map k v
        (induct builtin array map tuple option function module k)
        (induct builtin array map tuple option function module v)
  | .tuple es =>
      tuple es
        (fun e _ =>
          induct builtin array map tuple option function module
            e)
  | .option e =>
      option e
        (induct builtin array map tuple option function module e)
  | .function r ps =>
      function r ps
        (induct builtin array map tuple option function module r)
        (fun e _ =>
          induct builtin array map tuple option function module
            e)
  | .module modID index children handleMap =>
      module modID index children handleMap
        (fun e _ =>
          induct builtin array map tuple option function module
            e.type)
        (fun e _ =>
          induct builtin array map tuple option function module
            e.2.type)
termination_by type => sizeOf type
decreasing_by
  all_goals simp_wf
  all_goals try omega
  · rename_i hMem
    have hLt := List.sizeOf_lt_of_mem hMem
    omega
  · rename_i hMem
    have hLt := List.sizeOf_lt_of_mem hMem
    omega
  · rename_i hMem
    have hLt := List.sizeOf_lt_of_mem hMem
    rcases e with ⟨type, isGlobal⟩
    simp only [ImportedModEntry.mk.sizeOf_spec] at hLt
    dsimp only
    omega
  · rename_i hMem
    have hLt := List.sizeOf_lt_of_mem hMem
    rcases e with ⟨name, handle⟩
    rcases handle with ⟨commitID, type, index', attr, modID'⟩
    simp only [Prod.mk.sizeOf_spec,
      FieldHandle.mk.sizeOf_spec] at hLt
    dsimp only
    omega

mutual

def beq : DSType → DSType → Bool
  | .builtin names, .builtin names' => names == names'
  | .array e, .array e' => beq e e'
  | .map k v, .map k' v' => beq k k' && beq v v'
  | .tuple es, .tuple es' => beqTypes es es'
  | .option e, .option e' => beq e e'
  | .function r ps, .function r' ps' =>
      beq r r' && beqTypes ps ps'
  | .module modID index cs hs, .module modID' index' cs' hs' =>
      modID == modID' && index == index' &&
        (beqChildren cs cs' && beqHandles hs hs')
  | _, _ => false

def beqTypes : List DSType → List DSType → Bool
  | [], [] => true
  | e :: es, e' :: es' => beq e e' && beqTypes es es'
  | _, _ => false

def beqChildren :
    List (ImportedModEntry DSType) →
      List (ImportedModEntry DSType) → Bool
  | [], [] => true
  | e :: es, e' :: es' => beqChild e e' && beqChildren es es'
  | _, _ => false

def beqChild :
    ImportedModEntry DSType → ImportedModEntry DSType → Bool
  | ⟨type, isGlobal⟩, ⟨type', isGlobal'⟩ =>
      beq type type' && isGlobal == isGlobal'

def beqHandles :
    List (List UInt8 × FieldHandle DSType) →
      List (List UInt8 × FieldHandle DSType) → Bool
  | [], [] => true
  | e :: es, e' :: es' => beqEntry e e' && beqHandles es es'
  | _, _ => false

def beqEntry :
    List UInt8 × FieldHandle DSType →
      List UInt8 × FieldHandle DSType → Bool
  | ⟨name, handle⟩, ⟨name', handle'⟩ =>
      name == name' && beqHandle handle handle'

def beqHandle :
    FieldHandle DSType → FieldHandle DSType → Bool
  | ⟨commitID, type, index, attr, modID⟩,
      ⟨commitID', type', index', attr', modID'⟩ =>
      beq type type' &&
        (commitID == commitID' && index == index' &&
          (attr == attr' && modID == modID'))

end

theorem beqTypes_iff
    {es : List DSType}
    (hEach :
      ∀ e ∈ es, ∀ e', beq e e' = true ↔ e = e')
    (es' : List DSType) :
    beqTypes es es' = true ↔ es = es' := by
  induction es generalizing es' with
  | nil => cases es' <;> simp [beqTypes]
  | cons e es ih =>
      cases es' with
      | nil => simp [beqTypes]
      | cons e' es' =>
          have hRest :=
            ih (fun x hMem => hEach x (List.mem_cons_of_mem _ hMem))
              es'
          simp [beqTypes, hEach e List.mem_cons_self, hRest]

theorem beqChildren_iff
    {es : List (ImportedModEntry DSType)}
    (hEach :
      ∀ e ∈ es, ∀ e', beq e.type e' = true ↔ e.type = e')
    (es' : List (ImportedModEntry DSType)) :
    beqChildren es es' = true ↔ es = es' := by
  induction es generalizing es' with
  | nil => cases es' <;> simp [beqChildren]
  | cons e es ih =>
      cases es' with
      | nil => simp [beqChildren]
      | cons e' es' =>
          have hRest :=
            ih (fun x hMem => hEach x (List.mem_cons_of_mem _ hMem))
              es'
          have hFirst := hEach e List.mem_cons_self
          rcases e with ⟨type, isGlobal⟩
          rcases e' with ⟨type', isGlobal'⟩
          simp [beqChildren, beqChild, hFirst, hRest]

theorem beqHandles_iff
    {es : HandleMap}
    (hEach :
      ∀ e ∈ es, ∀ e', beq e.2.type e' = true ↔ e.2.type = e')
    (es' : HandleMap) :
    beqHandles es es' = true ↔ es = es' := by
  induction es generalizing es' with
  | nil => cases es' <;> simp [beqHandles]
  | cons e es ih =>
      cases es' with
      | nil => simp [beqHandles]
      | cons e' es' =>
          have hRest :=
            ih (fun x hMem => hEach x (List.mem_cons_of_mem _ hMem))
              es'
          have hFirst := hEach e List.mem_cons_self
          rcases e with ⟨name, commitID, type, index, attr, modID⟩
          rcases e' with
            ⟨name', commitID', type', index', attr', modID'⟩
          simp [beqHandles, beqEntry, beqHandle, hFirst, hRest]
          tauto

theorem beq_iff (type type' : DSType) :
    beq type type' = true ↔ type = type' := by
  induction type using induct generalizing type' with
  | builtin names => cases type' <;> simp [beq]
  | array e ih => cases type' <;> simp [beq, ih]
  | map k v ihKey ihValue =>
      cases type' <;> simp [beq, ihKey, ihValue]
  | tuple es ih => cases type' <;> simp [beq, beqTypes_iff ih]
  | option e ih => cases type' <;> simp [beq, ih]
  | function r ps ihReturn ih =>
      cases type' <;> simp [beq, ihReturn, beqTypes_iff ih]
  | module modID index cs hs ihChildren ihHandles =>
      cases type' <;>
        simp [beq, beqChildren_iff ihChildren,
          beqHandles_iff ihHandles, and_assoc]

instance : DecidableEq DSType :=
  fun type type' => decidable_of_iff _ (beq_iff type type')

end DSType

end Archive

end Ydsh

----
-- Checks of Elements
----

namespace Ydsh

namespace Archive

abbrev UINT8_MAX : Nat := 255
abbrev UINT16_MAX : Nat := 65535
abbrev SYS_LIMIT_TUPLE_NUM : Nat := 255
abbrev SYS_LIMIT_FUNC_PARAM_NUM : Nat := 255

namespace DSType

def is (name : String) : DSType → Bool
  | .builtin (first :: _) => first == name
  | _ => false

def isVoidType : DSType → Bool :=
  is "Void"

def isNothingType : DSType → Bool :=
  is "Nothing"

def isOptionType : DSType → Bool
  | .option _ => true
  | _ => false

/- `Any` and the types above it. -/
def anyNames : List String :=
  ["Any", "pseudo top%%", "process guard%%"]

/- The names of the predefined types at and above a type. -/
def lineage : DSType → List String
  | .builtin names => names
  | .option _ => []
  | .function _ _ => "Func" :: anyNames
  | _ => anyNames

/- The accepted types are predefined ones. -/
def isAcceptable (acceptType : String) (type : DSType) : Bool :=
  (type.lineage.contains acceptType || type.isNothingType) &&
      !type.isNothingType ||
    acceptType == "Any" && type.isOptionType

def checkElementTypes
    (limit : Nat)
    (elementTypes : List DSType) : Bool :=
  decide (elementTypes.length ≤ limit) &&
    elementTypes.all
      (fun type => !(type.isVoidType || type.isNothingType))

def isModType : DSType → Bool
  | .module _ _ _ _ => true
  | _ => false

/- `%mod` and the id name the type of a module. -/
def isModTypeOf (modID : UInt16) : DSType → Bool
  | .module modID' _ _ _ => modID' == modID
  | _ => false

def getModID : DSType → UInt16
  | .module modID _ _ _ => modID
  | _ => 0

end DSType

----
-- The Pool
----

structure TypePool where
  typeTable : List DSType

namespace TypePool

def get (pool : TypePool) (id : Nat) : Option DSType :=
  pool.typeTable[id]?

/- The id that the pool gave a type. -/
def typeId (pool : TypePool) (type : DSType) : Option Nat :=
  pool.typeTable.findIdx? (fun found => found == type)

def findOrAdd
    (pool : TypePool)
    (type : DSType) : TypePool × DSType :=
  if type ∈ pool.typeTable then
    (pool, type)
  else
    (⟨pool.typeTable ++ [type]⟩, type)

def createArrayType
    (pool : TypePool)
    (elementType : DSType) : Option (TypePool × DSType) :=
  if elementType.isAcceptable "Any" then
    some (pool.findOrAdd (.array elementType))
  else
    none

def createMapType
    (pool : TypePool)
    (keyType valueType : DSType) :
    Option (TypePool × DSType) :=
  if keyType.isAcceptable "Value%%" &&
      valueType.isAcceptable "Any" then
    some (pool.findOrAdd (.map keyType valueType))
  else
    none

/- The tuple type of no elements cannot be asked for. -/
def createTupleType
    (pool : TypePool)
    (elementTypes : List DSType) : Option (TypePool × DSType) :=
  if DSType.checkElementTypes SYS_LIMIT_TUPLE_NUM
      elementTypes then
    some (pool.findOrAdd (.tuple elementTypes))
  else
    none

def createOptionType
    (pool : TypePool)
    (elementType : DSType) : Option (TypePool × DSType) :=
  if elementType.isVoidType || elementType.isNothingType then
    none
  else if elementType.isOptionType then
    some (pool, elementType)
  else
    some (pool.findOrAdd (.option elementType))

def createFuncType
    (pool : TypePool)
    (returnType : DSType)
    (paramTypes : List DSType) : Option (TypePool × DSType) :=
  if DSType.checkElementTypes SYS_LIMIT_FUNC_PARAM_NUM
      paramTypes then
    some (pool.findOrAdd (.function returnType paramTypes))
  else
    none

def getModTypeById
    (pool : TypePool)
    (modID : UInt16) : Option DSType :=
  pool.typeTable.find? (fun type => type.isModTypeOf modID)

/- The type that a module already has stays. -/
def createModType
    (pool : TypePool)
    (modID : UInt16)
    (handles : HandleMap)
    (children : List (ImportedModEntry DSType))
    (index : UInt32) : TypePool × DSType :=
  match pool.getModTypeById modID with
  | some type => (pool, type)
  | none =>
      let type := DSType.module modID index children handles
      (⟨pool.typeTable ++ [type]⟩, type)

end TypePool

end Archive

end Ydsh
