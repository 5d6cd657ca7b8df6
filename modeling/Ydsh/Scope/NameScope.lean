import Mathlib.Logic.Function.Basic
import Mathlib.Tactic.Common

/-
  Name scopes of the type checker.

  Scopes are shared by reference and so is the counter that
  bounds the variables of a scope, hence they live in a store.
  A function scope or a block counts local variables; all
  global scopes count variables in the counter of the module
  loader.

  Main declarations:
    * `FieldHandle`
    * `ModType`
    * `NameScope`
    * `ScopeStore`
    * `ScopeStore.enterScope`
    * `ScopeStore.add`
    * `ScopeStore.importForeignHandles`
    * `ScopeStore.discard`
-/

----
-- Handles
----

namespace Ydsh

namespace Scope

abbrev SYS_LIMIT_LOCAL_NUM : Nat := 255

structure FieldAttribute where
  readOnly : Bool := false
  isGlobal : Bool := false
  env : Bool := false
  funcHandle : Bool := false
  random : Bool := false
  seconds : Bool := false
  modConst : Bool := false
  isAlias : Bool := false
  namedMod : Bool := false
  globalMod : Bool := false
  deriving DecidableEq, Repr

/-
  A handle is known by its number among the names of its scope.
  `origin` is not in the source and nothing reads it: it numbers
  the definition that the handle and its aliases go back to.
-/
structure FieldHandle where
  commitId : Nat
  typeId : Nat
  index : Nat
  attr : FieldAttribute
  modId : Nat
  origin : Nat := 0
  deriving DecidableEq, Repr

namespace FieldHandle

/- A variable that takes a slot of a function or of a module. -/
def isLocal (handle : FieldHandle) : Bool :=
  !handle.attr.isAlias && !handle.attr.isGlobal

def isModHolder (handle : FieldHandle) : Bool :=
  handle.attr.globalMod || handle.attr.namedMod

end FieldHandle

abbrev HandleMap := List (String × FieldHandle)

def CMD_SYMBOL_SUFFIX : String := "%c"
def TYPE_ALIAS_SYMBOL_SUFFIX : String := "%t"
def MOD_HOLDER_SYMBOL_SUFFIX : String := "%m"
def MOD_SYMBOL_PREFIX : String := "%mod"

/- A type alias does not clash with a variable of its name. -/
def toTypeAliasFullName (name : String) : String :=
  name ++ TYPE_ALIAS_SYMBOL_SUFFIX

def toModHolderName
    (id : Nat)
    (isGlobal : Bool) : String :=
  (if isGlobal then "_g" else "_n") ++
    toString id ++ MOD_HOLDER_SYMBOL_SUFFIX

def toModTypeName (modId : Nat) : String :=
  MOD_SYMBOL_PREFIX ++ toString modId

def hasSuffix (name suffix : String) : Bool :=
  suffix.toList.isSuffixOf name.toList

def isCmdFullName (name : String) : Bool :=
  hasSuffix name CMD_SYMBOL_SUFFIX

def isTypeAliasFullName (name : String) : Bool :=
  hasSuffix name TYPE_ALIAS_SYMBOL_SUFFIX

/- Names that start with `_` are private to their module. -/
def isPrivateName (name : String) : Bool :=
  name.toList.head? == some '_'

/- The name of a symbol as an error message shows it. -/
def symbolName (name : String) : String :=
  if isCmdFullName name || isTypeAliasFullName name then
    String.ofList (name.toList.dropLast.dropLast)
  else
    name

structure ImportedModEntry where
  typeId : Nat
  isGlobal : Bool
  deriving DecidableEq, Repr

/-
  `origin` numbers the module object as `FieldHandle.origin`
  numbers a variable.
-/
structure ModType where
  typeId : Nat
  modId : Nat
  index : Nat
  children : List ImportedModEntry
  handleMap : HandleMap
  origin : Nat := 0
  deriving DecidableEq, Repr

namespace ModType

def toHandle (type : ModType) : FieldHandle :=
  { commitId := 0
    typeId := type.typeId
    index := type.index
    attr := { readOnly := true, isGlobal := true }
    modId := type.modId
    origin := type.origin }

/- The entry of a scope that has imported the module. -/
def toModHolder
    (type : ModType)
    (isGlobal : Bool) : FieldHandle :=
  { commitId := 0
    typeId := type.typeId
    index := type.index
    attr :=
      { readOnly := true
        isGlobal := true
        globalMod := isGlobal
        namedMod := !isGlobal }
    modId := type.modId
    origin := type.origin }

end ModType

----
-- Scopes
----

inductive ScopeKind where
  | global
  | func
  | block
  deriving DecidableEq, Repr

abbrev ScopeRef := Nat

/- What the counter of a scope refers to. -/
inductive VarCountRef where
  | gvarCount
  | localIndex (scope : ScopeRef)
  deriving DecidableEq, Repr

structure NameScope where
  kind : ScopeKind
  modId : Nat
  parent : Option ScopeRef
  curLocalIndex : Nat
  localSize : Nat
  maxVarCount : VarCountRef
  handles : HandleMap
  deriving DecidableEq, Repr

namespace NameScope

def isGlobal (scope : NameScope) : Bool :=
  scope.kind == .global

def inBuiltinModule (scope : NameScope) : Bool :=
  scope.modId == 0

def inRootModule (scope : NameScope) : Bool :=
  scope.modId == 1

def getBaseIndex (scope : NameScope) : Nat :=
  scope.curLocalIndex - scope.localSize

def find
    (scope : NameScope)
    (name : String) : Option FieldHandle :=
  scope.handles.lookup name

def contains
    (scope : NameScope)
    (name : String) : Bool :=
  (scope.find name).isSome

def commitId (scope : NameScope) : Nat :=
  scope.handles.length

def clearLocalSize (scope : NameScope) : NameScope :=
  { scope with curLocalIndex := 0, localSize := 0 }

/- A handle is kept if it was there at the discard point. -/
def discard
    (scope : NameScope)
    (commitIdOffset : Nat) : NameScope :=
  let scope :=
    { scope with
      handles :=
        scope.handles.filter
          (fun entry => entry.2.commitId < commitIdOffset) }
  if scope.isGlobal then
    scope.clearLocalSize
  else
    scope

theorem discard_of_global
    {scope : NameScope}
    (hKind : scope.kind = .global)
    (commitIdOffset : Nat) :
    scope.discard commitIdOffset =
      { scope with
        curLocalIndex := 0
        localSize := 0
        handles :=
          scope.handles.filter
            (fun entry => entry.2.commitId < commitIdOffset) } := by
  simp [discard, isGlobal, hKind, clearLocalSize]

end NameScope

----
-- The Store of Scopes
----

/-
  `origins` counts the definitions made so far.  It is not in
  the source and is never set back.
-/
structure ScopeStore where
  scope : ScopeRef → NameScope
  size : Nat
  gvarCount : Nat
  origins : Nat

inductive NameLookupError where
  | defined
  | limit
  deriving DecidableEq, Repr

namespace ScopeStore

def setScope
    (store : ScopeStore)
    (ref : ScopeRef)
    (scope : NameScope) : ScopeStore :=
  { store with scope := Function.update store.scope ref scope }

def varCount
    (store : ScopeStore) : VarCountRef → Nat
  | .gvarCount => store.gvarCount
  | .localIndex ref => (store.scope ref).curLocalIndex

def setVarCount
    (store : ScopeStore)
    (count : Nat) : VarCountRef → ScopeStore
  | .gvarCount => { store with gvarCount := count }
  | .localIndex ref =>
      store.setScope ref
        { store.scope ref with curLocalIndex := count }

def getMaxGlobalVarIndex
    (store : ScopeStore)
    (ref : ScopeRef) : Nat :=
  store.varCount (store.scope ref).maxVarCount

def getMaxLocalVarIndex
    (store : ScopeStore)
    (ref : ScopeRef) : Nat :=
  if (store.scope ref).kind = .block then
    store.varCount (store.scope ref).maxVarCount
  else
    (store.scope ref).curLocalIndex

/- Put a new scope into the store. -/
def alloc
    (store : ScopeStore)
    (scope : NameScope) : ScopeStore × ScopeRef :=
  ({ store.setScope store.size scope with
      size := store.size + 1 },
    store.size)

/- The scope of a module, without names. -/
def newModScope
    (store : ScopeStore)
    (modId : Nat) : ScopeStore × ScopeRef :=
  store.alloc
    { kind := .global
      modId := modId
      parent := none
      curLocalIndex := 0
      localSize := 0
      maxVarCount := .gvarCount
      handles := [] }

/-
  A block directly in a global scope or a function counts in
  the local index of that scope; a block in a block goes on
  where the outer block stands.
-/
def enterScope
    (store : ScopeStore)
    (ref : ScopeRef)
    (newKind : ScopeKind) : Option (ScopeStore × ScopeRef) :=
  let scope := store.scope ref
  let child
      (maxVarCount : VarCountRef)
      (curLocalIndex : Nat) :=
    store.alloc
      { kind := newKind
        modId := scope.modId
        parent := some ref
        curLocalIndex := curLocalIndex
        localSize := 0
        maxVarCount := maxVarCount
        handles := [] }
  match scope.kind, newKind with
  | .global, .func => some (child scope.maxVarCount 0)
  | .global, .block => some (child (.localIndex ref) 0)
  | .func, .block => some (child (.localIndex ref) 0)
  | .block, .block =>
      some (child scope.maxVarCount scope.curLocalIndex)
  | _, _ => none

def clearLocalSize
    (store : ScopeStore)
    (ref : ScopeRef) : ScopeStore :=
  store.setScope ref (store.scope ref).clearLocalSize

def discard
    (store : ScopeStore)
    (ref : ScopeRef)
    (commitIdOffset : Nat) : ScopeStore :=
  store.setScope ref
    ((store.scope ref).discard commitIdOffset)

----
-- Registration of Names
----

/- What `add` does to the counters once a name is taken. -/
def countVar
    (store : ScopeStore)
    (ref : ScopeRef)
    (attr : FieldAttribute) : ScopeStore :=
  let scope := store.scope ref
  if attr.isAlias then
    store
  else if attr.isGlobal then
    store.setVarCount
      (store.varCount scope.maxVarCount + 1)
      scope.maxVarCount
  else
    let store :=
      store.setScope ref
        { scope with
          curLocalIndex := scope.curLocalIndex + 1
          localSize := scope.localSize + 1 }
    if store.varCount scope.maxVarCount <
        scope.curLocalIndex + 1 then
      store.setVarCount
        (scope.curLocalIndex + 1) scope.maxVarCount
    else
      store

def add
    (store : ScopeStore)
    (ref : ScopeRef)
    (name : String)
    (handle : FieldHandle) :
    Except NameLookupError (ScopeStore × FieldHandle) :=
  let scope := store.scope ref
  if handle.isLocal &&
      scope.curLocalIndex == SYS_LIMIT_LOCAL_NUM then
    .error .limit
  else if scope.contains name then
    .error .defined
  else
    let store :=
      store.setScope ref
        { scope with
          handles := scope.handles ++ [(name, handle)] }
    .ok (store.countVar ref handle.attr, handle)

/- A new variable, with the next free index. -/
def addNewHandle
    (store : ScopeStore)
    (ref : ScopeRef)
    (name : String)
    (typeId : Nat)
    (attr : FieldAttribute) :
    Except NameLookupError (ScopeStore × FieldHandle) :=
  let scope := store.scope ref
  let index :=
    if scope.isGlobal then
      store.getMaxGlobalVarIndex ref
    else
      scope.curLocalIndex
  { store with origins := store.origins + 1 }.add ref name
    { commitId := scope.commitId
      typeId := typeId
      index := index
      attr := { attr with isGlobal := scope.isGlobal }
      modId := scope.modId
      origin := store.origins }

def addNewAlias
    (store : ScopeStore)
    (ref : ScopeRef)
    (name : String)
    (handle : FieldHandle) :
    Except NameLookupError (ScopeStore × FieldHandle) :=
  store.add ref name
    { handle with
      commitId := (store.scope ref).commitId
      attr := { handle.attr with isAlias := true }
      modId := (store.scope ref).modId }

/- An imported name stays a name of the foreign module. -/
def addNewForeignHandle
    (store : ScopeStore)
    (ref : ScopeRef)
    (name : String)
    (handle : FieldHandle) :
    Except NameLookupError (ScopeStore × FieldHandle) :=
  store.add ref name
    { handle with
      commitId := (store.scope ref).commitId
      attr := { handle.attr with isAlias := true } }

def definedInBuiltin
    (store : ScopeStore)
    (ref : ScopeRef)
    (name : String) : Bool :=
  (store.scope ref).isGlobal &&
    (store.scope ref).parent.any
      (fun parent =>
        (store.scope parent).inBuiltinModule &&
          (store.scope parent).contains name)

def defineHandle
    (store : ScopeStore)
    (ref : ScopeRef)
    (name : String)
    (typeId : Nat)
    (attr : FieldAttribute) :
    Except NameLookupError (ScopeStore × FieldHandle) :=
  if store.definedInBuiltin ref name then
    .error .defined
  else
    store.addNewHandle ref name typeId attr

def defineAlias
    (store : ScopeStore)
    (ref : ScopeRef)
    (name : String)
    (handle : FieldHandle) :
    Except NameLookupError (ScopeStore × FieldHandle) :=
  if store.definedInBuiltin ref name then
    .error .defined
  else
    store.addNewAlias ref name handle

/- The handle of a type alias carries nothing but the type. -/
def typeAliasHandle (typeId : Nat) : FieldHandle :=
  { commitId := 0
    typeId := typeId
    index := 0
    attr := {}
    modId := 0 }

/- `isTypeName` says whether the name is that of a type. -/
def defineTypeAlias
    (store : ScopeStore)
    (isTypeName : String → Bool)
    (ref : ScopeRef)
    (name : String)
    (typeId : Nat) :
    Except NameLookupError (ScopeStore × FieldHandle) :=
  if (store.scope ref).isGlobal && isTypeName name then
    .error .defined
  else
    store.defineAlias ref (toTypeAliasFullName name)
      (typeAliasHandle typeId)

----
-- Imports
----

/-
  The public names of a module, in the order its map is walked.
  The walk stops at the first name that is taken, and the names
  before it stay.
-/
def importHandles
    (store : ScopeStore)
    (ref : ScopeRef) : HandleMap → ScopeStore × String
  | [] => (store, "")
  | (name, handle) :: rest =>
      if isPrivateName name then
        importHandles store ref rest
      else
        match store.addNewForeignHandle ref name handle with
        | .ok (store, _) => importHandles store ref rest
        | .error _ => (store, symbolName name)

/- A name that is refused leaves the store as it was. -/
def keep
    (store : ScopeStore) :
    Except NameLookupError (ScopeStore × FieldHandle) →
      ScopeStore
  | .ok (store, _) => store
  | .error _ => store

/- The name returned is the one in conflict, or empty. -/
def importForeignHandles
    (store : ScopeStore)
    (ref : ScopeRef)
    (type : ModType)
    (isGlobal : Bool) : ScopeStore × String :=
  let holderName := toModHolderName type.modId isGlobal
  if (store.scope ref).contains holderName then
    (store, "")
  else
    let store :=
      store.keep
        (store.addNewAlias ref holderName
          (type.toModHolder isGlobal))
    if isGlobal then
      store.importHandles ref type.handleMap
    else
      (store, "")

/- The scope a module type was made from, for completion. -/
def copyHandles
    (store : ScopeStore)
    (ref : ScopeRef) : HandleMap → ScopeStore
  | [] => store
  | (name, handle) :: rest =>
      copyHandles
        (store.keep (store.addNewAlias ref name handle))
        ref rest

def importChildren
    (store : ScopeStore)
    (ref : ScopeRef) : List (ModType × Bool) → ScopeStore
  | [] => store
  | (type, isGlobal) :: rest =>
      importChildren
        (store.importForeignHandles ref type isGlobal).1
        ref rest

def recreate
    (store : ScopeStore)
    (type : ModType)
    (children : List (ModType × Bool)) :
    ScopeStore × ScopeRef :=
  let (store, ref) := store.newModScope type.modId
  ((store.copyHandles ref type.handleMap).importChildren
    ref children, ref)

/- The name in the nearest scope that has it. -/
def lookupWithin
    (store : ScopeStore)
    (name : String) : Nat → ScopeRef → Option FieldHandle
  | 0, _ => none
  | limit + 1, ref =>
      match (store.scope ref).find name with
      | some handle => some handle
      | none =>
          match (store.scope ref).parent with
          | some parent => lookupWithin store name limit parent
          | none => none

/- A scope is made after its parent, so the walk is short. -/
def lookup
    (store : ScopeStore)
    (ref : ScopeRef)
    (name : String) : Option FieldHandle :=
  store.lookupWithin name (ref + 1) ref

def tryInsertByAscendingOrder
    (entry : ImportedModEntry) :
    List ImportedModEntry → List ImportedModEntry
  | [] => [entry]
  | child :: children =>
      if child.typeId < entry.typeId then
        child :: tryInsertByAscendingOrder entry children
      else if child.typeId = entry.typeId then
        (if entry.isGlobal then entry else child) :: children
      else
        entry :: child :: children

def ownHandles (scope : NameScope) : HandleMap :=
  scope.handles.filter
    (fun entry =>
      !entry.2.isModHolder && entry.2.modId == scope.modId)

def importedMods
    (scope : NameScope) : List ImportedModEntry :=
  (scope.handles.filter (fun entry => entry.2.isModHolder)).foldl
    (fun children entry =>
      tryInsertByAscendingOrder
        ⟨entry.2.typeId, entry.2.attr.globalMod⟩ children)
    []

/-
  `handleMap` is the map of the module's own names in the order
  the new map is walked.
-/
def toModType
    (store : ScopeStore)
    (ref : ScopeRef)
    (typeId : Nat)
    (handleMap : HandleMap) : ModType :=
  { typeId := typeId
    modId := (store.scope ref).modId
    index := store.getMaxGlobalVarIndex ref
    children := importedMods (store.scope ref)
    handleMap := handleMap
    origin := store.origins }

----
-- Access to the Store
----

@[simp] theorem setScope_scope_self
    (store : ScopeStore)
    (ref : ScopeRef)
    (scope : NameScope) :
    (store.setScope ref scope).scope ref = scope := by
  simp [setScope]

theorem setScope_scope
    (store : ScopeStore)
    (ref r : ScopeRef)
    (scope : NameScope) :
    (store.setScope ref scope).scope r =
      if r = ref then scope else store.scope r := by
  simp [setScope, Function.update_apply]

@[simp] theorem setScope_size
    (store : ScopeStore)
    (ref : ScopeRef)
    (scope : NameScope) :
    (store.setScope ref scope).size = store.size :=
  rfl

@[simp] theorem setScope_gvarCount
    (store : ScopeStore)
    (ref : ScopeRef)
    (scope : NameScope) :
    (store.setScope ref scope).gvarCount = store.gvarCount :=
  rfl

@[simp] theorem setScope_origins
    (store : ScopeStore)
    (ref : ScopeRef)
    (scope : NameScope) :
    (store.setScope ref scope).origins = store.origins :=
  rfl

@[simp] theorem setVarCount_size
    (store : ScopeStore)
    (count : Nat)
    (ref : VarCountRef) :
    (store.setVarCount count ref).size = store.size := by
  cases ref <;> rfl

@[simp] theorem setVarCount_origins
    (store : ScopeStore)
    (count : Nat)
    (ref : VarCountRef) :
    (store.setVarCount count ref).origins =
      store.origins := by
  cases ref <;> rfl

@[simp] theorem countVar_size
    (store : ScopeStore)
    (ref : ScopeRef)
    (attr : FieldAttribute) :
    (store.countVar ref attr).size = store.size := by
  simp only [countVar]
  split_ifs <;> simp

@[simp] theorem countVar_origins
    (store : ScopeStore)
    (ref : ScopeRef)
    (attr : FieldAttribute) :
    (store.countVar ref attr).origins = store.origins := by
  simp only [countVar]
  split_ifs <;> simp

end ScopeStore

/- Two states of a scope that differ in its counters only. -/
structure NameScope.SameNames (s t : NameScope) : Prop where
  kind : t.kind = s.kind
  modId : t.modId = s.modId
  parent : t.parent = s.parent
  maxVarCount : t.maxVarCount = s.maxVarCount
  handles : t.handles = s.handles

theorem NameScope.SameNames.refl (s : NameScope) :
    s.SameNames s :=
  ⟨rfl, rfl, rfl, rfl, rfl⟩

theorem NameScope.SameNames.trans
    {s t u : NameScope}
    (hFirst : s.SameNames t)
    (hSecond : t.SameNames u) :
    s.SameNames u :=
  ⟨hSecond.kind.trans hFirst.kind,
    hSecond.modId.trans hFirst.modId,
    hSecond.parent.trans hFirst.parent,
    hSecond.maxVarCount.trans hFirst.maxVarCount,
    hSecond.handles.trans hFirst.handles⟩

namespace ScopeStore

theorem setVarCount_sameNames
    (store : ScopeStore)
    (count : Nat)
    (ref : VarCountRef)
    (r : ScopeRef) :
    (store.scope r).SameNames
      ((store.setVarCount count ref).scope r) := by
  cases ref with
  | gvarCount => exact .refl _
  | localIndex s =>
      rw [setVarCount, setScope_scope]
      split_ifs with hEq
      · rw [hEq]
        exact ⟨rfl, rfl, rfl, rfl, rfl⟩
      · exact .refl _

theorem countVar_sameNames
    (store : ScopeStore)
    (ref : ScopeRef)
    (attr : FieldAttribute)
    (r : ScopeRef) :
    (store.scope r).SameNames
      ((store.countVar ref attr).scope r) := by
  have hCount :
      (store.scope r).SameNames
        ((store.setScope ref
          { store.scope ref with
            curLocalIndex := (store.scope ref).curLocalIndex + 1
            localSize := (store.scope ref).localSize + 1 }).scope
          r) := by
    rw [setScope_scope]
    split_ifs with hEq
    · rw [hEq]
      exact ⟨rfl, rfl, rfl, rfl, rfl⟩
    · exact .refl _
  simp only [countVar]
  split_ifs
  · exact .refl _
  · exact setVarCount_sameNames _ _ _ _
  · exact hCount.trans (setVarCount_sameNames _ _ _ _)
  · exact hCount

/- A name is taken as it stands, or the store is unchanged. -/
theorem add_eq_ok
    {store store' : ScopeStore}
    {ref : ScopeRef}
    {name : String}
    {handle handle' : FieldHandle}
    (hAdd :
      store.add ref name handle = .ok (store', handle')) :
    handle' = handle ∧
      (store.scope ref).contains name = false ∧
      (handle.isLocal = true →
        (store.scope ref).curLocalIndex ≠
          SYS_LIMIT_LOCAL_NUM) ∧
      store' =
        (store.setScope ref
          { store.scope ref with
            handles :=
              (store.scope ref).handles ++
                [(name, handle)] }).countVar
          ref handle.attr := by
  simp only [add] at hAdd
  split_ifs at hAdd with hLimit hName
  cases hAdd
  refine ⟨rfl, by simpa using hName, ?_, rfl⟩
  intro hLocal hFull
  simp [hLocal, hFull] at hLimit

/- What a definition puts into the scope. -/
theorem defineHandle_eq_ok
    {store store' : ScopeStore}
    {ref : ScopeRef}
    {name : String}
    {typeId : Nat}
    {attr : FieldAttribute}
    {handle : FieldHandle}
    (hDefine :
      store.defineHandle ref name typeId attr =
        .ok (store', handle)) :
    { store with origins := store.origins + 1 }.add
          ref name handle =
        .ok (store', handle) ∧
      handle.attr =
        { attr with isGlobal := (store.scope ref).isGlobal } ∧
      handle.commitId = (store.scope ref).commitId ∧
      handle.typeId = typeId ∧
      handle.modId = (store.scope ref).modId ∧
      handle.origin = store.origins ∧
      handle.index =
        (if (store.scope ref).isGlobal then
          store.getMaxGlobalVarIndex ref
        else
          (store.scope ref).curLocalIndex) := by
  rw [defineHandle] at hDefine
  split_ifs at hDefine
  have hHandle := (add_eq_ok hDefine).1
  subst hHandle
  exact ⟨hDefine, rfl, rfl, rfl, rfl, rfl, rfl⟩

end ScopeStore

end Scope

end Ydsh
