import Ydsh.Library.Run
import Ydsh.Scope.NameScope
import Ydsh.Type.TypePool

/-
  Compilations and the symbols they leave behind.

  The shell keeps one builtin scope, one root scope, the module
  loader and the type pool over all compilations.  A discard
  point is taken when a compilation begins; the compilation
  ends by keeping what it has defined or by discarding it.

  Main declarations:
    * `ModuleLoader`
    * `DiscardPoint`
    * `Session`
    * `SymbolState`
    * `SymbolState.discardAll`
    * `SymbolEvent`
    * `SymbolState.step`
-/

----
-- The Module Loader
----

namespace Ydsh

namespace Scope

open Library Pool

abbrev MAX_MOD_NUM : Nat := 65535

/- The type id of a module is 0 until the module is complete. -/
structure ModEntry where
  path : String
  typeId : TypeId
  deriving DecidableEq, Repr

/- The place of an entry is the id of its module. -/
abbrev ModuleLoader := List ModEntry

inductive ModResult where
  | loaded (loader : ModuleLoader)
  | complete (typeId : TypeId)
  | circular
  -- the shell ends
  | modLimit
  deriving DecidableEq, Repr

namespace ModuleLoader

def isSealed (entry : ModEntry) : Bool :=
  entry.typeId > 0

def addNewModEntry
    (loader : ModuleLoader)
    (path : String) : ModResult :=
  match loader.find? (fun entry => entry.path == path) with
  | some entry =>
      if isSealed entry then
        .complete entry.typeId
      else
        .circular
  | none =>
      if loader.length + 1 = MAX_MOD_NUM then
        .modLimit
      else
        .loaded (loader ++ [⟨path, 0⟩])

def setModType
    (loader : ModuleLoader)
    (path : String)
    (typeId : TypeId) : ModuleLoader :=
  loader.map
    (fun entry =>
      if entry.path = path then
        { entry with typeId := typeId }
      else
        entry)

end ModuleLoader

----
-- Symbols
----

structure DiscardPoint where
  idCount : Nat
  gvarCount : Nat
  commitIdOffset : Nat
  type : TypeDiscardPoint
  deriving DecidableEq, Repr

structure Context where
  scope : ScopeRef
  path : String
  deriving DecidableEq, Repr

/-
  A compilation in progress: the scope the front end began
  with, the modules that are being imported, the innermost one
  first, and the scope the type checker is in.  `discarded` is
  the scope that loses its new names if the compilation fails.
-/
structure Session where
  provider : Context
  discarded : ScopeRef
  point : DiscardPoint
  isCompletion : Bool
  modules : List Context
  cur : ScopeRef
  deriving DecidableEq, Repr

structure SymbolState where
  store : ScopeStore
  pool : TypePool
  loader : ModuleLoader
  builtin : ScopeRef
  root : ScopeRef
  isBooted : Bool
  session : Option Session

/- What an alias is made of. -/
inductive AliasTarget where
  | name (name : String)
  | module (typeId : TypeId)
  deriving DecidableEq, Repr

inductive SymbolEvent where
  | bindVariable
      (name : String) (typeId : TypeId) (attr : FieldAttribute)
  | boot (handleMap : HandleMap)
  | createReifiedType
      (template : TypeTemplate) (elementTypes : List TypeId)
  | createFuncType
      (returnType : TypeId) (paramTypes : List TypeId)
  | lookupMethod (recvType : TypeId) (methodName : String)
  | evalScript (sourceName : String)
  | loadModule
      (path : String) (isReadable separate : Bool)
  | complete (underlying : Option TypeId)
  | enterScope (kind : ScopeKind)
  | exitScope
  | defineHandle
      (name : String) (typeId : TypeId) (attr : FieldAttribute)
  | defineAlias (name : String) (target : AliasTarget)
  | defineTypeAlias (name : String) (typeId : TypeId)
  | importForeignHandles (typeId : TypeId) (isGlobal : Bool)
  | enterModule (path : String)
  | exitModule (handleMap : HandleMap)
  | succeed (handleMap : HandleMap)
  | fail

namespace SymbolState

def modType
    (s : SymbolState)
    (typeId : TypeId) : Option ModType :=
  match (s.pool.get typeId).shape with
  | .module type => some type
  | _ => none

def getBuiltinModType (s : SymbolState) : Option ModType :=
  (s.pool.find (toModTypeName 0)).bind s.modType

/- The modules a module has imported. -/
def children
    (s : SymbolState)
    (type : ModType) : List (ModType × Bool) :=
  type.children.filterMap
    (fun child =>
      (s.modType child.typeId).map
        (fun type => (type, child.isGlobal)))

def getDiscardPoint
    (s : SymbolState)
    (ref : ScopeRef) : DiscardPoint :=
  { idCount := s.loader.length
    gvarCount := s.store.gvarCount
    commitIdOffset := (s.store.scope ref).commitId
    type := s.pool.getDiscardPoint }

/- Nothing is given back if no module has been added. -/
def discardMods
    (s : SymbolState)
    (point : DiscardPoint) : SymbolState :=
  if s.loader.length ≤ point.idCount then
    s
  else
    { s with
      loader := s.loader.take point.idCount
      store := { s.store with gvarCount := point.gvarCount } }

def discardAll
    (s : SymbolState)
    (ref : ScopeRef)
    (point : DiscardPoint) : SymbolState :=
  let s := s.discardMods point
  { s with
    store := s.store.discard ref point.commitIdOffset
    pool := s.pool.discard point.type }

/- A new global scope that sees the names of `type`. -/
def createGlobalScope
    (s : SymbolState)
    (path : String)
    (type : ModType) : Option (SymbolState × ScopeRef) :=
  (s.loader.findIdx? (fun entry => entry.path == path)).map
    (fun modId =>
      let (store, ref) := s.store.newModScope modId
      ({ s with
          store := (store.importForeignHandles ref type true).1 },
        ref))

/-
  `handleMap` is the module's own names in some order.  The
  module object takes the next global index.
-/
def createModType
    (s : SymbolState)
    (table : NativeTable)
    (ref : ScopeRef)
    (path : String)
    (handleMap : HandleMap) : Option SymbolState :=
  if handleMap.Perm (ScopeStore.ownHandles (s.store.scope ref)) then
    match s.pool.createModType table
        (s.store.toModType ref s.pool.typeTable.length
          handleMap) with
    | .ok (pool, typeId) =>
        some
          { s with
            pool := pool
            store :=
              { s.store with
                gvarCount := s.store.gvarCount + 1
                origins := s.store.origins + 1 }
            loader := s.loader.setModType path typeId }
    | .error _ => none
  else
    none

def isType (s : SymbolState) (typeId : TypeId) : Bool :=
  typeId < s.pool.typeTable.length

/- The attributes that a declaration may give to a name. -/
def isDeclAttr (attr : FieldAttribute) : Bool :=
  !attr.isAlias && !attr.namedMod && !attr.globalMod

/- The innermost module of a compilation. -/
def curModule (session : Session) : Context :=
  session.modules.headD session.provider

def aliasHandle
    (s : SymbolState)
    (ref : ScopeRef) : AliasTarget → Option FieldHandle
  | .name name => s.store.lookup ref name
  | .module typeId => (s.modType typeId).map ModType.toHandle

/- A type that could not be made leaves the pool as it was. -/
def keepPool
    (s : SymbolState)
    (created : Except TypeLookupError (TypePool × TypeId)) :
    Option SymbolState :=
  match created with
  | .ok (pool, _) => some { s with pool := pool }
  | .error .typeLimit => none
  | .error _ => some s

/- A name that is refused leaves the scopes as they were. -/
def keepStore
    (s : SymbolState)
    (result : Except NameLookupError (ScopeStore × FieldHandle)) :
    SymbolState :=
  { s with store := s.store.keep result }

/- A front end starts on the provider's scope. -/
def begin
    (s : SymbolState)
    (provider : Context)
    (discarded : ScopeRef)
    (point : DiscardPoint)
    (isCompletion : Bool) : SymbolState :=
  { s with
    store := s.store.clearLocalSize provider.scope
    session :=
      some
        { provider := provider
          discarded := discarded
          point := point
          isCompletion := isCompletion
          modules := []
          cur := provider.scope } }

def evalScript
    (s : SymbolState)
    (sourceName : String) : SymbolState :=
  s.begin ⟨s.root, sourceName⟩ s.root (s.getDiscardPoint s.root)
    false

/- The point is taken before the module gets an entry. -/
def loadModule
    (s : SymbolState)
    (path : String)
    (isReadable separate : Bool) : Option SymbolState :=
  let point := s.getDiscardPoint s.root
  match s.loader.addNewModEntry path with
  | .complete _ => some s
  | .circular => some s
  | .modLimit => none
  | .loaded loader =>
      let s := { s with loader := loader }
      if !isReadable then
        some s
      else if separate then
        match s.getBuiltinModType with
        | none => none
        | some type =>
            (s.createGlobalScope path type).map
              (fun created =>
                created.1.begin ⟨created.2, path⟩ created.2 point
                  false)
      else
        some (s.begin ⟨s.root, path⟩ s.root point false)

/- A completion always discards the root scope. -/
def complete
    (s : SymbolState)
    (underlying : Option TypeId) : Option SymbolState :=
  let point := s.getDiscardPoint s.root
  match underlying with
  | none => some (s.begin ⟨s.root, "<line>"⟩ s.root point true)
  | some typeId =>
      (s.modType typeId).map
        (fun type =>
          let (store, ref) :=
            s.store.recreate type (s.children type)
          ({ s with store := store } : SymbolState).begin
            ⟨ref, "<line>"⟩ s.root point true)

/- A module that is imported for the first time. -/
def enterModule
    (s : SymbolState)
    (session : Session)
    (path : String) : Option SymbolState :=
  if session.cur = (curModule session).scope then
    match s.loader.addNewModEntry path with
    | .complete _ => some s
    | .circular => some s
    | .modLimit => none
    | .loaded loader =>
        match s.getBuiltinModType with
        | none => none
        | some type =>
            (({ s with loader := loader } :
                SymbolState).createGlobalScope path type).map
              (fun created =>
                { created.1 with
                  session :=
                    some
                      { session with
                        modules :=
                          ⟨created.2, path⟩ :: session.modules
                        cur := created.2 } })
  else
    none

def exitModule
    (s : SymbolState)
    (table : NativeTable)
    (session : Session)
    (handleMap : HandleMap) : Option SymbolState :=
  match session.modules with
  | [] => none
  | context :: modules =>
      if session.cur = context.scope then
        (s.createModType table context.scope context.path
          handleMap).map
          (fun s =>
            { s with
              session :=
                some
                  { session with
                    modules := modules
                    cur :=
                      (modules.headD session.provider).scope } })
      else
        none

/- A script with a scope of its own becomes a module. -/
def succeed
    (s : SymbolState)
    (table : NativeTable)
    (session : Session)
    (handleMap : HandleMap) : Option SymbolState :=
  let scope := s.store.scope session.provider.scope
  if session.isCompletion || !session.modules.isEmpty ||
      session.cur != session.provider.scope then
    none
  else if scope.inBuiltinModule || scope.inRootModule then
    some { s with session := none }
  else
    (s.createModType table session.provider.scope
      session.provider.path handleMap).map
      (fun s => { s with session := none })

def fail
    (s : SymbolState)
    (session : Session) : SymbolState :=
  { s.discardAll session.discarded session.point with
    session := none }

/- The root scope sees the names of the builtin module. -/
def boot
    (s : SymbolState)
    (table : NativeTable)
    (handleMap : HandleMap) : Option SymbolState :=
  match s.createModType table s.builtin "(builtin)" handleMap with
  | none => none
  | some s =>
      match s.loader.addNewModEntry "(root)", s.getBuiltinModType with
      | .loaded loader, some type =>
          (({ s with loader := loader } :
              SymbolState).createGlobalScope "(root)" type).map
            (fun created =>
              { created.1 with
                root := created.2
                isBooted := true })
      | _, _ => none

/- The shell before its builtin variables are bound. -/
def init (table : NativeTable) : SymbolState :=
  { store :=
      { scope := fun _ =>
          { kind := .global
            modId := 0
            parent := none
            curLocalIndex := 0
            localSize := 0
            maxVarCount := .gvarCount
            handles := [] }
        size := 1
        gvarCount := 0
        origins := 0 }
    pool := TypePool.init table
    loader := [⟨"(builtin)", 0⟩]
    builtin := 0
    root := 0
    isBooted := false
    session := none }

/- What the type checker does with the current scope. -/
def stepInSession
    (table : NativeTable)
    (s : SymbolState)
    (session : Session) : SymbolEvent → Option SymbolState
  | .enterScope kind =>
      (s.store.enterScope session.cur kind).map
        (fun entered =>
          { s with
            store := entered.1
            session := some { session with cur := entered.2 } })
  | .exitScope =>
      (s.store.scope session.cur).parent.map
        (fun parent =>
          { s with
            session := some { session with cur := parent } })
  | .defineHandle name typeId attr =>
      if s.isType typeId && isDeclAttr attr &&
          (s.store.scope session.cur).kind != .func then
        some
          (s.keepStore
            (s.store.defineHandle session.cur name typeId attr))
      else
        none
  | .defineAlias name target =>
      (s.aliasHandle session.cur target).map
        (fun handle =>
          s.keepStore
            (s.store.defineAlias session.cur name handle))
  | .defineTypeAlias name typeId =>
      if s.isType typeId then
        some
          (s.keepStore
            (s.store.defineTypeAlias
              (fun name => (s.pool.find name).isSome)
              session.cur name typeId))
      else
        none
  | .importForeignHandles typeId isGlobal =>
      (s.modType typeId).bind
        (fun type =>
          if type.modId = (s.store.scope session.cur).modId then
            none
          else
            some
              { s with
                store :=
                  (s.store.importForeignHandles session.cur type
                    isGlobal).1 })
  | .enterModule path => s.enterModule session path
  | .exitModule handleMap => s.exitModule table session handleMap
  | .succeed handleMap => s.succeed table session handleMap
  | .fail => some (s.fail session)
  | _ => none

/- What happens between compilations. -/
def stepOutside
    (table : NativeTable)
    (s : SymbolState) : SymbolEvent → Option SymbolState
  | .bindVariable name typeId attr =>
      if !s.isBooted && s.isType typeId && isDeclAttr attr then
        some
          (s.keepStore
            (s.store.defineHandle s.builtin name typeId attr))
      else
        none
  | .boot handleMap =>
      if s.isBooted then none else s.boot table handleMap
  | .evalScript sourceName => some (s.evalScript sourceName)
  | .loadModule path isReadable separate =>
      if s.isBooted then
        s.loadModule path isReadable separate
      else
        none
  | .complete underlying =>
      if s.isBooted then s.complete underlying else none
  | _ => none

/- Types are made and methods looked up at any time. -/
def step
    (table : NativeTable)
    (s : SymbolState)
    (event : SymbolEvent) : Option SymbolState :=
  match event with
  | .createReifiedType template elementTypes =>
      if elementTypes.all s.isType then
        s.keepPool
          (s.pool.createReifiedType table template elementTypes)
      else
        none
  | .createFuncType returnType paramTypes =>
      if (returnType :: paramTypes).all s.isType then
        s.keepPool
          (s.pool.createFuncType table returnType paramTypes)
      else
        none
  | .lookupMethod recvType methodName =>
      some
        { s with
          pool :=
            (s.pool.lookupMethod table recvType methodName).1 }
  | event =>
      match s.session with
      | some session => stepInSession table s session event
      | none => stepOutside table s event

end SymbolState

end Scope

end Ydsh
