import Ydsh.Scope.Recreated
import Ydsh.Scope.Session

/-
  The three forms in which a module reaches another scope.

  Modules are defined and import one another in any order; a
  compilation that meets a conflict makes no module.  However a
  module type is imported, a lookup finds what the scope of the
  module held when the type was made, as far as that form
  exposes it.

  Main declarations:
    * `NameScope.lookupField`
    * `Modules.step`
    * `NamedForm`
    * `GlobalForm`
    * `RecreatedForm`
    * `importForms`
    * `not_importForms_id`
-/

----
-- Fields of Modules
----

namespace Ydsh

namespace Scope

open Library

def ModType.lookupField
    (type : ModType)
    (fieldName : String) : Option FieldHandle :=
  type.handleMap.lookup fieldName

/-
  A private field is for its own module, but those of the
  builtin module are for all.
-/
def NameScope.lookupField
    (scope : NameScope)
    (recv : ModType)
    (fieldName : String) : Option FieldHandle :=
  (recv.lookupField fieldName).filter
    (fun handle =>
      handle.modId == 0 || scope.modId == handle.modId ||
        !isPrivateName fieldName)

namespace NameScope

/- The name, if it is one of the module itself. -/
def lookupOwn
    (scope : NameScope)
    (name : String) : Option FieldHandle :=
  (ScopeStore.ownHandles scope).lookup name

def lookupPublic
    (scope : NameScope)
    (name : String) : Option FieldHandle :=
  if isPrivateName name then none else scope.lookupOwn name

end NameScope

----
-- Modules That Import One Another
----

/- The scope of a module has the module's id as its place. -/
structure Modules where
  store : ScopeStore
  types : List ModType

inductive ModuleEvent where
  | newModScope
  | defineHandle
      (ref : ScopeRef) (name : String) (typeId : Nat)
      (attr : FieldAttribute)
  | defineAlias
      (ref : ScopeRef) (name : String) (handle : FieldHandle)
  | defineTypeAlias
      (ref : ScopeRef) (isTypeName : String → Bool)
      (name : String) (typeId : Nat)
  | importForeignHandles
      (ref : ScopeRef) (typeId : Nat) (isGlobal : Bool)
  | toModType
      (ref : ScopeRef) (typeId : Nat) (handleMap : HandleMap)

namespace Modules

def init : Modules :=
  { store :=
      { scope := fun _ =>
          { kind := .global
            modId := 0
            parent := none
            curLocalIndex := 0
            localSize := 0
            maxVarCount := .gvarCount
            handles := [] }
        size := 0
        gvarCount := 0
        origins := 0 }
    types := [] }

def modType (s : Modules) (typeId : Nat) : Option ModType :=
  s.types.find? (fun type => type.typeId == typeId)

def children
    (s : Modules)
    (type : ModType) : List (ModType × Bool) :=
  type.children.filterMap
    (fun child =>
      (s.modType child.typeId).map
        (fun type => (type, child.isGlobal)))

/- A name that is refused leaves the scope as it was. -/
def define
    (s : Modules)
    (ref : ScopeRef)
    (name : String)
    (result : Except NameLookupError (ScopeStore × FieldHandle)) :
    Option Modules :=
  if ref < s.store.size ∧ IsSymbolName name then
    some { s with store := s.store.keep result }
  else
    none

/- An import that meets a conflict ends the compilation. -/
def importForeignHandles
    (s : Modules)
    (ref : ScopeRef)
    (type : ModType)
    (isGlobal : Bool) : Option Modules :=
  if ref < s.store.size ∧
      type.modId ≠ (s.store.scope ref).modId ∧
        (s.store.importForeignHandles ref type isGlobal).2 =
          "" then
    some
      { s with
        store :=
          (s.store.importForeignHandles ref type isGlobal).1 }
  else
    none

/- A module is sealed once, with a type of its own. -/
def toModType
    (s : Modules)
    (ref : ScopeRef)
    (typeId : Nat)
    (handleMap : HandleMap) : Option Modules :=
  if ref < s.store.size ∧
      handleMap.Perm
        (ScopeStore.ownHandles (s.store.scope ref)) ∧
      ∀ type ∈ s.types,
        type.modId ≠ (s.store.scope ref).modId ∧
          type.typeId ≠ typeId then
    some
      { store :=
          { s.store with
            gvarCount := s.store.gvarCount + 1
            origins := s.store.origins + 1 }
        types :=
          s.types ++
            [s.store.toModType ref typeId handleMap] }
  else
    none

def step
    (s : Modules) : ModuleEvent → Option Modules
  | .newModScope =>
      some
        { s with store := (s.store.newModScope s.store.size).1 }
  | .defineHandle ref name typeId attr =>
      if SymbolState.isDeclAttr attr then
        s.define ref name
          (s.store.defineHandle ref name typeId attr)
      else
        none
  | .defineAlias ref name handle =>
      if handle.isModHolder then
        none
      else
        s.define ref name (s.store.defineAlias ref name handle)
  | .defineTypeAlias ref isTypeName name typeId =>
      s.define ref (toTypeAliasFullName name)
        (s.store.defineTypeAlias isTypeName ref name typeId)
  | .importForeignHandles ref typeId isGlobal =>
      (s.modType typeId).bind
        (fun type => s.importForeignHandles ref type isGlobal)
  | .toModType ref typeId handleMap =>
      s.toModType ref typeId handleMap

----
-- What Holds of All Modules
----

structure Ok (s : Modules) : Prop where
  sealed : SealedTypes s.types
  modId_lt : ∀ type ∈ s.types, type.modId < s.store.size
  modId :
    ∀ ref, ref < s.store.size → (s.store.scope ref).modId = ref
  imported :
    ∀ ref, ref < s.store.size →
      Imported s.types (s.store.scope ref)

theorem ok_init : init.Ok where
  sealed := by
    constructor <;>
      (intro type hType; exact absurd hType List.not_mem_nil)
  modId_lt := by
    intro type hType
    exact absurd hType List.not_mem_nil
  modId := by
    intro ref hLt
    exact absurd hLt (Nat.not_lt_zero ref)
  imported := by
    intro ref hLt
    exact absurd hLt (Nat.not_lt_zero ref)

namespace Ok

variable {s t : Modules}
variable {ref : ScopeRef}

/- Only one scope has got names, and it is still in order. -/
theorem namesAt
    {store' : ScopeStore}
    {added : HandleMap}
    (hOk : s.Ok)
    (hNames : NamesAt ref s.store store' added)
    (hRef : Imported s.types (store'.scope ref)) :
    Ok { s with store := store' } where
  sealed := hOk.sealed
  modId_lt := by
    intro type hType
    exact hNames.size.symm ▸ hOk.modId_lt type hType
  modId := by
    intro r hLt
    have hOld := hOk.modId r (hNames.size ▸ hLt)
    by_cases hEq : r = ref
    · subst hEq
      exact hNames.modId_eq.trans hOld
    · exact (hNames.frame r hEq).modId.trans hOld
  imported := by
    intro r hLt
    by_cases hEq : r = ref
    · rw [hEq]
      exact hRef
    · have hOld := hOk.imported r (hNames.size ▸ hLt)
      exact hOld.of_sameNames (hNames.frame r hEq)

theorem newModScope (hOk : s.Ok) :
    Ok
      { s with
        store := (s.store.newModScope s.store.size).1 } := by
  have hScope :
      ∀ r,
        (s.store.newModScope s.store.size).1.scope r =
          if r = s.store.size then
            { kind := .global
              modId := s.store.size
              parent := none
              curLocalIndex := 0
              localSize := 0
              maxVarCount := .gvarCount
              handles := [] }
          else
            s.store.scope r :=
    fun r => ScopeStore.setScope_scope _ _ _ _
  have hOld :
      ∀ r, r < s.store.size + 1 → r ≠ s.store.size →
        r < s.store.size := by
    omega
  constructor
  · exact hOk.sealed
  · intro type hType
    exact Nat.lt_succ_of_lt (hOk.modId_lt type hType)
  · intro r hLt
    rw [hScope]
    by_cases hEq : r = s.store.size
    · rw [if_pos hEq, hEq]
    · rw [if_neg hEq]
      exact hOk.modId r (hOld r hLt hEq)
  · intro r hLt
    rw [hScope]
    by_cases hEq : r = s.store.size
    · rw [if_pos hEq]
      exact .of_empty rfl rfl rfl
    · rw [if_neg hEq]
      exact hOk.imported r (hOld r hLt hEq)

theorem define
    {name : String}
    {result :
      Except NameLookupError (ScopeStore × FieldHandle)}
    (hOk : s.Ok)
    (hResult :
      ∀ store' handle,
        result = .ok (store', handle) →
          NamesAt ref s.store store' [(name, handle)] ∧
            handle.isModHolder = false ∧
              handle.modId = (s.store.scope ref).modId)
    (hStep : s.define ref name result = some t) :
    t.Ok := by
  unfold Modules.define at hStep
  split_ifs at hStep with hGuard
  cases hStep
  cases hCase : result with
  | error error => exact hOk
  | ok new =>
      rcases new with ⟨store', handle⟩
      rcases hResult store' handle hCase with
        ⟨hNames, hNotHolder, hModId⟩
      apply hOk.namesAt hNames
      exact
        (hOk.imported ref hGuard.1).own_namesAt hNames
          ⟨hNotHolder, hModId, hGuard.2⟩

theorem importForeignHandles
    {type : ModType}
    {isGlobal : Bool}
    (hOk : s.Ok)
    (hType : type ∈ s.types)
    (hStep :
      s.importForeignHandles ref type isGlobal = some t) :
    t.Ok := by
  unfold Modules.importForeignHandles at hStep
  split_ifs at hStep with hGuard
  cases hStep
  rcases hGuard with ⟨hRef, hOther, hDone⟩
  have hScope := hOk.imported ref hRef
  have hAfter :=
    hScope.importForeignHandles hOk.sealed hType hOther hDone
  by_cases hHolder :
      toModHolderName type.modId isGlobal ∈
        (s.store.scope ref).names
  · rw [ScopeStore.importForeignHandles_again hHolder]
    exact hOk
  rcases
      ScopeStore.importForeignHandles_names
        (fun entry hMem =>
          (hOk.sealed.own type hType entry hMem).name.2)
        hHolder hDone with
    ⟨holder, added, hNames, _⟩
  exact hOk.namesAt hNames hAfter

theorem toModType
    {typeId : Nat}
    {handleMap : HandleMap}
    (hOk : s.Ok)
    (hStep : s.toModType ref typeId handleMap = some t) :
    t.Ok := by
  unfold Modules.toModType at hStep
  split_ifs at hStep with hGuard
  cases hStep
  rcases hGuard with ⟨hRef, hMap, hFresh⟩
  have hScope := hOk.imported ref hRef
  have hSealed :
      SealedTypes
        (s.types ++
          [s.store.toModType ref typeId handleMap]) := by
    constructor
    · intro type hType type' hType' hEq
      rcases List.mem_append.mp hType with hIn | hLast
      · rcases List.mem_append.mp hType' with hIn' | hLast'
        · exact hOk.sealed.modId_inj type hIn type' hIn' hEq
        · rw [List.mem_singleton.mp hLast'] at hEq
          exact absurd hEq (hFresh type hIn).1
      · rcases List.mem_append.mp hType' with hIn' | hLast'
        · rw [List.mem_singleton.mp hLast] at hEq
          exact absurd hEq.symm (hFresh type' hIn').1
        · rw [List.mem_singleton.mp hLast,
            List.mem_singleton.mp hLast']
    · intro type hType type' hType' hEq
      rcases List.mem_append.mp hType with hIn | hLast
      · rcases List.mem_append.mp hType' with hIn' | hLast'
        · exact hOk.sealed.typeId_inj type hIn type' hIn' hEq
        · rw [List.mem_singleton.mp hLast'] at hEq
          exact absurd hEq (hFresh type hIn).2
      · rcases List.mem_append.mp hType' with hIn' | hLast'
        · rw [List.mem_singleton.mp hLast] at hEq
          exact absurd hEq.symm (hFresh type' hIn').2
        · rw [List.mem_singleton.mp hLast,
            List.mem_singleton.mp hLast']
    · intro type hType
      rcases List.mem_append.mp hType with hIn | hLast
      · exact hOk.sealed.distinct type hIn
      · rw [List.mem_singleton.mp hLast]
        exact (hScope.distinct.filter _).perm hMap.symm
    · intro type hType entry hMem
      rcases List.mem_append.mp hType with hIn | hLast
      · exact hOk.sealed.own type hIn entry hMem
      · rw [List.mem_singleton.mp hLast] at hMem ⊢
        exact
          ((hScope.mem_ownHandles hOk.sealed).mp
            (hMap.mem_iff.mp hMem)).2
  constructor
  · exact hSealed
  · intro type hType
    rcases List.mem_append.mp hType with hIn | hLast
    · exact hOk.modId_lt type hIn
    · rw [List.mem_singleton.mp hLast]
      exact lt_of_eq_of_lt (hOk.modId ref hRef) hRef
  · exact hOk.modId
  · intro r hLt
    exact
      (hOk.imported r hLt).mono hOk.sealed hSealed
        (List.subset_append_left _ _)

end Ok

theorem modType_mem
    {s : Modules}
    {typeId : Nat}
    {type : ModType}
    (hFind : s.modType typeId = some type) :
    type ∈ s.types ∧ type.typeId = typeId := by
  have hEq := List.find?_some hFind
  exact ⟨List.mem_of_find?_eq_some hFind, beq_iff_eq.mp hEq⟩

/- Every step keeps all modules in order. -/
theorem ok_step
    (s : Modules)
    (event : ModuleEvent)
    (t : Modules)
    (hOk : s.Ok)
    (hStep : s.step event = some t) :
    t.Ok := by
  cases event with
  | newModScope =>
      cases hStep
      exact hOk.newModScope
  | defineHandle ref name typeId attr =>
      simp only [step] at hStep
      split_ifs at hStep with hAttr
      apply hOk.define _ hStep
      intro store' handle hDefine
      rcases ScopeStore.defineHandle_eq_ok hDefine with
        ⟨hAdd, hHandle, _, _, hModId, _⟩
      have hNames := ScopeStore.add_namesAt hAdd
      refine
        ⟨⟨hNames.size, hNames.frame, hNames.names,
          hNames.distinct⟩, ?_, hModId⟩
      simp [SymbolState.isDeclAttr] at hAttr
      simp [FieldHandle.isModHolder, hHandle, hAttr]
  | defineAlias ref name handle =>
      simp only [step] at hStep
      split_ifs at hStep with hHolder
      apply hOk.define _ hStep
      intro store' new hDefine
      unfold ScopeStore.defineAlias at hDefine
      split_ifs at hDefine
      have hNew := (ScopeStore.add_eq_ok hDefine).1
      subst hNew
      refine ⟨ScopeStore.add_namesAt hDefine, ?_, rfl⟩
      exact Bool.eq_false_iff.mpr hHolder
  | defineTypeAlias ref isTypeName name typeId =>
      apply hOk.define _ hStep
      intro store' new hDefine
      unfold ScopeStore.defineTypeAlias at hDefine
      split_ifs at hDefine
      unfold ScopeStore.defineAlias at hDefine
      split_ifs at hDefine
      have hNew := (ScopeStore.add_eq_ok hDefine).1
      subst hNew
      exact ⟨ScopeStore.add_namesAt hDefine, rfl, rfl⟩
  | importForeignHandles ref typeId isGlobal =>
      rcases Option.bind_eq_some_iff.mp hStep with
        ⟨type, hFind, hImport⟩
      exact
        hOk.importForeignHandles (modType_mem hFind).1 hImport
  | toModType ref typeId handleMap => exact hOk.toModType hStep

theorem ok_run
    {s : Modules}
    {events : List ModuleEvent}
    (hRun : exec step init events = some s) :
    s.Ok :=
  exec_invariant ok_step hRun ok_init

/- Scopes and types stay; a sealed type does not change. -/
theorem later_types
    {s t : Modules}
    {events : List ModuleEvent}
    (hRun : exec step s events = some t) :
    s.types ⊆ t.types := by
  have hStep :
      ∀ (u : Modules) (event : ModuleEvent) (v : Modules),
        s.types ⊆ u.types → u.step event = some v →
          s.types ⊆ v.types := by
    intro u event v hSub hStep
    cases event with
    | newModScope =>
        cases hStep
        exact hSub
    | defineHandle ref name typeId attr
    | defineAlias ref name handle
    | defineTypeAlias ref isTypeName name typeId =>
        simp only [step, define] at hStep
        split_ifs at hStep
        cases hStep
        exact hSub
    | importForeignHandles ref typeId isGlobal =>
        rcases Option.bind_eq_some_iff.mp hStep with
          ⟨type, _, hImport⟩
        unfold importForeignHandles at hImport
        split_ifs at hImport
        cases hImport
        exact hSub
    | toModType ref typeId handleMap =>
        simp only [step, toModType] at hStep
        split_ifs at hStep
        cases hStep
        exact List.Subset.trans hSub (List.subset_append_left _ _)
  exact exec_invariant hStep hRun (List.Subset.refl _)

theorem modType_of_mem
    {s : Modules}
    (hSealed : SealedTypes s.types)
    {type : ModType}
    (hType : type ∈ s.types) :
    s.modType type.typeId = some type := by
  cases hFind : s.modType type.typeId with
  | none =>
      have hNot := List.find?_eq_none.mp hFind type hType
      simp at hNot
  | some found =>
      rcases modType_mem hFind with ⟨hFound, hEq⟩
      rw [hSealed.typeId_inj found hFound type hType hEq]

end Modules

----
-- The Three Forms
----

/- A module scope has no parent that a lookup could go on to. -/
theorem ScopeStore.lookup_eq_find
    {store : ScopeStore}
    {ref : ScopeRef}
    (hParent : (store.scope ref).parent = none)
    (name : String) :
    store.lookup ref name = (store.scope ref).find name := by
  unfold lookup lookupWithin
  rw [hParent]
  cases (store.scope ref).find name <;> rfl

/-
  As a named module: the fields are the own names, and the
  private ones are hidden unless the module is the builtin one.
-/
def NamedForm
    (scope : NameScope)
    (type : ModType)
    (store : ScopeStore)
    (target : ScopeRef) : Prop :=
  (∀ name,
    (store.scope target).lookupField type name =
      if scope.inBuiltinModule then
        scope.lookupOwn name
      else
        scope.lookupPublic name) ∧
  ∀ name,
    name ≠ toModHolderName type.modId false →
      (store.importForeignHandles target type false).1.lookup
          target name =
        store.lookup target name

/-
  As a whole: the public own names are found in the target, and
  every other name as before.
-/
def GlobalForm
    (retag : SymbolInfo → SymbolInfo)
    (scope : NameScope)
    (type : ModType)
    (store : ScopeStore)
    (target : ScopeRef) : Prop :=
  (store.importForeignHandles target type true).2 = "" →
    ∀ name,
      name ≠ toModHolderName type.modId true →
        ((store.importForeignHandles target type true).1.lookup
            target name).map FieldHandle.info =
          ((scope.lookupPublic name).map
            (fun handle => retag handle.info)).or
            ((store.lookup target name).map FieldHandle.info)

/- As a scope made again: all that the scope has found. -/
def RecreatedForm
    (retag : SymbolInfo → SymbolInfo)
    (scope : NameScope)
    (type : ModType)
    (s : Modules) : Prop :=
  ∀ name,
    (scope.IsSpareHolder name →
      (s.store.recreate type (s.children type)).1.lookup
          (s.store.recreate type (s.children type)).2 name =
        none) ∧
    (¬ scope.IsSpareHolder name →
      ((s.store.recreate type (s.children type)).1.lookup
          (s.store.recreate type (s.children type)).2 name).map
          FieldHandle.info =
        (scope.find name).map
          (fun handle => retag handle.info))

/- Nothing private to another module is found in a scope. -/
def HidesPrivate
    (store : ScopeStore)
    (target : ScopeRef) : Prop :=
  ∀ name handle,
    isPrivateName name = true →
      isModHolderName name = false →
        store.lookup target name = some handle →
          handle.modId = (store.scope target).modId

structure ImportForms
    (retag : SymbolInfo → SymbolInfo)
    (scope : NameScope)
    (type : ModType)
    (s : Modules) : Prop where
  named :
    ∀ target, target < s.store.size →
      target ≠ scope.modId →
        NamedForm scope type s.store target
  global :
    ∀ target, target < s.store.size →
      target ≠ scope.modId →
        GlobalForm retag scope type s.store target
  recreated : RecreatedForm retag scope type s
  hides :
    ∀ target, target < s.store.size →
      HidesPrivate s.store target

section Forms

variable {s : Modules}
variable {scope : NameScope}
variable {type : ModType}
variable {target : ScopeRef}

/- The module type has the names the scope calls its own. -/
theorem lookupField_eq_lookupOwn
    (hScope : Imported s.types scope)
    (hMap : type.handleMap.Perm (ScopeStore.ownHandles scope))
    (name : String) :
    type.lookupField name = scope.lookupOwn name := by
  have hDistinct : AssocList.Distinct type.handleMap :=
    (hScope.distinct.filter _).perm hMap.symm
  exact hDistinct.lookup_perm hMap name

theorem namedForm
    (hOk : s.Ok)
    (hScope : Imported s.types scope)
    (hMap : type.handleMap.Perm (ScopeStore.ownHandles scope))
    (hTarget : target < s.store.size)
    (hOther : target ≠ scope.modId) :
    NamedForm scope type s.store target := by
  have hId := hOk.modId target hTarget
  have hTargetScope := hOk.imported target hTarget
  constructor
  · intro name
    have hField := lookupField_eq_lookupOwn hScope hMap name
    unfold NameScope.lookupField NameScope.lookupPublic
    rw [hField, hId]
    cases hFind : scope.lookupOwn name with
    | none => simp
    | some handle =>
        have hOwn :=
          ((hScope.mem_ownHandles hOk.sealed).mp
            (AssocList.mem_of_lookup hFind)).2
        have hModId : handle.modId = scope.modId :=
          hOwn.inModule
        have hNe : (target == handle.modId) = false := by
          rw [hModId]
          exact beq_eq_false_iff_ne.mpr hOther
        unfold NameScope.inBuiltinModule
        rw [Option.filter_some, hNe, hModId]
        by_cases hBuiltin : scope.modId = 0
        · simp [hBuiltin]
        · cases hPrivate : isPrivateName name <;>
            simp [hBuiltin]
  · intro name hName
    by_cases hHolder :
        toModHolderName type.modId false ∈
          (s.store.scope target).names
    · rw [ScopeStore.importForeignHandles_again hHolder]
    rcases ScopeStore.importForeignHandles_new hHolder with
      ⟨mid, holder, hNames, _, hImport⟩
    rw [if_neg Bool.false_ne_true] at hImport
    rw [hImport,
      ScopeStore.lookup_eq_find hTargetScope.parent,
      ScopeStore.lookup_eq_find
        (hNames.names.parent.trans hTargetScope.parent)]
    unfold NameScope.find
    rw [hNames.handles_eq, List.lookup_append,
      List.lookup_cons, beq_eq_false_iff_ne.mpr hName,
      List.lookup_nil, Option.or_none]

/- What is found in a scope that has imported the module. -/
theorem lookupPublic_info
    {after : NameScope}
    (hAfter : Imported s.types after)
    (hType : type ∈ s.types)
    (hMap : type.handleMap.Perm (ScopeStore.ownHandles scope))
    (hHolder : toModHolderName type.modId true ∈ after.names)
    {name : String}
    {handle : FieldHandle}
    (hFind : scope.lookupPublic name = some handle) :
    (after.find name).map FieldHandle.info =
      some handle.info.asAlias := by
  unfold NameScope.lookupPublic at hFind
  split_ifs at hFind with hPrivate
  have hMem := hMap.mem_iff.mpr (AssocList.mem_of_lookup hFind)
  rcases hAfter.complete type hType hHolder _
      (mem_publicHandles.mpr
        ⟨hMem, Bool.eq_false_iff.mpr hPrivate⟩) with
    ⟨new, hNew, hInfo⟩
  unfold NameScope.find
  rw [hAfter.distinct.lookup_eq_some.mpr hNew, Option.map_some,
    hInfo]

theorem globalForm
    (hOk : s.Ok)
    (hType : type ∈ s.types)
    (hModId : type.modId = scope.modId)
    (hScope : Imported s.types scope)
    (hMap : type.handleMap.Perm (ScopeStore.ownHandles scope))
    (hTarget : target < s.store.size)
    (hOther : target ≠ scope.modId) :
    GlobalForm SymbolInfo.asAlias scope type s.store target := by
  intro hDone name hName
  have hTargetScope := hOk.imported target hTarget
  have hNe : type.modId ≠ (s.store.scope target).modId := by
    rw [hModId, hOk.modId target hTarget]
    exact hOther.symm
  have hAfter :=
    hTargetScope.importForeignHandles hOk.sealed hType hNe hDone
  have hBefore :=
    ScopeStore.lookup_eq_find hTargetScope.parent name
  rw [ScopeStore.lookup_eq_find hAfter.parent, hBefore]
  by_cases hHolder :
      toModHolderName type.modId true ∈
        (s.store.scope target).names
  · rw [ScopeStore.importForeignHandles_again hHolder]
    cases hFind : scope.lookupPublic name with
    | none => rfl
    | some handle =>
        exact
          lookupPublic_info hTargetScope hType hMap hHolder hFind
  rcases
      ScopeStore.importForeignHandles_names
        (fun entry hMem =>
          (hOk.sealed.own type hType entry hMem).name.2)
        hHolder hDone with
    ⟨holder, added, hNames, _, hGives⟩
  cases hFind : scope.lookupPublic name with
  | some handle =>
      apply lookupPublic_info hAfter hType hMap _ hFind
      rw [hNames.names_eq]
      exact List.mem_append_right _ List.mem_cons_self
  | none =>
      have hNone : added.lookup name = none := by
        apply AssocList.lookup_eq_none.mpr
        intro hMem
        rcases AssocList.mem_keys.mp (hGives.mem_keys.mp hMem)
          with ⟨handle, hIn⟩
        rcases mem_takenHandles.mp hIn with
          ⟨_, hHandle, hPublic⟩
        have hOwn := lookupField_eq_lookupOwn hScope hMap name
        have hDistinct := hOk.sealed.distinct type hType
        unfold ModType.lookupField at hOwn
        rw [hDistinct.lookup_eq_some.mpr hHandle] at hOwn
        unfold NameScope.lookupPublic at hFind
        rw [if_neg (Bool.eq_false_iff.mp hPublic), ← hOwn]
          at hFind
        cases hFind
      unfold NameScope.find
      rw [hNames.handles_eq, List.lookup_append,
        List.lookup_cons, beq_eq_false_iff_ne.mpr hName, hNone,
        Option.or_none]
      rfl

theorem recreatedForm
    (hOk : s.Ok)
    (hModId : type.modId = scope.modId)
    (hScope : Imported s.types scope)
    (hMap : type.handleMap.Perm (ScopeStore.ownHandles scope))
    (hChildren :
      type.children = ScopeStore.importedMods scope) :
    RecreatedForm SymbolInfo.asAlias scope type s := by
  have hEach :
      ∀ child ∈ s.children type,
        child.1 ∈ s.types ∧
          (⟨child.1.typeId, child.2⟩ : ImportedModEntry) ∈
            ScopeStore.importedMods scope := by
    intro child hMem
    rcases List.mem_filterMap.mp hMem with ⟨entry, hEntry, hEq⟩
    rcases Option.map_eq_some_iff.mp hEq with
      ⟨found, hFound, hChild⟩
    rcases Modules.modType_mem hFound with ⟨hIn, hTypeId⟩
    rw [← hChild, hTypeId, ← hChildren]
    exact ⟨hIn, hEntry⟩
  have hCopy :
      Copied s.types scope
        ((s.store.recreate type (s.children type)).1.scope
          (s.store.recreate type (s.children type)).2)
        ((s.children type).reverse ++ []) :=
    recreate_copied hScope hOk.sealed hModId hMap hEach
  have hDone :
      Copied.IsDone s.types scope
        ((s.children type).reverse ++ []) := by
    intro child hChild isGlobal hMem
    rw [List.append_nil, List.mem_reverse]
    apply List.mem_filterMap.mpr
    rw [hChildren]
    refine ⟨_, hMem, ?_⟩
    rw [Modules.modType_of_mem hOk.sealed hChild]
    rfl
  intro name
  rw [ScopeStore.lookup_eq_find hCopy.imported.parent]
  exact
    ⟨hCopy.find_spare hScope hOk.sealed,
      hCopy.find_info hDone hScope hOk.sealed⟩

theorem hidesPrivate
    (hOk : s.Ok)
    (hTarget : target < s.store.size) :
    HidesPrivate s.store target := by
  have hTargetScope := hOk.imported target hTarget
  intro name handle hPrivate hName hLookup
  rw [ScopeStore.lookup_eq_find hTargetScope.parent] at hLookup
  exact
    hTargetScope.modId_of_private
      (AssocList.mem_of_lookup hLookup) hPrivate hName

end Forms

----
-- Imports Agree with the Original Scope
----

open Modules

/-
  A module is sealed in a state that definitions and imports
  lead to.  Whatever modules are made after it, each form tells
  of a name what the module's scope told, as an alias where a
  name is taken over.
-/
theorem importForms
    {events later : List ModuleEvent}
    {s sealed t : Modules}
    {ref typeId : Nat}
    {handleMap : HandleMap}
    (hRun : exec step init events = some s)
    (hSeal :
      s.step (.toModType ref typeId handleMap) = some sealed)
    (hLater : exec step sealed later = some t) :
    ImportForms SymbolInfo.asAlias (s.store.scope ref)
      (s.store.toModType ref typeId handleMap) t := by
  have hOk := ok_run hRun
  have hSealed := ok_step _ _ _ hOk hSeal
  have hEnd : t.Ok := exec_invariant ok_step hLater hSealed
  simp only [step, Modules.toModType] at hSeal
  split_ifs at hSeal with hGuard
  rcases hGuard with ⟨hRef, hMap, _⟩
  have hSub := later_types hLater
  cases hSeal
  have hType :
      s.store.toModType ref typeId handleMap ∈ t.types :=
    hSub (List.mem_append_right _ List.mem_cons_self)
  have hScope : Imported t.types (s.store.scope ref) :=
    (hOk.imported ref hRef).mono hOk.sealed hEnd.sealed
      (fun type hOld => hSub (List.mem_append_left _ hOld))
  constructor
  · intro target hTarget hOther
    exact namedForm hEnd hScope hMap hTarget hOther
  · intro target hTarget hOther
    exact
      globalForm hEnd hType rfl hScope hMap hTarget hOther
  · exact recreatedForm hEnd rfl hScope hMap rfl
  · intro target hTarget
    exact hidesPrivate hEnd hTarget

/- A module that has defined one public variable. -/
def definedVar : Modules :=
  { init with
    store :=
      (init.store.newModScope 0).1.keep
        ((init.store.newModScope 0).1.defineHandle 0 "a" 3 {}) }

def varHandle : FieldHandle :=
  { commitId := 0
    typeId := 3
    index := 0
    attr := { isGlobal := true }
    modId := 0 }

def sealedVar : Modules :=
  { store :=
      { definedVar.store with
        gvarCount := definedVar.store.gvarCount + 1
        origins := definedVar.store.origins + 1 }
    types :=
      [definedVar.store.toModType 0 7 [("a", varHandle)]] }

/- Another module that has no names yet. -/
def besideVar : Modules :=
  { sealedVar with
    store := (sealedVar.store.newModScope 1).1 }

theorem isSymbolName_a : IsSymbolName "a" := by
  decide

theorem step_define
    {s : Modules}
    {ref : ScopeRef}
    {name : String}
    (hRef : ref < s.store.size)
    (hName : IsSymbolName name) :
    s.step (.defineHandle ref name 3 {}) =
      some
        { s with
          store :=
            s.store.keep (s.store.defineHandle ref name 3 {}) } := by
  simp only [step]
  rw [if_pos (by decide)]
  unfold define
  rw [if_pos ⟨hRef, hName⟩]

theorem exec_definedVar :
    exec step init
        [.newModScope, .defineHandle 0 "a" 3 {}] =
      some definedVar := by
  apply exec_cons_eq_some.mpr
  refine ⟨_, rfl, ?_⟩
  apply exec_cons_eq_some.mpr
  exact
    ⟨definedVar, step_define Nat.zero_lt_one isSymbolName_a, rfl⟩

theorem step_sealedVar :
    definedVar.step (.toModType 0 7 [("a", varHandle)]) =
      some sealedVar := by
  simp only [step]
  unfold Modules.toModType
  rw [if_pos]
  · rfl
  · refine ⟨Nat.zero_lt_one, List.Perm.refl _, ?_⟩
    intro type hType
    exact absurd hType List.not_mem_nil

theorem exec_besideVar :
    exec step sealedVar [.newModScope] = some besideVar :=
  rfl

/- Another module imports it, and defines two names. -/
def importedVar : Modules :=
  { besideVar with
    store :=
      (besideVar.store.importForeignHandles 1
        (definedVar.store.toModType 0 7 [("a", varHandle)])
        true).1 }

def definedPrivate : Modules :=
  { importedVar with
    store :=
      importedVar.store.keep
        (importedVar.store.defineHandle 1 "_b" 3 {}) }

def definedBoth : Modules :=
  { definedPrivate with
    store :=
      definedPrivate.store.keep
        (definedPrivate.store.defineHandle 1 "c" 3 {}) }

def ownHandles : HandleMap :=
  ScopeStore.ownHandles (definedBoth.store.scope 1)

def sealedBoth : Modules :=
  { store :=
      { definedBoth.store with
        gvarCount := definedBoth.store.gvarCount + 1
        origins := definedBoth.store.origins + 1 }
    types :=
      definedBoth.types ++
        [definedBoth.store.toModType 1 8 ownHandles] }

def besideBoth : Modules :=
  { sealedBoth with
    store := (sealedBoth.store.newModScope 2).1 }

theorem exec_definedBoth :
    exec step init
        [.newModScope, .defineHandle 0 "a" 3 {},
          .toModType 0 7 [("a", varHandle)], .newModScope,
          .importForeignHandles 1 7 true,
          .defineHandle 1 "_b" 3 {}, .defineHandle 1 "c" 3 {}] =
      some definedBoth := by
  apply exec_cons_eq_some.mpr
  refine ⟨_, rfl, ?_⟩
  apply exec_cons_eq_some.mpr
  refine ⟨definedVar, step_define (by decide) (by decide), ?_⟩
  apply exec_cons_eq_some.mpr
  refine ⟨sealedVar, step_sealedVar, ?_⟩
  apply exec_cons_eq_some.mpr
  refine ⟨besideVar, rfl, ?_⟩
  apply exec_cons_eq_some.mpr
  refine ⟨importedVar, rfl, ?_⟩
  apply exec_cons_eq_some.mpr
  refine
    ⟨definedPrivate, step_define (by decide) (by decide), ?_⟩
  apply exec_cons_eq_some.mpr
  exact ⟨definedBoth, step_define (by decide) (by decide), rfl⟩

theorem step_sealedBoth :
    definedBoth.step (.toModType 1 8 ownHandles) =
      some sealedBoth := by
  simp only [step]
  unfold Modules.toModType
  rw [if_pos]
  · rfl
  · refine ⟨by decide, List.Perm.refl _, ?_⟩
    decide

/- The module has a private name, and one that it imports. -/
theorem importForms_besideBoth :
    ImportForms SymbolInfo.asAlias (definedBoth.store.scope 1)
      (definedBoth.store.toModType 1 8 ownHandles)
      besideBoth := by
  have hLater :
      exec step sealedBoth [.newModScope] = some besideBoth :=
    rfl
  exact importForms exec_definedBoth step_sealedBoth hLater

/- A public variable is found as an alias in another scope. -/
theorem not_importForms_id :
    ¬ ∀ (events later : List ModuleEvent)
        (s sealed t : Modules)
        (ref typeId : Nat)
        (handleMap : HandleMap),
        exec step init events = some s →
          s.step (.toModType ref typeId handleMap) =
              some sealed →
            exec step sealed later = some t →
              ImportForms id (s.store.scope ref)
                (s.store.toModType ref typeId handleMap) t := by
  intro hAll
  have hForms :=
    hAll _ _ _ _ _ _ _ _ exec_definedVar step_sealedVar
      exec_besideVar
  have hFound :=
    (hForms.recreated "a").2 isSymbolName_a.not_isSpareHolder
  have hAlias :=
    congrArg (Option.map (fun info => info.attr.isAlias)) hFound
  exact absurd hAlias (by decide)

end Scope

end Ydsh
