import Ydsh.Scope.Exporting

/-
  Scopes that hold what they define and what they import.

  A name of a module scope is the module's own, the holder of a
  module it has imported, or a public name of a module it has
  imported as a whole; of such a module no public name is
  missing.  The module type made from a scope has the own names
  and remembers which modules are imported.

  Main declarations:
    * `SealedTypes`
    * `Imported`
    * `ScopeStore.importForeignHandles_names`
    * `Imported.importForeignHandles`
-/

----
-- Kinds of Entries
----

namespace Ydsh

namespace Scope

open Library

structure IsOwn
    (modId : Nat)
    (entry : String × FieldHandle) : Prop where
  notHolder : entry.2.isModHolder = false
  inModule : entry.2.modId = modId
  name : IsSymbolName entry.1

structure IsHolder
    (modId : Nat)
    (type : ModType)
    (isGlobal : Bool)
    (entry : String × FieldHandle) : Prop where
  other : type.modId ≠ modId
  name : entry.1 = toModHolderName type.modId isGlobal
  info :
    entry.2.info =
      (type.toModHolder isGlobal).info.asAlias.inModule modId

structure IsForeign
    (scope : NameScope)
    (type : ModType)
    (entry : String × FieldHandle) : Prop where
  other : type.modId ≠ scope.modId
  holder : toModHolderName type.modId true ∈ scope.names
  isPublic : isPrivateName entry.1 = false
  origin :
    ∃ handle,
      (entry.1, handle) ∈ type.handleMap ∧
        entry.2.info = handle.info.asAlias

/- The types of modules that differ, each with its own names. -/
structure SealedTypes (types : List ModType) : Prop where
  modId_inj :
    ∀ type ∈ types, ∀ type' ∈ types,
      type.modId = type'.modId → type = type'
  typeId_inj :
    ∀ type ∈ types, ∀ type' ∈ types,
      type.typeId = type'.typeId → type = type'
  distinct :
    ∀ type ∈ types, AssocList.Distinct type.handleMap
  own :
    ∀ type ∈ types, ∀ entry ∈ type.handleMap,
      IsOwn type.modId entry

structure Imported
    (types : List ModType)
    (scope : NameScope) : Prop where
  kind : scope.kind = .global
  parent : scope.parent = none
  distinct : AssocList.Distinct scope.handles
  entry :
    ∀ entry ∈ scope.handles,
      IsOwn scope.modId entry ∨
        (∃ type ∈ types, ∃ isGlobal,
          IsHolder scope.modId type isGlobal entry) ∨
        (∃ type ∈ types, IsForeign scope type entry)
  complete :
    ∀ type ∈ types,
      toModHolderName type.modId true ∈ scope.names →
        ∀ entry ∈ publicHandles type.handleMap,
          ∃ handle,
            (entry.1, handle) ∈ scope.handles ∧
              handle.info = entry.2.info.asAlias

theorem IsForeign.inModule
    {scope : NameScope}
    {type : ModType}
    {entry : String × FieldHandle}
    (hForeign : IsForeign scope type entry)
    (hOwn :
      ∀ entry ∈ type.handleMap, IsOwn type.modId entry) :
    entry.2.modId = type.modId := by
  rcases hForeign.origin with ⟨handle, hMem, hInfo⟩
  rw [FieldHandle.modId_of_asAlias hInfo]
  exact (hOwn _ hMem).inModule

theorem IsForeign.notHolder
    {scope : NameScope}
    {type : ModType}
    {entry : String × FieldHandle}
    (hForeign : IsForeign scope type entry)
    (hOwn :
      ∀ entry ∈ type.handleMap, IsOwn type.modId entry) :
    entry.2.isModHolder = false := by
  rcases hForeign.origin with ⟨handle, hMem, hInfo⟩
  rw [FieldHandle.isModHolder_of_asAlias hInfo]
  exact (hOwn _ hMem).notHolder

theorem IsForeign.symbolName
    {scope : NameScope}
    {type : ModType}
    {entry : String × FieldHandle}
    (hForeign : IsForeign scope type entry)
    (hOwn :
      ∀ entry ∈ type.handleMap, IsOwn type.modId entry) :
    IsSymbolName entry.1 := by
  rcases hForeign.origin with ⟨handle, hMem, _⟩
  exact (hOwn _ hMem).name

theorem IsHolder.isModHolder
    {modId : Nat}
    {type : ModType}
    {isGlobal : Bool}
    {entry : String × FieldHandle}
    (hHolder : IsHolder modId type isGlobal entry) :
    entry.2.isModHolder = true := by
  rw [← FieldHandle.info_isModHolder, hHolder.info]
  cases isGlobal <;> rfl

theorem IsHolder.globalMod
    {modId : Nat}
    {type : ModType}
    {isGlobal : Bool}
    {entry : String × FieldHandle}
    (hHolder : IsHolder modId type isGlobal entry) :
    entry.2.attr.globalMod = isGlobal :=
  congrArg (fun info => info.attr.globalMod) hHolder.info

theorem IsHolder.typeId
    {modId : Nat}
    {type : ModType}
    {isGlobal : Bool}
    {entry : String × FieldHandle}
    (hHolder : IsHolder modId type isGlobal entry) :
    entry.2.typeId = type.typeId :=
  congrArg SymbolInfo.typeId hHolder.info

----
-- What the Entries of a Scope Are
----

namespace Imported

variable {types : List ModType}
variable {scope : NameScope}

/- A holder's name is taken by a holder only. -/
theorem holder_of_mem
    (hScope : Imported types scope)
    (hTypes : SealedTypes types)
    {modId : Nat}
    {isGlobal : Bool}
    {handle : FieldHandle}
    (hMem :
      (toModHolderName modId isGlobal, handle) ∈
        scope.handles) :
    ∃ type ∈ types,
      type.modId = modId ∧
        IsHolder scope.modId type isGlobal
          (toModHolderName modId isGlobal, handle) := by
  rcases hScope.entry _ hMem with hOwn | hHolder | hForeign
  · exact absurd rfl (hOwn.name.ne_toModHolderName _ _)
  · rcases hHolder with ⟨type, hType, found, hIs⟩
    rcases toModHolderName_inj hIs.name with ⟨hId, hFlag⟩
    subst hFlag
    exact ⟨type, hType, hId.symm, hIs⟩
  · rcases hForeign with ⟨type, hType, hIs⟩
    have hName := hIs.symbolName (hTypes.own type hType)
    exact absurd rfl (hName.ne_toModHolderName _ _)

theorem type_of_holder
    (hScope : Imported types scope)
    (hTypes : SealedTypes types)
    {modId : Nat}
    {isGlobal : Bool}
    (hName : toModHolderName modId isGlobal ∈ scope.names) :
    ∃ type ∈ types,
      type.modId = modId ∧ type.modId ≠ scope.modId := by
  rcases AssocList.mem_keys.mp hName with ⟨handle, hMem⟩
  rcases hScope.holder_of_mem hTypes hMem with
    ⟨type, hType, hId, hIs⟩
  exact ⟨type, hType, hId, hIs.other⟩

theorem holder_info
    (hScope : Imported types scope)
    (hTypes : SealedTypes types)
    {type : ModType}
    {isGlobal : Bool}
    {handle : FieldHandle}
    (hType : type ∈ types)
    (hMem :
      (toModHolderName type.modId isGlobal, handle) ∈
        scope.handles) :
    handle.info =
      (type.toModHolder isGlobal).info.asAlias.inModule
        scope.modId := by
  rcases hScope.holder_of_mem hTypes hMem with
    ⟨found, hFound, hId, hIs⟩
  rw [← hTypes.modId_inj found hFound type hType hId]
  exact hIs.info

/- A private name is a name of the scope's own module. -/
theorem modId_of_private
    (hScope : Imported types scope)
    {name : String}
    {handle : FieldHandle}
    (hMem : (name, handle) ∈ scope.handles)
    (hPrivate : isPrivateName name = true)
    (hName : isModHolderName name = false) :
    handle.modId = scope.modId := by
  rcases hScope.entry _ hMem with hOwn | hHolder | hForeign
  · exact hOwn.inModule
  · rcases hHolder with ⟨type, _, _, hIs⟩
    have hEq : name = toModHolderName type.modId _ := hIs.name
    rw [hEq, isModHolderName_toModHolderName] at hName
    exact Bool.noConfusion hName
  · rcases hForeign with ⟨type, _, hIs⟩
    have hPublic : isPrivateName name = false := hIs.isPublic
    rw [hPrivate] at hPublic
    exact Bool.noConfusion hPublic

theorem mem_ownHandles
    (hScope : Imported types scope)
    (hTypes : SealedTypes types)
    {entry : String × FieldHandle} :
    entry ∈ ScopeStore.ownHandles scope ↔
      entry ∈ scope.handles ∧ IsOwn scope.modId entry := by
  unfold ScopeStore.ownHandles
  rw [List.mem_filter]
  apply and_congr_right
  intro hMem
  constructor
  · intro hKeep
    rw [Bool.and_eq_true, beq_iff_eq, Bool.not_eq_true'] at hKeep
    rcases hScope.entry _ hMem with hOwn | hHolder | hForeign
    · exact hOwn
    · rcases hHolder with ⟨type, _, _, hIs⟩
      rw [hIs.isModHolder] at hKeep
      exact Bool.noConfusion hKeep.1
    · rcases hForeign with ⟨type, hType, hIs⟩
      have hModId := hIs.inModule (hTypes.own type hType)
      exact absurd (hModId.symm.trans hKeep.2) hIs.other
  · intro hOwn
    simp [hOwn.notHolder, hOwn.inModule]

----
-- Scopes That Grow
----

theorem of_sameNames
    (hScope : Imported types scope)
    {scope' : NameScope}
    (hSame : scope.SameNames scope') :
    Imported types scope' := by
  have hNames : scope'.names = scope.names := by
    unfold NameScope.names
    rw [hSame.handles]
  constructor
  · exact hSame.kind.trans hScope.kind
  · exact hSame.parent.trans hScope.parent
  · rw [hSame.handles]
    exact hScope.distinct
  · rw [hSame.handles, hSame.modId]
    intro entry hMem
    rcases hScope.entry entry hMem with hOwn | hHolder | hForeign
    · exact .inl hOwn
    · exact .inr (.inl hHolder)
    · rcases hForeign with ⟨type, hType, hIs⟩
      exact
        .inr (.inr
          ⟨type, hType,
            { hIs with
              other := hSame.modId ▸ hIs.other
              holder := hNames ▸ hIs.holder }⟩)
  · rw [hNames, hSame.handles]
    exact hScope.complete

theorem of_empty
    (hKind : scope.kind = .global)
    (hParent : scope.parent = none)
    (hHandles : scope.handles = []) :
    Imported types scope := by
  have hNames : scope.names = [] := by
    unfold NameScope.names
    rw [hHandles]
    rfl
  constructor
  · exact hKind
  · exact hParent
  · rw [hHandles]
    exact .nil
  · rw [hHandles]
    intro entry hMem
    exact absurd hMem List.not_mem_nil
  · rw [hNames]
    intro type _ hMem
    exact absurd hMem List.not_mem_nil

/- Names that are put after those of the scope. -/
theorem append
    (hScope : Imported types scope)
    {added : HandleMap}
    (hDistinct : AssocList.Distinct (scope.handles ++ added))
    (hEntry :
      ∀ entry ∈ added,
        IsOwn scope.modId entry ∨
          (∃ type ∈ types, ∃ isGlobal,
            IsHolder scope.modId type isGlobal entry) ∨
          (∃ type ∈ types,
            IsForeign
              { scope with handles := scope.handles ++ added }
              type entry))
    (hComplete :
      ∀ type ∈ types,
        toModHolderName type.modId true ∈ AssocList.keys added →
          ∀ entry ∈ publicHandles type.handleMap,
            ∃ handle,
              (entry.1, handle) ∈ added ∧
                handle.info = entry.2.info.asAlias) :
    Imported types
      { scope with handles := scope.handles ++ added } := by
  have hNames :
      NameScope.names
          { scope with handles := scope.handles ++ added } =
        scope.names ++ AssocList.keys added :=
    AssocList.keys_append _ _
  constructor
  · exact hScope.kind
  · exact hScope.parent
  · exact hDistinct
  · intro entry hMem
    rcases List.mem_append.mp hMem with hOld | hNew
    · rcases hScope.entry entry hOld with
        hOwn | hHolder | hForeign
      · exact .inl hOwn
      · exact .inr (.inl hHolder)
      · rcases hForeign with ⟨type, hType, hIs⟩
        have hHolder :
            toModHolderName type.modId true ∈
              NameScope.names
                { scope with
                  handles := scope.handles ++ added } := by
          rw [hNames]
          exact List.mem_append_left _ hIs.holder
        exact
          .inr (.inr ⟨type, hType, { hIs with holder := hHolder }⟩)
    · exact hEntry entry hNew
  · intro type hType hMem entry hIn
    rw [hNames] at hMem
    rcases List.mem_append.mp hMem with hOld | hNew
    · rcases hScope.complete type hType hOld entry hIn with
        ⟨handle, hHandle, hInfo⟩
      exact ⟨handle, List.mem_append_left _ hHandle, hInfo⟩
    · rcases hComplete type hType hNew entry hIn with
        ⟨handle, hHandle, hInfo⟩
      exact ⟨handle, List.mem_append_right _ hHandle, hInfo⟩

/- A module sealed later is not imported yet. -/
theorem mono
    (hScope : Imported types scope)
    (hTypes : SealedTypes types)
    {types' : List ModType}
    (hTypes' : SealedTypes types')
    (hSub : types ⊆ types') :
    Imported types' scope where
  kind := hScope.kind
  parent := hScope.parent
  distinct := hScope.distinct
  entry := by
    intro entry hMem
    rcases hScope.entry entry hMem with hOwn | hHolder | hForeign
    · exact .inl hOwn
    · rcases hHolder with ⟨type, hType, hIs⟩
      exact .inr (.inl ⟨type, hSub hType, hIs⟩)
    · rcases hForeign with ⟨type, hType, hIs⟩
      exact .inr (.inr ⟨type, hSub hType, hIs⟩)
  complete := by
    intro type hType hHolder
    rcases hScope.type_of_holder hTypes hHolder with
      ⟨found, hFound, hId, _⟩
    have hEq :=
      hTypes'.modId_inj found (hSub hFound) type hType hId
    rw [← hEq] at hHolder ⊢
    exact hScope.complete found hFound hHolder

end Imported

----
-- Imports
----

/- The names that an import takes over besides the holder. -/
def takenHandles
    (type : ModType)
    (isGlobal : Bool) : HandleMap :=
  if isGlobal then publicHandles type.handleMap else []

theorem mem_takenHandles
    {type : ModType}
    {isGlobal : Bool}
    {entry : String × FieldHandle} :
    entry ∈ takenHandles type isGlobal ↔
      isGlobal = true ∧
        entry ∈ type.handleMap ∧
          isPrivateName entry.1 = false := by
  cases isGlobal with
  | false => simp [takenHandles]
  | true => simp [takenHandles, mem_publicHandles]

namespace ScopeStore

variable {store : ScopeStore}
variable {ref : ScopeRef}
variable {type : ModType}
variable {isGlobal : Bool}

theorem importForeignHandles_again
    (hHolder :
      toModHolderName type.modId isGlobal ∈
        (store.scope ref).names) :
    store.importForeignHandles ref type isGlobal =
      (store, "") := by
  simp only [importForeignHandles]
  rw [if_pos (NameScope.contains_iff.mpr hHolder)]

/- A module that is new to the scope first gets its holder. -/
theorem importForeignHandles_new
    (hNew :
      toModHolderName type.modId isGlobal ∉
        (store.scope ref).names) :
    ∃ mid holder,
      NamesAt ref store mid
          [(toModHolderName type.modId isGlobal, holder)] ∧
        holder.info =
          (type.toModHolder isGlobal).info.asAlias.inModule
            (store.scope ref).modId ∧
        store.importForeignHandles ref type isGlobal =
          (if isGlobal then
            mid.importHandles ref type.handleMap
          else
            (mid, "")) := by
  rcases
      add_of_free
        { type.toModHolder isGlobal with
          commitId := (store.scope ref).commitId
          attr :=
            { (type.toModHolder isGlobal).attr with
              isAlias := true }
          modId := (store.scope ref).modId }
        rfl hNew with
    ⟨mid, hAdd⟩
  refine ⟨mid, _, add_namesAt hAdd, rfl, ?_⟩
  have hKeep :
      store.keep
          (store.addNewAlias ref
            (toModHolderName type.modId isGlobal)
            (type.toModHolder isGlobal)) =
        mid := by
    unfold addNewAlias
    rw [hAdd]
    rfl
  simp only [importForeignHandles]
  rw [if_neg
    (Bool.not_eq_true _ ▸ NameScope.contains_eq_false.mpr hNew),
    hKeep]

/- An import without a conflict takes over all it can. -/
theorem importForeignHandles_names
    (hNames :
      ∀ entry ∈ type.handleMap, symbolName entry.1 ≠ "")
    (hNew :
      toModHolderName type.modId isGlobal ∉
        (store.scope ref).names)
    (hOk :
      (store.importForeignHandles ref type isGlobal).2 = "") :
    ∃ holder added,
      NamesAt ref store
          (store.importForeignHandles ref type isGlobal).1
          ((toModHolderName type.modId isGlobal, holder) ::
            added) ∧
        holder.info =
          (type.toModHolder isGlobal).info.asAlias.inModule
            (store.scope ref).modId ∧
        Gives SymbolInfo.asAlias (takenHandles type isGlobal)
          added := by
  rcases importForeignHandles_new hNew with
    ⟨mid, holder, hFirst, hInfo, hImport⟩
  rw [hImport] at hOk ⊢
  cases isGlobal with
  | false => exact ⟨holder, [], hFirst, hInfo, .nil⟩
  | true =>
      rcases importHandles_names hNames hOk with
        ⟨added, hAdded, hGives⟩
      exact
        ⟨holder, added, hFirst.trans hAdded, hInfo, hGives⟩

/- What the names must be for an import to meet no conflict. -/
theorem importForeignHandles_free
    (hDistinct : AssocList.Distinct type.handleMap)
    (hSymbols :
      ∀ entry ∈ type.handleMap, IsSymbolName entry.1)
    (hNew :
      toModHolderName type.modId isGlobal ∉
        (store.scope ref).names)
    (hFree :
      ∀ entry ∈ takenHandles type isGlobal,
        entry.1 ∉ (store.scope ref).names) :
    (store.importForeignHandles ref type isGlobal).2 = "" := by
  rcases importForeignHandles_new hNew with
    ⟨mid, holder, hFirst, _, hImport⟩
  rw [hImport]
  cases isGlobal with
  | false => rfl
  | true =>
      apply importHandles_free hDistinct
      intro entry hMem hTaken
      rw [hFirst.names_eq] at hTaken
      rcases List.mem_append.mp hTaken with hOld | hHolder
      · exact hFree entry hMem hOld
      · have hName :=
          hSymbols entry (mem_publicHandles.mp hMem).1
        exact
          hName.ne_toModHolderName _ _
            (List.mem_singleton.mp hHolder)

end ScopeStore

namespace Imported

variable {types : List ModType}
variable {store : ScopeStore}
variable {ref : ScopeRef}

/- One name of the module itself is put into its scope. -/
theorem own_namesAt
    {store' : ScopeStore}
    {entry : String × FieldHandle}
    (hScope : Imported types (store.scope ref))
    (hNames : NamesAt ref store store' [entry])
    (hOwn : IsOwn (store.scope ref).modId entry) :
    Imported types (store'.scope ref) := by
  have hDistinct := hNames.distinct hScope.distinct
  rw [hNames.handles_eq] at hDistinct
  have hAdded :
      Imported types
        { store.scope ref with
          handles := (store.scope ref).handles ++ [entry] } := by
    apply hScope.append hDistinct
    · intro found hMem
      rw [List.mem_singleton.mp hMem]
      exact .inl hOwn
    · intro type _ hMem
      exact
        absurd (List.mem_singleton.mp hMem).symm
          (hOwn.name.ne_toModHolderName _ _)
  exact hAdded.of_sameNames hNames.names

/- An import is all or nothing once it meets no conflict. -/
theorem importForeignHandles
    {type : ModType}
    {isGlobal : Bool}
    (hScope : Imported types (store.scope ref))
    (hTypes : SealedTypes types)
    (hType : type ∈ types)
    (hOther : type.modId ≠ (store.scope ref).modId)
    (hOk :
      (store.importForeignHandles ref type isGlobal).2 = "") :
    Imported types
      ((store.importForeignHandles ref type isGlobal).1.scope
        ref) := by
  by_cases hHolder :
      toModHolderName type.modId isGlobal ∈
        (store.scope ref).names
  · rw [ScopeStore.importForeignHandles_again hHolder]
    exact hScope
  rcases
      ScopeStore.importForeignHandles_names
        (fun entry hMem => (hTypes.own type hType entry hMem).name.2)
        hHolder hOk with
    ⟨holder, added, hNames, hInfo, hGives⟩
  have hDistinct := hNames.distinct hScope.distinct
  rw [hNames.handles_eq] at hDistinct
  have hTaken :
      ∀ entry ∈ added,
        isGlobal = true ∧
          isPrivateName entry.1 = false ∧
            ∃ handle,
              (entry.1, handle) ∈ type.handleMap ∧
                entry.2.info = handle.info.asAlias := by
    intro entry hMem
    rcases hGives.sound entry hMem with ⟨handle, hIn, hEq⟩
    rcases mem_takenHandles.mp hIn with ⟨hFlag, hMap, hPublic⟩
    exact ⟨hFlag, hPublic, handle, hMap, hEq⟩
  apply
    (hScope.append hDistinct ?_ ?_).of_sameNames hNames.names
  · intro entry hMem
    rcases List.mem_cons.mp hMem with hEq | hRest
    · rw [hEq]
      exact
        .inr (.inl
          ⟨type, hType, isGlobal,
            { other := hOther
              name := rfl
              info := hInfo }⟩)
    · rcases hTaken entry hRest with ⟨hFlag, hPublic, hOrigin⟩
      apply Or.inr
      apply Or.inr
      refine ⟨type, hType, hOther, ?_, hPublic, hOrigin⟩
      unfold NameScope.names
      rw [AssocList.keys_append, ← hFlag]
      exact List.mem_append_right _ List.mem_cons_self
  · intro found hFound hMem entry hIn
    rcases List.mem_cons.mp hMem with hEq | hRest
    · rcases toModHolderName_inj hEq with ⟨hId, hFlag⟩
      rw [hTypes.modId_inj found hFound type hType hId] at hIn
      rcases mem_publicHandles.mp hIn with ⟨hMap, hPublic⟩
      have hTake :=
        mem_takenHandles.mpr ⟨hFlag.symm, hMap, hPublic⟩
      rcases hGives.complete entry hTake with
        ⟨handle, hHandle, hSame⟩
      exact ⟨handle, List.mem_cons_of_mem _ hHandle, hSame⟩
    · rcases AssocList.mem_keys.mp hRest with ⟨handle, hIn'⟩
      rcases hTaken _ hIn' with ⟨_, _, old, hOld, _⟩
      have hName := (hTypes.own type hType _ hOld).name
      exact absurd rfl (hName.ne_toModHolderName _ _)

end Imported

end Scope

end Ydsh
