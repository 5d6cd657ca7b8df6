import Ydsh.Scope.Imported

/-
  Scopes that are made again from a module type.

  The new scope gets the own names of the module and imports
  again what the module has imported.  It answers every lookup
  as the old scope does, but each name is an alias, and a
  module that was imported both as a whole and under a name has
  only the former of its holders.

  Main declarations:
    * `Imported.mem_importedMods_global`
    * `Imported.mem_importedMods_named`
    * `Copied`
    * `recreate_copied`
    * `Copied.find_info`
-/

----
-- Imported Modules
----

namespace Ydsh

namespace Scope

open Library

namespace ScopeStore

theorem mem_global_tryInsert
    {entry : ImportedModEntry}
    {typeId : Nat}
    {children : List ImportedModEntry} :
    (⟨typeId, true⟩ : ImportedModEntry) ∈
        tryInsertByAscendingOrder entry children ↔
      entry = ⟨typeId, true⟩ ∨
        (⟨typeId, true⟩ : ImportedModEntry) ∈ children := by
  induction children with
  | nil => simp [tryInsertByAscendingOrder, eq_comm]
  | cons child children ih =>
      unfold tryInsertByAscendingOrder
      by_cases hLt : child.typeId < entry.typeId
      · rw [if_pos hLt, List.mem_cons, ih, List.mem_cons]
        exact or_left_comm
      rw [if_neg hLt]
      by_cases hEq : child.typeId = entry.typeId
      · rw [if_pos hEq, List.mem_cons, List.mem_cons]
        rcases entry with ⟨entryId, entryFlag⟩
        rcases child with ⟨childId, childFlag⟩
        have hId : childId = entryId := hEq
        subst hId
        cases entryFlag with
        | false => simp
        | true =>
            simp only [if_true, ImportedModEntry.mk.injEq]
            cases childFlag <;> simp [eq_comm]
      · rw [if_neg hEq, List.mem_cons, eq_comm]

theorem mem_typeIds_tryInsert
    {entry : ImportedModEntry}
    {typeId : Nat}
    {children : List ImportedModEntry} :
    typeId ∈
        (tryInsertByAscendingOrder entry children).map
          ImportedModEntry.typeId ↔
      typeId = entry.typeId ∨
        typeId ∈ children.map ImportedModEntry.typeId := by
  induction children with
  | nil => simp [tryInsertByAscendingOrder]
  | cons child children ih =>
      unfold tryInsertByAscendingOrder
      by_cases hLt : child.typeId < entry.typeId
      · rw [if_pos hLt, List.map_cons, List.mem_cons, ih,
          List.map_cons, List.mem_cons]
        exact or_left_comm
      rw [if_neg hLt]
      by_cases hEq : child.typeId = entry.typeId
      · rw [if_pos hEq, List.map_cons, List.map_cons,
          List.mem_cons, List.mem_cons]
        cases hFlag : entry.isGlobal with
        | false => simp [hEq]
        | true => simp [hEq]
      · rw [if_neg hEq, List.map_cons, List.mem_cons]

/- The children of a module type, by ascending type. -/
def Ascending (children : List ImportedModEntry) : Prop :=
  (children.map ImportedModEntry.typeId).Pairwise (· < ·)

theorem Ascending.nil : Ascending [] :=
  List.Pairwise.nil

theorem Ascending.tryInsert
    {children : List ImportedModEntry}
    (hAscending : Ascending children)
    (entry : ImportedModEntry) :
    Ascending (tryInsertByAscendingOrder entry children) := by
  induction children with
  | nil => simp [tryInsertByAscendingOrder, Ascending]
  | cons child children ih =>
      rcases List.pairwise_cons.mp hAscending with
        ⟨hFirst, hRest⟩
      unfold tryInsertByAscendingOrder
      by_cases hLt : child.typeId < entry.typeId
      · rw [if_pos hLt]
        apply List.pairwise_cons.mpr
        refine ⟨?_, ih hRest⟩
        intro typeId hMem
        rcases mem_typeIds_tryInsert.mp hMem with hEq | hOld
        · rw [hEq]
          exact hLt
        · exact hFirst typeId hOld
      rw [if_neg hLt]
      by_cases hEq : child.typeId = entry.typeId
      · rw [if_pos hEq]
        cases hFlag : entry.isGlobal with
        | false => exact hAscending
        | true =>
            apply List.pairwise_cons.mpr
            refine ⟨?_, hRest⟩
            intro typeId hMem
            rw [if_pos rfl, ← hEq]
            exact hFirst typeId hMem
      · rw [if_neg hEq]
        apply List.pairwise_cons.mpr
        refine ⟨?_, hAscending⟩
        have hGt : entry.typeId < child.typeId := by omega
        intro typeId hMem
        rcases List.mem_cons.mp hMem with hHead | hTail
        · rw [hHead]
          exact hGt
        · exact Nat.lt_trans hGt (hFirst typeId hTail)

/- The children that a list of holders makes. -/
def insertHolders
    (children : List ImportedModEntry)
    (holders : HandleMap) : List ImportedModEntry :=
  holders.foldl
    (fun children entry =>
      tryInsertByAscendingOrder
        ⟨entry.2.typeId, entry.2.attr.globalMod⟩ children)
    children

theorem insertHolders_cons
    (children : List ImportedModEntry)
    (holder : String × FieldHandle)
    (holders : HandleMap) :
    insertHolders children (holder :: holders) =
      insertHolders
        (tryInsertByAscendingOrder
          ⟨holder.2.typeId, holder.2.attr.globalMod⟩ children)
        holders :=
  rfl

theorem insertHolders_ascending
    {children : List ImportedModEntry}
    (hAscending : Ascending children)
    (holders : HandleMap) :
    Ascending (insertHolders children holders) := by
  induction holders generalizing children with
  | nil => exact hAscending
  | cons holder holders ih => exact ih (hAscending.tryInsert _)

theorem mem_global_insertHolders
    {typeId : Nat}
    {children : List ImportedModEntry}
    {holders : HandleMap} :
    (⟨typeId, true⟩ : ImportedModEntry) ∈
        insertHolders children holders ↔
      (∃ entry ∈ holders,
        entry.2.typeId = typeId ∧
          entry.2.attr.globalMod = true) ∨
        (⟨typeId, true⟩ : ImportedModEntry) ∈ children := by
  induction holders generalizing children with
  | nil => simp [insertHolders]
  | cons holder holders ih =>
      rw [insertHolders_cons, ih, mem_global_tryInsert,
        ImportedModEntry.mk.injEq, List.exists_mem_cons_iff,
        or_assoc, or_left_comm]

theorem mem_typeIds_insertHolders
    {typeId : Nat}
    {children : List ImportedModEntry}
    {holders : HandleMap} :
    typeId ∈
        (insertHolders children holders).map
          ImportedModEntry.typeId ↔
      (∃ entry ∈ holders, entry.2.typeId = typeId) ∨
        typeId ∈ children.map ImportedModEntry.typeId := by
  induction holders generalizing children with
  | nil => simp [insertHolders]
  | cons holder holders ih =>
      rw [insertHolders_cons, ih, mem_typeIds_tryInsert,
        List.exists_mem_cons_iff, or_assoc, or_left_comm,
        @eq_comm _ typeId]

theorem mem_importedMods_true
    {scope : NameScope}
    {typeId : Nat} :
    (⟨typeId, true⟩ : ImportedModEntry) ∈ importedMods scope ↔
      ∃ entry ∈ scope.handles,
        entry.2.isModHolder = true ∧
          entry.2.typeId = typeId ∧
            entry.2.attr.globalMod = true := by
  unfold importedMods
  rw [← insertHolders, mem_global_insertHolders]
  simp [and_assoc]

theorem mem_typeIds_importedMods
    {scope : NameScope}
    {typeId : Nat} :
    typeId ∈
        (importedMods scope).map ImportedModEntry.typeId ↔
      ∃ entry ∈ scope.handles,
        entry.2.isModHolder = true ∧
          entry.2.typeId = typeId := by
  unfold importedMods
  rw [← insertHolders, mem_typeIds_insertHolders]
  simp [and_assoc]

/- A module is a child once, as a whole if it is so imported. -/
theorem mem_importedMods_false
    {scope : NameScope}
    {typeId : Nat} :
    (⟨typeId, false⟩ : ImportedModEntry) ∈ importedMods scope ↔
      typeId ∈
          (importedMods scope).map ImportedModEntry.typeId ∧
        (⟨typeId, true⟩ : ImportedModEntry) ∉
          importedMods scope := by
  have hAscending : Ascending (importedMods scope) :=
    insertHolders_ascending .nil _
  constructor
  · intro hMem
    refine ⟨List.mem_map_of_mem hMem, ?_⟩
    intro hTrue
    have hEq :=
      List.inj_on_of_nodup_map
        (hAscending.imp Nat.ne_of_lt) hMem hTrue rfl
    simp at hEq
  · intro hMem
    rcases hMem with ⟨hTypeId, hNot⟩
    rcases List.mem_map.mp hTypeId with ⟨child, hChild, hEq⟩
    rcases child with ⟨childId, isGlobal⟩
    have hId : childId = typeId := hEq
    subst hId
    cases isGlobal with
    | false => exact hChild
    | true => exact absurd hChild hNot

end ScopeStore

namespace Imported

variable {types : List ModType}
variable {scope : NameScope}
variable {type : ModType}
variable (hScope : Imported types scope)
variable (hTypes : SealedTypes types)
variable (hType : type ∈ types)

include hScope hTypes hType

/- The holders of a type are those of its module. -/
theorem holder_typeId
    {entry : String × FieldHandle}
    (hMem : entry ∈ scope.handles)
    (hHolder : entry.2.isModHolder = true)
    (hTypeId : entry.2.typeId = type.typeId) :
    entry.1 =
      toModHolderName type.modId entry.2.attr.globalMod := by
  rcases hScope.entry _ hMem with hOwn | hIs | hForeign
  · rw [hOwn.notHolder] at hHolder
    exact Bool.noConfusion hHolder
  · rcases hIs with ⟨found, hFound, isGlobal, hIs⟩
    have hEq :=
      hTypes.typeId_inj found hFound type hType
        (hIs.typeId.symm.trans hTypeId)
    rw [← hEq, hIs.globalMod]
    exact hIs.name
  · rcases hForeign with ⟨found, hFound, hIs⟩
    have hNot := hIs.notHolder (hTypes.own found hFound)
    rw [hNot] at hHolder
    exact Bool.noConfusion hHolder

/- A module is imported where the name of its holder is. -/
theorem holder_iff
    (isGlobal : Bool) :
    (∃ entry ∈ scope.handles,
        entry.2.isModHolder = true ∧
          entry.2.typeId = type.typeId ∧
            entry.2.attr.globalMod = isGlobal) ↔
      toModHolderName type.modId isGlobal ∈ scope.names := by
  constructor
  · rintro ⟨entry, hMem, hHolder, hTypeId, rfl⟩
    rw [← hScope.holder_typeId hTypes hType hMem hHolder hTypeId]
    exact AssocList.mem_keys_of_mem hMem
  · intro hName
    rcases AssocList.mem_keys.mp hName with ⟨handle, hMem⟩
    rcases hScope.holder_of_mem hTypes hMem with
      ⟨found, hFound, hId, hIs⟩
    have hEq := hTypes.modId_inj found hFound type hType hId
    exact
      ⟨_, hMem, hIs.isModHolder, hEq ▸ hIs.typeId,
        hIs.globalMod⟩

theorem mem_importedMods_global :
    (⟨type.typeId, true⟩ : ImportedModEntry) ∈
        ScopeStore.importedMods scope ↔
      toModHolderName type.modId true ∈ scope.names := by
  rw [ScopeStore.mem_importedMods_true]
  exact hScope.holder_iff hTypes hType true

theorem mem_typeIds_importedMods :
    type.typeId ∈
        (ScopeStore.importedMods scope).map
          ImportedModEntry.typeId ↔
      ∃ isGlobal,
        toModHolderName type.modId isGlobal ∈ scope.names := by
  rw [ScopeStore.mem_typeIds_importedMods]
  constructor
  · rintro ⟨entry, hMem, hHolder, hTypeId⟩
    exact
      ⟨_,
        (hScope.holder_iff hTypes hType _).mp
          ⟨entry, hMem, hHolder, hTypeId, rfl⟩⟩
  · rintro ⟨isGlobal, hName⟩
    rcases (hScope.holder_iff hTypes hType isGlobal).mpr hName
      with ⟨entry, hMem, hHolder, hTypeId, _⟩
    exact ⟨entry, hMem, hHolder, hTypeId⟩

theorem mem_importedMods_named :
    (⟨type.typeId, false⟩ : ImportedModEntry) ∈
        ScopeStore.importedMods scope ↔
      toModHolderName type.modId false ∈ scope.names ∧
        toModHolderName type.modId true ∉ scope.names := by
  rw [ScopeStore.mem_importedMods_false,
    hScope.mem_typeIds_importedMods hTypes hType,
    hScope.mem_importedMods_global hTypes hType, Bool.exists_bool]
  tauto

end Imported

----
-- Copies of a Scope
----

/-
  A scope on the way to the copy of `scope`: it has the own
  names, and of the imported modules those in `done`.
-/
structure Copied
    (types : List ModType)
    (scope copy : NameScope)
    (done : List (ModType × Bool)) : Prop where
  imported : Imported types copy
  inModule : copy.modId = scope.modId
  own :
    ∀ entry ∈ ScopeStore.ownHandles scope,
      ∃ handle,
        (entry.1, handle) ∈ copy.handles ∧
          handle.info = entry.2.info.asAlias
  own_mem :
    ∀ entry ∈ copy.handles,
      IsOwn copy.modId entry →
        entry.1 ∈ AssocList.keys (ScopeStore.ownHandles scope)
  holder :
    ∀ type ∈ types, ∀ isGlobal,
      toModHolderName type.modId isGlobal ∈ copy.names →
        (⟨type.typeId, isGlobal⟩ : ImportedModEntry) ∈
          ScopeStore.importedMods scope
  done :
    ∀ child ∈ done,
      toModHolderName child.1.modId child.2 ∈ copy.names

namespace Copied

variable {types : List ModType}
variable {scope copy : NameScope}
variable {done : List (ModType × Bool)}

/- No name of a module that is yet to be imported is taken. -/
theorem free
    (hCopy : Copied types scope copy done)
    (hScope : Imported types scope)
    (hTypes : SealedTypes types)
    {type : ModType}
    {isGlobal : Bool}
    (hType : type ∈ types)
    (hChild :
      (⟨type.typeId, isGlobal⟩ : ImportedModEntry) ∈
        ScopeStore.importedMods scope)
    (hNew :
      toModHolderName type.modId isGlobal ∉ copy.names) :
    ∀ entry ∈ takenHandles type isGlobal,
      entry.1 ∉ copy.names := by
  intro entry hTaken hMem
  rcases mem_takenHandles.mp hTaken with ⟨hFlag, hMap, hPublic⟩
  rw [hFlag] at hChild hNew
  have hOwn := hTypes.own type hType entry hMap
  have hHolder :=
    (hScope.mem_importedMods_global hTypes hType).mp hChild
  rcases hScope.complete type hType hHolder entry
      (mem_publicHandles.mpr ⟨hMap, hPublic⟩) with
    ⟨old, hOld, hInfo⟩
  have hModId : old.modId = type.modId :=
    (FieldHandle.modId_of_asAlias hInfo).trans hOwn.inModule
  rcases AssocList.mem_keys.mp hMem with ⟨handle, hIn⟩
  rcases hCopy.imported.entry _ hIn with hIs | hIs | hIs
  · rcases AssocList.mem_keys.mp (hCopy.own_mem _ hIn hIs) with
      ⟨found, hFound⟩
    rcases (hScope.mem_ownHandles hTypes).mp hFound with
      ⟨hFoundMem, hFoundOwn⟩
    have hEq := hScope.distinct.eq_of_mem hFoundMem hOld
    rcases hScope.type_of_holder hTypes hHolder with
      ⟨found', hFound', hId, hNe⟩
    apply hNe
    rw [hId, ← hModId, ← hEq]
    exact hFoundOwn.inModule
  · rcases hIs with ⟨found, _, flag, hIs⟩
    exact hOwn.name.ne_toModHolderName _ _ hIs.name
  · rcases hIs with ⟨found, hFound, hIs⟩
    have hFoundHolder :=
      (hScope.mem_importedMods_global hTypes hFound).mp
        (hCopy.holder found hFound true hIs.holder)
    rcases hIs.origin with ⟨origin, hOrigin, _⟩
    rcases hScope.complete found hFound hFoundHolder _
        (mem_publicHandles.mpr ⟨hOrigin, hIs.isPublic⟩) with
      ⟨other, hOther, hOtherInfo⟩
    have hOtherId : other.modId = found.modId :=
      (FieldHandle.modId_of_asAlias hOtherInfo).trans
        (hTypes.own found hFound _ hOrigin).inModule
    have hEq := hScope.distinct.eq_of_mem hOther hOld
    have hSame : found = type := by
      apply hTypes.modId_inj found hFound type hType
      rw [← hOtherId, hEq, hModId]
    rw [← hSame] at hNew
    exact hNew hIs.holder

theorem cons_done
    (hCopy : Copied types scope copy done)
    {child : ModType × Bool}
    (hHolder :
      toModHolderName child.1.modId child.2 ∈ copy.names) :
    Copied types scope copy (child :: done) :=
  { hCopy with
    done := by
      intro found hMem
      rcases List.mem_cons.mp hMem with hEq | hRest
      · rw [hEq]
        exact hHolder
      · exact hCopy.done found hRest }

/- One more of the modules that the old scope has imported. -/
theorem importForeignHandles
    {store : ScopeStore}
    {ref : ScopeRef}
    {type : ModType}
    {isGlobal : Bool}
    (hCopy : Copied types scope (store.scope ref) done)
    (hScope : Imported types scope)
    (hTypes : SealedTypes types)
    (hType : type ∈ types)
    (hChild :
      (⟨type.typeId, isGlobal⟩ : ImportedModEntry) ∈
        ScopeStore.importedMods scope) :
    Copied types scope
      ((store.importForeignHandles ref type isGlobal).1.scope
        ref)
      ((type, isGlobal) :: done) := by
  by_cases hHolder :
      toModHolderName type.modId isGlobal ∈
        (store.scope ref).names
  · rw [ScopeStore.importForeignHandles_again hHolder]
    exact hCopy.cons_done hHolder
  have hSymbols :
      ∀ entry ∈ type.handleMap, IsSymbolName entry.1 :=
    fun entry hMem => (hTypes.own type hType entry hMem).name
  have hOk :=
    ScopeStore.importForeignHandles_free
      (hTypes.distinct type hType) hSymbols hHolder
      (hCopy.free hScope hTypes hType hChild hHolder)
  have hOther : type.modId ≠ (store.scope ref).modId := by
    have hTypeId :=
      (hScope.mem_typeIds_importedMods hTypes hType).mp
        (List.mem_map_of_mem hChild)
    rcases hTypeId with ⟨flag, hName⟩
    rcases hScope.type_of_holder hTypes hName with
      ⟨found, _, hId, hNe⟩
    rw [hCopy.inModule, ← hId]
    exact hNe
  have hImported :=
    hCopy.imported.importForeignHandles hTypes hType hOther hOk
  rcases
      ScopeStore.importForeignHandles_names
        (fun entry hMem => (hSymbols entry hMem).2) hHolder hOk
    with ⟨holder, added, hNames, hInfo, hGives⟩
  have hMono :
      ∀ name ∈ (store.scope ref).names,
        name ∈
          ((store.importForeignHandles ref type
            isGlobal).1.scope ref).names := by
    intro name hMem
    rw [hNames.names_eq]
    exact List.mem_append_left _ hMem
  have hForeign :
      ∀ entry ∈ added,
        entry.2.modId = type.modId ∧ IsSymbolName entry.1 := by
    intro entry hMem
    rcases hGives.sound entry hMem with ⟨handle, hIn, hEq⟩
    have hOwn :=
      hTypes.own type hType _ (mem_takenHandles.mp hIn).2.1
    exact
      ⟨(FieldHandle.modId_of_asAlias hEq).trans hOwn.inModule,
        hOwn.name⟩
  constructor
  · exact hImported
  · exact hNames.modId_eq.trans hCopy.inModule
  · intro entry hMem
    rcases hCopy.own entry hMem with ⟨handle, hIn, hEq⟩
    rw [hNames.handles_eq]
    exact ⟨handle, List.mem_append_left _ hIn, hEq⟩
  · rw [hNames.handles_eq, hNames.modId_eq]
    intro entry hMem hOwn
    rcases List.mem_append.mp hMem with hOld | hNew
    · exact hCopy.own_mem entry hOld hOwn
    rcases List.mem_cons.mp hNew with hEq | hRest
    · rw [hEq] at hOwn
      exact absurd rfl (hOwn.name.ne_toModHolderName _ _)
    · have hModId := (hForeign entry hRest).1
      exact absurd (hModId.symm.trans hOwn.inModule) hOther
  · intro found hFound flag hMem
    rw [hNames.names_eq] at hMem
    rcases List.mem_append.mp hMem with hOld | hNew
    · exact hCopy.holder found hFound flag hOld
    rcases List.mem_cons.mp hNew with hEq | hRest
    · rcases toModHolderName_inj hEq with ⟨hId, hFlag⟩
      rw [hTypes.modId_inj found hFound type hType hId, hFlag]
      exact hChild
    · rcases AssocList.mem_keys.mp hRest with ⟨handle, hIn⟩
      exact
        absurd rfl ((hForeign _ hIn).2.ne_toModHolderName _ _)
  · intro child hMem
    rcases List.mem_cons.mp hMem with hEq | hRest
    · rw [hEq, hNames.names_eq]
      exact List.mem_append_right _ List.mem_cons_self
    · exact hMono _ (hCopy.done child hRest)

theorem importChildren
    {store : ScopeStore}
    {ref : ScopeRef}
    {children : List (ModType × Bool)}
    (hCopy : Copied types scope (store.scope ref) done)
    (hScope : Imported types scope)
    (hTypes : SealedTypes types)
    (hChildren :
      ∀ child ∈ children,
        child.1 ∈ types ∧
          (⟨child.1.typeId, child.2⟩ : ImportedModEntry) ∈
            ScopeStore.importedMods scope) :
    Copied types scope
      ((store.importChildren ref children).scope ref)
      (children.reverse ++ done) := by
  induction children generalizing store done with
  | nil => exact hCopy
  | cons child children ih =>
      rcases child with ⟨type, isGlobal⟩
      have hFirst := hChildren _ List.mem_cons_self
      have hNext :=
        hCopy.importForeignHandles hScope hTypes hFirst.1
          hFirst.2
      rw [List.reverse_cons, List.append_assoc]
      apply ih hNext
      intro found hMem
      exact hChildren found (List.mem_cons_of_mem _ hMem)

end Copied

/- A new scope with nothing but the own names. -/
theorem copyHandles_copied
    {types : List ModType}
    {scope : NameScope}
    {store : ScopeStore}
    {ref : ScopeRef}
    {handleMap : HandleMap}
    (hScope : Imported types scope)
    (hTypes : SealedTypes types)
    (hMap : handleMap.Perm (ScopeStore.ownHandles scope))
    (hKind : (store.scope ref).kind = .global)
    (hParent : (store.scope ref).parent = none)
    (hModId : (store.scope ref).modId = scope.modId)
    (hHandles : (store.scope ref).handles = []) :
    Copied types scope
      ((store.copyHandles ref handleMap).scope ref) [] := by
  have hEmpty : (store.scope ref).names = [] := by
    unfold NameScope.names
    rw [hHandles]
    rfl
  have hDistinct : AssocList.Distinct handleMap :=
    (hScope.distinct.filter _).perm hMap.symm
  have hFree :
      ∀ entry ∈ handleMap,
        entry.1 ∉ (store.scope ref).names := by
    intro entry _
    rw [hEmpty]
    exact List.not_mem_nil
  rcases ScopeStore.copyHandles_names hDistinct hFree with
    ⟨added, hNames, hGives⟩
  have hAdded :
      ((store.copyHandles ref handleMap).scope ref).handles =
        added := by
    rw [hNames.handles_eq, hHandles, List.nil_append]
  have hId :
      ((store.copyHandles ref handleMap).scope ref).modId =
        scope.modId :=
    hNames.modId_eq.trans hModId
  have hOwn :
      ∀ entry ∈ ScopeStore.ownHandles scope,
        IsOwn scope.modId entry := by
    intro entry hMem
    exact ((hScope.mem_ownHandles hTypes).mp hMem).2
  have hInfo :
      ∀ entry ∈ ScopeStore.ownHandles scope,
        entry.2.info.asAlias.inModule
            (store.scope ref).modId =
          entry.2.info.asAlias := by
    intro entry hMem
    rw [hModId, ← (hOwn entry hMem).inModule]
    rfl
  have hIs :
      ∀ entry ∈ added, IsOwn scope.modId entry := by
    intro entry hMem
    rcases hGives.sound entry hMem with ⟨handle, hIn, hEq⟩
    have hOwnMem := hMap.mem_iff.mp hIn
    rw [hInfo _ hOwnMem] at hEq
    have hOld := hOwn _ hOwnMem
    exact
      { notHolder :=
          (FieldHandle.isModHolder_of_asAlias hEq).trans
            hOld.notHolder
        inModule :=
          (FieldHandle.modId_of_asAlias hEq).trans hOld.inModule
        name := hOld.name }
  have hNoHolder :
      ∀ modId isGlobal,
        toModHolderName modId isGlobal ∉
          ((store.copyHandles ref handleMap).scope ref).names := by
    intro modId isGlobal hMem
    unfold NameScope.names at hMem
    rw [hAdded] at hMem
    rcases AssocList.mem_keys.mp hMem with ⟨handle, hIn⟩
    exact absurd rfl ((hIs _ hIn).name.ne_toModHolderName _ _)
  constructor
  · constructor
    · exact hNames.names.kind.trans hKind
    · exact hNames.names.parent.trans hParent
    · apply hNames.distinct
      rw [hHandles]
      exact .nil
    · rw [hAdded, hId]
      intro entry hMem
      exact .inl (hIs entry hMem)
    · intro type _ hMem
      exact absurd hMem (hNoHolder _ _)
  · exact hId
  · rw [hAdded]
    intro entry hMem
    rcases hGives.complete entry (hMap.mem_iff.mpr hMem) with
      ⟨handle, hIn, hEq⟩
    exact ⟨handle, hIn, hEq.trans (hInfo entry hMem)⟩
  · rw [hAdded]
    intro entry hMem _
    rcases hGives.sound entry hMem with ⟨handle, hIn, _⟩
    exact AssocList.mem_keys.mpr ⟨handle, hMap.mem_iff.mp hIn⟩
  · intro type _ isGlobal hMem
    exact absurd hMem (hNoHolder _ _)
  · intro child hMem
    exact absurd hMem List.not_mem_nil

/- The scope that is made again from a module type. -/
theorem recreate_copied
    {types : List ModType}
    {scope : NameScope}
    {store : ScopeStore}
    {type : ModType}
    {children : List (ModType × Bool)}
    (hScope : Imported types scope)
    (hTypes : SealedTypes types)
    (hModId : type.modId = scope.modId)
    (hMap : type.handleMap.Perm (ScopeStore.ownHandles scope))
    (hChildren :
      ∀ child ∈ children,
        child.1 ∈ types ∧
          (⟨child.1.typeId, child.2⟩ : ImportedModEntry) ∈
            ScopeStore.importedMods scope) :
    Copied types scope
      ((store.recreate type children).1.scope
        (store.recreate type children).2)
      (children.reverse ++ []) := by
  have hNew :
      (store.newModScope type.modId).1.scope store.size =
        { kind := .global
          modId := type.modId
          parent := none
          curLocalIndex := 0
          localSize := 0
          maxVarCount := .gvarCount
          handles := [] } :=
    ScopeStore.setScope_scope_self _ _ _
  have hCopy :
      Copied types scope
        (((store.newModScope type.modId).1.copyHandles store.size
          type.handleMap).scope store.size) [] := by
    apply copyHandles_copied hScope hTypes hMap
    · rw [hNew]
    · rw [hNew]
    · rw [hNew]
      exact hModId
    · rw [hNew]
  exact hCopy.importChildren hScope hTypes hChildren

----
-- Lookups in a Copy
----

/- The holder of a name for a module imported as a whole too. -/
def NameScope.IsSpareHolder
    (scope : NameScope)
    (name : String) : Prop :=
  ∃ modId,
    name = toModHolderName modId false ∧
      toModHolderName modId true ∈ scope.names

theorem IsSymbolName.not_isSpareHolder
    {scope : NameScope}
    {name : String}
    (hName : IsSymbolName name) :
    ¬ scope.IsSpareHolder name := by
  intro hSpare
  rcases hSpare with ⟨modId, hEq, _⟩
  exact hName.ne_toModHolderName _ _ hEq

namespace Copied

variable {types : List ModType}
variable {scope copy : NameScope}
variable {done : List (ModType × Bool)}

/- Every child has been imported into the copy. -/
def IsDone
    (types : List ModType)
    (scope : NameScope)
    (done : List (ModType × Bool)) : Prop :=
  ∀ type ∈ types, ∀ isGlobal,
    (⟨type.typeId, isGlobal⟩ : ImportedModEntry) ∈
        ScopeStore.importedMods scope →
      (type, isGlobal) ∈ done

/- A name of the copy is one of the old scope. -/
theorem info_of_mem
    (hCopy : Copied types scope copy done)
    (hScope : Imported types scope)
    (hTypes : SealedTypes types)
    {name : String}
    {handle : FieldHandle}
    (hMem : (name, handle) ∈ copy.handles) :
    ¬ scope.IsSpareHolder name ∧
      ∃ old,
        (name, old) ∈ scope.handles ∧
          handle.info = old.info.asAlias := by
  rcases hCopy.imported.entry _ hMem with hIs | hIs | hIs
  · refine ⟨hIs.name.not_isSpareHolder, ?_⟩
    rcases AssocList.mem_keys.mp (hCopy.own_mem _ hMem hIs) with
      ⟨old, hOld⟩
    rcases hCopy.own _ hOld with ⟨found, hFound, hInfo⟩
    have hEq := hCopy.imported.distinct.eq_of_mem hMem hFound
    have hOldMem := ((hScope.mem_ownHandles hTypes).mp hOld).1
    rw [hEq]
    exact ⟨old, hOldMem, hInfo⟩
  · rcases hIs with ⟨type, hType, isGlobal, hIs⟩
    have hEq : name = toModHolderName type.modId isGlobal :=
      hIs.name
    subst hEq
    have hChild :=
      hCopy.holder type hType isGlobal
        (AssocList.mem_keys_of_mem hMem)
    have hOldName :
        toModHolderName type.modId isGlobal ∈ scope.names := by
      cases isGlobal with
      | false =>
          exact
            ((hScope.mem_importedMods_named hTypes hType).mp
              hChild).1
      | true =>
          exact
            (hScope.mem_importedMods_global hTypes hType).mp
              hChild
    rcases AssocList.mem_keys.mp hOldName with ⟨old, hOld⟩
    constructor
    · intro hSpare
      rcases hSpare with ⟨modId, hEq, hGlobal⟩
      rcases toModHolderName_inj hEq with ⟨hId, hFlag⟩
      subst hFlag
      rw [← hId] at hGlobal
      exact
        ((hScope.mem_importedMods_named hTypes hType).mp
          hChild).2 hGlobal
    · refine ⟨old, hOld, ?_⟩
      rw [hScope.holder_info hTypes hType hOld, hIs.info,
        hCopy.inModule]
      rfl
  · rcases hIs with ⟨type, hType, hIs⟩
    have hName := hIs.symbolName (hTypes.own type hType)
    refine ⟨hName.not_isSpareHolder, ?_⟩
    have hHolder :=
      (hScope.mem_importedMods_global hTypes hType).mp
        (hCopy.holder type hType true hIs.holder)
    rcases hIs.origin with ⟨origin, hOrigin, hInfo⟩
    rcases hScope.complete type hType hHolder _
        (mem_publicHandles.mpr ⟨hOrigin, hIs.isPublic⟩) with
      ⟨old, hOld, hOldInfo⟩
    refine ⟨old, hOld, ?_⟩
    rw [hOldInfo]
    exact hInfo

/- A name of the old scope is one of the copy. -/
theorem exists_of_mem
    (hCopy : Copied types scope copy done)
    (hDone : IsDone types scope done)
    (hScope : Imported types scope)
    (hTypes : SealedTypes types)
    {name : String}
    {old : FieldHandle}
    (hMem : (name, old) ∈ scope.handles)
    (hSpare : ¬ scope.IsSpareHolder name) :
    ∃ handle, (name, handle) ∈ copy.handles := by
  rcases hScope.entry _ hMem with hIs | hIs | hIs
  · rcases hCopy.own _
        ((hScope.mem_ownHandles hTypes).mpr ⟨hMem, hIs⟩) with
      ⟨handle, hIn, _⟩
    exact ⟨handle, hIn⟩
  · rcases hIs with ⟨type, hType, isGlobal, hIs⟩
    have hEq : name = toModHolderName type.modId isGlobal :=
      hIs.name
    subst hEq
    have hOldName := AssocList.mem_keys_of_mem hMem
    have hChild :
        (⟨type.typeId, isGlobal⟩ : ImportedModEntry) ∈
          ScopeStore.importedMods scope := by
      cases isGlobal with
      | false =>
          apply
            (hScope.mem_importedMods_named hTypes hType).mpr
          refine ⟨hOldName, ?_⟩
          intro hGlobal
          exact hSpare ⟨type.modId, rfl, hGlobal⟩
      | true =>
          exact
            (hScope.mem_importedMods_global hTypes hType).mpr
              hOldName
    exact
      AssocList.mem_keys.mp
        (hCopy.done _ (hDone type hType isGlobal hChild))
  · rcases hIs with ⟨type, hType, hIs⟩
    have hChild :=
      (hScope.mem_importedMods_global hTypes hType).mpr
        hIs.holder
    have hHolder :=
      hCopy.done _ (hDone type hType true hChild)
    rcases hIs.origin with ⟨origin, hOrigin, _⟩
    rcases hCopy.imported.complete type hType hHolder _
        (mem_publicHandles.mpr ⟨hOrigin, hIs.isPublic⟩) with
      ⟨handle, hIn, _⟩
    exact ⟨handle, hIn⟩

/- The copy tells of each name what the old scope tells. -/
theorem find_info
    (hCopy : Copied types scope copy done)
    (hDone : IsDone types scope done)
    (hScope : Imported types scope)
    (hTypes : SealedTypes types)
    {name : String}
    (hSpare : ¬ scope.IsSpareHolder name) :
    (copy.find name).map FieldHandle.info =
      (scope.find name).map
        (fun handle => handle.info.asAlias) := by
  unfold NameScope.find
  cases hFind : scope.handles.lookup name with
  | none =>
      have hNone : copy.handles.lookup name = none := by
        apply AssocList.lookup_eq_none.mpr
        intro hMem
        rcases AssocList.mem_keys.mp hMem with ⟨handle, hIn⟩
        rcases (hCopy.info_of_mem hScope hTypes hIn).2 with
          ⟨old, hOld, _⟩
        exact
          AssocList.lookup_eq_none.mp hFind
            (AssocList.mem_keys_of_mem hOld)
      rw [hNone]
      rfl
  | some old =>
      have hOld := AssocList.mem_of_lookup hFind
      rcases
          hCopy.exists_of_mem hDone hScope hTypes hOld hSpare
        with ⟨handle, hIn⟩
      rcases (hCopy.info_of_mem hScope hTypes hIn).2 with
        ⟨found, hFound, hInfo⟩
      rw [hCopy.imported.distinct.lookup_eq_some.mpr hIn,
        Option.map_some, Option.map_some, hInfo,
        hScope.distinct.eq_of_mem hFound hOld]

theorem find_spare
    (hCopy : Copied types scope copy done)
    (hScope : Imported types scope)
    (hTypes : SealedTypes types)
    {name : String}
    (hSpare : scope.IsSpareHolder name) :
    copy.find name = none := by
  apply AssocList.lookup_eq_none.mpr
  intro hMem
  rcases AssocList.mem_keys.mp hMem with ⟨handle, hIn⟩
  exact (hCopy.info_of_mem hScope hTypes hIn).1 hSpare

end Copied

end Scope

end Ydsh
