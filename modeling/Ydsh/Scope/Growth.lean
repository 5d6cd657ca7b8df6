import Ydsh.Scope.NameScope

/-
  How the names of a scope grow.

  Every registration puts its names at the end of one scope and
  numbers them in that order, so the names that were there at a
  discard point are the first ones.

  Main declarations:
    * `NameScope.Contiguous`
    * `NameScope.discard_handles`
    * `GrowsAt`
    * `ScopeStore.defineHandle_growsAt`
    * `ScopeStore.importForeignHandles_aliasesAt`
-/

----
-- Numbered Names
----

namespace Ydsh

namespace Scope

namespace HandleMap

def commitIds (handles : HandleMap) : List Nat :=
  handles.map (fun entry => entry.2.commitId)

/- Of names numbered from `start`, the first ones. -/
theorem filter_eq_take
    {handles : HandleMap}
    {start : Nat}
    (count : Nat)
    (hIds :
      commitIds handles = List.range' start handles.length) :
    handles.filter
        (fun entry => entry.2.commitId < start + count) =
      handles.take count := by
  induction handles generalizing start count with
  | nil => simp
  | cons entry handles ih =>
      rw [commitIds, List.map_cons, List.length_cons,
        List.range'_succ] at hIds
      rcases List.cons_eq_cons.mp hIds with ⟨hHead, hTail⟩
      cases count with
      | zero =>
          have hRest :=
            ih 0
              (show commitIds handles =
                List.range' (start + 1) handles.length from
                hTail)
          rw [Nat.add_zero, List.take_zero] at hRest ⊢
          rw [List.filter_cons, hHead,
            if_neg (by simp)]
          apply List.filter_eq_nil_iff.mpr
          intro found hMem hLt
          rw [List.filter_eq_nil_iff] at hRest
          apply hRest found hMem
          exact
            decide_eq_true
              (Nat.lt_succ_of_lt (of_decide_eq_true hLt))
      | succ count =>
          have hRest :=
            ih count
              (show commitIds handles =
                List.range' (start + 1) handles.length from
                hTail)
          have hShift :
              start + 1 + count = start + (count + 1) := by
            omega
          rw [hShift] at hRest
          rw [List.filter_cons, hHead,
            if_pos (decide_eq_true (by omega)), hRest,
            List.take_succ_cons]

end HandleMap

namespace NameScope

/- The numbers of the names of a scope are 0 to n - 1. -/
def Contiguous (scope : NameScope) : Prop :=
  HandleMap.commitIds scope.handles =
    List.range scope.handles.length

theorem discard_handles
    {scope : NameScope}
    (hIds : scope.Contiguous)
    (commitIdOffset : Nat) :
    (scope.discard commitIdOffset).handles =
      scope.handles.take commitIdOffset := by
  have hFilter :
      (scope.discard commitIdOffset).handles =
        scope.handles.filter
          (fun entry =>
            entry.2.commitId < commitIdOffset) := by
    simp only [discard]
    split_ifs <;> rfl
  rw [Contiguous, List.range_eq_range'] at hIds
  have hTake := HandleMap.filter_eq_take commitIdOffset hIds
  rw [Nat.zero_add] at hTake
  rw [hFilter, hTake]

theorem Contiguous.discard
    {scope : NameScope}
    (hIds : scope.Contiguous)
    (commitIdOffset : Nat) :
    (scope.discard commitIdOffset).Contiguous := by
  rw [Contiguous, discard_handles hIds, HandleMap.commitIds,
    List.map_take, ← HandleMap.commitIds, hIds,
    List.take_range, List.length_take]

end NameScope

/- What an alias has in common with its handle. -/
structure FieldHandle.SameTarget
    (handle other : FieldHandle) : Prop where
  typeId : other.typeId = handle.typeId
  index : other.index = handle.index
  isGlobal : other.attr.isGlobal = handle.attr.isGlobal
  origin : other.origin = handle.origin

----
-- Growth of One Scope
----

/- Names that all meet `P` are put at the end of `ref`. -/
structure GrowsAt
    (ref : ScopeRef)
    (P : FieldHandle → Prop)
    (store store' : ScopeStore) : Prop where
  size_eq : store'.size = store.size
  other :
    ∀ r, r ≠ ref →
      (store.scope r).SameNames (store'.scope r)
  self :
    ∃ news : HandleMap,
      ({ store.scope ref with
          handles := (store.scope ref).handles ++ news } :
        NameScope).SameNames (store'.scope ref) ∧
        (∀ entry ∈ news, P entry.2) ∧
        HandleMap.commitIds news =
          List.range' (store.scope ref).handles.length news.length

/- The names are aliases, so no variable is counted. -/
structure AliasesAt
    (ref : ScopeRef)
    (P : FieldHandle → Prop)
    (store store' : ScopeStore) : Prop where
  grows : GrowsAt ref P store store'
  gvarCount_eq : store'.gvarCount = store.gvarCount
  origins_eq : store'.origins = store.origins

namespace GrowsAt

variable {ref : ScopeRef}
variable {P Q : FieldHandle → Prop}
variable {store store' store'' : ScopeStore}

theorem refl (store : ScopeStore) :
    GrowsAt ref P store store := by
  constructor
  · rfl
  · intro r _
    exact .refl _
  · refine ⟨[], ?_, ?_, rfl⟩
    · rw [List.append_nil]
      exact .refl _
    · rintro entry ⟨⟩

theorem mono
    (hGrows : GrowsAt ref P store store')
    (hImp : ∀ handle, P handle → Q handle) :
    GrowsAt ref Q store store' := by
  rcases hGrows.self with ⟨news, hNames, hAll, hIds⟩
  exact
    ⟨hGrows.size_eq, hGrows.other, news, hNames,
      fun entry hMem => hImp entry.2 (hAll entry hMem), hIds⟩

theorem trans
    (hFirst : GrowsAt ref P store store')
    (hSecond : GrowsAt ref P store' store'') :
    GrowsAt ref P store store'' := by
  rcases hFirst.self with ⟨news, hNames, hAll, hIds⟩
  rcases hSecond.self with ⟨news', hNames', hAll', hIds'⟩
  have hHandles := hNames.handles
  simp only at hHandles
  constructor
  · exact hSecond.size_eq.trans hFirst.size_eq
  · intro r hNe
    exact (hFirst.other r hNe).trans (hSecond.other r hNe)
  · refine ⟨news ++ news', ?_, ?_, ?_⟩
    · constructor
      · exact hNames'.kind.trans hNames.kind
      · exact hNames'.modId.trans hNames.modId
      · exact hNames'.parent.trans hNames.parent
      · exact hNames'.maxVarCount.trans hNames.maxVarCount
      · rw [hNames'.handles, hHandles]
        exact List.append_assoc _ _ _
    · intro entry hMem
      rcases List.mem_append.mp hMem with hOld | hNew
      · exact hAll entry hOld
      · exact hAll' entry hNew
    · rw [hHandles, List.length_append] at hIds'
      rw [HandleMap.commitIds] at hIds hIds' ⊢
      rw [List.map_append, hIds, hIds', List.length_append,
        List.range'_append_1]

theorem contiguous
    (hGrows : GrowsAt ref P store store')
    (hIds : ∀ r, (store.scope r).Contiguous)
    (r : ScopeRef) :
    (store'.scope r).Contiguous := by
  by_cases hEq : r = ref
  · subst hEq
    rcases hGrows.self with ⟨news, hNames, _, hNew⟩
    have hOld := hIds r
    have hHandles := hNames.handles
    simp only at hHandles
    rw [NameScope.Contiguous, HandleMap.commitIds] at hOld ⊢
    rw [HandleMap.commitIds] at hNew
    rw [hHandles, List.map_append, hOld, hNew,
      List.length_append, List.range_eq_range',
      List.range_eq_range']
    have hAppend :
        List.range' 0 (store.scope r).handles.length ++
            List.range' (0 + (store.scope r).handles.length)
              news.length =
          List.range' 0
            ((store.scope r).handles.length + news.length) :=
      List.range'_append_1
    rw [Nat.zero_add] at hAppend
    exact hAppend
  · have hSame := (hGrows.other r hEq).handles
    have hOld := hIds r
    rw [NameScope.Contiguous, hSame]
    exact hOld

/- The names of all scopes keep their places. -/
theorem handles_prefix
    (hGrows : GrowsAt ref P store store')
    (r : ScopeRef) :
    (store.scope r).handles <+: (store'.scope r).handles := by
  by_cases hEq : r = ref
  · subst hEq
    rcases hGrows.self with ⟨news, hNames, _⟩
    rw [hNames.handles]
    exact List.prefix_append _ _
  · have hSame := (hGrows.other r hEq).handles
    simp only [hSame, List.prefix_refl]

/- A name is an old name of its scope or a new one of `ref`. -/
theorem mem_handles
    {r : ScopeRef}
    {entry : String × FieldHandle}
    (hGrows : GrowsAt ref P store store')
    (hMem : entry ∈ (store'.scope r).handles) :
    entry ∈ (store.scope r).handles ∨ r = ref ∧ P entry.2 := by
  by_cases hEq : r = ref
  · subst hEq
    rcases hGrows.self with ⟨news, hNames, hAll, _⟩
    rw [hNames.handles] at hMem
    rcases List.mem_append.mp hMem with hOld | hNew
    · exact .inl hOld
    · exact .inr ⟨rfl, hAll entry hNew⟩
  · rw [(hGrows.other r hEq).handles] at hMem
    exact .inl hMem

theorem frame
    (hGrows : GrowsAt ref P store store')
    (r : ScopeRef) :
    (store'.scope r).kind = (store.scope r).kind ∧
      (store'.scope r).modId = (store.scope r).modId ∧
      (store'.scope r).parent = (store.scope r).parent ∧
      (store'.scope r).maxVarCount =
        (store.scope r).maxVarCount := by
  by_cases hEq : r = ref
  · subst hEq
    rcases hGrows.self with ⟨_, hNames, _⟩
    exact
      ⟨hNames.kind, hNames.modId, hNames.parent,
        hNames.maxVarCount⟩
  · have hSame := hGrows.other r hEq
    exact
      ⟨hSame.kind, hSame.modId, hSame.parent,
        hSame.maxVarCount⟩

end GrowsAt

namespace AliasesAt

variable {ref : ScopeRef}
variable {P Q : FieldHandle → Prop}
variable {store store' store'' : ScopeStore}

theorem refl (store : ScopeStore) :
    AliasesAt ref P store store :=
  ⟨.refl store, rfl, rfl⟩

theorem mono
    (hAliases : AliasesAt ref P store store')
    (hImp : ∀ handle, P handle → Q handle) :
    AliasesAt ref Q store store' :=
  ⟨hAliases.grows.mono hImp, hAliases.gvarCount_eq,
    hAliases.origins_eq⟩

theorem trans
    (hFirst : AliasesAt ref P store store')
    (hSecond : AliasesAt ref P store' store'') :
    AliasesAt ref P store store'' :=
  ⟨hFirst.grows.trans hSecond.grows,
    hSecond.gvarCount_eq.trans hFirst.gvarCount_eq,
    hSecond.origins_eq.trans hFirst.origins_eq⟩

end AliasesAt

----
-- Registration of Names
----

namespace ScopeStore

variable {store store' : ScopeStore}
variable {ref : ScopeRef}
variable {name : String}
variable {handle handle' : FieldHandle}

theorem add_growsAt
    (hId : handle.commitId = (store.scope ref).commitId)
    (hAdd :
      store.add ref name handle = .ok (store', handle')) :
    GrowsAt ref (fun new => new = handle) store store' := by
  rcases add_eq_ok hAdd with ⟨_, _, _, hStore⟩
  subst hStore
  constructor
  · simp
  · intro r hNe
    have hCount :=
      countVar_sameNames
        (store.setScope ref
          { store.scope ref with
            handles :=
              (store.scope ref).handles ++ [(name, handle)] })
        ref handle.attr r
    rw [setScope_scope, if_neg hNe] at hCount
    exact hCount
  · refine ⟨[(name, handle)], ?_, ?_, ?_⟩
    · have hCount :=
        countVar_sameNames
          (store.setScope ref
            { store.scope ref with
              handles :=
                (store.scope ref).handles ++ [(name, handle)] })
          ref handle.attr ref
      rw [setScope_scope_self] at hCount
      exact hCount
    · intro entry hMem
      rw [List.mem_singleton.mp hMem]
    · rw [HandleMap.commitIds, List.map_singleton, hId]
      rfl

theorem add_alias_counts
    (hAlias : handle.attr.isAlias = true)
    (hAdd :
      store.add ref name handle = .ok (store', handle')) :
    store'.gvarCount = store.gvarCount ∧
      store'.origins = store.origins := by
  rcases add_eq_ok hAdd with ⟨_, _, _, hStore⟩
  subst hStore
  simp [countVar, hAlias]

theorem addNewAlias_aliasesAt
    (hAdd :
      store.addNewAlias ref name handle =
        .ok (store', handle')) :
    AliasesAt ref handle.SameTarget store store' := by
  have hCounts := add_alias_counts rfl hAdd
  refine ⟨(add_growsAt rfl hAdd).mono ?_, hCounts.1, hCounts.2⟩
  intro new hEq
  rw [hEq]
  exact ⟨rfl, rfl, rfl, rfl⟩

theorem addNewForeignHandle_aliasesAt
    (hAdd :
      store.addNewForeignHandle ref name handle =
        .ok (store', handle')) :
    AliasesAt ref handle.SameTarget store store' := by
  have hCounts := add_alias_counts rfl hAdd
  refine ⟨(add_growsAt rfl hAdd).mono ?_, hCounts.1, hCounts.2⟩
  intro new hEq
  rw [hEq]
  exact ⟨rfl, rfl, rfl, rfl⟩

theorem keep_aliasesAt
    {P : FieldHandle → Prop}
    {result :
      Except NameLookupError (ScopeStore × FieldHandle)}
    (hOk :
      ∀ store' handle,
        result = .ok (store', handle) →
          AliasesAt ref P store store') :
    AliasesAt ref P store (store.keep result) := by
  cases result with
  | error _ => exact .refl _
  | ok result => exact hOk result.1 result.2 rfl

theorem defineAlias_aliasesAt
    (hDefine :
      store.defineAlias ref name handle =
        .ok (store', handle')) :
    AliasesAt ref handle.SameTarget store store' := by
  rw [defineAlias] at hDefine
  split_ifs at hDefine
  exact addNewAlias_aliasesAt hDefine

theorem defineTypeAlias_aliasesAt
    {isTypeName : String → Bool}
    {typeId : Nat}
    (hDefine :
      store.defineTypeAlias isTypeName ref name typeId =
        .ok (store', handle')) :
    AliasesAt ref (typeAliasHandle typeId).SameTarget
      store store' := by
  rw [defineTypeAlias] at hDefine
  split_ifs at hDefine
  exact defineAlias_aliasesAt hDefine

/- The targets that a map of names gives access to. -/
def TargetOf
    (handleMap : HandleMap)
    (handle : FieldHandle) : Prop :=
  ∃ entry ∈ handleMap, entry.2.SameTarget handle

theorem TargetOf.cons
    {entry : String × FieldHandle}
    {handleMap : HandleMap}
    (hTarget : TargetOf handleMap handle) :
    TargetOf (entry :: handleMap) handle := by
  rcases hTarget with ⟨found, hMem, hSame⟩
  exact ⟨found, List.mem_cons_of_mem _ hMem, hSame⟩

theorem importHandles_aliasesAt
    (store : ScopeStore)
    (ref : ScopeRef)
    (handleMap : HandleMap) :
    AliasesAt ref (TargetOf handleMap) store
      (store.importHandles ref handleMap).1 := by
  fun_induction importHandles store ref handleMap with
  | case1 store => exact .refl _
  | case2 store name handle rest hPrivate ih =>
      exact ih.mono (fun _ hTarget => hTarget.cons)
  | case3 store name handle rest hPrivate store' _ hAdd ih =>
      have hFirst :=
        (addNewForeignHandle_aliasesAt hAdd).mono
          (Q := TargetOf ((name, handle) :: rest))
          (fun new hSame =>
            ⟨(name, handle), List.mem_cons_self, hSame⟩)
      exact
        hFirst.trans (ih.mono (fun _ hTarget => hTarget.cons))
  | case4 => exact .refl _

/- What importing a module gives access to. -/
def ImportTarget
    (type : ModType)
    (handle : FieldHandle) : Prop :=
  type.toHandle.SameTarget handle ∨
    TargetOf type.handleMap handle

theorem importForeignHandles_aliasesAt
    (store : ScopeStore)
    (ref : ScopeRef)
    (type : ModType)
    (isGlobal : Bool) :
    AliasesAt ref (ImportTarget type) store
      (store.importForeignHandles ref type isGlobal).1 := by
  have hHolder :
      AliasesAt ref (ImportTarget type) store
        (store.keep
          (store.addNewAlias ref
            (toModHolderName type.modId isGlobal)
            (type.toModHolder isGlobal))) := by
    apply keep_aliasesAt
    intro store' handle hAdd
    apply (addNewAlias_aliasesAt hAdd).mono
    intro new hSame
    apply Or.inl
    exact
      ⟨hSame.typeId, hSame.index, hSame.isGlobal,
        hSame.origin⟩
  simp only [importForeignHandles]
  split_ifs
  · exact .refl _
  · apply hHolder.trans
    apply (importHandles_aliasesAt _ _ _).mono
    intro new hTarget
    exact .inr hTarget
  · exact hHolder

theorem copyHandles_aliasesAt
    (store : ScopeStore)
    (ref : ScopeRef)
    (handleMap : HandleMap) :
    AliasesAt ref (TargetOf handleMap) store
      (store.copyHandles ref handleMap) := by
  induction handleMap generalizing store with
  | nil => exact .refl _
  | cons entry rest ih =>
      have hFirst :
          AliasesAt ref (TargetOf (entry :: rest)) store
            (store.keep
              (store.addNewAlias ref entry.1 entry.2)) := by
        apply keep_aliasesAt
        intro store' handle hAdd
        apply (addNewAlias_aliasesAt hAdd).mono
        intro new hSame
        exact ⟨entry, List.mem_cons_self, hSame⟩
      exact
        hFirst.trans
          ((ih _).mono (fun _ hTarget => hTarget.cons))

theorem importChildren_aliasesAt
    (store : ScopeStore)
    (ref : ScopeRef)
    (children : List (ModType × Bool)) :
    AliasesAt ref
      (fun handle =>
        ∃ child ∈ children, ImportTarget child.1 handle)
      store (store.importChildren ref children) := by
  induction children generalizing store with
  | nil => exact .refl _
  | cons child rest ih =>
      have hFirst :=
        (store.importForeignHandles_aliasesAt ref child.1
          child.2).mono
          (Q := fun handle =>
            ∃ found ∈ child :: rest,
              ImportTarget found.1 handle)
          (fun new hTarget =>
            ⟨child, List.mem_cons_self, hTarget⟩)
      apply hFirst.trans
      apply (ih _).mono
      rintro new ⟨found, hMem, hTarget⟩
      exact ⟨found, List.mem_cons_of_mem _ hMem, hTarget⟩

/-
  A definition makes a new variable; in a module it takes the
  next global index, in a block none.
-/
theorem defineHandle_growsAt
    {typeId : Nat}
    {attr : FieldAttribute}
    (hAttr : attr.isAlias = false)
    (hCount :
      (store.scope ref).isGlobal = true →
        (store.scope ref).maxVarCount = .gvarCount)
    (hBlock :
      (store.scope ref).isGlobal = false →
        (store.scope ref).maxVarCount ≠ .gvarCount)
    (hDefine :
      store.defineHandle ref name typeId attr =
        .ok (store', handle)) :
    GrowsAt ref (fun new => new = handle) store store' ∧
      handle.typeId = typeId ∧
      handle.origin = store.origins ∧
      store'.origins = store.origins + 1 ∧
      (handle.attr.isGlobal = true ∧
          handle.index = store.gvarCount ∧
          store'.gvarCount = store.gvarCount + 1 ∨
        handle.attr.isGlobal = false ∧
          store'.gvarCount = store.gvarCount) := by
  rcases defineHandle_eq_ok hDefine with
    ⟨hAdd, hNewAttr, hId, hType, _, hOrigin, hIndex⟩
  have hGrows :
      GrowsAt ref (fun new => new = handle)
        { store with origins := store.origins + 1 } store' :=
    add_growsAt hId hAdd
  rcases add_eq_ok hAdd with ⟨_, _, _, hStore⟩
  have hOrigins : store'.origins = store.origins + 1 := by
    rw [hStore]
    simp
  refine
    ⟨⟨hGrows.size_eq, hGrows.other, hGrows.self⟩, hType,
      hOrigin, hOrigins, ?_⟩
  have hAlias : handle.attr.isAlias = false := by
    rw [hNewAttr]
    exact hAttr
  cases hGlobal : (store.scope ref).isGlobal with
  | true =>
      have hFlag : handle.attr.isGlobal = true := by
        rw [hNewAttr]
        exact hGlobal
      apply Or.inl
      refine ⟨hFlag, ?_, ?_⟩
      · rw [hIndex, hGlobal, if_pos rfl, getMaxGlobalVarIndex,
          hCount hGlobal]
        rfl
      · rw [hStore]
        simp only [countVar, hAlias, hFlag, setScope_scope_self,
          hCount hGlobal, Bool.false_eq_true, if_false, if_true,
          setVarCount, varCount, setScope_gvarCount]
  | false =>
      have hFlag : handle.attr.isGlobal = false := by
        rw [hNewAttr]
        exact hGlobal
      apply Or.inr
      refine ⟨hFlag, ?_⟩
      have hNe := hBlock hGlobal
      rw [hStore]
      simp only [countVar, hAlias, hFlag, setScope_scope_self,
        Bool.false_eq_true, if_false]
      cases hRef : (store.scope ref).maxVarCount with
      | gvarCount => exact absurd hRef hNe
      | localIndex unit =>
          split_ifs <;> simp [setVarCount]

end ScopeStore

end Scope

end Ydsh
