import Ydsh.Scope.Growth
import Ydsh.Scope.Session
import Ydsh.Type.PoolDiscard

/-
  What the names of a scope refer to.

  A global name refers to a global variable by its index, and a
  module type to its module object.  A variable is known by its
  origin, and `own` says which origin has an index.  Whatever
  a compilation adds keeps the indices apart and refers to
  types that are there.

  Main declarations:
    * `Extent`
    * `HandleValid`
    * `ModTypeValid`
    * `Changes`
    * `SymbolState.Grows`
    * `SymbolState.createModType_grows`
-/

----
-- Valid Handles
----

namespace Ydsh

namespace Scope

open Pool

/- The origins of the global variables and the two counters. -/
structure Extent where
  own : Nat → Nat
  gvarCount : Nat
  typeCount : Nat

namespace Extent

structure Le (e e' : Extent) : Prop where
  gvarCount_le : e.gvarCount ≤ e'.gvarCount
  typeCount_le : e.typeCount ≤ e'.typeCount
  own_eq : ∀ index < e.gvarCount, e'.own index = e.own index

theorem Le.refl (e : Extent) : e.Le e :=
  ⟨Nat.le_refl _, Nat.le_refl _, fun _ _ => rfl⟩

theorem Le.trans
    {e e' e'' : Extent}
    (hFirst : e.Le e')
    (hSecond : e'.Le e'') :
    e.Le e'' := by
  constructor
  · exact
      Nat.le_trans hFirst.gvarCount_le hSecond.gvarCount_le
  · exact
      Nat.le_trans hFirst.typeCount_le hSecond.typeCount_le
  · intro index hLt
    have hLater :=
      hSecond.own_eq index
        (Nat.lt_of_lt_of_le hLt hFirst.gvarCount_le)
    exact hLater.trans (hFirst.own_eq index hLt)

end Extent

structure HandleValid
    (e : Extent)
    (handle : FieldHandle) : Prop where
  typeId_lt : handle.typeId < e.typeCount
  index_lt :
    handle.attr.isGlobal = true → handle.index < e.gvarCount
  origin_eq :
    handle.attr.isGlobal = true →
      handle.origin = e.own handle.index

theorem HandleValid.mono
    {e e' : Extent}
    {handle : FieldHandle}
    (hLe : e.Le e')
    (hValid : HandleValid e handle) :
    HandleValid e' handle := by
  constructor
  · exact Nat.lt_of_lt_of_le hValid.typeId_lt hLe.typeCount_le
  · intro hGlobal
    exact
      Nat.lt_of_lt_of_le (hValid.index_lt hGlobal)
        hLe.gvarCount_le
  · intro hGlobal
    rw [hLe.own_eq _ (hValid.index_lt hGlobal)]
    exact hValid.origin_eq hGlobal

/- An alias refers to what its handle refers to. -/
theorem HandleValid.sameTarget
    {e : Extent}
    {handle other : FieldHandle}
    (hValid : HandleValid e handle)
    (hSame : handle.SameTarget other) :
    HandleValid e other := by
  constructor
  · rw [hSame.typeId]
    exact hValid.typeId_lt
  · rw [hSame.isGlobal, hSame.index]
    exact hValid.index_lt
  · rw [hSame.isGlobal, hSame.index, hSame.origin]
    exact hValid.origin_eq

structure ModTypeValid
    (e : Extent)
    (type : ModType) : Prop where
  typeId_lt : type.typeId < e.typeCount
  index_lt : type.index < e.gvarCount
  origin_eq : type.origin = e.own type.index
  handles : ∀ entry ∈ type.handleMap, HandleValid e entry.2

theorem ModTypeValid.mono
    {e e' : Extent}
    {type : ModType}
    (hLe : e.Le e')
    (hValid : ModTypeValid e type) :
    ModTypeValid e' type := by
  constructor
  · exact Nat.lt_of_lt_of_le hValid.typeId_lt hLe.typeCount_le
  · exact Nat.lt_of_lt_of_le hValid.index_lt hLe.gvarCount_le
  · rw [hLe.own_eq _ hValid.index_lt]
    exact hValid.origin_eq
  · intro entry hMem
    exact (hValid.handles entry hMem).mono hLe

theorem ModTypeValid.toHandle
    {e : Extent}
    {type : ModType}
    (hValid : ModTypeValid e type) :
    HandleValid e type.toHandle :=
  ⟨hValid.typeId_lt, fun _ => hValid.index_lt,
    fun _ => hValid.origin_eq⟩

/- Importing a valid module gives valid names. -/
theorem ModTypeValid.importTarget
    {e : Extent}
    {type : ModType}
    {handle : FieldHandle}
    (hValid : ModTypeValid e type)
    (hTarget : ScopeStore.ImportTarget type handle) :
    HandleValid e handle := by
  rcases hTarget with hModule | ⟨entry, hMem, hSame⟩
  · exact hValid.toHandle.sameTarget hModule
  · exact (hValid.handles entry hMem).sameTarget hSame

/- Different variables have different indices. -/
structure Numbered
    (own : Nat → Nat)
    (gvarCount origins : Nat) : Prop where
  origin_lt : ∀ index < gvarCount, own index < origins
  inj :
    ∀ index < gvarCount, ∀ index' < gvarCount,
      own index = own index' → index = index'

theorem Numbered.mono
    {own : Nat → Nat}
    {gvarCount gvarCount' origins origins' : Nat}
    (hNumbered : Numbered own gvarCount origins)
    (hCount : gvarCount' ≤ gvarCount)
    (hOrigins : origins ≤ origins') :
    Numbered own gvarCount' origins' := by
  constructor
  · intro index hLt
    exact
      Nat.lt_of_lt_of_le
        (hNumbered.origin_lt index
          (Nat.lt_of_lt_of_le hLt hCount))
        hOrigins
  · intro index hLt index' hLt'
    exact
      hNumbered.inj index (Nat.lt_of_lt_of_le hLt hCount)
        index' (Nat.lt_of_lt_of_le hLt' hCount)

/- The next index goes to the next origin. -/
theorem Numbered.next
    {own : Nat → Nat}
    {gvarCount origins : Nat}
    (hNumbered : Numbered own gvarCount origins) :
    Numbered (Function.update own gvarCount origins)
      (gvarCount + 1) (origins + 1) := by
  have hOld :
      ∀ index < gvarCount,
        Function.update own gvarCount origins index =
          own index :=
    fun index hLt =>
      Function.update_of_ne (Nat.ne_of_lt hLt) _ _
  have hNew :
      Function.update own gvarCount origins gvarCount =
        origins :=
    Function.update_self _ _ _
  constructor
  · intro index hLt
    rcases Nat.lt_succ_iff_lt_or_eq.mp hLt with hLess | hEq
    · rw [hOld index hLess]
      exact Nat.lt_succ_of_lt (hNumbered.origin_lt index hLess)
    · rw [hEq, hNew]
      exact Nat.lt_succ_self _
  · intro index hLt index' hLt' hEq
    rcases Nat.lt_succ_iff_lt_or_eq.mp hLt with hLess | hLast
    · rcases Nat.lt_succ_iff_lt_or_eq.mp hLt' with
        hLess' | hLast'
      · rw [hOld index hLess, hOld index' hLess'] at hEq
        exact hNumbered.inj index hLess index' hLess' hEq
      · rw [hOld index hLess, hLast', hNew] at hEq
        have hOrigin := hNumbered.origin_lt index hLess
        omega
    · rcases Nat.lt_succ_iff_lt_or_eq.mp hLt' with
        hLess' | hLast'
      · rw [hLast, hNew, hOld index' hLess'] at hEq
        have hOrigin := hNumbered.origin_lt index' hLess'
        omega
      · rw [hLast, hLast']

----
-- Changes of the Store
----

namespace NameScope

/- Only the scopes of a function's blocks count locally. -/
def Counted (scope : NameScope) : Prop :=
  scope.kind = .block ↔ scope.maxVarCount ≠ .gvarCount

end NameScope

/-
  Scopes are made, and of the old scopes those in `R` get new
  names.  The new names meet `P`.
-/
structure Changes
    (R : ScopeRef → Prop)
    (P : FieldHandle → Prop)
    (store store' : ScopeStore) : Prop where
  size_le : store.size ≤ store'.size
  frame :
    ∀ r < store.size,
      (store'.scope r).kind = (store.scope r).kind ∧
        (store'.scope r).modId = (store.scope r).modId ∧
        (store'.scope r).parent = (store.scope r).parent
  handles_prefix :
    ∀ r < store.size,
      (store.scope r).handles <+: (store'.scope r).handles
  other :
    ∀ r < store.size, ¬R r →
      (store'.scope r).handles = (store.scope r).handles
  mem_handles :
    ∀ r < store'.size,
      ∀ entry ∈ (store'.scope r).handles,
        r < store.size ∧ entry ∈ (store.scope r).handles ∨
          P entry.2
  parent :
    ∀ r, store.size ≤ r → r < store'.size →
      ∀ p, (store'.scope r).parent = some p →
        (R p ∨ store.size ≤ p) ∧ p < store'.size
  contiguous :
    (∀ r, (store.scope r).Contiguous) →
      ∀ r, (store'.scope r).Contiguous
  counted :
    (∀ r, (store.scope r).Counted) →
      ∀ r, (store'.scope r).Counted

namespace Changes

variable {R R' : ScopeRef → Prop}
variable {P Q : FieldHandle → Prop}
variable {store store' store'' : ScopeStore}

theorem refl (store : ScopeStore) :
    Changes R P store store := by
  constructor
  · exact Nat.le_refl _
  · intro r _
    exact ⟨rfl, rfl, rfl⟩
  · intro r _
    exact List.prefix_refl _
  · intro r _ _
    rfl
  · intro r hLt entry hMem
    exact .inl ⟨hLt, hMem⟩
  · intro r hLe hLt
    omega
  · exact id
  · exact id

theorem mono
    (hChanges : Changes R P store store')
    (hImp : ∀ handle, P handle → Q handle) :
    Changes R Q store store' := by
  constructor
  · exact hChanges.size_le
  · exact hChanges.frame
  · exact hChanges.handles_prefix
  · exact hChanges.other
  · intro r hLt entry hMem
    rcases hChanges.mem_handles r hLt entry hMem with
      hOld | hNew
    · exact .inl hOld
    · exact .inr (hImp entry.2 hNew)
  · exact hChanges.parent
  · exact hChanges.contiguous
  · exact hChanges.counted

/- `R'` may grow by scopes that were not there at first. -/
theorem trans
    (hFirst : Changes R P store store')
    (hSecond : Changes R' Q store' store'')
    (hOpen : ∀ r, R' r → R r ∨ store.size ≤ r) :
    Changes R (fun handle => P handle ∨ Q handle)
      store store'' := by
  have hSize := hFirst.size_le
  have hSize' := hSecond.size_le
  constructor
  · exact Nat.le_trans hSize hSize'
  · intro r hLt
    have hOld := hFirst.frame r hLt
    have hNew := hSecond.frame r (Nat.lt_of_lt_of_le hLt hSize)
    exact
      ⟨hNew.1.trans hOld.1, hNew.2.1.trans hOld.2.1,
        hNew.2.2.trans hOld.2.2⟩
  · intro r hLt
    exact
      (hFirst.handles_prefix r hLt).trans
        (hSecond.handles_prefix r
          (Nat.lt_of_lt_of_le hLt hSize))
  · intro r hLt hNot
    have hNot' : ¬R' r := by
      intro hIn
      rcases hOpen r hIn with hR | hLe
      · exact hNot hR
      · omega
    rw [hSecond.other r (Nat.lt_of_lt_of_le hLt hSize) hNot']
    exact hFirst.other r hLt hNot
  · intro r hLt entry hMem
    rcases hSecond.mem_handles r hLt entry hMem with
      ⟨hLt', hMid⟩ | hNew
    · rcases hFirst.mem_handles r hLt' entry hMid with
        hOld | hNew
      · exact .inl hOld
      · exact .inr (.inl hNew)
    · exact .inr (.inr hNew)
  · intro r hLe hLt p hParent
    by_cases hOld : r < store'.size
    · rw [(hSecond.frame r hOld).2.2] at hParent
      rcases hFirst.parent r hLe hOld p hParent with
        ⟨hIn, hBound⟩
      exact ⟨hIn, Nat.lt_of_lt_of_le hBound hSize'⟩
    · rcases hSecond.parent r (Nat.not_lt.mp hOld) hLt p
        hParent with ⟨hIn | hAfter, hBound⟩
      · exact ⟨hOpen p hIn, hBound⟩
      · exact ⟨.inr (Nat.le_trans hSize hAfter), hBound⟩
  · intro hIds
    exact hSecond.contiguous (hFirst.contiguous hIds)
  · intro hCounts
    exact hSecond.counted (hFirst.counted hCounts)

end Changes

theorem GrowsAt.changes
    {ref : ScopeRef}
    {P : FieldHandle → Prop}
    {store store' : ScopeStore}
    (hGrows : GrowsAt ref P store store') :
    Changes (fun r => r = ref) P store store' := by
  have hSize := hGrows.size_eq
  constructor
  · exact Nat.le_of_eq hSize.symm
  · intro r _
    have hFrame := hGrows.frame r
    exact ⟨hFrame.1, hFrame.2.1, hFrame.2.2.1⟩
  · intro r _
    exact hGrows.handles_prefix r
  · intro r _ hNe
    exact (hGrows.other r hNe).handles
  · intro r hLt entry hMem
    rw [hSize] at hLt
    rcases hGrows.mem_handles hMem with hOld | ⟨_, hNew⟩
    · exact .inl ⟨hLt, hOld⟩
    · exact .inr hNew
  · intro r hLe hLt
    omega
  · exact hGrows.contiguous
  · intro hCounts r
    have hFrame := hGrows.frame r
    rw [NameScope.Counted, hFrame.1, hFrame.2.2.2]
    exact hCounts r

namespace ScopeStore

variable {store store' : ScopeStore}
variable {ref ref' : ScopeRef}
variable {P : FieldHandle → Prop}

/- A new scope has no names, and its parent may be `ref`. -/
theorem alloc_changes
    {R : ScopeRef → Prop}
    {scope : NameScope}
    (hHandles : scope.handles = [])
    (hParent :
      ∀ p, scope.parent = some p → R p ∧ p < store.size)
    (hCounted :
      (∀ r, (store.scope r).Counted) → scope.Counted) :
    Changes R P store (store.alloc scope).1 := by
  have hOld :
      ∀ r < store.size,
        (store.alloc scope).1.scope r = store.scope r := by
    intro r hLt
    exact
      (setScope_scope store store.size r scope).trans
        (if_neg (Nat.ne_of_lt hLt))
  have hNew : (store.alloc scope).1.scope store.size = scope :=
    setScope_scope_self _ _ _
  have hAll :
      ∀ Q : NameScope → Prop,
        (∀ r, Q (store.scope r)) → Q scope →
          ∀ r, Q ((store.alloc scope).1.scope r) := by
    intro Q hBefore hScope r
    have hEq :
        (store.alloc scope).1.scope r =
          if r = store.size then scope else store.scope r :=
      setScope_scope store store.size r scope
    rw [hEq]
    split_ifs
    · exact hScope
    · exact hBefore r
  constructor
  · exact Nat.le_succ _
  · intro r hLt
    rw [hOld r hLt]
    exact ⟨rfl, rfl, rfl⟩
  · intro r hLt
    simp only [hOld r hLt, List.prefix_refl]
  · intro r hLt _
    rw [hOld r hLt]
  · intro r hLt entry hMem
    rcases Nat.lt_succ_iff_lt_or_eq.mp hLt with hLess | hEq
    · rw [hOld r hLess] at hMem
      exact .inl ⟨hLess, hMem⟩
    · rw [hEq, hNew, hHandles] at hMem
      cases hMem
  · intro r hLe hLt p hPar
    have hEq : r = store.size :=
      Nat.le_antisymm (Nat.le_of_lt_succ hLt) hLe
    rw [hEq, hNew] at hPar
    rcases hParent p hPar with ⟨hIn, hBound⟩
    exact ⟨.inl hIn, Nat.lt_succ_of_lt hBound⟩
  · intro hIds
    apply hAll NameScope.Contiguous hIds
    rw [NameScope.Contiguous, hHandles]
    rfl
  · intro hCounts
    exact hAll NameScope.Counted hCounts (hCounted hCounts)

theorem newModScope_changes
    {R : ScopeRef → Prop}
    (modId : Nat) :
    Changes R P store (store.newModScope modId).1 := by
  apply alloc_changes
  · rfl
  · rintro p ⟨⟩
  · intro _
    simp [NameScope.Counted]

/- The scope that is entered comes right after the others. -/
theorem enterScope_changes
    {newKind : ScopeKind}
    (hLt : ref < store.size)
    (hEnter :
      store.enterScope ref newKind = some (store', ref')) :
    Changes (fun r => r = ref) P store store' ∧
      ref' = store.size ∧ store'.size = store.size + 1 ∧
      store'.gvarCount = store.gvarCount ∧
      store'.origins = store.origins := by
  have hAlloc :
      ∃ maxVarCount curLocalIndex,
        (store', ref') =
            store.alloc
              { kind := newKind
                modId := (store.scope ref).modId
                parent := some ref
                curLocalIndex := curLocalIndex
                localSize := 0
                maxVarCount := maxVarCount
                handles := [] } ∧
          ((store.scope ref).Counted →
            (newKind = .block ↔ maxVarCount ≠ .gvarCount)) := by
    cases hKind : (store.scope ref).kind <;> cases newKind <;>
      simp only [enterScope, hKind] at hEnter <;>
      cases hEnter <;>
      refine ⟨_, _, rfl, ?_⟩ <;>
      simp [NameScope.Counted, hKind]
  rcases hAlloc with ⟨maxVarCount, index, hEq, hCounted⟩
  cases hEq
  refine ⟨?_, rfl, rfl, rfl, rfl⟩
  apply alloc_changes
  · rfl
  · rintro p ⟨⟩
    exact ⟨rfl, hLt⟩
  · intro hCounts
    exact hCounted (hCounts ref)

theorem clearLocalSize_changes
    {R : ScopeRef → Prop}
    (ref : ScopeRef) :
    Changes R P store (store.clearLocalSize ref) := by
  have hSame :
      ∀ r,
        (store.scope r).SameNames
          ((store.clearLocalSize ref).scope r) := by
    intro r
    rw [clearLocalSize, setScope_scope]
    split_ifs with hEq
    · rw [hEq]
      exact ⟨rfl, rfl, rfl, rfl, rfl⟩
    · exact .refl _
  constructor
  · exact Nat.le_refl _
  · intro r _
    exact ⟨(hSame r).kind, (hSame r).modId, (hSame r).parent⟩
  · intro r _
    simp only [(hSame r).handles, List.prefix_refl]
  · intro r _ _
    exact (hSame r).handles
  · intro r hLt entry hMem
    rw [(hSame r).handles] at hMem
    exact .inl ⟨hLt, hMem⟩
  · intro r hLe hLt
    have hLt' : r < store.size := hLt
    omega
  · intro hIds r
    rw [NameScope.Contiguous, (hSame r).handles]
    exact hIds r
  · intro hCounts r
    rw [NameScope.Counted, (hSame r).kind,
      (hSame r).maxVarCount]
    exact hCounts r

/- A name that is found is in a scope around `ref`. -/
theorem lookupWithin_mem
    {L : ScopeRef → Prop}
    {name : String}
    {handle : FieldHandle}
    {limit : Nat}
    (hClosed :
      ∀ r p, L r → (store.scope r).parent = some p → L p)
    (hRef : L ref)
    (hLookup :
      store.lookupWithin name limit ref = some handle) :
    ∃ r, L r ∧ (name, handle) ∈ (store.scope r).handles := by
  induction limit generalizing ref with
  | zero => cases hLookup
  | succ limit ih =>
      rw [lookupWithin] at hLookup
      cases hFind : (store.scope ref).find name with
      | some found =>
          rw [hFind] at hLookup
          cases hLookup
          rcases List.lookup_eq_some_iff.mp hFind with
            ⟨before, after, hEq, _⟩
          refine ⟨ref, hRef, ?_⟩
          rw [hEq]
          simp
      | none =>
          rw [hFind] at hLookup
          cases hParent : (store.scope ref).parent with
          | none =>
              simp only [hParent] at hLookup
              cases hLookup
          | some parent =>
              simp only [hParent] at hLookup
              exact ih (hClosed ref parent hRef hParent) hLookup

end ScopeStore

----
-- Growth of the Symbols
----

namespace SymbolState

def extent (s : SymbolState) (own : Nat → Nat) : Extent :=
  ⟨own, s.store.gvarCount, s.pool.size⟩

/- The names of the scopes in `live` are valid. -/
structure Sound
    (own : Nat → Nat)
    (live : ScopeRef → Prop)
    (s : SymbolState) : Prop where
  pool : s.pool.WellFormed
  predefined : s.pool.HasPredefined
  contiguous : ∀ r, (s.store.scope r).Contiguous
  counted : ∀ r, (s.store.scope r).Counted
  handles :
    ∀ r, live r →
      ∀ entry ∈ (s.store.scope r).handles,
        HandleValid (s.extent own) entry.2
  modules :
    ∀ type ∈ s.pool.typeTable, ∀ module,
      type.shape = .module module →
        ModTypeValid (s.extent own) module
  numbered : Numbered own s.store.gvarCount s.store.origins

/- Scopes in `R` get names, and what is new is valid. -/
structure Grows
    (own own' : Nat → Nat)
    (R : ScopeRef → Prop)
    (s s' : SymbolState) : Prop where
  store :
    Changes R (HandleValid (s'.extent own')) s.store s'.store
  extent_le : (s.extent own).Le (s'.extent own')
  origins_le : s.store.origins ≤ s'.store.origins
  numbered :
    Numbered own' s'.store.gvarCount s'.store.origins
  pool : s'.pool.WellFormed
  modules :
    ∀ type ∈ s'.pool.typeTable, ∀ module,
      type.shape = .module module →
        type ∈ s.pool.typeTable ∨
          ModTypeValid (s'.extent own') module
  since :
    ∀ base, TypePool.Since base s.pool →
      TypePool.Since base s'.pool
  loader_le : s.loader.length ≤ s'.loader.length

variable {own own' own'' : Nat → Nat}
variable {live live' R R' : ScopeRef → Prop}
variable {s s' s'' : SymbolState}

namespace Sound

variable (hSound : Sound own live s)

include hSound

theorem mono
    (hLive : ∀ r, live' r → live r) :
    Sound own live' s :=
  ⟨hSound.pool, hSound.predefined, hSound.contiguous,
    hSound.counted, fun r hIn => hSound.handles r (hLive r hIn),
    hSound.modules, hSound.numbered⟩

theorem modType_valid
    {typeId : TypeId}
    {type : ModType}
    (hType : s.modType typeId = some type) :
    ModTypeValid (s.extent own) type := by
  rw [modType, TypePool.get, List.getD_eq_getElem?_getD] at hType
  cases hFound : s.pool.typeTable[typeId]? with
  | none =>
      rw [hFound] at hType
      cases hType
  | some found =>
      rw [hFound] at hType
      apply
        hSound.modules found (List.mem_of_getElem? hFound) type
      cases hShape : found.shape with
      | module module =>
          simp only [Option.getD_some, hShape] at hType
          cases hType
          rfl
      | builtin
      | reified template elementTypes
      | function returnType paramTypes =>
          simp only [Option.getD_some, hShape] at hType
          cases hType

theorem getBuiltinModType_valid
    {type : ModType}
    (hType : s.getBuiltinModType = some type) :
    ModTypeValid (s.extent own) type := by
  rcases Option.bind_eq_some_iff.mp hType with
    ⟨typeId, _, hModule⟩
  exact hSound.modType_valid hModule

theorem children_valid
    {type : ModType} :
    ∀ child ∈ s.children type,
      ModTypeValid (s.extent own) child.1 := by
  intro child hMem
  rcases List.mem_filterMap.mp hMem with ⟨entry, _, hEntry⟩
  rcases Option.map_eq_some_iff.mp hEntry with
    ⟨found, hFound, hEq⟩
  rw [← hEq]
  exact hSound.modType_valid hFound

/- What grows from a sound state is sound. -/
theorem grows
    (hGrows : Grows own own' R s s')
    (hBound : ∀ r, live' r → r < s'.store.size)
    (hLive : ∀ r, live' r → r < s.store.size → live r) :
    Sound own' live' s' := by
  constructor
  · exact hGrows.pool
  · exact
      Nat.lt_of_lt_of_le hSound.predefined
        hGrows.extent_le.typeCount_le
  · exact hGrows.store.contiguous hSound.contiguous
  · exact hGrows.store.counted hSound.counted
  · intro r hIn entry hMem
    rcases hGrows.store.mem_handles r (hBound r hIn) entry hMem
      with ⟨hLt, hOld⟩ | hNew
    · have hValid :=
        hSound.handles r (hLive r hIn hLt) entry hOld
      exact hValid.mono hGrows.extent_le
    · exact hNew
  · intro type hMem module hShape
    rcases hGrows.modules type hMem module hShape with
      hOld | hNew
    · have hValid := hSound.modules type hOld module hShape
      exact hValid.mono hGrows.extent_le
    · exact hNew
  · exact hGrows.numbered

end Sound

namespace Grows

theorem refl (hSound : Sound own live s) :
    Grows own own R s s := by
  constructor
  · exact .refl _
  · exact .refl _
  · exact Nat.le_refl _
  · exact hSound.numbered
  · exact hSound.pool
  · intro type hMem module _
    exact .inl hMem
  · intro base
    exact id
  · exact Nat.le_refl _

theorem trans
    (hFirst : Grows own own' R s s')
    (hSecond : Grows own' own'' R' s' s'')
    (hOpen : ∀ r, R' r → R r ∨ s.store.size ≤ r) :
    Grows own own'' R s s'' := by
  constructor
  · apply (hFirst.store.trans hSecond.store hOpen).mono
    intro handle hValid
    rcases hValid with hOld | hNew
    · exact hOld.mono hSecond.extent_le
    · exact hNew
  · exact hFirst.extent_le.trans hSecond.extent_le
  · exact Nat.le_trans hFirst.origins_le hSecond.origins_le
  · exact hSecond.numbered
  · exact hSecond.pool
  · intro type hMem module hShape
    rcases hSecond.modules type hMem module hShape with
      hMid | hNew
    · rcases hFirst.modules type hMid module hShape with
        hOld | hNew
      · exact .inl hOld
      · exact .inr (hNew.mono hSecond.extent_le)
    · exact .inr hNew
  · intro base hSince
    exact hSecond.since base (hFirst.since base hSince)
  · exact Nat.le_trans hFirst.loader_le hSecond.loader_le

end Grows

----
-- What Makes the Symbols Grow
----

section

variable (hSound : Sound own live s)

include hSound

/- The store changes, no variable is made. -/
theorem changes_grows
    {store : ScopeStore}
    (hChanges :
      Changes R (HandleValid (s.extent own)) s.store store)
    (hCount : store.gvarCount = s.store.gvarCount)
    (hOrigins : store.origins = s.store.origins) :
    Grows own own R s { s with store := store } := by
  have hExtent :
      ({ s with store := store } : SymbolState).extent own =
        s.extent own := by
    rw [extent, extent, hCount]
  constructor
  · rw [hExtent]
    exact hChanges
  · rw [hExtent]
    exact .refl _
  · exact Nat.le_of_eq hOrigins.symm
  · rw [hCount, hOrigins]
    exact hSound.numbered
  · exact hSound.pool
  · intro type hMem module _
    exact .inl hMem
  · intro base
    exact id
  · exact Nat.le_refl _

theorem aliases_grows
    {ref : ScopeRef}
    {P : FieldHandle → Prop}
    {store : ScopeStore}
    (hAliases : AliasesAt ref P s.store store)
    (hValid :
      ∀ handle, P handle → HandleValid (s.extent own) handle) :
    Grows own own (fun r => r = ref) s
      { s with store := store } := by
  apply changes_grows hSound
  · exact hAliases.grows.changes.mono hValid
  · exact hAliases.gvarCount_eq
  · exact hAliases.origins_eq

theorem importForeignHandles_grows
    {ref : ScopeRef}
    {type : ModType}
    {isGlobal : Bool}
    (hType : ModTypeValid (s.extent own) type) :
    Grows own own (fun r => r = ref) s
      { s with
        store :=
          (s.store.importForeignHandles ref type isGlobal).1 } := by
  apply aliases_grows hSound
  · exact
      s.store.importForeignHandles_aliasesAt ref type isGlobal
  · intro handle
    exact hType.importTarget

/- A variable takes the index after the last one. -/
theorem defineHandle_grows
    {ref : ScopeRef}
    {name : String}
    {typeId : TypeId}
    {attr : FieldAttribute}
    (hType : s.isType typeId = true)
    (hAttr : isDeclAttr attr = true)
    (hKind : (s.store.scope ref).kind ≠ .func) :
    ∃ own',
      Grows own own' (fun r => r = ref) s
        (s.keepStore
          (s.store.defineHandle ref name typeId attr)) := by
  cases hDefine : s.store.defineHandle ref name typeId attr with
  | error e => exact ⟨own, .refl hSound⟩
  | ok result =>
      rcases result with ⟨store, handle⟩
      have hAlias : attr.isAlias = false := by
        cases hFlag : attr.isAlias with
        | false => rfl
        | true => simp [isDeclAttr, hFlag] at hAttr
      have hCounted := hSound.counted ref
      have hGrows :=
        ScopeStore.defineHandle_growsAt hAlias
          (fun hGlobal => by
            by_contra hNe
            have hBlock := hCounted.mpr hNe
            simp [NameScope.isGlobal, hBlock] at hGlobal)
          (fun hGlobal => by
            apply hCounted.mp
            cases hScope : (s.store.scope ref).kind with
            | block => rfl
            | func => exact absurd hScope hKind
            | «global» =>
                simp [NameScope.isGlobal, hScope] at hGlobal)
          hDefine
      rcases hGrows with
        ⟨hAt, hTypeId, hOrigin, hOrigins, hIndex⟩
      have hLt : typeId < s.pool.size := by
        simpa [isType, TypePool.size] using hType
      rcases hIndex with ⟨hFlag, hIndex, hCount⟩ | ⟨hFlag, hCount⟩
      · refine
          ⟨Function.update own s.store.gvarCount
            s.store.origins, ?_⟩
        have hNext := hSound.numbered.next
        constructor
        · apply hAt.changes.mono
          intro new hEq
          rw [hEq]
          constructor
          · rw [hTypeId]
            exact hLt
          · intro _
            rw [hIndex]
            change s.store.gvarCount < store.gvarCount
            omega
          · intro _
            rw [hIndex, hOrigin]
            exact
              (Function.update_self s.store.gvarCount
                s.store.origins own).symm
        · constructor
          · change s.store.gvarCount ≤ store.gvarCount
            omega
          · exact Nat.le_refl _
          · intro index hLess
            exact
              Function.update_of_ne (Nat.ne_of_lt hLess) _ _
        · change s.store.origins ≤ store.origins
          omega
        · change Numbered _ store.gvarCount store.origins
          rw [hCount, hOrigins]
          exact hNext
        · exact hSound.pool
        · intro type hMem module _
          exact .inl hMem
        · intro base
          exact id
        · exact Nat.le_refl _
      · refine ⟨own, ?_⟩
        constructor
        · apply hAt.changes.mono
          intro new hEq
          rw [hEq]
          constructor
          · rw [hTypeId]
            exact hLt
          · intro hGlobal
            rw [hFlag] at hGlobal
            cases hGlobal
          · intro hGlobal
            rw [hFlag] at hGlobal
            cases hGlobal
        · constructor
          · exact Nat.le_of_eq hCount.symm
          · exact Nat.le_refl _
          · intro index _
            rfl
        · change s.store.origins ≤ store.origins
          omega
        · change Numbered _ store.gvarCount store.origins
          rw [hCount]
          exact
            hSound.numbered.mono (Nat.le_refl _) (by omega)
        · exact hSound.pool
        · intro type hMem module _
          exact .inl hMem
        · intro base
          exact id
        · exact Nat.le_refl _

theorem alias_grows
    {ref : ScopeRef}
    {handle : FieldHandle}
    {result : Except NameLookupError (ScopeStore × FieldHandle)}
    (hValid : HandleValid (s.extent own) handle)
    (hResult :
      ∀ store new,
        result = .ok (store, new) →
          AliasesAt ref handle.SameTarget s.store store) :
    Grows own own (fun r => r = ref) s (s.keepStore result) := by
  apply aliases_grows hSound
  · exact ScopeStore.keep_aliasesAt hResult
  · intro new hSame
    exact hValid.sameTarget hSame

theorem enterScope_grows
    {ref ref' : ScopeRef}
    {kind : ScopeKind}
    {store : ScopeStore}
    (hLt : ref < s.store.size)
    (hEnter : s.store.enterScope ref kind = some (store, ref')) :
    Grows own own (fun r => r = ref) s
      { s with store := store } := by
  rcases ScopeStore.enterScope_changes
    (P := HandleValid (s.extent own)) hLt hEnter with
    ⟨hChanges, _, _, hCount, hOrigins⟩
  exact changes_grows hSound hChanges hCount hOrigins

theorem keeps_grows
    {pool : TypePool}
    (hKeeps : s.pool.Keeps pool) :
    Grows own own R s { s with pool := pool } := by
  have hLe :
      (s.extent own).Le
        (({ s with pool := pool } : SymbolState).extent own) :=
    ⟨Nat.le_refl _, hKeeps.size_le, fun _ _ => rfl⟩
  constructor
  · exact .refl _
  · exact hLe
  · exact Nat.le_refl _
  · exact hSound.numbered
  · exact hKeeps.wellFormed
  · intro type hMem module hShape
    rcases hKeeps.types with ⟨types, hTypes, hNoModule⟩
    simp only [hTypes] at hMem
    rcases List.mem_append.mp hMem with hOld | hNew
    · exact .inl hOld
    · exact absurd hShape (hNoModule type hNew module)
  · exact hKeeps.since
  · exact Nat.le_refl _

/- A type that is made is no module. -/
theorem keepPool_grows
    {created : Except TypeLookupError (TypePool × TypeId)}
    (hCreated :
      ∀ pool id,
        created = .ok (pool, id) →
          s.pool.GrowsTo (fun _ => False) pool [id])
    (hKeep : s.keepPool created = some s') :
    Grows own own R s s' ∧
      s' = { s with pool := s'.pool } := by
  cases created with
  | ok result =>
      cases hKeep
      have hGrows := hCreated result.1 result.2 rfl
      exact
        ⟨keeps_grows hSound
          (.of_extends hGrows.extends_ hGrows.wellFormed), rfl⟩
  | error e =>
      cases e <;> cases hKeep <;> exact ⟨.refl hSound, rfl⟩

end

theorem mem_tryInsertByAscendingOrder
    {entry child : ImportedModEntry}
    {children : List ImportedModEntry}
    (hMem :
      child ∈
        ScopeStore.tryInsertByAscendingOrder entry children) :
    child = entry ∨ child ∈ children := by
  induction children with
  | nil => exact .inl (List.mem_singleton.mp hMem)
  | cons first rest ih =>
      rw [ScopeStore.tryInsertByAscendingOrder] at hMem
      split_ifs at hMem
      · rcases List.mem_cons.mp hMem with hEq | hRest
        · rw [hEq]
          exact .inr List.mem_cons_self
        · rcases ih hRest with hEq | hIn
          · exact .inl hEq
          · exact .inr (List.mem_cons_of_mem _ hIn)
      · rcases List.mem_cons.mp hMem with hEq | hRest
        · exact .inl hEq
        · exact .inr (List.mem_cons_of_mem _ hRest)
      · exact .inr hMem
      · rcases List.mem_cons.mp hMem with hEq | hRest
        · exact .inl hEq
        · exact .inr hRest

/- An imported module is the type of a name of the scope. -/
theorem mem_importedMods
    {scope : NameScope}
    {child : ImportedModEntry}
    (hMem : child ∈ ScopeStore.importedMods scope) :
    ∃ entry ∈ scope.handles,
      entry.2.typeId = child.typeId := by
  have hFold :
      ∀ (handles : HandleMap)
        (children : List ImportedModEntry),
        (∀ entry ∈ handles, entry ∈ scope.handles) →
        (∀ child ∈ children,
          ∃ entry ∈ scope.handles,
            entry.2.typeId = child.typeId) →
        ∀ child ∈ handles.foldl
            (fun children entry =>
              ScopeStore.tryInsertByAscendingOrder
                ⟨entry.2.typeId, entry.2.attr.globalMod⟩
                children)
            children,
          ∃ entry ∈ scope.handles,
            entry.2.typeId = child.typeId := by
    intro handles
    induction handles with
    | nil =>
        intro children _ hChildren
        exact hChildren
    | cons first rest ih =>
        intro children hHandles hChildren
        rw [List.foldl_cons]
        apply ih
        · intro entry hIn
          exact hHandles entry (List.mem_cons_of_mem _ hIn)
        · intro child hIn
          rcases mem_tryInsertByAscendingOrder hIn with
            hEq | hOld
          · rw [hEq]
            exact ⟨first, hHandles first List.mem_cons_self, rfl⟩
          · exact hChildren child hOld
  apply hFold _ [] _ _ child hMem
  · intro entry hIn
    exact (List.mem_filter.mp hIn).1
  · rintro child ⟨⟩

/- The module object takes the index after the last one. -/
theorem createModType_grows
    {table : NativeTable}
    {ref : ScopeRef}
    {path : String}
    {handleMap : HandleMap}
    (hSound : Sound own live s)
    (hLive : live ref)
    (hKind : (s.store.scope ref).kind = .global)
    (hCreate :
      s.createModType table ref path handleMap = some s') :
    ∃ own',
      Grows own own' R s s' ∧
        s'.store.scope = s.store.scope ∧
        s'.store.size = s.store.size ∧
        s' =
          { s with
            pool := s'.pool
            store := s'.store
            loader := s'.loader } := by
  rw [createModType] at hCreate
  split_ifs at hCreate with hPerm
  cases hType :
      s.pool.createModType table
        (s.store.toModType ref s.pool.typeTable.length
          handleMap) with
  | error e =>
      rw [hType] at hCreate
      cases hCreate
  | ok created =>
      rcases created with ⟨pool, typeId⟩
      rw [hType] at hCreate
      cases hCreate
      have hCount : (s.store.scope ref).maxVarCount = .gvarCount := by
        by_contra hNe
        have hBlock := (hSound.counted ref).mpr hNe
        rw [hKind] at hBlock
        cases hBlock
      have hIndex :
          s.store.getMaxGlobalVarIndex ref =
            s.store.gvarCount := by
        rw [ScopeStore.getMaxGlobalVarIndex, hCount]
        rfl
      have hHandles :
          ∀ entry ∈ handleMap,
            HandleValid (s.extent own) entry.2 := by
        intro entry hMem
        have hOwn := hPerm.mem_iff.mp hMem
        exact
          hSound.handles ref hLive entry
            (List.mem_filter.mp hOwn).1
      have hLe :
          (s.extent own).Le
            ⟨Function.update own s.store.gvarCount
                s.store.origins,
              s.store.gvarCount + 1, s.pool.size + 1⟩ := by
        constructor
        · exact Nat.le_succ _
        · exact Nat.le_succ _
        · intro index hLess
          exact Function.update_of_ne (Nat.ne_of_lt hLess) _ _
      have hGrows :
          s.pool.GrowsTo
            (ModTypeValid
              ⟨Function.update own s.store.gvarCount
                  s.store.origins,
                s.store.gvarCount + 1, s.pool.size + 1⟩)
            pool [typeId] := by
        apply TypePool.createModType_growsTo hSound.pool
          hSound.predefined _ _ _ hType
        · intro child hMem
          rcases mem_importedMods hMem with ⟨entry, hIn, hEq⟩
          rw [← hEq]
          exact (hSound.handles ref hLive entry hIn).typeId_lt
        · intro entry hMem
          exact (hHandles entry hMem).typeId_lt
        · constructor
          · exact Nat.lt_succ_self _
          · change s.store.getMaxGlobalVarIndex ref < _
            rw [hIndex]
            exact Nat.lt_succ_self _
          · change
              s.store.origins =
                Function.update own s.store.gvarCount
                  s.store.origins
                  (s.store.getMaxGlobalVarIndex ref)
            rw [hIndex]
            exact
              (Function.update_self s.store.gvarCount
                s.store.origins own).symm
          · intro entry hMem
            exact (hHandles entry hMem).mono hLe
      refine
        ⟨Function.update own s.store.gvarCount s.store.origins,
          ?_, rfl, rfl, rfl⟩
      constructor
      · constructor
        · exact Nat.le_refl _
        · intro r _
          exact ⟨rfl, rfl, rfl⟩
        · intro r _
          exact List.prefix_refl _
        · intro r _ _
          rfl
        · intro r hLt entry hMem
          exact .inl ⟨hLt, hMem⟩
        · intro r hLe hLt
          exact absurd hLt (Nat.not_lt.mpr hLe)
        · exact id
        · exact id
      · exact
          ⟨hLe.gvarCount_le, hGrows.extends_.size_le,
            hLe.own_eq⟩
      · exact Nat.le_succ _
      · exact hSound.numbered.next
      · exact hGrows.wellFormed
      · intro type hMem module hShape
        rcases hGrows.extends_.types with
          ⟨types, hTypes, hModules⟩
        simp only [hTypes] at hMem
        rcases List.mem_append.mp hMem with hOld | hNew
        · exact .inl hOld
        · apply Or.inr
          apply (hModules type hNew module hShape).mono
          refine ⟨Nat.le_refl _, ?_, fun _ _ => rfl⟩
          change s.pool.size + 1 ≤ pool.size
          rw [TypePool.size, TypePool.size, hTypes,
            List.length_append]
          have hPos := List.length_pos_of_mem hNew
          omega
      · intro base hSince
        exact hSince.extends_ hGrows.extends_
      · change
          s.loader.length ≤
            (s.loader.setModType path typeId).length
        apply Nat.le_of_eq
        rw [ModuleLoader.setModType, List.length_map]

/- A module's scope begins with the builtin names. -/
theorem createGlobalScope_grows
    {path : String}
    {type : ModType}
    {ref : ScopeRef}
    (hSound : Sound own live s)
    (hType : ModTypeValid (s.extent own) type)
    (hCreate :
      s.createGlobalScope path type = some (s', ref)) :
    Grows own own R s s' ∧
      ref = s.store.size ∧
      s'.store.size = s.store.size + 1 ∧
      (s'.store.scope ref).kind = .global ∧
      (s'.store.scope ref).parent = none ∧
      s' = { s with store := s'.store } := by
  rcases Option.map_eq_some_iff.mp hCreate with
    ⟨modId, _, hEq⟩
  cases hEq
  have hMid :
      Grows own own R s
        { s with store := (s.store.newModScope modId).1 } :=
    changes_grows hSound
      (ScopeStore.newModScope_changes modId) rfl rfl
  have hSound' :
      Sound own (fun _ => False)
        { s with store := (s.store.newModScope modId).1 } := by
    apply hSound.grows hMid
    · rintro r ⟨⟩
    · rintro r ⟨⟩
  have hImport :
      Grows own own (fun r => r = s.store.size)
        { s with store := (s.store.newModScope modId).1 }
        { s with
          store :=
            ((s.store.newModScope modId).1.importForeignHandles
              s.store.size type true).1 } :=
    importForeignHandles_grows hSound' hType
  have hFrame :=
    ((s.store.newModScope modId).1.importForeignHandles_aliasesAt
      s.store.size type true).grows
  have hNew :
      (s.store.newModScope modId).1.scope s.store.size =
        { kind := .global
          modId := modId
          parent := none
          curLocalIndex := 0
          localSize := 0
          maxVarCount := .gvarCount
          handles := [] } :=
    ScopeStore.setScope_scope_self _ _ _
  refine ⟨?_, rfl, ?_, ?_, ?_, rfl⟩
  · apply hMid.trans hImport
    intro r hEq
    rw [hEq]
    exact .inr (Nat.le_refl _)
  · exact hFrame.size_eq
  · exact (hFrame.frame s.store.size).1.trans (by rw [hNew])
  · exact
      (hFrame.frame s.store.size).2.2.1.trans (by rw [hNew])

/- The scope of a complete module, for completion. -/
theorem recreate_grows
    {type : ModType}
    {children : List (ModType × Bool)}
    (hSound : Sound own live s)
    (hType : ModTypeValid (s.extent own) type)
    (hChildren :
      ∀ child ∈ children,
        ModTypeValid (s.extent own) child.1) :
    Grows own own R s
        { s with store := (s.store.recreate type children).1 } ∧
      (s.store.recreate type children).2 = s.store.size ∧
      (s.store.recreate type children).1.size =
        s.store.size + 1 ∧
      ((s.store.recreate type children).1.scope
        s.store.size).kind = .global ∧
      ((s.store.recreate type children).1.scope
        s.store.size).parent = none := by
  have hMid :
      Grows own own R s
        { s with
          store := (s.store.newModScope type.modId).1 } :=
    changes_grows hSound
      (ScopeStore.newModScope_changes type.modId) rfl rfl
  have hSound' :
      Sound own (fun _ => False)
        { s with
          store := (s.store.newModScope type.modId).1 } := by
    apply hSound.grows hMid
    · rintro r ⟨⟩
    · rintro r ⟨⟩
  have hCopy :
      AliasesAt s.store.size (HandleValid (s.extent own))
        (s.store.newModScope type.modId).1
        ((s.store.newModScope type.modId).1.copyHandles
          s.store.size type.handleMap) := by
    apply (ScopeStore.copyHandles_aliasesAt _ _ _).mono
    rintro handle ⟨entry, hMem, hSame⟩
    exact (hType.handles entry hMem).sameTarget hSame
  have hImport :
      AliasesAt s.store.size (HandleValid (s.extent own))
        ((s.store.newModScope type.modId).1.copyHandles
          s.store.size type.handleMap)
        (s.store.recreate type children).1 := by
    apply (ScopeStore.importChildren_aliasesAt _ _ _).mono
    rintro handle ⟨child, hMem, hTarget⟩
    exact (hChildren child hMem).importTarget hTarget
  have hBoth := hCopy.trans hImport
  have hAliases :=
    aliases_grows hSound' hBoth (fun handle hValid => hValid)
  have hNew :
      (s.store.newModScope type.modId).1.scope s.store.size =
        { kind := .global
          modId := type.modId
          parent := none
          curLocalIndex := 0
          localSize := 0
          maxVarCount := .gvarCount
          handles := [] } :=
    ScopeStore.setScope_scope_self _ _ _
  refine ⟨?_, rfl, ?_, ?_, ?_⟩
  · apply hMid.trans hAliases
    intro r hEq
    rw [hEq]
    exact .inr (Nat.le_refl _)
  · exact hBoth.grows.size_eq
  · exact
      (hBoth.grows.frame s.store.size).1.trans (by rw [hNew])
  · exact
      (hBoth.grows.frame s.store.size).2.2.1.trans
        (by rw [hNew])

end SymbolState

end Scope

end Ydsh
