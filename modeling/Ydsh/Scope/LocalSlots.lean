import Mathlib.Data.List.Nodup
import Ydsh.Library.Run
import Ydsh.Scope.NameScope
import Mathlib.Logic.Relation

/-
  Slots of local variables.

  The scopes of the front end are entered and left like a
  stack, one stack for each module that is being compiled.  A
  unit is a function or the top level of a module; its blocks
  number the local variables, and the scope of the unit keeps
  the number of slots that are needed.

  Main declarations:
    * `FrontScopes`
    * `FrontScopes.step`
    * `InUnit`
    * `Nested`
    * `SlotsFit`
    * `local_slots`
-/

----
-- The Scopes of the Front End
----

namespace Ydsh

namespace Scope

open Library

/- `outer` are the scopes of the modules that wait. -/
structure FrontScopes where
  store : ScopeStore
  cur : ScopeRef
  outer : List ScopeRef

inductive ScopeEvent where
  | start (ref : ScopeRef)
  | enterModule (modId : Nat)
  | exitModule
  | enterScope (kind : ScopeKind)
  | exitScope
  | defineHandle
      (name : String) (typeId : Nat) (attr : FieldAttribute)
  | defineAlias (name : String) (handle : FieldHandle)
  | defineTypeAlias
      (isTypeName : String → Bool) (name : String)
      (typeId : Nat)
  | importForeignHandles (type : ModType) (isGlobal : Bool)
  | recreate (type : ModType) (children : List (ModType × Bool))
  | discard (ref : ScopeRef) (commitIdOffset : Nat)

namespace FrontScopes

/- The builtin module is the first scope. -/
def init : FrontScopes :=
  { store :=
      { scope := fun _ =>
          { kind := .global
            modId := 0
            parent := none
            curLocalIndex := 0
            localSize := 0
            maxVarCount := .gvarCount
            handles := [] }
        size := 1
        gvarCount := 0
        origins := 0 }
    cur := 0
    outer := [] }

def keep
    (s : FrontScopes)
    (result :
      Except NameLookupError (ScopeStore × FieldHandle)) :
    FrontScopes :=
  { s with store := s.store.keep result }

def isModScope
    (s : FrontScopes)
    (ref : ScopeRef) : Bool :=
  decide (ref < s.store.size) && (s.store.scope ref).isGlobal

/- No name is registered in the scope of a function itself. -/
def canDefine (s : FrontScopes) : Bool :=
  (s.store.scope s.cur).kind != .func

def step (s : FrontScopes) : ScopeEvent → Option FrontScopes
  | .start ref =>
      if s.isModScope ref then
        some ⟨s.store.clearLocalSize ref, ref, []⟩
      else
        none
  | .enterModule modId =>
      if s.isModScope s.cur then
        let (store, ref) := s.store.newModScope modId
        some ⟨store, ref, s.cur :: s.outer⟩
      else
        none
  | .exitModule =>
      match s.outer with
      | [] => none
      | ref :: outer =>
          if s.isModScope s.cur then
            some ⟨s.store, ref, outer⟩
          else
            none
  | .enterScope kind =>
      (s.store.enterScope s.cur kind).map
        (fun entered => ⟨entered.1, entered.2, s.outer⟩)
  | .exitScope =>
      (s.store.scope s.cur).parent.map
        (fun parent => { s with cur := parent })
  | .defineHandle name typeId attr =>
      if s.canDefine then
        some (s.keep (s.store.defineHandle s.cur name typeId attr))
      else
        none
  | .defineAlias name handle =>
      if s.canDefine then
        some (s.keep (s.store.defineAlias s.cur name handle))
      else
        none
  | .defineTypeAlias isTypeName name typeId =>
      if s.canDefine then
        some
          (s.keep
            (s.store.defineTypeAlias isTypeName s.cur name typeId))
      else
        none
  | .importForeignHandles type isGlobal =>
      if s.canDefine then
        some
          { s with
            store :=
              (s.store.importForeignHandles s.cur type
                isGlobal).1 }
      else
        none
  | .recreate type children =>
      some { s with store := (s.store.recreate type children).1 }
  | .discard ref commitIdOffset =>
      if s.isModScope ref then
        some ⟨s.store.discard ref commitIdOffset, ref, []⟩
      else
        none

end FrontScopes

/- The unit of a scope: the nearest scope that is no block. -/
inductive InUnit
    (store : ScopeStore)
    (unit : ScopeRef) : ScopeRef → Prop where
  | root :
      (store.scope unit).kind ≠ .block →
      InUnit store unit unit
  | block {parent ref : ScopeRef} :
      InUnit store unit parent →
      (store.scope ref).kind = .block →
      (store.scope ref).parent = some parent →
      InUnit store unit ref

/- The names of a scope and of the scopes around it are seen. -/
def Encloses
    (store : ScopeStore)
    (inner outer : ScopeRef) : Prop :=
  Relation.ReflTransGen
    (fun r p => (store.scope r).parent = some p) inner outer

/- A variable, possibly shadowed, in the scopes around `ref`. -/
def VisibleLocal
    (store : ScopeStore)
    (ref scope : ScopeRef)
    (name : String)
    (handle : FieldHandle) : Prop :=
  Encloses store ref scope ∧
    (name, handle) ∈ (store.scope scope).handles ∧
    handle.isLocal = true

/- Whether an event begins the unit `unit` anew. -/
def ScopeEvent.Restarts
    (unit : ScopeRef) : ScopeEvent → Prop
  | .start ref => ref = unit
  | .discard ref _ => ref = unit
  | _ => False

----
-- Slots of a Scope
----

namespace NameScope

def localIndices (scope : NameScope) : List Nat :=
  ((scope.handles.map Prod.snd).filter
    FieldHandle.isLocal).map FieldHandle.index

/- What the counters of a scope say about its variables. -/
structure SlotsFit (scope : NameScope) : Prop where
  size_le : scope.localSize ≤ scope.curLocalIndex
  indices :
    scope.localIndices =
      List.range' scope.getBaseIndex scope.localSize
  root_size : scope.kind ≠ .block → scope.localSize = 0
  root_count :
    scope.kind ≠ .block → scope.maxVarCount = .gvarCount

/- Scopes that agree on everything but names without slots. -/
structure SameSlots (s t : NameScope) : Prop where
  kind : t.kind = s.kind
  parent : t.parent = s.parent
  curLocalIndex : t.curLocalIndex = s.curLocalIndex
  localSize : t.localSize = s.localSize
  maxVarCount : t.maxVarCount = s.maxVarCount
  indices : t.localIndices = s.localIndices

theorem SameSlots.refl (s : NameScope) : s.SameSlots s :=
  ⟨rfl, rfl, rfl, rfl, rfl, rfl⟩

theorem SameSlots.trans
    {s t u : NameScope}
    (hFirst : s.SameSlots t)
    (hSecond : t.SameSlots u) :
    s.SameSlots u :=
  ⟨hSecond.kind.trans hFirst.kind,
    hSecond.parent.trans hFirst.parent,
    hSecond.curLocalIndex.trans hFirst.curLocalIndex,
    hSecond.localSize.trans hFirst.localSize,
    hSecond.maxVarCount.trans hFirst.maxVarCount,
    hSecond.indices.trans hFirst.indices⟩

theorem SameSlots.slotsFit
    {s t : NameScope}
    (hSame : s.SameSlots t)
    (hFit : s.SlotsFit) :
    t.SlotsFit := by
  constructor
  · rw [hSame.localSize, hSame.curLocalIndex]
    exact hFit.size_le
  · rw [hSame.indices, getBaseIndex, hSame.localSize,
      hSame.curLocalIndex]
    exact hFit.indices
  · rw [hSame.kind, hSame.localSize]
    exact hFit.root_size
  · rw [hSame.kind, hSame.maxVarCount]
    exact hFit.root_count

theorem mem_localIndices
    {scope : NameScope}
    {name : String}
    {handle : FieldHandle}
    (hMem : (name, handle) ∈ scope.handles)
    (hLocal : handle.isLocal = true) :
    handle.index ∈ scope.localIndices := by
  apply List.mem_map_of_mem
  apply List.mem_filter.mpr
  exact ⟨List.mem_map_of_mem (f := Prod.snd) hMem, hLocal⟩

@[simp] theorem localIndices_append
    (scope : NameScope)
    (name : String)
    (handle : FieldHandle) :
    localIndices
        { scope with
          handles := scope.handles ++ [(name, handle)] } =
      scope.localIndices ++
        if handle.isLocal then [handle.index] else [] := by
  cases hLocal : handle.isLocal with
  | true => simp [localIndices, hLocal]
  | false => simp [localIndices, hLocal]

end NameScope

----
-- Names without a Slot
----

namespace ScopeStore

structure SameSlots (store store' : ScopeStore) : Prop where
  size : store'.size = store.size
  scope :
    ∀ r, (store.scope r).SameSlots (store'.scope r)

theorem SameSlots.refl (store : ScopeStore) :
    store.SameSlots store :=
  ⟨rfl, fun _ => .refl _⟩

theorem SameSlots.trans
    {store store' store'' : ScopeStore}
    (hFirst : store.SameSlots store')
    (hSecond : store'.SameSlots store'') :
    store.SameSlots store'' :=
  ⟨hSecond.size.trans hFirst.size,
    fun r => (hFirst.scope r).trans (hSecond.scope r)⟩

/- Adding a name to a scope, before it is counted. -/
theorem setScope_handles_sameSlots
    (store : ScopeStore)
    (ref : ScopeRef)
    (name : String)
    (handle : FieldHandle)
    (hLocal : handle.isLocal = false) :
    store.SameSlots
      (store.setScope ref
        { store.scope ref with
          handles :=
            (store.scope ref).handles ++ [(name, handle)] }) := by
  constructor
  · rfl
  · intro r
    rw [setScope_scope]
    split_ifs with hEq
    · subst hEq
      exact
        ⟨rfl, rfl, rfl, rfl, rfl, by simp [hLocal]⟩
    · exact .refl _

theorem add_sameSlots
    {store store' : ScopeStore}
    {ref : ScopeRef}
    {name : String}
    {handle handle' : FieldHandle}
    (hCount :
      handle.attr.isAlias = true ∨
        handle.attr.isGlobal = true ∧
          (store.scope ref).maxVarCount = .gvarCount)
    (hAdd :
      store.add ref name handle = .ok (store', handle')) :
    store.SameSlots store' := by
  have hLocal : handle.isLocal = false := by
    rcases hCount with hAlias | ⟨hGlobal, _⟩
    · simp [FieldHandle.isLocal, hAlias]
    · simp [FieldHandle.isLocal, hGlobal]
  rcases add_eq_ok hAdd with ⟨_, _, _, hStore⟩
  have hNames :=
    store.setScope_handles_sameSlots ref name handle hLocal
  rw [hStore]
  apply hNames.trans
  cases hAlias : handle.attr.isAlias with
  | true =>
      simp only [countVar, hAlias, if_true]
      exact .refl _
  | false =>
      rcases hCount with hTrue | ⟨hGlobal, hRef⟩
      · rw [hAlias] at hTrue
        cases hTrue
      · simp only [countVar, hAlias, hGlobal,
          setScope_scope_self, hRef, setVarCount]
        exact ⟨rfl, fun _ => .refl _⟩

theorem keep_sameSlots
    (store : ScopeStore)
    {result :
      Except NameLookupError (ScopeStore × FieldHandle)}
    (hOk :
      ∀ store' handle,
        result = .ok (store', handle) →
          store.SameSlots store') :
    store.SameSlots (store.keep result) := by
  cases result with
  | error _ => exact .refl _
  | ok result => exact hOk result.1 result.2 rfl

theorem addNewAlias_sameSlots
    {store store' : ScopeStore}
    {ref : ScopeRef}
    {name : String}
    {handle handle' : FieldHandle}
    (hAdd :
      store.addNewAlias ref name handle =
        .ok (store', handle')) :
    store.SameSlots store' :=
  add_sameSlots (.inl rfl) hAdd

theorem addNewForeignHandle_sameSlots
    {store store' : ScopeStore}
    {ref : ScopeRef}
    {name : String}
    {handle handle' : FieldHandle}
    (hAdd :
      store.addNewForeignHandle ref name handle =
        .ok (store', handle')) :
    store.SameSlots store' :=
  add_sameSlots (.inl rfl) hAdd

theorem defineAlias_sameSlots
    {store store' : ScopeStore}
    {ref : ScopeRef}
    {name : String}
    {handle handle' : FieldHandle}
    (hDefine :
      store.defineAlias ref name handle =
        .ok (store', handle')) :
    store.SameSlots store' := by
  rw [defineAlias] at hDefine
  split_ifs at hDefine
  exact addNewAlias_sameSlots hDefine

theorem defineTypeAlias_sameSlots
    {store store' : ScopeStore}
    {isTypeName : String → Bool}
    {ref : ScopeRef}
    {name : String}
    {typeId : Nat}
    {handle' : FieldHandle}
    (hDefine :
      store.defineTypeAlias isTypeName ref name typeId =
        .ok (store', handle')) :
    store.SameSlots store' := by
  rw [defineTypeAlias] at hDefine
  split_ifs at hDefine
  exact defineAlias_sameSlots hDefine

theorem importHandles_sameSlots
    (store : ScopeStore)
    (ref : ScopeRef)
    (handleMap : HandleMap) :
    store.SameSlots
      (store.importHandles ref handleMap).1 := by
  fun_induction importHandles store ref handleMap with
  | case1 store => exact .refl _
  | case2 store name handle rest hPrivate ih => exact ih
  | case3 store name handle rest hPrivate store' _ hAdd ih =>
      exact (addNewForeignHandle_sameSlots hAdd).trans ih
  | case4 => exact .refl _

theorem importForeignHandles_sameSlots
    (store : ScopeStore)
    (ref : ScopeRef)
    (type : ModType)
    (isGlobal : Bool) :
    store.SameSlots
      (store.importForeignHandles ref type isGlobal).1 := by
  have hHolder :
      store.SameSlots
        (store.keep
          (store.addNewAlias ref
            (toModHolderName type.modId isGlobal)
            (type.toModHolder isGlobal))) :=
    store.keep_sameSlots
      (fun _ _ hAdd => addNewAlias_sameSlots hAdd)
  simp only [importForeignHandles]
  split_ifs
  · exact .refl _
  · exact hHolder.trans (importHandles_sameSlots _ _ _)
  · exact hHolder

theorem copyHandles_sameSlots
    (store : ScopeStore)
    (ref : ScopeRef)
    (handleMap : HandleMap) :
    store.SameSlots (store.copyHandles ref handleMap) := by
  induction handleMap generalizing store with
  | nil => exact .refl _
  | cons entry rest ih =>
      exact
        (store.keep_sameSlots
          (fun _ _ hAdd => addNewAlias_sameSlots hAdd)).trans
          (ih _)

theorem importChildren_sameSlots
    (store : ScopeStore)
    (ref : ScopeRef)
    (children : List (ModType × Bool)) :
    store.SameSlots (store.importChildren ref children) := by
  induction children generalizing store with
  | nil => exact .refl _
  | cons child children ih =>
      exact
        (store.importForeignHandles_sameSlots ref child.1
          child.2).trans (ih _)

end ScopeStore

----
-- Names with a Slot
----

/- A variable takes the next slot of the block `ref`. -/
structure TakesSlot
    (store store' : ScopeStore)
    (ref unit : ScopeRef)
    (name : String)
    (handle : FieldHandle) : Prop where
  size : store'.size = store.size
  block :
    store'.scope ref =
      { store.scope ref with
        handles := (store.scope ref).handles ++ [(name, handle)]
        curLocalIndex := (store.scope ref).curLocalIndex + 1
        localSize := (store.scope ref).localSize + 1 }
  root :
    store'.scope unit =
      { store.scope unit with
        curLocalIndex :=
          max (store.scope unit).curLocalIndex
            ((store.scope ref).curLocalIndex + 1) }
  other :
    ∀ r, r ≠ ref → r ≠ unit → store'.scope r = store.scope r

namespace ScopeStore

theorem add_takesSlot
    {store store' : ScopeStore}
    {ref unit : ScopeRef}
    {name : String}
    {handle handle' : FieldHandle}
    (hLocal : handle.isLocal = true)
    (hRef : (store.scope ref).maxVarCount = .localIndex unit)
    (hNe : unit ≠ ref)
    (hAdd :
      store.add ref name handle = .ok (store', handle')) :
    TakesSlot store store' ref unit name handle := by
  rcases add_eq_ok hAdd with ⟨_, _, _, hStore⟩
  have hAttr :
      handle.attr.isAlias = false ∧
        handle.attr.isGlobal = false := by
    simpa [FieldHandle.isLocal] using hLocal
  simp only [countVar, hAttr.1, hAttr.2, hRef, varCount,
    setVarCount, setScope_scope, if_true, if_neg hNe,
    Bool.false_eq_true, if_false] at hStore
  split_ifs at hStore with hMax
  · subst hStore
    constructor
    · rfl
    · simp [setScope_scope, hNe.symm, hRef]
    · simp [Nat.max_eq_right (Nat.le_of_lt hMax)]
    · intro r hBlock hUnit
      simp [setScope_scope, hBlock, hUnit]
  · subst hStore
    constructor
    · rfl
    · simp [hRef]
    · simp [setScope_scope, hNe,
        Nat.max_eq_left (Nat.le_of_not_lt hMax)]
    · intro r hBlock _
      simp [setScope_scope, hBlock]

end ScopeStore

----
-- Open Blocks
----

/-
  The blocks around a scope, up to its unit: each one begins at
  the slot where the block around it stands.
-/
inductive Nested
    (store : ScopeStore)
    (unit : ScopeRef) : ScopeRef → Nat → Prop where
  | root :
      (store.scope unit).kind ≠ .block →
      Nested store unit unit 0
  | block {parent ref : ScopeRef} {next : Nat} :
      Nested store unit parent next →
      (store.scope ref).kind = .block →
      (store.scope ref).parent = some parent →
      (store.scope ref).maxVarCount = .localIndex unit →
      (store.scope ref).getBaseIndex = next →
      (store.scope ref).curLocalIndex ≤
        (store.scope unit).curLocalIndex →
      Nested store unit ref (store.scope ref).curLocalIndex

namespace Nested

variable {store store' : ScopeStore}
variable {unit ref : ScopeRef}
variable {next : Nat}

theorem unit_kind
    (hNested : Nested store unit ref next) :
    (store.scope unit).kind ≠ .block := by
  induction hNested with
  | root hKind => exact hKind
  | block _ _ _ _ _ _ ih => exact ih

theorem inUnit
    (hNested : Nested store unit ref next) :
    InUnit store unit ref := by
  induction hNested with
  | root hKind => exact .root hKind
  | block _ hKind hParent _ _ _ ih =>
      exact .block ih hKind hParent

theorem unit_le
    (hParent :
      ∀ r p, (store.scope r).parent = some p → p < r)
    (hNested : Nested store unit ref next) :
    unit ≤ ref := by
  induction hNested with
  | root _ => exact Nat.le_refl _
  | block _ _ hEq _ _ _ ih =>
      exact Nat.le_trans ih (Nat.le_of_lt (hParent _ _ hEq))

/- Of the scopes inside, only the unit may get more slots. -/
theorem frame
    (hParent :
      ∀ r p, (store.scope r).parent = some p → p < r)
    (hNested : Nested store unit ref next)
    (hKind :
      (store'.scope unit).kind = (store.scope unit).kind)
    (hMax :
      (store.scope unit).curLocalIndex ≤
        (store'.scope unit).curLocalIndex)
    (hSame :
      ∀ r, r ≤ ref → r ≠ unit →
        (store.scope r).SameSlots (store'.scope r)) :
    Nested store' unit ref next := by
  induction hNested with
  | root hRoot =>
      apply Nested.root
      rw [hKind]
      exact hRoot
  | @block parent ref next hOuter hBlock hEq hRef hBase hLe ih =>
      have hLt := hParent _ _ hEq
      have hNe : ref ≠ unit := by
        intro hEq
        rw [hEq] at hBlock
        exact hOuter.unit_kind hBlock
      have hScope := hSame ref (Nat.le_refl _) hNe
      have hOuter' :=
        ih
          (fun r hLe =>
            hSame r (Nat.le_trans hLe (Nat.le_of_lt hLt)))
      rw [← hScope.curLocalIndex]
      apply Nested.block hOuter'
      · rw [hScope.kind]
        exact hBlock
      · rw [hScope.parent]
        exact hEq
      · rw [hScope.maxVarCount]
        exact hRef
      · rw [NameScope.getBaseIndex, hScope.curLocalIndex,
          hScope.localSize]
        exact hBase
      · rw [hScope.curLocalIndex]
        exact Nat.le_trans hLe hMax

/- A block is nested in a unit other than itself. -/
theorem of_block
    (hNested : Nested store unit ref next)
    (hKind : (store.scope ref).kind = .block) :
    ∃ parent outer,
      Nested store unit parent outer ∧
        (store.scope ref).parent = some parent ∧
        (store.scope ref).maxVarCount = .localIndex unit ∧
        (store.scope ref).getBaseIndex = outer ∧
        (store.scope ref).curLocalIndex ≤
          (store.scope unit).curLocalIndex ∧
        next = (store.scope ref).curLocalIndex ∧
        unit ≠ ref := by
  have hRoot := hNested.unit_kind
  cases hNested with
  | root hNe => exact absurd hKind hNe
  | block hOuter _ hParent hRef hBase hLe =>
      refine ⟨_, _, hOuter, hParent, hRef, hBase, hLe, rfl, ?_⟩
      intro hEq
      rw [hEq] at hRoot
      exact hRoot hKind

/- A scope that is no block is a unit of its own. -/
theorem of_ne_block
    (hNested : Nested store unit ref next)
    (hKind : (store.scope ref).kind ≠ .block) :
    unit = ref := by
  cases hNested with
  | root _ => rfl
  | block _ hBlock _ _ _ _ => exact absurd hBlock hKind

end Nested

----
-- The Invariant
----

structure ScopeStore.Fits (store : ScopeStore) : Prop where
  slots : ∀ r, (store.scope r).SlotsFit
  scope_lt :
    ∀ r p, (store.scope r).parent = some p → r < store.size
  parent_lt : ∀ r p, (store.scope r).parent = some p → p < r
  root_parent :
    ∀ r p,
      (store.scope r).parent = some p →
      (store.scope r).kind ≠ .block →
      (store.scope p).kind = .global

structure FrontScopes.Fits (s : FrontScopes) : Prop where
  store : s.store.Fits
  cur_lt : s.cur < s.store.size
  nested : ∃ unit next, Nested s.store unit s.cur next
  outer :
    ∀ ref ∈ s.outer,
      ref < s.store.size ∧ (s.store.scope ref).kind = .global

theorem NameScope.SlotsFit.of_root
    {scope : NameScope}
    (_ : scope.kind ≠ .block)
    (hIndices : scope.localIndices = [])
    (hSize : scope.localSize = 0)
    (hCount : scope.maxVarCount = .gvarCount) :
    scope.SlotsFit := by
  constructor
  · rw [hSize]
    exact Nat.zero_le _
  · rw [hIndices, hSize]
    rfl
  · intro _
    exact hSize
  · intro _
    exact hCount

theorem NameScope.SlotsFit.no_locals
    {scope : NameScope}
    (hFit : scope.SlotsFit)
    (hKind : scope.kind ≠ .block) :
    scope.localIndices = [] := by
  rw [hFit.indices, hFit.root_size hKind]
  rfl

namespace FrontScopes

theorem init_fits : init.Fits := by
  constructor
  · constructor
    · intro r
      exact .of_root (by simp [init]) rfl rfl rfl
    · rintro r p ⟨⟩
    · rintro r p ⟨⟩
    · rintro r p ⟨⟩
  · exact Nat.zero_lt_one
  · exact ⟨0, 0, .root (by simp [init])⟩
  · rintro ref ⟨⟩

end FrontScopes

namespace ScopeStore

theorem SameSlots.fits
    {store store' : ScopeStore}
    (hSame : store.SameSlots store')
    (hFits : store.Fits) :
    store'.Fits := by
  constructor
  · intro r
    exact (hSame.scope r).slotsFit (hFits.slots r)
  · intro r p
    rw [(hSame.scope r).parent, hSame.size]
    exact hFits.scope_lt r p
  · intro r p
    rw [(hSame.scope r).parent]
    exact hFits.parent_lt r p
  · intro r p
    rw [(hSame.scope r).parent, (hSame.scope r).kind,
      (hSame.scope p).kind]
    exact hFits.root_parent r p

/- A change of one scope that keeps its kind and its parent. -/
theorem Fits.setScope
    {store : ScopeStore}
    {ref : ScopeRef}
    {scope : NameScope}
    (hFits : store.Fits)
    (hKind : scope.kind = (store.scope ref).kind)
    (hParent : scope.parent = (store.scope ref).parent)
    (hSlots : scope.SlotsFit) :
    (store.setScope ref scope).Fits := by
  have hKinds :
      ∀ r,
        ((store.setScope ref scope).scope r).kind =
          (store.scope r).kind := by
    intro r
    rw [setScope_scope]
    split_ifs with hEq
    · rw [hEq]
      exact hKind
    · rfl
  have hParents :
      ∀ r,
        ((store.setScope ref scope).scope r).parent =
          (store.scope r).parent := by
    intro r
    rw [setScope_scope]
    split_ifs with hEq
    · rw [hEq]
      exact hParent
    · rfl
  constructor
  · intro r
    rw [setScope_scope]
    split_ifs
    · exact hSlots
    · exact hFits.slots r
  · intro r p
    rw [hParents]
    exact hFits.scope_lt r p
  · intro r p
    rw [hParents]
    exact hFits.parent_lt r p
  · intro r p
    rw [hParents, hKinds, hKinds]
    exact hFits.root_parent r p

theorem Fits.alloc
    {store : ScopeStore}
    {scope : NameScope}
    (hFits : store.Fits)
    (hSlots : scope.SlotsFit)
    (hParent : ∀ p, scope.parent = some p → p < store.size)
    (hRoot :
      ∀ p,
        scope.parent = some p →
        scope.kind ≠ .block →
        (store.scope p).kind = .global) :
    (store.alloc scope).1.Fits := by
  have hScope :
      ∀ r,
        (store.alloc scope).1.scope r =
          if r = store.size then scope else store.scope r :=
    fun r => store.setScope_scope store.size r scope
  have hOld :
      ∀ p,
        p < store.size →
        (store.alloc scope).1.scope p = store.scope p := by
    intro p hLt
    rw [hScope, if_neg (Nat.ne_of_lt hLt)]
  constructor
  · intro r
    rw [hScope]
    split_ifs
    · exact hSlots
    · exact hFits.slots r
  · intro r p
    rw [hScope]
    intro hEq
    split_ifs at hEq with hNew
    · rw [hNew]
      exact Nat.lt_succ_self _
    · exact Nat.lt_succ_of_lt (hFits.scope_lt r p hEq)
  · intro r p
    rw [hScope]
    intro hEq
    split_ifs at hEq with hNew
    · rw [hNew]
      exact hParent p hEq
    · exact hFits.parent_lt r p hEq
  · intro r p
    rw [hScope]
    intro hEq hKind
    split_ifs at hEq hKind with hNew
    · rw [hOld p (hParent p hEq)]
      exact hRoot p hEq hKind
    · rw [hOld p
        (Nat.lt_trans (hFits.parent_lt r p hEq)
          (hFits.scope_lt r p hEq))]
      exact hFits.root_parent r p hEq hKind

theorem alloc_scope_old
    {store : ScopeStore}
    {scope : NameScope}
    {r : ScopeRef}
    (hLt : r < store.size) :
    (store.alloc scope).1.scope r = store.scope r := by
  simp [alloc, setScope_scope, Nat.ne_of_lt hLt]

theorem alloc_scope_new
    (store : ScopeStore)
    (scope : NameScope) :
    (store.alloc scope).1.scope store.size = scope := by
  simp [alloc]

end ScopeStore

namespace NameScope

theorem SlotsFit.clear
    {scope : NameScope}
    (hFit : scope.SlotsFit)
    (hKind : scope.kind ≠ .block) :
    scope.clearLocalSize.SlotsFit :=
  .of_root hKind (hFit.no_locals hKind) rfl
    (hFit.root_count hKind)

theorem SlotsFit.discard
    {scope : NameScope}
    (hFit : scope.SlotsFit)
    (hKind : scope.kind = .global)
    (commitIdOffset : Nat) :
    (scope.discard commitIdOffset).SlotsFit := by
  have hNe : scope.kind ≠ .block := by
    rw [hKind]
    decide
  have hNone := hFit.no_locals hNe
  have hIndices :
      ((scope.handles.filter
          (fun entry =>
            decide (entry.2.commitId < commitIdOffset))).map
            Prod.snd).filter FieldHandle.isLocal = [] := by
    simp only [localIndices, List.map_eq_nil_iff,
      List.filter_eq_nil_iff, List.mem_map,
      forall_exists_index, and_imp,
      forall_apply_eq_imp_iff₂] at hNone ⊢
    intro entry hMem
    exact hNone entry (List.mem_filter.mp hMem).1
  rw [discard_of_global hKind]
  apply SlotsFit.of_root
  · exact hNe
  · rw [localIndices, hIndices]
    rfl
  · rfl
  · exact hFit.root_count hNe

end NameScope

----
-- What a Step Keeps
----

namespace FrontScopes

variable {s t : FrontScopes}

/- A scope that belongs to no function is a unit by itself. -/
theorem Fits.to_modScope
    {store : ScopeStore}
    {ref : ScopeRef}
    {outer : List ScopeRef}
    (hStore : store.Fits)
    (hLt : ref < store.size)
    (hKind : (store.scope ref).kind = .global)
    (hOuter :
      ∀ r ∈ outer,
        r < store.size ∧ (store.scope r).kind = .global) :
    (FrontScopes.mk store ref outer).Fits := by
  constructor
  · exact hStore
  · exact hLt
  · refine ⟨ref, 0, .root ?_⟩
    rw [hKind]
    decide
  · exact hOuter

theorem isModScope_iff
    (s : FrontScopes)
    (ref : ScopeRef) :
    s.isModScope ref = true ↔
      ref < s.store.size ∧
        (s.store.scope ref).kind = .global := by
  simp [isModScope, NameScope.isGlobal]

theorem Fits.sameSlots
    {store : ScopeStore}
    (hFits : s.Fits)
    (hSame : s.store.SameSlots store) :
    (FrontScopes.mk store s.cur s.outer).Fits := by
  rcases hFits.nested with ⟨unit, next, hNested⟩
  constructor
  · exact hSame.fits hFits.store
  · rw [hSame.size]
    exact hFits.cur_lt
  · refine ⟨unit, next, ?_⟩
    apply hNested.frame hFits.store.parent_lt
    · exact (hSame.scope unit).kind
    · exact Nat.le_of_eq (hSame.scope unit).curLocalIndex.symm
    · intro r _ _
      exact hSame.scope r
  · intro ref hMem
    rw [hSame.size, (hSame.scope ref).kind]
    exact hFits.outer ref hMem

theorem Fits.setModScope
    {ref : ScopeRef}
    {scope : NameScope}
    (hFits : s.Fits)
    (hLt : ref < s.store.size)
    (hKind : (s.store.scope ref).kind = .global)
    (hScope : scope.kind = .global)
    (hParent : scope.parent = (s.store.scope ref).parent)
    (hSlots : scope.SlotsFit) :
    (FrontScopes.mk
      (s.store.setScope ref scope) ref []).Fits := by
  apply Fits.to_modScope
  · apply hFits.store.setScope _ hParent hSlots
    rw [hScope, hKind]
  · exact hLt
  · rw [ScopeStore.setScope_scope_self]
    exact hScope
  · rintro r ⟨⟩

/- The chain of a scope reaches no scope that is not there. -/
theorem nested_alloc
    {store : ScopeStore}
    {scope : NameScope}
    {unit ref : ScopeRef}
    {next : Nat}
    (hFits : store.Fits)
    (hLt : ref < store.size)
    (hNested : Nested store unit ref next) :
    Nested (store.alloc scope).1 unit ref next := by
  have hUnit :=
    Nat.lt_of_le_of_lt (hNested.unit_le hFits.parent_lt) hLt
  apply hNested.frame hFits.parent_lt
  · rw [ScopeStore.alloc_scope_old hUnit]
  · apply Nat.le_of_eq
    rw [ScopeStore.alloc_scope_old hUnit]
  · intro r hLe _
    rw [ScopeStore.alloc_scope_old (Nat.lt_of_le_of_lt hLe hLt)]
    exact .refl _

theorem Fits.outer_alloc
    {scope : NameScope}
    (hFits : s.Fits) :
    ∀ ref ∈ s.outer,
      ref < (s.store.alloc scope).1.size ∧
        ((s.store.alloc scope).1.scope ref).kind =
          .global := by
  intro ref hMem
  rcases hFits.outer ref hMem with ⟨hLt, hKind⟩
  rw [ScopeStore.alloc_scope_old hLt]
  exact ⟨Nat.lt_succ_of_lt hLt, hKind⟩

theorem Fits.alloc_global
    {scope : NameScope}
    (hFits : s.store.Fits)
    (hKind : scope.kind = .global)
    (hParent : scope.parent = none)
    (hCount : scope.maxVarCount = .gvarCount)
    (hHandles : scope.handles = [])
    (hSize : scope.localSize = 0) :
    (s.store.alloc scope).1.Fits := by
  apply hFits.alloc
  · apply NameScope.SlotsFit.of_root _ _ hSize hCount
    · rw [hKind]
      decide
    · rw [NameScope.localIndices, hHandles]
      rfl
  · rw [hParent]
    rintro p ⟨⟩
  · rw [hParent]
    rintro p ⟨⟩

/- The scopes `enterScope` makes, with what they count in. -/
theorem enterScope_cases
    {store store' : ScopeStore}
    {ref new : ScopeRef}
    {kind : ScopeKind}
    (hEnter :
      store.enterScope ref kind = some (store', new)) :
    ∃ scope,
      store' = (store.alloc scope).1 ∧
        new = store.size ∧
        scope.kind = kind ∧
        scope.parent = some ref ∧
        scope.localSize = 0 ∧
        scope.handles = [] ∧
        (kind = .func ∧
            (store.scope ref).kind = .global ∧
            scope.maxVarCount =
              (store.scope ref).maxVarCount ∧
            scope.curLocalIndex = 0 ∨
          kind = .block ∧
            (store.scope ref).kind ≠ .block ∧
            scope.maxVarCount = .localIndex ref ∧
            scope.curLocalIndex = 0 ∨
          kind = .block ∧
            (store.scope ref).kind = .block ∧
            scope.maxVarCount =
              (store.scope ref).maxVarCount ∧
            scope.curLocalIndex =
              (store.scope ref).curLocalIndex) := by
  cases hKind : (store.scope ref).kind <;> cases kind <;>
    simp only [ScopeStore.enterScope, hKind, reduceCtorEq,
      Option.some.injEq] at hEnter
  all_goals
    cases hEnter
    exact ⟨_, rfl, rfl, rfl, rfl, rfl, rfl, by simp⟩

theorem Fits.enterScope
    {store : ScopeStore}
    {new : ScopeRef}
    {kind : ScopeKind}
    (hFits : s.Fits)
    (hEnter :
      s.store.enterScope s.cur kind = some (store, new)) :
    (FrontScopes.mk store new s.outer).Fits := by
  rcases enterScope_cases hEnter with
    ⟨scope, hStore, hNew, hScope, hParent, hSize, hHandles,
      hCount⟩
  subst hStore hNew
  have hIndices : scope.localIndices = [] := by
    rw [NameScope.localIndices, hHandles]
    rfl
  have hBase : scope.getBaseIndex = scope.curLocalIndex := by
    rw [NameScope.getBaseIndex, hSize]
    rfl
  have hSlots : scope.SlotsFit := by
    constructor
    · rw [hSize]
      exact Nat.zero_le _
    · rw [hIndices, hSize]
      rfl
    · intro _
      exact hSize
    · intro hNe
      rcases hCount with ⟨_, hKind, hRef, _⟩ |
        ⟨hBlock, _⟩ | ⟨hBlock, _⟩
      · rw [hRef]
        apply (hFits.store.slots _).root_count
        rw [hKind]
        decide
      · exact absurd (hScope.trans hBlock) hNe
      · exact absurd (hScope.trans hBlock) hNe
  rcases hFits.nested with ⟨unit, next, hNested⟩
  have hAlloc :
      Nested (s.store.alloc scope).1 unit s.cur next :=
    nested_alloc hFits.store hFits.cur_lt hNested
  have hUnitLt :=
    Nat.lt_of_le_of_lt
      (hNested.unit_le hFits.store.parent_lt) hFits.cur_lt
  have hNewScope := s.store.alloc_scope_new scope
  constructor
  · apply hFits.store.alloc hSlots
    · rw [hParent]
      rintro p ⟨⟩
      exact hFits.cur_lt
    · rw [hParent]
      rintro p ⟨⟩ hNe
      rcases hCount with ⟨_, hKind, _⟩ |
        ⟨hBlock, _⟩ | ⟨hBlock, _⟩
      · exact hKind
      · exact absurd (hScope.trans hBlock) hNe
      · exact absurd (hScope.trans hBlock) hNe
  · exact Nat.lt_succ_self _
  · rcases hCount with ⟨hFunc, _⟩ |
      ⟨hBlock, hKind, hRef, hCur⟩ | ⟨hBlock, hKind, hRef, hCur⟩
    · refine ⟨s.store.size, 0, .root ?_⟩
      rw [hNewScope, hScope, hFunc]
      decide
    · -- the first block of its unit
      have hUnit := hNested.of_ne_block hKind
      subst hUnit
      cases hNested with
      | root _ =>
          refine ⟨s.cur, _, .block hAlloc ?_ ?_ ?_ ?_ ?_⟩
          · rw [hNewScope, hScope, hBlock]
          · rw [hNewScope, hParent]
          · rw [hNewScope, hRef]
          · rw [hNewScope, hBase, hCur]
          · rw [hNewScope, hCur]
            exact Nat.zero_le _
      | block _ hCurBlock _ _ _ _ =>
          exact absurd hCurBlock hKind
    · -- a block in a block goes on after its slots
      rcases hNested.of_block hKind with
        ⟨_, _, _, _, hOuterRef, _, hLe, hNext, _⟩
      refine ⟨unit, _, .block hAlloc ?_ ?_ ?_ ?_ ?_⟩
      · rw [hNewScope, hScope, hBlock]
      · rw [hNewScope, hParent]
      · rw [hNewScope, hRef, hOuterRef]
      · rw [hNewScope, hBase, hCur, hNext]
      · rw [hNewScope, hCur,
          ScopeStore.alloc_scope_old hUnitLt]
        exact hLe
  · exact hFits.outer_alloc

theorem Fits.exitScope
    {parent : ScopeRef}
    (hFits : s.Fits)
    (hParent :
      (s.store.scope s.cur).parent = some parent) :
    (FrontScopes.mk s.store parent s.outer).Fits := by
  have hLt := hFits.store.parent_lt _ _ hParent
  rcases hFits.nested with ⟨unit, next, hNested⟩
  constructor
  · exact hFits.store
  · exact Nat.lt_trans hLt hFits.cur_lt
  · by_cases hKind : (s.store.scope s.cur).kind = .block
    · rcases hNested.of_block hKind with
        ⟨outer, _, hOuter, hEq, _⟩
      rw [hParent] at hEq
      cases hEq
      exact ⟨_, _, hOuter⟩
    · refine ⟨parent, 0, .root ?_⟩
      rw [hFits.store.root_parent _ _ hParent hKind]
      decide
  · exact hFits.outer

end FrontScopes

namespace TakesSlot

variable {store store' : ScopeStore}
variable {ref unit : ScopeRef}
variable {name : String}
variable {handle : FieldHandle}

theorem kind_eq
    (hTakes : TakesSlot store store' ref unit name handle)
    (r : ScopeRef) :
    (store'.scope r).kind = (store.scope r).kind := by
  by_cases hRef : r = ref
  · rw [hRef, hTakes.block]
  · by_cases hUnit : r = unit
    · rw [hUnit, hTakes.root]
    · rw [hTakes.other r hRef hUnit]

theorem parent_eq
    (hTakes : TakesSlot store store' ref unit name handle)
    (r : ScopeRef) :
    (store'.scope r).parent = (store.scope r).parent := by
  by_cases hRef : r = ref
  · rw [hRef, hTakes.block]
  · by_cases hUnit : r = unit
    · rw [hUnit, hTakes.root]
    · rw [hTakes.other r hRef hUnit]

theorem le_curLocalIndex
    (hTakes : TakesSlot store store' ref unit name handle)
    (r : ScopeRef) :
    (store.scope r).curLocalIndex ≤
      (store'.scope r).curLocalIndex := by
  by_cases hRef : r = ref
  · rw [hRef, hTakes.block]
    exact Nat.le_succ _
  · by_cases hUnit : r = unit
    · rw [hUnit, hTakes.root]
      exact Nat.le_max_left _ _
    · apply Nat.le_of_eq
      rw [hTakes.other r hRef hUnit]

/- The block gets the slot it stands at. -/
theorem slotsFit_block
    (hTakes : TakesSlot store store' ref unit name handle)
    (hFit : (store.scope ref).SlotsFit)
    (hKind : (store.scope ref).kind = .block)
    (hLocal : handle.isLocal = true)
    (hIndex : handle.index = (store.scope ref).curLocalIndex) :
    (store'.scope ref).SlotsFit := by
  have hLe := hFit.size_le
  rw [hTakes.block]
  constructor
  · exact Nat.succ_le_succ hLe
  · have hBase :
        (store.scope ref).curLocalIndex + 1 -
            ((store.scope ref).localSize + 1) =
          (store.scope ref).getBaseIndex := by
      rw [NameScope.getBaseIndex]
      omega
    have hNext :
        (store.scope ref).getBaseIndex +
            (store.scope ref).localSize =
          handle.index := by
      rw [NameScope.getBaseIndex, hIndex]
      omega
    have hIndices :
        (store.scope ref).localIndices ++ [handle.index] =
          List.range' (store.scope ref).getBaseIndex
            ((store.scope ref).localSize + 1) := by
      rw [hFit.indices, List.range'_concat, Nat.one_mul, hNext]
    rw [NameScope.getBaseIndex, hBase, ← hIndices]
    simp [NameScope.localIndices, hLocal]
  · intro hNe
    exact absurd hKind hNe
  · intro hNe
    exact absurd hKind hNe

theorem slotsFit_unit
    (hTakes : TakesSlot store store' ref unit name handle)
    (hFit : (store.scope unit).SlotsFit)
    (hKind : (store.scope unit).kind ≠ .block) :
    (store'.scope unit).SlotsFit := by
  rw [hTakes.root]
  exact
    .of_root hKind (hFit.no_locals hKind)
      (hFit.root_size hKind) (hFit.root_count hKind)

theorem fits
    (hTakes : TakesSlot store store' ref unit name handle)
    (hFits : store.Fits)
    (hRef : (store.scope ref).kind = .block)
    (hUnit : (store.scope unit).kind ≠ .block)
    (hLocal : handle.isLocal = true)
    (hIndex : handle.index = (store.scope ref).curLocalIndex) :
    store'.Fits := by
  constructor
  · intro r
    by_cases hEq : r = ref
    · rw [hEq]
      exact
        hTakes.slotsFit_block (hFits.slots ref) hRef hLocal
          hIndex
    · by_cases hRoot : r = unit
      · rw [hRoot]
        exact hTakes.slotsFit_unit (hFits.slots unit) hUnit
      · rw [hTakes.other r hEq hRoot]
        exact hFits.slots r
  · intro r p
    rw [hTakes.parent_eq, hTakes.size]
    exact hFits.scope_lt r p
  · intro r p
    rw [hTakes.parent_eq]
    exact hFits.parent_lt r p
  · intro r p
    rw [hTakes.parent_eq, hTakes.kind_eq, hTakes.kind_eq]
    exact hFits.root_parent r p

theorem nested
    (hTakes : TakesSlot store store' ref unit name handle)
    (hFits : store.Fits)
    (hNested :
      Nested store unit ref (store.scope ref).curLocalIndex)
    (hKind : (store.scope ref).kind = .block) :
    Nested store' unit ref (store'.scope ref).curLocalIndex := by
  rcases hNested.of_block hKind with
    ⟨parent, next, hOuter, hParent, hRef, hBase, hLe, _, hNe⟩
  have hLt := hFits.parent_lt _ _ hParent
  have hOuter' : Nested store' unit parent next := by
    apply hOuter.frame hFits.parent_lt (hTakes.kind_eq unit)
      (hTakes.le_curLocalIndex unit)
    intro r hLeParent hRoot
    rw [hTakes.other r _ hRoot]
    · exact .refl _
    · exact Nat.ne_of_lt (Nat.lt_of_le_of_lt hLeParent hLt)
  apply Nested.block hOuter'
  · rw [hTakes.kind_eq]
    exact hKind
  · rw [hTakes.parent_eq]
    exact hParent
  · rw [hTakes.block]
    exact hRef
  · rw [← hBase, hTakes.block, NameScope.getBaseIndex,
      NameScope.getBaseIndex]
    exact Nat.add_sub_add_right _ _ _
  · rw [hTakes.block, hTakes.root]
    exact Nat.le_max_right _ _

end TakesSlot

namespace FrontScopes

variable {s t : FrontScopes}

/-
  A definition either takes a slot of the current block or
  leaves the slots as they are.
-/
theorem defineHandle_slots
    {store : ScopeStore}
    {name : String}
    {typeId : Nat}
    {attr : FieldAttribute}
    {handle : FieldHandle}
    (hFits : s.Fits)
    (hCan : s.canDefine = true)
    (hDefine :
      s.store.defineHandle s.cur name typeId attr =
        .ok (store, handle)) :
    s.store.SameSlots store ∧ handle.isLocal = false ∨
      ∃ unit,
        (s.store.scope s.cur).kind = .block ∧
          (s.store.scope unit).kind ≠ .block ∧
          Nested s.store unit s.cur
            (s.store.scope s.cur).curLocalIndex ∧
          handle.isLocal = true ∧
          handle.index =
            (s.store.scope s.cur).curLocalIndex ∧
          TakesSlot s.store store s.cur unit name handle := by
  have hSlots := hFits.store.slots s.cur
  rcases ScopeStore.defineHandle_eq_ok hDefine with
    ⟨hAdd, hAttr, _, _, _, _, hIndex⟩
  cases hLocal : handle.isLocal with
  | false =>
      apply Or.inl
      refine ⟨?_, rfl⟩
      have hSame :=
        ScopeStore.add_sameSlots
          (by
            cases hAlias : handle.attr.isAlias with
            | true => exact .inl rfl
            | false =>
                have hGlobal : handle.attr.isGlobal = true := by
                  simpa [FieldHandle.isLocal, hAlias]
                    using hLocal
                refine .inr ⟨hGlobal, ?_⟩
                apply hSlots.root_count
                rw [hAttr] at hGlobal
                simp only [NameScope.isGlobal,
                  beq_iff_eq] at hGlobal
                rw [hGlobal]
                decide)
          hAdd
      exact ⟨hSame.size, hSame.scope⟩
  | true =>
      have hGlobal : (s.store.scope s.cur).isGlobal = false := by
        rw [FieldHandle.isLocal, hAttr] at hLocal
        simp only [Bool.and_eq_true, Bool.not_eq_true'] at hLocal
        exact hLocal.2
      have hKind : (s.store.scope s.cur).kind = .block := by
        simp only [NameScope.isGlobal] at hGlobal
        simp only [canDefine] at hCan
        cases hEq : (s.store.scope s.cur).kind with
        | global => simp [hEq] at hGlobal
        | func => simp [hEq] at hCan
        | block => rfl
      rcases hFits.nested with ⟨unit, next, hNested⟩
      rcases hNested.of_block hKind with
        ⟨_, _, _, _, hRef, _, _, hNext, hNe⟩
      have hTakes :
          TakesSlot
            { s.store with origins := s.store.origins + 1 }
            store s.cur unit name handle :=
        ScopeStore.add_takesSlot hLocal hRef hNe hAdd
      apply Or.inr
      refine
        ⟨unit, hKind, hNested.unit_kind, ?_, rfl, ?_, ?_⟩
      · rw [hNext] at hNested
        exact hNested
      · rw [hIndex, hGlobal]
        rfl
      · exact
          ⟨hTakes.size, hTakes.block, hTakes.root,
            hTakes.other⟩

theorem Fits.keep_defineHandle
    (hFits : s.Fits)
    (hCan : s.canDefine = true)
    (name : String)
    (typeId : Nat)
    (attr : FieldAttribute) :
    (s.keep
      (s.store.defineHandle s.cur name typeId attr)).Fits := by
  cases hDefine :
      s.store.defineHandle s.cur name typeId attr with
  | error _ => exact hFits
  | ok result =>
      rcases result with ⟨store, handle⟩
      rcases defineHandle_slots hFits hCan hDefine with
        ⟨hSame, _⟩ |
        ⟨unit, hKind, hUnit, hNested, hLocal, hIndex, hTakes⟩
      · exact hFits.sameSlots hSame
      · constructor
        · exact
            hTakes.fits hFits.store hKind hUnit hLocal hIndex
        · exact Nat.lt_of_lt_of_eq hFits.cur_lt hTakes.size.symm
        · exact
            ⟨unit, _, hTakes.nested hFits.store hNested hKind⟩
        · intro ref hMem
          rcases hFits.outer ref hMem with ⟨hLt, hGlobal⟩
          refine ⟨Nat.lt_of_lt_of_eq hLt hTakes.size.symm, ?_⟩
          exact (hTakes.kind_eq ref).trans hGlobal

theorem Fits.keep_sameSlots
    {result :
      Except NameLookupError (ScopeStore × FieldHandle)}
    (hFits : s.Fits)
    (hOk :
      ∀ store handle,
        result = .ok (store, handle) →
          s.store.SameSlots store) :
    (s.keep result).Fits :=
  hFits.sameSlots (s.store.keep_sameSlots hOk)

theorem Fits.newModScope
    (hFits : s.Fits)
    (modId : Nat) :
    (s.store.newModScope modId).1.Fits ∧
      (s.store.newModScope modId).2 <
        (s.store.newModScope modId).1.size ∧
      ((s.store.newModScope modId).1.scope
        (s.store.newModScope modId).2).kind = .global := by
  refine ⟨?_, Nat.lt_succ_self _, ?_⟩
  · exact alloc_global hFits.store rfl rfl rfl rfl rfl
  · exact
      congrArg NameScope.kind
        (s.store.alloc_scope_new _)

theorem Fits.recreate
    (hFits : s.Fits)
    (type : ModType)
    (children : List (ModType × Bool)) :
    (FrontScopes.mk (s.store.recreate type children).1
      s.cur s.outer).Fits := by
  rcases hFits.nested with ⟨unit, next, hNested⟩
  have hAlloc :
      (FrontScopes.mk (s.store.newModScope type.modId).1
        s.cur s.outer).Fits := by
    constructor
    · exact (hFits.newModScope type.modId).1
    · exact Nat.lt_succ_of_lt hFits.cur_lt
    · exact
        ⟨unit, next,
          nested_alloc hFits.store hFits.cur_lt hNested⟩
    · exact hFits.outer_alloc
  exact
    hAlloc.sameSlots
      ((ScopeStore.copyHandles_sameSlots _ _ _).trans
        (ScopeStore.importChildren_sameSlots _ _ _))

theorem step_fits
    (s : FrontScopes)
    (event : ScopeEvent)
    (t : FrontScopes)
    (hFits : s.Fits)
    (hStep : s.step event = some t) :
    t.Fits := by
  cases event with
  | start ref =>
      simp only [step] at hStep
      split_ifs at hStep with hMod
      cases hStep
      rcases (s.isModScope_iff ref).mp hMod with ⟨hLt, hKind⟩
      have hClear :=
        (hFits.store.slots ref).clear
          (by
            rw [hKind]
            decide)
      exact hFits.setModScope hLt hKind hKind rfl hClear
  | enterModule modId =>
      simp only [step] at hStep
      split_ifs at hStep with hMod
      cases hStep
      rcases (s.isModScope_iff s.cur).mp hMod with
        ⟨hLt, hKind⟩
      rcases hFits.newModScope modId with
        ⟨hStore, hNewLt, hNewKind⟩
      apply Fits.to_modScope hStore hNewLt hNewKind
      intro r hMem
      rcases List.mem_cons.mp hMem with hCur | hOuter
      · subst hCur
        refine ⟨Nat.lt_succ_of_lt hLt, ?_⟩
        rw [ScopeStore.newModScope,
          ScopeStore.alloc_scope_old hLt]
        exact hKind
      · exact hFits.outer_alloc r hOuter
  | exitModule =>
      simp only [step] at hStep
      cases hOuter : s.outer with
      | nil => simp [hOuter] at hStep
      | cons ref outer =>
          simp only [hOuter] at hStep
          split_ifs at hStep
          cases hStep
          have hMem := hFits.outer
          rw [hOuter] at hMem
          rcases hMem ref List.mem_cons_self with
            ⟨hLt, hKind⟩
          exact
            Fits.to_modScope hFits.store hLt hKind
              (fun r hRest =>
                hMem r (List.mem_cons_of_mem ref hRest))
  | enterScope kind =>
      simp only [step, Option.map_eq_some_iff] at hStep
      rcases hStep with ⟨⟨store, new⟩, hEnter, hEq⟩
      cases hEq
      exact hFits.enterScope hEnter
  | exitScope =>
      simp only [step, Option.map_eq_some_iff] at hStep
      rcases hStep with ⟨parent, hParent, hEq⟩
      cases hEq
      exact hFits.exitScope hParent
  | defineHandle name typeId attr =>
      simp only [step] at hStep
      split_ifs at hStep with hCan
      cases hStep
      exact hFits.keep_defineHandle hCan name typeId attr
  | defineAlias name handle =>
      simp only [step] at hStep
      split_ifs at hStep
      cases hStep
      exact
        hFits.keep_sameSlots
          (fun _ _ hDefine =>
            ScopeStore.defineAlias_sameSlots hDefine)
  | defineTypeAlias isTypeName name typeId =>
      simp only [step] at hStep
      split_ifs at hStep
      cases hStep
      exact
        hFits.keep_sameSlots
          (fun _ _ hDefine =>
            ScopeStore.defineTypeAlias_sameSlots hDefine)
  | importForeignHandles type isGlobal =>
      simp only [step] at hStep
      split_ifs at hStep
      cases hStep
      exact
        hFits.sameSlots
          (s.store.importForeignHandles_sameSlots s.cur type
            isGlobal)
  | recreate type children =>
      cases hStep
      exact hFits.recreate type children
  | discard ref commitIdOffset =>
      simp only [step] at hStep
      split_ifs at hStep with hMod
      cases hStep
      rcases (s.isModScope_iff ref).mp hMod with ⟨hLt, hKind⟩
      have hDiscard :=
        (hFits.store.slots ref).discard hKind commitIdOffset
      rw [ScopeStore.discard]
      apply hFits.setModScope hLt hKind _ _ hDiscard
      · rw [NameScope.discard_of_global hKind]
        exact hKind
      · rw [NameScope.discard_of_global hKind]

theorem fits_of_exec
    {events : List ScopeEvent}
    (hRun : exec step init events = some s) :
    s.Fits :=
  exec_invariant step_fits hRun init_fits

end FrontScopes

----
-- Slots That Are Seen
----

theorem Encloses.cases_head
    {store : ScopeStore}
    {r p : ScopeRef}
    (hEncloses : Encloses store r p) :
    r = p ∨
      ∃ parent,
        (store.scope r).parent = some parent ∧
          Encloses store parent p :=
  Relation.ReflTransGen.cases_head hEncloses

/- Around a scope that is no block there are only modules. -/
theorem no_locals_outside
    {store : ScopeStore}
    {r p : ScopeRef}
    (hFits : store.Fits)
    (hKind : (store.scope r).kind ≠ .block)
    (hEncloses : Encloses store r p) :
    (store.scope p).kind ≠ .block := by
  induction hEncloses with
  | refl => exact hKind
  | tail _ hParent ih =>
      rw [hFits.root_parent _ _ hParent ih]
      decide

/- The scopes further out hold only slots below `next`. -/
theorem Nested.slots_lt
    {store : ScopeStore}
    {unit r p : ScopeRef}
    {next : Nat}
    (hFits : store.Fits)
    (hNested : Nested store unit r next)
    (hEncloses : Encloses store r p)
    (hBlock : (store.scope p).kind = .block) :
    (store.scope p).curLocalIndex ≤ next := by
  induction hNested with
  | root hKind =>
      exact
        absurd hBlock (no_locals_outside hFits hKind hEncloses)
  | @block parent ref next hOuter _ hParent _ hBase _ ih =>
      rcases hEncloses.cases_head with hEq | ⟨q, hQ, hRest⟩
      · exact Nat.le_of_eq (by rw [hEq])
      · rw [hParent] at hQ
        cases hQ
        have hLe := ih hRest
        rw [← hBase] at hLe
        exact Nat.le_trans hLe (Nat.sub_le _ _)

/- What a block holds begins where the outer blocks end. -/
theorem Nested.base_ge
    {store : ScopeStore}
    {unit r p parent : ScopeRef}
    {next : Nat}
    (hFits : store.Fits)
    (hNested : Nested store unit r next)
    (hKind : (store.scope r).kind = .block)
    (hParent : (store.scope r).parent = some parent)
    (hEncloses : Encloses store parent p)
    (hBlock : (store.scope p).kind = .block) :
    (store.scope p).curLocalIndex ≤
      (store.scope r).getBaseIndex := by
  rcases hNested.of_block hKind with
    ⟨outer, _, hOuter, hEq, _, hBase, _⟩
  rw [hParent] at hEq
  cases hEq
  rw [hBase]
  exact hOuter.slots_lt hFits hEncloses hBlock

theorem Nested.outward
    {store : ScopeStore}
    {unit r p : ScopeRef}
    {next : Nat}
    (hFits : store.Fits)
    (hNested : Nested store unit r next)
    (hEncloses : Encloses store r p)
    (hBlock : (store.scope p).kind = .block) :
    ∃ outer, Nested store unit p outer := by
  induction hNested with
  | root hKind =>
      exact
        absurd hBlock (no_locals_outside hFits hKind hEncloses)
  | @block parent ref next hOuter hKind hParent hRef hBase hLe
      ih =>
      rcases hEncloses.cases_head with hEq | ⟨q, hQ, hRest⟩
      · rw [← hEq]
        exact
          ⟨_, .block hOuter hKind hParent hRef hBase hLe⟩
      · rw [hParent] at hQ
        cases hQ
        exact ih hRest

/- One of two scopes around a scope is around the other. -/
theorem Encloses.linear
    {store : ScopeStore}
    {r p q : ScopeRef}
    (hFirst : Encloses store r p)
    (hSecond : Encloses store r q) :
    Encloses store p q ∨ Encloses store q p := by
  apply Relation.ReflTransGen.total_of_right_unique _
    hFirst hSecond
  intro r p q hP hQ
  rw [hP] at hQ
  cases hQ
  rfl

namespace ScopeStore

variable {store : ScopeStore}
variable {r : ScopeRef}
variable {name : String}
variable {handle : FieldHandle}

theorem Fits.block_of_local
    (hFits : store.Fits)
    (hMem : (name, handle) ∈ (store.scope r).handles)
    (hLocal : handle.isLocal = true) :
    (store.scope r).kind = .block := by
  by_contra hKind
  have hIndex := NameScope.mem_localIndices hMem hLocal
  rw [(hFits.slots r).no_locals hKind] at hIndex
  cases hIndex

theorem Fits.index_bounds
    (hFits : store.Fits)
    (hMem : (name, handle) ∈ (store.scope r).handles)
    (hLocal : handle.isLocal = true) :
    (store.scope r).getBaseIndex ≤ handle.index ∧
      handle.index < (store.scope r).curLocalIndex := by
  have hIndex := NameScope.mem_localIndices hMem hLocal
  have hLe := (hFits.slots r).size_le
  rw [(hFits.slots r).indices, List.mem_range'_1] at hIndex
  rw [NameScope.getBaseIndex] at hIndex ⊢
  omega

/- A scope has no two variables in one slot. -/
theorem Fits.eq_of_index_eq
    {name' : String}
    {handle' : FieldHandle}
    (hFits : store.Fits)
    (hMem : (name, handle) ∈ (store.scope r).handles)
    (hLocal : handle.isLocal = true)
    (hMem' : (name', handle') ∈ (store.scope r).handles)
    (hLocal' : handle'.isLocal = true)
    (hIndex : handle.index = handle'.index) :
    (name, handle) = (name', handle') := by
  have hNodup :
      (((store.scope r).handles.filter
          (fun entry => entry.2.isLocal)).map
        (fun entry => entry.2.index)).Nodup := by
    have hRange := (hFits.slots r).indices
    rw [NameScope.localIndices, List.filter_map,
      List.map_map] at hRange
    have hEq :
        ((store.scope r).handles.filter
            (fun entry => entry.2.isLocal)).map
          (fun entry => entry.2.index) =
          List.range' (store.scope r).getBaseIndex
            (store.scope r).localSize :=
      hRange
    rw [hEq]
    exact List.nodup_range'
  exact
    List.inj_on_of_nodup_map hNodup
      (List.mem_filter.mpr ⟨hMem, hLocal⟩)
      (List.mem_filter.mpr ⟨hMem', hLocal'⟩) hIndex

end ScopeStore

/- A variable of an outer block has a smaller index. -/
theorem index_lt_of_encloses
    {store : ScopeStore}
    {unit r p q : ScopeRef}
    {next : Nat}
    {name name' : String}
    {handle handle' : FieldHandle}
    (hFits : store.Fits)
    (hNested : Nested store unit r next)
    (hInner : VisibleLocal store r p name handle)
    (hOuter :
      (name', handle') ∈ (store.scope q).handles ∧
        handle'.isLocal = true)
    (hEncloses : Encloses store p q)
    (hNe : p ≠ q) :
    handle'.index < handle.index := by
  rcases hInner with ⟨hIn, hMem, hLocal⟩
  have hKind := hFits.block_of_local hMem hLocal
  have hKind' := hFits.block_of_local hOuter.1 hOuter.2
  rcases hNested.outward hFits hIn hKind with
    ⟨next', hNested'⟩
  rcases hEncloses.cases_head with hEq | ⟨parent, hParent, hRest⟩
  · exact absurd hEq hNe
  · have hBase :=
      hNested'.base_ge hFits hKind hParent hRest hKind'
    have hLt := (hFits.index_bounds hOuter.1 hOuter.2).2
    have hGe := (hFits.index_bounds hMem hLocal).1
    omega

theorem visible_index_inj
    {store : ScopeStore}
    {unit r p q : ScopeRef}
    {next : Nat}
    {name name' : String}
    {handle handle' : FieldHandle}
    (hFits : store.Fits)
    (hNested : Nested store unit r next)
    (hFirst : VisibleLocal store r p name handle)
    (hSecond : VisibleLocal store r q name' handle')
    (hIndex : handle.index = handle'.index) :
    p = q ∧ name = name' ∧ handle = handle' := by
  by_cases hEq : p = q
  · subst hEq
    have hEntry :=
      hFits.eq_of_index_eq hFirst.2.1 hFirst.2.2
        hSecond.2.1 hSecond.2.2 hIndex
    cases hEntry
    exact ⟨rfl, rfl, rfl⟩
  · exfalso
    rcases hFirst.1.linear hSecond.1 with hIn | hOut
    · have hLt :=
        index_lt_of_encloses hFits hNested hFirst hSecond.2
          hIn hEq
      omega
    · have hLt :=
        index_lt_of_encloses hFits hNested hSecond hFirst.2
          hOut (Ne.symm hEq)
      omega

----
-- The Number of Slots of a Unit
----

theorem InUnit.unique
    {store : ScopeStore}
    {unit unit' r : ScopeRef}
    (hFirst : InUnit store unit r)
    (hSecond : InUnit store unit' r) :
    unit = unit' := by
  induction hFirst with
  | root hKind =>
      cases hSecond with
      | root _ => rfl
      | block _ hBlock _ => exact absurd hBlock hKind
  | block _ hBlock hParent ih =>
      cases hSecond with
      | root hKind => exact absurd hBlock hKind
      | block hOuter _ hEq =>
          rw [hParent] at hEq
          cases hEq
          exact ih hOuter

/- Every open block of a unit reports the count of the unit. -/
theorem Nested.getMaxLocalVarIndex_eq
    {store : ScopeStore}
    {unit r : ScopeRef}
    {next : Nat}
    (hNested : Nested store unit r next) :
    store.getMaxLocalVarIndex r =
      (store.scope unit).curLocalIndex := by
  by_cases hKind : (store.scope r).kind = .block
  · rcases hNested.of_block hKind with ⟨_, _, _, _, hRef, _⟩
    rw [ScopeStore.getMaxLocalVarIndex, if_pos hKind, hRef]
    rfl
  · rw [ScopeStore.getMaxLocalVarIndex, if_neg hKind,
      hNested.of_ne_block hKind]

namespace FrontScopes

/- A unit that goes on does not give slots back. -/
theorem step_curLocalIndex_le
    {s t : FrontScopes}
    {event : ScopeEvent}
    {unit : ScopeRef}
    (hFits : s.Fits)
    (hLt : unit < s.store.size)
    (hOn : ¬event.Restarts unit)
    (hStep : s.step event = some t) :
    unit < t.store.size ∧
      (s.store.scope unit).curLocalIndex ≤
        (t.store.scope unit).curLocalIndex := by
  have hSlots :
      ∀ store,
        s.store.SameSlots store →
        unit < store.size ∧
          (s.store.scope unit).curLocalIndex ≤
            (store.scope unit).curLocalIndex := by
    intro store hSame
    rw [hSame.size, (hSame.scope unit).curLocalIndex]
    exact ⟨hLt, Nat.le_refl _⟩
  have hAlloc :
      ∀ scope,
        unit < (s.store.alloc scope).1.size ∧
          (s.store.scope unit).curLocalIndex ≤
            ((s.store.alloc scope).1.scope unit).curLocalIndex := by
    intro scope
    rw [ScopeStore.alloc_scope_old hLt]
    exact ⟨Nat.lt_succ_of_lt hLt, Nat.le_refl _⟩
  have hOther :
      ∀ ref scope,
        ref ≠ unit →
        (s.store.scope unit).curLocalIndex ≤
          ((s.store.setScope ref scope).scope
            unit).curLocalIndex := by
    intro ref scope hNe
    apply Nat.le_of_eq
    rw [ScopeStore.setScope_scope, if_neg (Ne.symm hNe)]
  cases event with
  | start ref | discard ref commitIdOffset =>
      simp only [step] at hStep
      split_ifs at hStep
      cases hStep
      exact ⟨hLt, hOther ref _ hOn⟩
  | enterModule modId =>
      simp only [step] at hStep
      split_ifs at hStep
      cases hStep
      exact hAlloc _
  | exitModule =>
      simp only [step] at hStep
      cases hOuter : s.outer with
      | nil => simp [hOuter] at hStep
      | cons ref outer =>
          simp only [hOuter] at hStep
          split_ifs at hStep
          cases hStep
          exact ⟨hLt, Nat.le_refl _⟩
  | enterScope kind =>
      simp only [step, Option.map_eq_some_iff] at hStep
      rcases hStep with ⟨⟨store, new⟩, hEnter, hEq⟩
      cases hEq
      rcases enterScope_cases hEnter with ⟨scope, hStore, _⟩
      rw [hStore]
      exact hAlloc scope
  | exitScope =>
      simp only [step, Option.map_eq_some_iff] at hStep
      rcases hStep with ⟨parent, _, hEq⟩
      cases hEq
      exact ⟨hLt, Nat.le_refl _⟩
  | defineHandle name typeId attr =>
      simp only [step] at hStep
      split_ifs at hStep with hCan
      cases hStep
      cases hDefine :
          s.store.defineHandle s.cur name typeId attr with
      | error _ => exact ⟨hLt, Nat.le_refl _⟩
      | ok result =>
          rcases result with ⟨store, handle⟩
          rcases defineHandle_slots hFits hCan hDefine with
            ⟨hSame, _⟩ | ⟨_, _, _, _, _, _, hTakes⟩
          · exact hSlots store hSame
          · exact
              ⟨Nat.lt_of_lt_of_eq hLt hTakes.size.symm,
                hTakes.le_curLocalIndex unit⟩
  | defineAlias name handle =>
      simp only [step] at hStep
      split_ifs at hStep
      cases hStep
      apply hSlots
      exact
        s.store.keep_sameSlots
          (fun _ _ hDefine =>
            ScopeStore.defineAlias_sameSlots hDefine)
  | defineTypeAlias isTypeName name typeId =>
      simp only [step] at hStep
      split_ifs at hStep
      cases hStep
      apply hSlots
      exact
        s.store.keep_sameSlots
          (fun _ _ hDefine =>
            ScopeStore.defineTypeAlias_sameSlots hDefine)
  | importForeignHandles type isGlobal =>
      simp only [step] at hStep
      split_ifs at hStep
      cases hStep
      apply hSlots
      exact
        s.store.importForeignHandles_sameSlots s.cur type
          isGlobal
  | recreate type children =>
      cases hStep
      have hSame :=
        (ScopeStore.copyHandles_sameSlots
          (s.store.newModScope type.modId).1
          (s.store.newModScope type.modId).2
          type.handleMap).trans
          (ScopeStore.importChildren_sameSlots _
            (s.store.newModScope type.modId).2 children)
      rcases hAlloc _ with ⟨hNewLt, hLe⟩
      constructor
      · exact Nat.lt_of_lt_of_eq hNewLt hSame.size.symm
      · exact
          Nat.le_trans hLe
            (Nat.le_of_eq
              (hSame.scope unit).curLocalIndex.symm)

/- An index below the count of a unit stays below it. -/
theorem index_lt_of_run
    {s t : FrontScopes}
    {events : List ScopeEvent}
    {unit : ScopeRef}
    {index : Nat}
    (hFits : s.Fits)
    (hLt : unit < s.store.size)
    (hIndex : index < (s.store.scope unit).curLocalIndex)
    (hRun :
      GuardedRun step (fun _ event => ¬event.Restarts unit)
        s events t) :
    t.Fits ∧ index < (t.store.scope unit).curLocalIndex := by
  have hKept :=
    hRun.invariant
      (I := fun u =>
        u.Fits ∧ unit < u.store.size ∧
          index < (u.store.scope unit).curLocalIndex)
      (by
        intro u event v hInv hOn hStep
        rcases hInv with ⟨hFits, hLt, hIndex⟩
        rcases step_curLocalIndex_le hFits hLt hOn hStep with
          ⟨hLt', hLe⟩
        exact
          ⟨step_fits u event v hFits hStep, hLt',
            Nat.lt_of_lt_of_le hIndex hLe⟩)
      ⟨hFits, hLt, hIndex⟩
  exact ⟨hKept.1, hKept.2.2⟩

end FrontScopes

----
-- Slots of Every Unit
----

open FrontScopes

/-
  Variables seen from one place have different slots; a slot
  of a unit stays below the count the unit reports, however
  the unit goes on; and an open block begins where the open
  blocks around it end.
-/
theorem local_slots
    {events : List ScopeEvent}
    {s : FrontScopes}
    (hRun : exec FrontScopes.step FrontScopes.init events = some s) :
    (∀ p q name name' handle handle',
      VisibleLocal s.store s.cur p name handle →
      VisibleLocal s.store s.cur q name' handle' →
      handle.index = handle'.index →
      p = q ∧ name = name' ∧ handle = handle') ∧
    (∀ name typeId attr store handle unit later t,
      s.canDefine = true →
      s.store.defineHandle s.cur name typeId attr =
        .ok (store, handle) →
      handle.isLocal = true →
      InUnit s.store unit s.cur →
      GuardedRun FrontScopes.step
        (fun _ event => ¬event.Restarts unit)
        { s with store := store } later t →
      InUnit t.store unit t.cur →
      handle.index < t.store.getMaxLocalVarIndex t.cur) ∧
    (∀ inner parent outer,
      Encloses s.store s.cur inner →
      (s.store.scope inner).kind = .block →
      (s.store.scope inner).parent = some parent →
      Encloses s.store parent outer →
      (s.store.scope outer).kind = .block →
      (s.store.scope outer).getBaseIndex +
          (s.store.scope outer).localSize ≤
        (s.store.scope inner).getBaseIndex) := by
  have hFits := fits_of_exec hRun
  rcases hFits.nested with ⟨unit, next, hNested⟩
  refine ⟨?_, ?_, ?_⟩
  · intro p q name name' handle handle' hFirst hSecond hIndex
    exact
      visible_index_inj hFits.store hNested hFirst hSecond
        hIndex
  · intro name typeId attr store handle unit' later t
      hCan hDefine hLocal hUnit hLater hOpen
    rcases defineHandle_slots hFits hCan hDefine with
      ⟨_, hNot⟩ | ⟨root, _, _, hRoot, _, hIndex, hTakes⟩
    · rw [hLocal] at hNot
      cases hNot
    · have hEq := hRoot.inUnit.unique hUnit
      subst hEq
      have hFits' := hFits.keep_defineHandle hCan name typeId attr
      rw [keep, hDefine] at hFits'
      have hLt : root < store.size := by
        rw [hTakes.size]
        exact
          Nat.lt_of_le_of_lt
            (hRoot.unit_le hFits.store.parent_lt) hFits.cur_lt
      have hBelow :
          handle.index < (store.scope root).curLocalIndex := by
        rw [hIndex, hTakes.root]
        exact Nat.lt_of_succ_le (Nat.le_max_right _ _)
      rcases index_lt_of_run hFits' hLt hBelow hLater with
        ⟨hFitsEnd, hEnd⟩
      rcases hFitsEnd.nested with ⟨root', _, hNestedEnd⟩
      have hSame := hNestedEnd.inUnit.unique hOpen
      rw [hNestedEnd.getMaxLocalVarIndex_eq, hSame]
      exact hEnd
  · intro inner parent outer hInner hKind hParent hOuter hBlock
    rcases hNested.outward hFits.store hInner hKind with
      ⟨_, hNestedIn⟩
    have hBase :=
      hNestedIn.base_ge hFits.store hKind hParent hOuter hBlock
    have hSize :
        (s.store.scope outer).getBaseIndex +
            (s.store.scope outer).localSize =
          (s.store.scope outer).curLocalIndex :=
      Nat.sub_add_cancel (hFits.store.slots outer).size_le
    rw [hSize]
    exact hBase

/- A block in a block: the inner variable has the next slot. -/
theorem local_slots_nested :
    ∃ s handle handle',
      exec FrontScopes.step FrontScopes.init
          [.start 0, .enterScope .block,
            .defineHandle "a" 6 {}, .enterScope .block,
            .defineHandle "b" 6 {}] =
        some s ∧
      VisibleLocal s.store s.cur 1 "a" handle ∧
      VisibleLocal s.store s.cur 2 "b" handle' ∧
      handle.index ≠ handle'.index := by
  have hOuter :
      ∃ s handle handle',
        exec FrontScopes.step FrontScopes.init
            [.start 0, .enterScope .block,
              .defineHandle "a" 6 {}, .enterScope .block,
              .defineHandle "b" 6 {}] =
          some s ∧
        VisibleLocal s.store s.cur 1 "a" handle ∧
        VisibleLocal s.store s.cur 2 "b" handle' := by
    refine
      ⟨_, ⟨0, 6, 0, {}, 0, 0⟩, ⟨0, 6, 1, {}, 0, 1⟩, rfl, ?_, ?_⟩
    · refine ⟨?_, by decide, rfl⟩
      exact .single rfl
    · exact ⟨.refl, by decide, rfl⟩
  rcases hOuter with ⟨s, handle, handle', hRun, hFirst, hSecond⟩
  refine ⟨s, handle, handle', hRun, hFirst, hSecond, ?_⟩
  intro hIndex
  have hEq :=
    (local_slots hRun).1 1 2 "a" "b" handle handle' hFirst
      hSecond hIndex
  exact absurd hEq.1 (by decide)

/- The slots that a block holds by its base and its size. -/
def NameScope.HoldsSlot
    (scope : NameScope)
    (index : Nat) : Prop :=
  scope.getBaseIndex ≤ index ∧
    index < scope.getBaseIndex + scope.localSize

/-
  A variable that a block declares after a block in it has been
  left gets a slot of that block.
-/
theorem slot_of_left_block_reused :
    ∃ s t,
      exec FrontScopes.step FrontScopes.init
          [.start 0, .enterScope .block, .enterScope .block,
            .defineHandle "a" 6 {}] =
        some s ∧
      exec FrontScopes.step s
          [.exitScope, .defineHandle "b" 6 {}] =
        some t ∧
      (s.store.scope s.cur).kind = .block ∧
      (s.store.scope s.cur).parent = some t.cur ∧
      (t.store.scope t.cur).kind = .block ∧
      (s.store.scope s.cur).HoldsSlot 0 ∧
      (t.store.scope t.cur).HoldsSlot 0 := by
  refine ⟨_, _, rfl, rfl, rfl, rfl, rfl, ?_, ?_⟩
  · exact ⟨Nat.le_refl _, Nat.lt_succ_self _⟩
  · exact ⟨Nat.le_refl _, Nat.lt_succ_self _⟩

end Scope

end Ydsh
