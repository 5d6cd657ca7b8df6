import Ydsh.Library.AssocList
import Ydsh.Scope.Growth

/-
  What copying and importing names puts into a scope.

  A lookup tells the type, the index, the attributes and the
  module of a symbol.  The names of a module reach another
  scope in three ways, and each puts entries at the end of the
  names of one scope.

  Main declarations:
    * `SymbolInfo`
    * `IsSymbolName`
    * `toModHolderName_inj`
    * `NamesAt`
    * `Gives`
    * `ScopeStore.importHandles_names`
    * `ScopeStore.importHandles_free`
    * `ScopeStore.copyHandles_names`
-/

----
-- Results of Lookups
----

namespace Ydsh

namespace Scope

open Library

/- What a lookup tells of a symbol. -/
structure SymbolInfo where
  typeId : Nat
  index : Nat
  attr : FieldAttribute
  modId : Nat
  deriving DecidableEq, Repr

def FieldHandle.info (handle : FieldHandle) : SymbolInfo :=
  { typeId := handle.typeId
    index := handle.index
    attr := handle.attr
    modId := handle.modId }

namespace SymbolInfo

def asAlias (info : SymbolInfo) : SymbolInfo :=
  { info with attr := { info.attr with isAlias := true } }

def inModule (info : SymbolInfo) (modId : Nat) : SymbolInfo :=
  { info with modId := modId }

def isModHolder (info : SymbolInfo) : Bool :=
  info.attr.globalMod || info.attr.namedMod

end SymbolInfo

@[simp] theorem FieldHandle.info_isModHolder
    (handle : FieldHandle) :
    handle.info.isModHolder = handle.isModHolder :=
  rfl

theorem FieldHandle.isModHolder_of_asAlias
    {handle handle' : FieldHandle}
    (hInfo : handle'.info = handle.info.asAlias) :
    handle'.isModHolder = handle.isModHolder :=
  congrArg SymbolInfo.isModHolder hInfo

theorem FieldHandle.modId_of_asAlias
    {handle handle' : FieldHandle}
    (hInfo : handle'.info = handle.info.asAlias) :
    handle'.modId = handle.modId :=
  congrArg SymbolInfo.modId hInfo

----
-- Names of Symbols and of Module Holders
----

def isModHolderName (name : String) : Bool :=
  hasSuffix name MOD_HOLDER_SYMBOL_SUFFIX

/-
  The name of a variable, a command or a type alias.  The lexer
  takes no empty name, and only commands and type aliases have
  a suffix.
-/
def IsSymbolName (name : String) : Prop :=
  isModHolderName name = false ∧ symbolName name ≠ ""

instance (name : String) : Decidable (IsSymbolName name) := by
  unfold IsSymbolName
  infer_instance

theorem toModHolderName_toList (id : Nat) (isGlobal : Bool) :
    (toModHolderName id isGlobal).toList =
      '_' :: (if isGlobal then 'g' else 'n') ::
        (Nat.toDigits 10 id ++ ['%', 'm']) := by
  have hSuffix : MOD_HOLDER_SYMBOL_SUFFIX.toList = ['%', 'm'] := by
    decide
  cases isGlobal with
  | false | true =>
      simp [toModHolderName, hSuffix, Nat.toString_eq_repr,
        Nat.toList_repr]

theorem isModHolderName_toModHolderName
    (id : Nat)
    (isGlobal : Bool) :
    isModHolderName (toModHolderName id isGlobal) = true := by
  have hSuffix : MOD_HOLDER_SYMBOL_SUFFIX.toList = ['%', 'm'] := by
    decide
  unfold isModHolderName hasSuffix
  rw [List.isSuffixOf_iff_suffix, toModHolderName_toList, hSuffix]
  exact
    ⟨'_' :: (if isGlobal then 'g' else 'n') ::
      Nat.toDigits 10 id, by simp⟩

/- A holder's name tells the module and how it was imported. -/
theorem toModHolderName_inj
    {id id' : Nat}
    {isGlobal isGlobal' : Bool}
    (hName :
      toModHolderName id isGlobal =
        toModHolderName id' isGlobal') :
    id = id' ∧ isGlobal = isGlobal' := by
  have hChars := congrArg String.toList hName
  rw [toModHolderName_toList, toModHolderName_toList] at hChars
  rcases List.cons_eq_cons.mp hChars with ⟨_, hRest⟩
  rcases List.cons_eq_cons.mp hRest with ⟨hFlag, hDigits⟩
  constructor
  · rw [← Nat.ofDigitChars_ten_toDigits (n := id),
      List.append_cancel_right hDigits,
      Nat.ofDigitChars_ten_toDigits]
  · cases isGlobal <;> cases isGlobal' <;> simp at hFlag <;> rfl

theorem IsSymbolName.ne_toModHolderName
    {name : String}
    (hName : IsSymbolName name)
    (id : Nat)
    (isGlobal : Bool) :
    name ≠ toModHolderName id isGlobal := by
  intro hEq
  have hNot := hName.1
  rw [hEq, isModHolderName_toModHolderName] at hNot
  exact Bool.noConfusion hNot

----
-- Names Put into One Scope
----

namespace NameScope

def names (scope : NameScope) : List String :=
  AssocList.keys scope.handles

theorem contains_iff
    {scope : NameScope}
    {name : String} :
    scope.contains name = true ↔ name ∈ scope.names := by
  unfold contains find names
  cases hFind : scope.handles.lookup name with
  | none =>
      have hNot := AssocList.lookup_eq_none.mp hFind
      exact iff_of_false (by simp) hNot
  | some handle =>
      have hMem := AssocList.mem_of_lookup hFind
      exact iff_of_true rfl (AssocList.mem_keys_of_mem hMem)

theorem contains_eq_false
    {scope : NameScope}
    {name : String} :
    scope.contains name = false ↔ name ∉ scope.names := by
  rw [← contains_iff, Bool.not_eq_true]

end NameScope

/- Only `ref` gets names, and these stand after the others. -/
structure NamesAt
    (ref : ScopeRef)
    (before after : ScopeStore)
    (added : HandleMap) : Prop where
  size : after.size = before.size
  frame :
    ∀ r, r ≠ ref →
      (before.scope r).SameNames (after.scope r)
  names :
    NameScope.SameNames
      { before.scope ref with
        handles := (before.scope ref).handles ++ added }
      (after.scope ref)
  distinct :
    AssocList.Distinct (before.scope ref).handles →
      AssocList.Distinct (after.scope ref).handles

namespace NamesAt

variable {ref : ScopeRef}
variable {before mid after : ScopeStore}
variable {added more : HandleMap}

theorem refl (store : ScopeStore) :
    NamesAt ref store store [] where
  size := rfl
  frame := fun _ _ => .refl _
  names := ⟨rfl, rfl, rfl, rfl, (List.append_nil _).symm⟩
  distinct := fun hDistinct => hDistinct

theorem handles_eq (hNames : NamesAt ref before after added) :
    (after.scope ref).handles =
      (before.scope ref).handles ++ added :=
  hNames.names.handles

theorem names_eq (hNames : NamesAt ref before after added) :
    (after.scope ref).names =
      (before.scope ref).names ++ AssocList.keys added := by
  unfold NameScope.names
  rw [hNames.handles_eq, AssocList.keys_append]

theorem modId_eq (hNames : NamesAt ref before after added) :
    (after.scope ref).modId = (before.scope ref).modId :=
  hNames.names.modId

theorem trans
    (hFirst : NamesAt ref before mid added)
    (hSecond : NamesAt ref mid after more) :
    NamesAt ref before after (added ++ more) where
  size := hSecond.size.trans hFirst.size
  frame := fun r hNe =>
    (hFirst.frame r hNe).trans (hSecond.frame r hNe)
  names :=
    ⟨hSecond.names.kind.trans hFirst.names.kind,
      hSecond.names.modId.trans hFirst.names.modId,
      hSecond.names.parent.trans hFirst.names.parent,
      hSecond.names.maxVarCount.trans hFirst.names.maxVarCount,
      by
        rw [hSecond.handles_eq, hFirst.handles_eq,
          List.append_assoc]⟩
  distinct := fun hDistinct =>
    hSecond.distinct (hFirst.distinct hDistinct)

end NamesAt

namespace ScopeStore

variable {store store' : ScopeStore}
variable {ref : ScopeRef}
variable {name : String}
variable {handle handle' : FieldHandle}

theorem add_namesAt
    (hAdd :
      store.add ref name handle = .ok (store', handle')) :
    NamesAt ref store store' [(name, handle)] := by
  rcases add_eq_ok hAdd with ⟨_, hFree, _, hStore⟩
  have hSame :=
    countVar_sameNames
      (store.setScope ref
        { store.scope ref with
          handles :=
            (store.scope ref).handles ++ [(name, handle)] })
      ref handle.attr
  rw [← hStore] at hSame
  have hRef := hSame ref
  rw [setScope_scope_self] at hRef
  constructor
  · rw [hStore, countVar_size, setScope_size]
  · intro r hNe
    have hOther := hSame r
    rw [setScope_scope, if_neg hNe] at hOther
    exact hOther
  · exact hRef
  · intro hDistinct
    rw [hRef.handles]
    exact
      hDistinct.concat (NameScope.contains_eq_false.mp hFree)

/- An alias takes no slot, so only its name can be refused. -/
theorem add_of_free
    (handle : FieldHandle)
    (hAlias : handle.attr.isAlias = true)
    (hFree : name ∉ (store.scope ref).names) :
    ∃ store',
      store.add ref name handle = .ok (store', handle) := by
  have hLocal : handle.isLocal = false := by
    simp [FieldHandle.isLocal, hAlias]
  simp only [add]
  rw [if_neg (by simp [hLocal]),
    if_neg (by simp [NameScope.contains_eq_false.mpr hFree])]
  exact ⟨_, rfl⟩

end ScopeStore

----
-- Copied and Imported Names
----

/- The names of a map, with each symbol told as `f` tells it. -/
structure Gives
    (f : SymbolInfo → SymbolInfo)
    (handleMap added : HandleMap) : Prop where
  sound :
    ∀ entry ∈ added,
      ∃ handle,
        (entry.1, handle) ∈ handleMap ∧
          entry.2.info = f handle.info
  complete :
    ∀ entry ∈ handleMap,
      ∃ handle,
        (entry.1, handle) ∈ added ∧
          handle.info = f entry.2.info

namespace Gives

variable {f : SymbolInfo → SymbolInfo}
variable {handleMap added : HandleMap}

theorem nil : Gives f [] [] where
  sound := by
    intro entry hMem
    exact absurd hMem List.not_mem_nil
  complete := by
    intro entry hMem
    exact absurd hMem List.not_mem_nil

theorem cons
    {name : String}
    {handle new : FieldHandle}
    (hGives : Gives f handleMap added)
    (hNew : new.info = f handle.info) :
    Gives f ((name, handle) :: handleMap)
      ((name, new) :: added) where
  sound := by
    intro entry hMem
    rcases List.mem_cons.mp hMem with hEq | hRest
    · rw [hEq]
      exact ⟨handle, List.mem_cons_self, hNew⟩
    · rcases hGives.sound entry hRest with ⟨old, hOld, hInfo⟩
      exact ⟨old, List.mem_cons_of_mem _ hOld, hInfo⟩
  complete := by
    intro entry hMem
    rcases List.mem_cons.mp hMem with hEq | hRest
    · rw [hEq]
      exact ⟨new, List.mem_cons_self, hNew⟩
    · rcases hGives.complete entry hRest with
        ⟨added, hAdded, hInfo⟩
      exact ⟨added, List.mem_cons_of_mem _ hAdded, hInfo⟩

theorem mem_keys
    (hGives : Gives f handleMap added)
    {name : String} :
    name ∈ AssocList.keys added ↔
      name ∈ AssocList.keys handleMap := by
  rw [AssocList.mem_keys, AssocList.mem_keys]
  constructor
  · intro hMem
    rcases hMem with ⟨handle, hIn⟩
    rcases hGives.sound _ hIn with ⟨old, hOld, _⟩
    exact ⟨old, hOld⟩
  · intro hMem
    rcases hMem with ⟨handle, hIn⟩
    rcases hGives.complete _ hIn with ⟨new, hNew, _⟩
    exact ⟨new, hNew⟩

end Gives

/- The names that an import of everything takes over. -/
def publicHandles (handleMap : HandleMap) : HandleMap :=
  handleMap.filter (fun entry => !isPrivateName entry.1)

theorem mem_publicHandles
    {handleMap : HandleMap}
    {entry : String × FieldHandle} :
    entry ∈ publicHandles handleMap ↔
      entry ∈ handleMap ∧ isPrivateName entry.1 = false := by
  simp [publicHandles]

theorem publicHandles_cons_private
    {name : String}
    {handle : FieldHandle}
    {rest : HandleMap}
    (hPrivate : isPrivateName name = true) :
    publicHandles ((name, handle) :: rest) =
      publicHandles rest := by
  simp [publicHandles, hPrivate]

theorem publicHandles_cons_public
    {name : String}
    {handle : FieldHandle}
    {rest : HandleMap}
    (hPublic : ¬ isPrivateName name = true) :
    publicHandles ((name, handle) :: rest) =
      (name, handle) :: publicHandles rest := by
  simp [publicHandles, hPublic]

namespace ScopeStore

/- An import that reports no conflict has taken every name. -/
theorem importHandles_names
    {store : ScopeStore}
    {ref : ScopeRef}
    {handleMap : HandleMap}
    (hNames :
      ∀ entry ∈ handleMap, symbolName entry.1 ≠ "")
    (hOk : (store.importHandles ref handleMap).2 = "") :
    ∃ added,
      NamesAt ref store
          (store.importHandles ref handleMap).1 added ∧
        Gives SymbolInfo.asAlias (publicHandles handleMap)
          added := by
  fun_induction importHandles store ref handleMap with
  | case1 store => exact ⟨[], .refl _, .nil⟩
  | case2 store name handle rest hPrivate ih =>
      rw [publicHandles_cons_private hPrivate]
      apply ih _ hOk
      intro entry hMem
      exact hNames entry (List.mem_cons_of_mem _ hMem)
  | case3 store name handle rest hPublic store' new hAdd ih =>
      have hRest :
          ∀ entry ∈ rest, symbolName entry.1 ≠ "" := by
        intro entry hMem
        exact hNames entry (List.mem_cons_of_mem _ hMem)
      rcases ih hRest hOk with ⟨added, hAdded, hGives⟩
      rw [publicHandles_cons_public hPublic]
      exact
        ⟨_, (add_namesAt hAdd).trans hAdded, hGives.cons rfl⟩
  | case4 store name handle rest hPublic error hAdd =>
      exact absurd hOk (hNames (name, handle) List.mem_cons_self)

/- Names that are free are imported without a conflict. -/
theorem importHandles_free
    {store : ScopeStore}
    {ref : ScopeRef}
    {handleMap : HandleMap}
    (hDistinct : AssocList.Distinct handleMap)
    (hFree :
      ∀ entry ∈ publicHandles handleMap,
        entry.1 ∉ (store.scope ref).names) :
    (store.importHandles ref handleMap).2 = "" := by
  fun_induction importHandles store ref handleMap with
  | case1 store => rfl
  | case2 store name handle rest hPrivate ih =>
      rw [publicHandles_cons_private hPrivate] at hFree
      exact ih (List.nodup_cons.mp hDistinct).2 hFree
  | case3 store name handle rest hPublic store' new hAdd ih =>
      rw [publicHandles_cons_public hPublic] at hFree
      rcases List.nodup_cons.mp hDistinct with ⟨hHead, hTail⟩
      apply ih hTail
      intro entry hMem hTaken
      rw [(add_namesAt hAdd).names_eq] at hTaken
      rcases List.mem_append.mp hTaken with hOld | hNew
      · exact hFree entry (List.mem_cons_of_mem _ hMem) hOld
      · apply hHead
        rw [← List.mem_singleton.mp hNew]
        exact
          AssocList.mem_keys_of_mem (mem_publicHandles.mp hMem).1
  | case4 store name handle rest hPublic error hAdd =>
      rw [publicHandles_cons_public hPublic] at hFree
      rcases
          add_of_free
            { handle with
              commitId := (store.scope ref).commitId
              attr := { handle.attr with isAlias := true } }
            rfl (hFree (name, handle) List.mem_cons_self) with
        ⟨store', hOk⟩
      unfold addNewForeignHandle at hAdd
      rw [hOk] at hAdd
      cases hAdd

/- Names that are free are all copied. -/
theorem copyHandles_names
    {store : ScopeStore}
    {ref : ScopeRef}
    {handleMap : HandleMap}
    (hDistinct : AssocList.Distinct handleMap)
    (hFree :
      ∀ entry ∈ handleMap, entry.1 ∉ (store.scope ref).names) :
    ∃ added,
      NamesAt ref store (store.copyHandles ref handleMap)
          added ∧
        Gives
          (fun info =>
            info.asAlias.inModule (store.scope ref).modId)
          handleMap added := by
  induction handleMap generalizing store with
  | nil => exact ⟨[], .refl _, .nil⟩
  | cons entry rest ih =>
      rcases entry with ⟨name, handle⟩
      rcases List.nodup_cons.mp hDistinct with ⟨hHead, hTail⟩
      rcases
          add_of_free
            { handle with
              commitId := (store.scope ref).commitId
              attr := { handle.attr with isAlias := true }
              modId := (store.scope ref).modId }
            rfl (hFree (name, handle) List.mem_cons_self) with
        ⟨store', hAdd⟩
      have hFirst := add_namesAt hAdd
      have hRest :
          ∀ entry ∈ rest,
            entry.1 ∉ (store'.scope ref).names := by
        intro entry hMem hTaken
        rw [hFirst.names_eq] at hTaken
        rcases List.mem_append.mp hTaken with hOld | hNew
        · exact hFree entry (List.mem_cons_of_mem _ hMem) hOld
        · apply hHead
          rw [← List.mem_singleton.mp hNew]
          exact AssocList.mem_keys_of_mem hMem
      rcases ih hTail hRest with ⟨added, hAdded, hGives⟩
      rw [hFirst.modId_eq] at hGives
      unfold copyHandles addNewAlias
      rw [hAdd]
      exact ⟨_, hFirst.trans hAdded, hGives.cons rfl⟩

end ScopeStore

end Scope

end Ydsh
