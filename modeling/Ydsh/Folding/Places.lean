import Ydsh.Folding.Node
import Ydsh.Library.AssocList

/-
  Places of programs, and how they are checked.

  The scope of a module has the names of the builtin module
  among its own, and so it is refused to define them there.  A
  block in a function is another scope, and there it is not.

  Main declarations:
    * `Place.ofScopes`
    * `placeInModule`
    * `placeInBlock`
    * `linux`
-/

----
-- Places of Scopes
----

namespace Ydsh

namespace Folding

open Scope (FieldHandle FieldAttribute ScopeStore ScopeRef HandleMap
  ModType)

/- The names that can be looked up. -/
def visible (store : ScopeStore) : Nat → ScopeRef → HandleMap
  | 0, _ => []
  | limit + 1, ref =>
      (store.scope ref).handles ++
        ((store.scope ref).parent.map (visible store limit)).getD
          []

theorem mem_visible
    {store : ScopeStore}
    {name : String}
    {handle : FieldHandle}
    {limit : Nat}
    {ref : ScopeRef}
    (hLookup :
      store.lookupWithin name limit ref = some handle) :
    (name, handle) ∈ visible store limit ref := by
  induction limit generalizing ref with
  | zero => cases hLookup
  | succ limit ih =>
      unfold ScopeStore.lookupWithin at hLookup
      unfold visible
      apply List.mem_append.mpr
      cases hFind : (store.scope ref).find name with
      | some found =>
          simp only [hFind] at hLookup
          cases hLookup
          exact Or.inl (Library.AssocList.mem_of_lookup hFind)
      | none =>
          simp only [hFind] at hLookup
          cases hParent : (store.scope ref).parent with
          | none =>
              simp only [hParent] at hLookup
              cases hLookup
          | some parent =>
              simp only [hParent] at hLookup
              exact Or.inr (ih hLookup)

/- The handles of the predefined variables that are bound. -/
def boundNames
    (store : ScopeStore)
    (builtin : ScopeRef) : HandleMap :=
  predefinedNames.filterMap
    (fun name =>
      ((store.scope builtin).find name).map
        (fun handle => (name, handle)))

theorem mem_boundNames
    {store : ScopeStore}
    {builtin : ScopeRef}
    {name : String}
    {handle : FieldHandle}
    (hName : name ∈ predefinedNames)
    (hFind : (store.scope builtin).find name = some handle) :
    (name, handle) ∈ boundNames store builtin := by
  apply List.mem_filterMap.mpr
  refine ⟨name, hName, ?_⟩
  rw [hFind]
  rfl

/- No other name leads to a predefined variable, and each of
   them is a string. -/
def checkPlace
    (store : ScopeStore)
    (scope builtin : ScopeRef) : Bool :=
  (boundNames store builtin).all
    (fun bound =>
      (visible store (scope + 1) scope).all
          (fun entry =>
            storage bound.2 != storage entry.2 ||
              (bound.1 == entry.1 &&
                entry.2.typeId == stringId)) &&
        (boundNames store builtin).all
          (fun other =>
            storage bound.2 != storage other.2 ||
              bound.1 == other.1))

theorem check_of_bne
    {found other : Storage}
    {rest : Bool}
    (hCheck : (found != other || rest) = true)
    (hSame : found = other) :
    rest = true := by
  rcases Bool.or_eq_true_iff.mp hCheck with hNe | hRest
  · exact absurd hSame (bne_iff_ne.mp hNe)
  · exact hRest

def Place.ofScopes
    (store : ScopeStore)
    (scope builtin : ScopeRef)
    (hCheck : checkPlace store scope builtin = true) : Place where
  scopes := store
  scope := scope
  builtin := builtin
  own := by
    intro name handle other bound hLookup hOther hFind hSame
    have hBound :=
      List.all_eq_true.mp hCheck _ (mem_boundNames hOther hFind)
    have hEntry :=
      List.all_eq_true.mp (Bool.and_eq_true_iff.mp hBound).1 _
        (mem_visible hLookup)
    have hRest := check_of_bne hEntry hSame
    exact beq_iff_eq.mp (Bool.and_eq_true_iff.mp hRest).1
  distinct := by
    intro name other handle bound hName hOther hFind hFind' hSame
    have hBound :=
      List.all_eq_true.mp hCheck _ (mem_boundNames hName hFind)
    have hEntry :=
      List.all_eq_true.mp (Bool.and_eq_true_iff.mp hBound).2 _
        (mem_boundNames hOther hFind')
    exact beq_iff_eq.mp (check_of_bne hEntry hSame)
  typed := by
    intro name handle bound hLookup hName hFind hSame
    have hBound :=
      List.all_eq_true.mp hCheck _ (mem_boundNames hName hFind)
    have hEntry :=
      List.all_eq_true.mp (Bool.and_eq_true_iff.mp hBound).1 _
        (mem_visible hLookup)
    have hRest := check_of_bne hEntry hSame
    exact beq_iff_eq.mp (Bool.and_eq_true_iff.mp hRest).2

----
-- Places in a Script
----

/- The builtin module before anything is bound. -/
def emptyScopes : ScopeStore where
  scope := fun _ =>
    { kind := .global
      modId := 0
      parent := none
      curLocalIndex := 0
      localSize := 0
      maxVarCount := .gvarCount
      handles := [] }
  size := 1
  gvarCount := 0
  origins := 0

def bind
    (store : ScopeStore)
    (name : String)
    (attr : FieldAttribute) : ScopeStore :=
  store.keep (store.defineHandle 0 name stringId attr)

/- The strings that `bindBuiltinVariables` binds first and
   last. -/
def builtinScopes : ScopeStore :=
  let attr : FieldAttribute := { readOnly := true }
  let scripts :=
    bind
      (bind emptyScopes CVAR_SCRIPT_NAME
        { attr with modConst := true })
      CVAR_SCRIPT_DIR { attr with modConst := true }
  [CVAR_VERSION, CVAR_OSTYPE, CVAR_MACHTYPE, CVAR_DATA_DIR,
      CVAR_MODULE_DIR].foldl
    (fun store name => bind store name attr) scripts

/- The root module imports the builtin one. -/
def moduleScopes : ScopeStore :=
  ((builtinScopes.newModScope 1).1.importForeignHandles 1
    { typeId := 100
      modId := 0
      index := 7
      children := []
      handleMap := (builtinScopes.scope 0).handles }
    true).1

def placeInModule : Place :=
  Place.ofScopes moduleScopes 1 0 (by decide +kernel)

/- A function with a block. -/
def enterBlock (store : ScopeStore) : ScopeStore :=
  (((store.enterScope 1 .func).bind
    (fun entered =>
      entered.1.enterScope entered.2 .block)).map
        Prod.fst).getD store

def blockScopes : ScopeStore :=
  (enterBlock moduleScopes).keep
    ((enterBlock moduleScopes).defineHandle 3 CVAR_OSTYPE
      stringId {})

/- A local variable is named like a predefined one. -/
def placeInBlock : Place :=
  Place.ofScopes blockScopes 3 0 (by decide +kernel)

/- What `$OSTYPE` leads to. -/
def osTypeAt (place : Place) : FieldHandle :=
  (place.scopes.lookup place.scope CVAR_OSTYPE).getD
    { commitId := 0
      typeId := 0
      index := 0
      attr := {}
      modId := 0 }

/- `"-$OSTYPE"` -/
def dashed (place : Place) : Node :=
  .stringExpr
    (.cons (.string ⟨[0x2d], by decide⟩)
      (.cons (.embed none (.var CVAR_OSTYPE (osTypeAt place)))
        .nil))

def linux : Shell where
  sourceName := ⟨[0x61], by decide⟩
  scriptDir := ⟨[0x2f], by decide⟩
  version := ⟨[0x30], by decide⟩
  dataDir := ⟨[0x2f], by decide⟩
  moduleDir := ⟨[0x2f], by decide⟩
  osType := ⟨[0x4c, 0x69, 0x6e, 0x75, 0x78], by decide⟩
  machType := ⟨[0x78], by decide⟩
  pcre2_compile := fun _ _ => true

end Folding

end Ydsh
