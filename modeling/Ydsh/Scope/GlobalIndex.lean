import Ydsh.Scope.Discard

/-
  Global variables have indices of their own.

  All module scopes count their variables in one counter, which
  is set back when modules are discarded.  Names that stay
  visible keep indices below the counter, and two of them have
  one index only if they go back to one definition.

  Main declarations:
    * `SymbolState.Visible`
    * `SymbolState.global_index`
-/

----
-- Visible Global Variables
----

namespace Ydsh

namespace Scope

open Library Pool

namespace SymbolState

/- The scopes of modules that are in use. -/
inductive IsLiveModScope (s : SymbolState) : ScopeRef → Prop where
  | builtin : IsLiveModScope s s.builtin
  | root : IsLiveModScope s s.root
  | provider
      (session : Session)
      (hSession : s.session = some session) :
      IsLiveModScope s session.provider.scope
  | module
      (session : Session)
      (context : Context)
      (hSession : s.session = some session)
      (hContext : context ∈ session.modules) :
      IsLiveModScope s context.scope

/- The global variables that names or module types lead to. -/
inductive Visible (s : SymbolState) : FieldHandle → Prop where
  | inScope
      (r : ScopeRef)
      (entry : String × FieldHandle)
      (hScope : IsLiveModScope s r)
      (hEntry : entry ∈ (s.store.scope r).handles)
      (hGlobal : entry.2.attr.isGlobal = true) :
      Visible s entry.2
  | inModule
      (type : PoolType)
      (module : ModType)
      (entry : String × FieldHandle)
      (hType : type ∈ s.pool.typeTable)
      (hShape : type.shape = .module module)
      (hEntry : entry ∈ module.handleMap)
      (hGlobal : entry.2.attr.isGlobal = true) :
      Visible s entry.2
  | modObject
      (type : PoolType)
      (module : ModType)
      (hType : type ∈ s.pool.typeTable)
      (hShape : type.shape = .module module) :
      Visible s module.toHandle

variable {own own' : Nat → Nat}
variable {live : ScopeRef → Prop}
variable {base s : SymbolState}
variable {session : Session}
variable {handle : FieldHandle}

theorem Running.live_of_isLiveModScope
    {r : ScopeRef}
    (hRun : Running own own' base s session)
    (hSession : s.session = some session)
    (hScope : IsLiveModScope s r) :
    Live base s r := by
  cases hScope with
  | builtin => exact .inl hRun.builtin_eq
  | root => exact .inr (.inl hRun.root_eq)
  | provider found hFound =>
      rw [hSession] at hFound
      cases hFound
      exact hRun.live_of_open hRun.provider.isOpen
  | module found context hFound hContext =>
      rw [hSession] at hFound
      cases hFound
      exact
        hRun.live_of_open (hRun.modules context hContext).isOpen

/- Names of modules are valid whatever the shell does. -/
theorem Reached.sound
    (hReached : Reached s) :
    ∃ own, Sound own (IsLiveModScope s) s := by
  rcases hReached with
    ⟨_, base, own', session, hSession, hRun⟩ |
    ⟨hSession, own, hOutside⟩
  · refine ⟨own', hRun.sound.mono ?_⟩
    intro r
    exact hRun.live_of_isLiveModScope hSession
  · refine ⟨own, hOutside.sound.mono ?_⟩
    intro r hScope
    cases hScope with
    | builtin => exact .inl rfl
    | root => exact .inr rfl
    | provider session hSome | module session context hSome _ =>
        rw [hSession] at hSome
        cases hSome

theorem Sound.visible
    (hSound : Sound own (IsLiveModScope s) s)
    (hVisible : Visible s handle) :
    handle.attr.isGlobal = true ∧
      HandleValid (s.extent own) handle := by
  cases hVisible with
  | inScope r entry hScope hEntry hGlobal =>
      exact ⟨hGlobal, hSound.handles r hScope entry hEntry⟩
  | inModule type module entry hType hShape hEntry hGlobal =>
      have hModule := hSound.modules type hType module hShape
      exact ⟨hGlobal, hModule.handles entry hEntry⟩
  | modObject type module hType hShape =>
      have hModule := hSound.modules type hType module hShape
      exact ⟨rfl, hModule.toHandle⟩

----
-- Indices
----

/-
  After any compilations, the visible global variables have
  indices below the counter, and different ones different
  indices.
-/
theorem global_index
    {table : NativeTable}
    {events : List SymbolEvent}
    {handle' : FieldHandle}
    (hReach :
      exec (step table) (SymbolState.init table) events =
        some s)
    (hVisible : Visible s handle)
    (hVisible' : Visible s handle') :
    handle.index < s.store.gvarCount ∧
      (handle.index = handle'.index ↔
        handle.origin = handle'.origin) := by
  rcases (run_reached hReach).sound with ⟨own, hSound⟩
  rcases hSound.visible hVisible with ⟨hGlobal, hValid⟩
  rcases hSound.visible hVisible' with ⟨hGlobal', hValid'⟩
  have hLt := hValid.index_lt hGlobal
  have hLt' := hValid'.index_lt hGlobal'
  refine ⟨hLt, ?_⟩
  rw [hValid.origin_eq hGlobal, hValid'.origin_eq hGlobal']
  constructor
  · intro hEq
    exact congrArg own hEq
  · intro hEq
    exact hSound.numbered.inj _ hLt _ hLt' hEq

/- The script fails afterwards. -/
def failedIn (s : SymbolState) (name : String) : SymbolState :=
  { (s.definedIn name).discardAll 0 (s.getDiscardPoint 0) with
    session := none }

theorem failedIn_size (s : SymbolState) (name : String) :
    (s.failedIn name).pool.size = s.pool.size := by
  have hPool :
      (s.failedIn name).pool =
        s.pool.discard s.pool.getDiscardPoint := by
    simp only [failedIn, discardAll, discardMods]
    split_ifs <;> rfl
  rw [hPool]
  exact congrArg List.length List.take_length

def endedFirst (table : NativeTable) : SymbolState :=
  { definedFirst table with session := none }

theorem endedFirst_size (table : NativeTable) :
    (endedFirst table).pool.size =
      (TypePool.init table).size := by
  simp only [endedFirst, definedFirst, keepStore, evalScript,
    begin, init_pool]

/- Two scripts define a variable each, one between them fails. -/
def definedBeside (table : NativeTable) : SymbolState :=
  ((endedFirst table).failedIn "y").definedIn "z"

def globalInt (commitId index : Nat) : FieldHandle :=
  { commitId := commitId
    typeId := TYPE.Int
    index := index
    attr := { isGlobal := true }
    modId := 0
    origin := index }

/-
  The variable of the script that failed is gone, and its index
  is not taken again.
-/
theorem global_index_definedBeside :
    ∃ x z,
      Visible (definedBeside noMethods) x ∧
        Visible (definedBeside noMethods) z ∧
          z.index < (definedBeside noMethods).store.gvarCount ∧
            x.index ≠ z.index := by
  have hReach :
      exec (step noMethods) (SymbolState.init noMethods)
          [.evalScript "(string)", .defineHandle "x" TYPE.Int {},
            .succeed [], .evalScript "(string)",
            .defineHandle "y" TYPE.Int {}, .fail,
            .evalScript "(string)",
            .defineHandle "z" TYPE.Int {}] =
        some (definedBeside noMethods) := by
    apply exec_cons_eq_some.mpr
    refine ⟨_, rfl, ?_⟩
    apply exec_cons_eq_some.mpr
    refine ⟨_, step_definedFirst noMethods, ?_⟩
    apply exec_cons_eq_some.mpr
    refine ⟨endedFirst noMethods, rfl, ?_⟩
    apply exec_cons_eq_some.mpr
    refine ⟨(endedFirst noMethods).evalScript _, rfl, ?_⟩
    apply exec_cons_eq_some.mpr
    refine ⟨_, step_definedIn rfl rfl (endedFirst_size _), ?_⟩
    apply exec_cons_eq_some.mpr
    refine ⟨(endedFirst noMethods).failedIn "y", rfl, ?_⟩
    apply exec_cons_eq_some.mpr
    refine
      ⟨((endedFirst noMethods).failedIn "y").evalScript _, rfl,
        ?_⟩
    apply exec_cons_eq_some.mpr
    refine ⟨_, step_definedIn rfl rfl ?_, rfl⟩
    rw [failedIn_size]
    exact endedFirst_size _
  have hHandles :
      ((definedBeside noMethods).store.scope 0).handles =
        [("x", globalInt 0 0), ("z", globalInt 1 2)] :=
    rfl
  have hX : Visible (definedBeside noMethods) (globalInt 0 0) :=
    .inScope 0 ("x", globalInt 0 0) .root
      (hHandles ▸ List.mem_cons_self) rfl
  have hZ : Visible (definedBeside noMethods) (globalInt 1 2) :=
    .inScope 0 ("z", globalInt 1 2) .root
      (hHandles ▸ List.mem_cons_of_mem _ List.mem_cons_self) rfl
  refine
    ⟨_, _, hX, hZ, (global_index hReach hZ hX).1, ?_⟩
  intro hEq
  cases (global_index hReach hX hZ).2.mp hEq

end SymbolState

end Scope

end Ydsh
