import Ydsh.Scope.Validity
import Ydsh.Type.Predefined

/-
  Compilations that fail leave nothing behind.

  A compilation only adds to the symbols that were there when
  its discard point was taken: names to the scope that is
  discarded and to newer scopes, types and methods to the pool.
  Hence what is discarded is what has been added.

  Main declarations:
    * `SymbolState.Outside`
    * `SymbolState.Running`
    * `SymbolState.step_outside`
    * `SymbolState.stepInSession_cases`
    * `SymbolState.discard_restores`
-/

----
-- States between Compilations
----

namespace Ydsh

namespace Scope

open Library Pool

namespace SymbolState

/- The scope of a module has no scope around it. -/
structure IsModScope
    (s : SymbolState)
    (ref : ScopeRef) : Prop where
  lt : ref < s.store.size
  kind : (s.store.scope ref).kind = .global
  parent : (s.store.scope ref).parent = none

structure Outside
    (own : Nat → Nat)
    (s : SymbolState) : Prop where
  sound : Sound own (fun r => r = s.builtin ∨ r = s.root) s
  builtin : s.IsModScope s.builtin
  root : s.IsModScope s.root

----
-- States within a Compilation
----

/- The scopes that a compilation begun in `base` may change. -/
def IsOpen
    (base s : SymbolState)
    (discarded : ScopeRef)
    (r : ScopeRef) : Prop :=
  r < s.store.size ∧
    (r = discarded ∨ base.store.size ≤ r)

structure IsContext
    (base s : SymbolState)
    (discarded : ScopeRef)
    (context : Context) : Prop where
  isOpen : IsOpen base s discarded context.scope
  kind : (s.store.scope context.scope).kind = .global

/- The discard point was taken in `base`. -/
structure Running
    (own own' : Nat → Nat)
    (base s : SymbolState)
    (session : Session) : Prop where
  before : Outside own base
  grows :
    Grows own own' (fun r => r = session.discarded) base s
  builtin_eq : s.builtin = base.builtin
  root_eq : s.root = base.root
  point_eq : session.point = base.getDiscardPoint base.root
  discarded :
    session.discarded = base.root ∨
      base.store.size ≤ session.discarded
  cur : IsOpen base s session.discarded session.cur
  provider :
    IsContext base s session.discarded session.provider
  modules :
    ∀ context ∈ session.modules,
      IsContext base s session.discarded context

/- The scopes whose names are valid during a compilation. -/
def Live (base s : SymbolState) (r : ScopeRef) : Prop :=
  r = base.builtin ∨ r = base.root ∨
    base.store.size ≤ r ∧ r < s.store.size

variable {own own' own'' : Nat → Nat}
variable {R : ScopeRef → Prop}
variable {base s s' : SymbolState}
variable {session session' : Session}
variable {table : NativeTable}

theorem IsModScope.grows
    {r : ScopeRef}
    (hScope : s.IsModScope r)
    (hGrows : Grows own own' R s s') :
    s'.IsModScope r := by
  have hFrame := hGrows.store.frame r hScope.lt
  constructor
  · exact Nat.lt_of_lt_of_le hScope.lt hGrows.store.size_le
  · exact hFrame.1.trans hScope.kind
  · exact hFrame.2.2.trans hScope.parent

theorem Outside.grows
    (hOutside : Outside own s)
    (hGrows : Grows own own' R s s')
    (hBuiltin : s'.builtin = s.builtin)
    (hRoot : s'.root = s.root) :
    Outside own' s' := by
  have hModule := hOutside.builtin.grows hGrows
  have hModule' := hOutside.root.grows hGrows
  constructor
  · apply hOutside.sound.grows hGrows
    · intro r hLive
      rcases hLive with hEq | hEq
      · rw [hEq, hBuiltin]
        exact hModule.lt
      · rw [hEq, hRoot]
        exact hModule'.lt
    · intro r hLive _
      rw [hBuiltin, hRoot] at hLive
      exact hLive
  · rw [hBuiltin]
    exact hModule
  · rw [hRoot]
    exact hModule'

theorem IsOpen.mono
    {discarded r : ScopeRef}
    (hOpen : IsOpen base s discarded r)
    (hSize : s.store.size ≤ s'.store.size) :
    IsOpen base s' discarded r :=
  ⟨Nat.lt_of_lt_of_le hOpen.1 hSize, hOpen.2⟩

theorem IsContext.grows
    {discarded : ScopeRef}
    {context : Context}
    (hContext : IsContext base s discarded context)
    (hGrows : Grows own own' R s s') :
    IsContext base s' discarded context := by
  have hFrame := hGrows.store.frame _ hContext.isOpen.1
  constructor
  · exact hContext.isOpen.mono hGrows.store.size_le
  · exact hFrame.1.trans hContext.kind

namespace Running

variable (hRun : Running own own' base s session)

include hRun

theorem size_le :
    base.store.size ≤ s.store.size :=
  hRun.grows.store.size_le

theorem live_bound
    {r : ScopeRef}
    (hLive : Live base s r) :
    r < s.store.size := by
  rcases hLive with hEq | hEq | ⟨_, hLt⟩
  · rw [hEq]
    exact
      Nat.lt_of_lt_of_le hRun.before.builtin.lt hRun.size_le
  · rw [hEq]
    exact Nat.lt_of_lt_of_le hRun.before.root.lt hRun.size_le
  · exact hLt

theorem sound :
    Sound own' (Live base s) s := by
  apply hRun.before.sound.grows hRun.grows
  · intro r
    exact hRun.live_bound
  · intro r hLive hLt
    rcases hLive with hEq | hEq | ⟨hLe, _⟩
    · exact .inl hEq
    · exact .inr hEq
    · exact absurd hLt (Nat.not_lt.mpr hLe)

theorem live_of_open
    {r : ScopeRef}
    (hOpen : IsOpen base s session.discarded r) :
    Live base s r := by
  rcases hOpen with ⟨hLt, hEq | hLe⟩
  · rcases hRun.discarded with hRoot | hNew
    · exact .inr (.inl (hEq.trans hRoot))
    · rw [← hEq] at hNew
      exact .inr (.inr ⟨hNew, hLt⟩)
  · exact .inr (.inr ⟨hLe, hLt⟩)

/- The scope around an open scope is open. -/
theorem open_parent
    {r p : ScopeRef}
    (hOpen : IsOpen base s session.discarded r)
    (hParent : (s.store.scope r).parent = some p) :
    IsOpen base s session.discarded p := by
  by_cases hLe : base.store.size ≤ r
  · rcases hRun.grows.store.parent r hLe hOpen.1 p hParent with
      ⟨hIn, hLt⟩
    exact ⟨hLt, hIn⟩
  · rcases hOpen with ⟨_, hEq | hNew⟩
    · rcases hRun.discarded with hRoot | hNew
      · rw [hEq, hRoot] at hParent
        have hFrame :=
          hRun.grows.store.frame _ hRun.before.root.lt
        rw [hFrame.2.2, hRun.before.root.parent] at hParent
        cases hParent
      · rw [hEq] at hLe
        exact absurd hNew hLe
    · exact absurd hNew hLe

theorem live_parent
    {r p : ScopeRef}
    (hLive : Live base s r)
    (hParent : (s.store.scope r).parent = some p) :
    Live base s p := by
  have hNone :
      ∀ ref, base.IsModScope ref →
        (s.store.scope ref).parent ≠ some p := by
    intro ref hScope hSome
    have hFrame := hRun.grows.store.frame ref hScope.lt
    rw [hFrame.2.2, hScope.parent] at hSome
    cases hSome
  rcases hLive with hEq | hEq | ⟨hLe, hLt⟩
  · rw [hEq] at hParent
    exact absurd hParent (hNone _ hRun.before.builtin)
  · rw [hEq] at hParent
    exact absurd hParent (hNone _ hRun.before.root)
  · apply hRun.live_of_open
    exact hRun.open_parent ⟨hLt, .inr hLe⟩ hParent

/- Names, types and methods are added to open scopes. -/
theorem stay
    (hGrows : Grows own' own'' R s s')
    (hOpen : ∀ r, R r → IsOpen base s session.discarded r)
    (hBuiltin : s'.builtin = s.builtin)
    (hRoot : s'.root = s.root) :
    Running own own'' base s' session := by
  constructor
  · exact hRun.before
  · apply hRun.grows.trans hGrows
    intro r hIn
    exact (hOpen r hIn).2
  · exact hBuiltin.trans hRun.builtin_eq
  · exact hRoot.trans hRun.root_eq
  · exact hRun.point_eq
  · exact hRun.discarded
  · exact hRun.cur.mono hGrows.store.size_le
  · exact hRun.provider.grows hGrows
  · intro context hMem
    exact (hRun.modules context hMem).grows hGrows

theorem moveTo
    {ref : ScopeRef}
    (hOpen : IsOpen base s session.discarded ref) :
    Running own own' base s { session with cur := ref } :=
  ⟨hRun.before, hRun.grows, hRun.builtin_eq, hRun.root_eq,
    hRun.point_eq, hRun.discarded, hOpen, hRun.provider,
    hRun.modules⟩

/- The modules that are being imported change. -/
theorem setModules
    {contexts : List Context}
    (hModules :
      ∀ context ∈ contexts,
        IsContext base s session.discarded context) :
    Running own own' base s
      { session with modules := contexts } :=
  ⟨hRun.before, hRun.grows, hRun.builtin_eq, hRun.root_eq,
    hRun.point_eq, hRun.discarded, hRun.cur, hRun.provider,
    hModules⟩

/- The compilation is recorded in the state. -/
theorem setSession
    (current : Option Session) :
    Running own own' base { s with session := current }
      session := by
  have hGrows := hRun.grows
  constructor
  · exact hRun.before
  · exact
      ⟨hGrows.store, hGrows.extent_le, hGrows.origins_le,
        hGrows.numbered, hGrows.pool, hGrows.modules,
        hGrows.since, hGrows.loader_le⟩
  · exact hRun.builtin_eq
  · exact hRun.root_eq
  · exact hRun.point_eq
  · exact hRun.discarded
  · exact hRun.cur
  · exact ⟨hRun.provider.isOpen, hRun.provider.kind⟩
  · intro context hMem
    have hContext := hRun.modules context hMem
    exact ⟨hContext.isOpen, hContext.kind⟩

end Running

----
-- The End of a Compilation
----

theorem fail_scope
    (s : SymbolState)
    (session : Session)
    (r : ScopeRef) :
    (s.fail session).store.scope r =
      if r = session.discarded then
        (s.store.scope session.discarded).discard
          session.point.commitIdOffset
      else
        s.store.scope r := by
  simp only [fail, discardAll, discardMods, ScopeStore.discard,
    ScopeStore.setScope_scope]
  split_ifs <;> rfl

/- A scope that is discarded loses names only. -/
theorem fail_frame
    (s : SymbolState)
    (session : Session)
    (r : ScopeRef) :
    ((s.fail session).store.scope r).kind =
        (s.store.scope r).kind ∧
      ((s.fail session).store.scope r).parent =
        (s.store.scope r).parent ∧
      ((s.fail session).store.scope r).maxVarCount =
        (s.store.scope r).maxVarCount := by
  rw [fail_scope]
  split_ifs with hEq
  · rw [hEq]
    simp only [NameScope.discard]
    split_ifs
    · exact ⟨rfl, rfl, rfl⟩
    · exact ⟨rfl, rfl, rfl⟩
  · exact ⟨rfl, rfl, rfl⟩

theorem fail_size
    (s : SymbolState)
    (session : Session) :
    (s.fail session).store.size = s.store.size := by
  simp only [fail, discardAll, discardMods]
  split_ifs <;> rfl

theorem fail_origins
    (s : SymbolState)
    (session : Session) :
    (s.fail session).store.origins = s.store.origins := by
  simp only [fail, discardAll, discardMods]
  split_ifs <;> rfl

/- The counter of variables is set back if modules are. -/
theorem fail_gvarCount
    (s : SymbolState)
    (session : Session) :
    (s.fail session).store.gvarCount = s.store.gvarCount ∨
      (s.fail session).store.gvarCount =
        session.point.gvarCount := by
  simp only [fail, discardAll, discardMods]
  split_ifs
  · exact .inl rfl
  · exact .inr rfl

theorem fail_roots
    (s : SymbolState)
    (session : Session) :
    (s.fail session).builtin = s.builtin ∧
      (s.fail session).root = s.root := by
  simp only [fail, discardAll, discardMods]
  split_ifs <;> exact ⟨rfl, rfl⟩

namespace Running

variable (hRun : Running own own' base s session)

include hRun

/- What a failed compilation leaves of the scopes. -/
theorem fail_handles
    {r : ScopeRef}
    (hLt : r < base.store.size) :
    ((s.fail session).store.scope r).handles =
      (base.store.scope r).handles := by
  rw [fail_scope]
  split_ifs with hEq
  · have hRoot : session.discarded = base.root := by
      rcases hRun.discarded with hRoot | hNew
      · exact hRoot
      · rw [← hEq] at hNew
        exact absurd hLt (Nat.not_lt.mpr hNew)
    rw [NameScope.discard_handles (hRun.sound.contiguous _),
      hRun.point_eq, hEq, hRoot]
    rcases hRun.grows.store.handles_prefix base.root
      hRun.before.root.lt with ⟨news, hNews⟩
    rw [← hNews]
    exact List.take_left
  · exact hRun.grows.store.other r hLt hEq

theorem fail_contiguous
    (r : ScopeRef) :
    ((s.fail session).store.scope r).Contiguous := by
  rw [fail_scope]
  split_ifs
  · exact (hRun.sound.contiguous _).discard _
  · exact hRun.sound.contiguous r

theorem fail_pool :
    (s.fail session).pool = base.pool := by
  have hSince :=
    hRun.grows.since base.pool (.refl hRun.before.sound.pool)
  have hPool :
      (s.fail session).pool =
        s.pool.discard session.point.type := by
    simp only [fail, discardAll, discardMods]
    split_ifs <;> rfl
  rw [hPool, hRun.point_eq]
  exact hSince.discard_eq

/- What was valid before the compilation still is. -/
theorem fail_extent :
    (base.extent own).Le ((s.fail session).extent own') ∧
      (s.fail session).store.gvarCount ≤ s.store.gvarCount := by
  have hLe := hRun.grows.extent_le
  have hCount : base.store.gvarCount ≤ s.store.gvarCount :=
    hLe.gvarCount_le
  constructor
  · constructor
    · change
        base.store.gvarCount ≤ (s.fail session).store.gvarCount
      rcases fail_gvarCount s session with hSame | hBack
      · rw [hSame]
        exact hCount
      · rw [hBack, hRun.point_eq]
        exact Nat.le_refl _
    · change base.pool.size ≤ (s.fail session).pool.size
      apply Nat.le_of_eq
      rw [hRun.fail_pool]
    · exact hLe.own_eq
  · rcases fail_gvarCount s session with hSame | hBack
    · exact Nat.le_of_eq hSame
    · rw [hBack, hRun.point_eq]
      exact hCount

theorem fail_isModScope
    {r : ScopeRef}
    (hScope : base.IsModScope r) :
    (s.fail session).IsModScope r := by
  have hNow := hScope.grows hRun.grows
  have hFrame := fail_frame s session r
  constructor
  · rw [fail_size]
    exact hNow.lt
  · exact hFrame.1.trans hNow.kind
  · exact hFrame.2.1.trans hNow.parent

theorem fail_outside :
    Outside own' (s.fail session) := by
  have hBefore := hRun.before
  have hRoots := fail_roots s session
  have hBuiltin : (s.fail session).builtin = base.builtin :=
    hRoots.1.trans hRun.builtin_eq
  have hRoot : (s.fail session).root = base.root :=
    hRoots.2.trans hRun.root_eq
  rcases hRun.fail_extent with ⟨hLe, hCount⟩
  constructor
  · constructor
    · rw [hRun.fail_pool]
      exact hBefore.sound.pool
    · rw [hRun.fail_pool]
      exact hBefore.sound.predefined
    · exact hRun.fail_contiguous
    · intro r
      have hFrame := fail_frame s session r
      rw [NameScope.Counted, hFrame.1, hFrame.2.2]
      exact hRun.sound.counted r
    · intro r hLive entry hMem
      rw [hBuiltin, hRoot] at hLive
      have hLt : r < base.store.size := by
        rcases hLive with hEq | hEq
        · rw [hEq]
          exact hBefore.builtin.lt
        · rw [hEq]
          exact hBefore.root.lt
      rw [hRun.fail_handles hLt] at hMem
      exact (hBefore.sound.handles r hLive entry hMem).mono hLe
    · intro type hMem module hShape
      rw [hRun.fail_pool] at hMem
      exact
        (hBefore.sound.modules type hMem module hShape).mono hLe
    · rw [fail_origins]
      exact hRun.sound.numbered.mono hCount (Nat.le_refl _)
  · rw [hBuiltin]
    exact hRun.fail_isModScope hBefore.builtin
  · rw [hRoot]
    exact hRun.fail_isModScope hBefore.root

/- A compilation that succeeds keeps what it has added. -/
theorem outside :
    Outside own' { s with session := none } := by
  constructor
  · have hSound := hRun.sound
    have hLive :
        Sound own' (fun r => r = s.builtin ∨ r = s.root) s := by
      apply hSound.mono
      intro r hIn
      rw [hRun.builtin_eq, hRun.root_eq] at hIn
      rcases hIn with hEq | hEq
      · exact .inl hEq
      · exact .inr (.inl hEq)
    exact
      ⟨hLive.pool, hLive.predefined, hLive.contiguous,
        hLive.counted, hLive.handles, hLive.modules,
        hLive.numbered⟩
  · have hScope := hRun.before.builtin.grows hRun.grows
    rw [← hRun.builtin_eq] at hScope
    exact ⟨hScope.lt, hScope.kind, hScope.parent⟩
  · have hScope := hRun.before.root.grows hRun.grows
    rw [← hRun.root_eq] at hScope
    exact ⟨hScope.lt, hScope.kind, hScope.parent⟩

end Running

----
-- Steps of a Compilation
----

/- The compilation goes on, or it has ended. -/
def Continues
    (own : Nat → Nat)
    (base s : SymbolState) : Prop :=
  ∃ own', ∃ session,
    s.session = some session ∧ Running own own' base s session

def Ended (s : SymbolState) : Prop :=
  s.session = none ∧ ∃ own, Outside own s

theorem addNewModEntry_length
    {loader loader' : ModuleLoader}
    {path : String}
    (hAdd : loader.addNewModEntry path = .loaded loader') :
    loader.length ≤ loader'.length := by
  rw [ModuleLoader.addNewModEntry] at hAdd
  cases hFind : loader.find? (fun entry => entry.path == path) with
  | some entry =>
      rw [hFind] at hAdd
      simp only at hAdd
      split_ifs at hAdd
  | none =>
      rw [hFind] at hAdd
      simp only at hAdd
      split_ifs at hAdd
      cases hAdd
      rw [List.length_append]
      exact Nat.le_add_right _ _

theorem loader_grows
    {live : ScopeRef → Prop}
    {loader : ModuleLoader}
    (hSound : Sound own live s)
    (hLe : s.loader.length ≤ loader.length) :
    Grows own own R s { s with loader := loader } := by
  constructor
  · exact .refl _
  · exact .refl _
  · exact Nat.le_refl _
  · exact hSound.numbered
  · exact hSound.pool
  · intro type hMem module _
    exact .inl hMem
  · intro base
    exact id
  · exact hLe

namespace Running

variable (hRun : Running own own' base s session)

include hRun

/- A state with the session in it goes on. -/
theorem continues :
    Continues own base { s with session := some session } :=
  ⟨own', session, rfl, hRun.setSession (some session)⟩

theorem enterScope
    {kind : ScopeKind}
    {store : ScopeStore}
    {ref : ScopeRef}
    (hEnter :
      s.store.enterScope session.cur kind = some (store, ref)) :
    Running own own' base { s with store := store }
      { session with cur := ref } := by
  have hLt := hRun.cur.1
  rcases ScopeStore.enterScope_changes (P := fun _ => True) hLt
    hEnter with ⟨_, hRef, hSize, _, _⟩
  have hEntered := enterScope_grows hRun.sound hLt hEnter
  have hNext :
      Running own own' base { s with store := store } session := by
    apply hRun.stay hEntered _ rfl rfl
    intro r hEq
    rw [hEq]
    exact hRun.cur
  apply hNext.moveTo
  constructor
  · change ref < store.size
    rw [hRef, hSize]
    exact Nat.lt_succ_self _
  · apply Or.inr
    rw [hRef]
    exact hRun.size_le

/- A new module gets a scope of its own. -/
theorem createGlobalScope
    {loader : ModuleLoader}
    {path : String}
    {type : ModType}
    {ref : ScopeRef}
    (hLe : s.loader.length ≤ loader.length)
    (hType : s.getBuiltinModType = some type)
    (hCreate :
      ({ s with loader := loader } :
        SymbolState).createGlobalScope path type =
        some (s', ref)) :
    Running own own' base s' session ∧
      IsContext base s' session.discarded ⟨ref, path⟩ := by
  have hLoader :
      Running own own' base { s with loader := loader }
        session := by
    apply
      hRun.stay
        (loader_grows (R := fun _ => False) hRun.sound hLe)
        _ rfl rfl
    rintro r ⟨⟩
  have hValid := hRun.sound.getBuiltinModType_valid hType
  rcases createGlobalScope_grows
    (R := fun _ => False) hLoader.sound hValid hCreate with
    ⟨hCreated, hRef, hSize, hKind, _, hSame⟩
  constructor
  · apply hLoader.stay hCreated
    · rintro r ⟨⟩
    · rw [hSame]
    · rw [hSame]
  · constructor
    · constructor
      · change ref < s'.store.size
        rw [hSize, hRef]
        exact Nat.lt_succ_self _
      · apply Or.inr
        change base.store.size ≤ ref
        rw [hRef]
        exact hRun.size_le
    · exact hKind

theorem enterModule
    {path : String}
    (hSession : s.session = some session)
    (hEnter : s.enterModule session path = some s') :
    Continues own base s' := by
  rw [SymbolState.enterModule] at hEnter
  split_ifs at hEnter with hCur
  cases hAdd : s.loader.addNewModEntry path with
  | complete typeId | circular =>
      rw [hAdd] at hEnter
      cases hEnter
      exact ⟨own', session, hSession, hRun⟩
  | modLimit =>
      rw [hAdd] at hEnter
      cases hEnter
  | loaded loader =>
      rw [hAdd] at hEnter
      simp only at hEnter
      cases hBuiltin : s.getBuiltinModType with
      | none =>
          rw [hBuiltin] at hEnter
          cases hEnter
      | some type =>
          rw [hBuiltin] at hEnter
          rcases Option.map_eq_some_iff.mp hEnter with
            ⟨⟨created, ref⟩, hCreate, hEq⟩
          cases hEq
          rcases hRun.createGlobalScope
            (addNewModEntry_length hAdd) hBuiltin hCreate with
            ⟨hCreated, hContext⟩
          have hModules :
              Running own own' base created
                { session with
                  modules := ⟨ref, path⟩ :: session.modules } := by
            apply hCreated.setModules
            intro context hMem
            rcases List.mem_cons.mp hMem with hEq | hOld
            · rw [hEq]
              exact hContext
            · exact hCreated.modules context hOld
          exact (hModules.moveTo hContext.isOpen).continues

/- A module that is complete becomes a type. -/
theorem createModType
    {context : Context}
    {handleMap : HandleMap}
    (hContext : IsContext base s session.discarded context)
    (hCreate :
      s.createModType table context.scope context.path
        handleMap = some s') :
    ∃ own'', Running own own'' base s' session := by
  rcases createModType_grows (R := fun _ => False) hRun.sound
    (hRun.live_of_open hContext.isOpen) hContext.kind hCreate
    with ⟨own'', hGrows, _, _, hSame⟩
  refine ⟨own'', ?_⟩
  apply hRun.stay hGrows
  · rintro r ⟨⟩
  · rw [hSame]
  · rw [hSame]

theorem exitModule
    {handleMap : HandleMap}
    (hExit :
      s.exitModule table session handleMap = some s') :
    Continues own base s' := by
  rw [SymbolState.exitModule] at hExit
  cases hModules : session.modules with
  | nil =>
      rw [hModules] at hExit
      cases hExit
  | cons context rest =>
      rw [hModules] at hExit
      simp only at hExit
      split_ifs at hExit with hCur
      rcases Option.map_eq_some_iff.mp hExit with
        ⟨created, hCreate, hEq⟩
      subst hEq
      have hContext : IsContext base s session.discarded context := by
        apply hRun.modules
        rw [hModules]
        exact List.mem_cons_self
      rcases hRun.createModType hContext hCreate with
        ⟨own'', hCreated⟩
      have hRest :
          ∀ context ∈ rest,
            IsContext base created session.discarded
              context := by
        intro context hMem
        apply hCreated.modules
        rw [hModules]
        exact List.mem_cons_of_mem _ hMem
      have hPopped := hCreated.setModules hRest
      have hOpen :
          IsOpen base created session.discarded
            (rest.headD session.provider).scope := by
        cases rest with
        | nil => exact hCreated.provider.isOpen
        | cons next rest =>
            exact (hRest next List.mem_cons_self).isOpen
      exact (hPopped.moveTo hOpen).continues

theorem succeed
    {handleMap : HandleMap}
    (hSucceed :
      s.succeed table session handleMap = some s') :
    Ended s' := by
  simp only [SymbolState.succeed] at hSucceed
  split_ifs at hSucceed
  · cases hSucceed
    exact ⟨rfl, own', hRun.outside⟩
  · rcases Option.map_eq_some_iff.mp hSucceed with
      ⟨created, hCreate, hEq⟩
    subst hEq
    rcases hRun.createModType hRun.provider hCreate with
      ⟨own'', hCreated⟩
    exact ⟨rfl, own'', hCreated.outside⟩

/- Names are added to the current scope. -/
theorem atCur
    (hSession : s.session = some session)
    (hGrows :
      Grows own' own'' (fun r => r = session.cur) s s')
    (hSame :
      s'.builtin = s.builtin ∧ s'.root = s.root ∧
        s'.session = s.session) :
    Continues own base s' := by
  refine ⟨own'', session, hSame.2.2.trans hSession, ?_⟩
  apply hRun.stay hGrows _ hSame.1 hSame.2.1
  intro r hEq
  rw [hEq]
  exact hRun.cur

/- What an alias is made of is valid. -/
theorem aliasHandle_valid
    {target : AliasTarget}
    {handle : FieldHandle}
    (hAlias : s.aliasHandle session.cur target = some handle) :
    HandleValid (s.extent own') handle := by
  cases target with
  | name name =>
      rcases ScopeStore.lookupWithin_mem (L := Live base s)
        (fun r p => hRun.live_parent)
        (hRun.live_of_open hRun.cur) hAlias with
        ⟨r, hLive, hMem⟩
      exact hRun.sound.handles r hLive (name, handle) hMem
  | module typeId =>
      rcases Option.map_eq_some_iff.mp hAlias with
        ⟨type, hType, hEq⟩
      rw [← hEq]
      exact (hRun.sound.modType_valid hType).toHandle

end Running

theorem typeAlias_valid
    {typeId : TypeId}
    (hType : s.isType typeId = true) :
    HandleValid (s.extent own)
      (ScopeStore.typeAliasHandle typeId) := by
  constructor
  · exact of_decide_eq_true hType
  · rintro ⟨⟩
  · rintro ⟨⟩

theorem stepInSession_cases
    {event : SymbolEvent}
    (hRun : Running own own' base s session)
    (hSession : s.session = some session)
    (hStep : stepInSession table s session event = some s') :
    Continues own base s' ∨ Ended s' := by
  cases event with
  | enterScope kind =>
      rcases Option.map_eq_some_iff.mp hStep with
        ⟨⟨store, ref⟩, hEnter, hEq⟩
      cases hEq
      exact .inl (hRun.enterScope hEnter).continues
  | exitScope =>
      rcases Option.map_eq_some_iff.mp hStep with
        ⟨parent, hParent, hEq⟩
      cases hEq
      apply Or.inl
      exact
        (hRun.moveTo
          (hRun.open_parent hRun.cur hParent)).continues
  | defineHandle name typeId attr =>
      simp only [stepInSession] at hStep
      split_ifs at hStep with hDecl
      cases hStep
      simp only [Bool.and_eq_true, bne_iff_ne] at hDecl
      rcases hDecl with ⟨⟨hType, hAttr⟩, hKind⟩
      rcases defineHandle_grows hRun.sound hType hAttr hKind with
        ⟨own'', hGrows⟩
      exact .inl (hRun.atCur hSession hGrows ⟨rfl, rfl, rfl⟩)
  | defineAlias name target =>
      rcases Option.map_eq_some_iff.mp hStep with
        ⟨handle, hAlias, hEq⟩
      cases hEq
      have hGrows :
          Grows own' own' (fun r => r = session.cur) s
            (s.keepStore
              (s.store.defineAlias session.cur name handle)) :=
        alias_grows hRun.sound (hRun.aliasHandle_valid hAlias)
          (fun _ _ => ScopeStore.defineAlias_aliasesAt)
      exact .inl (hRun.atCur hSession hGrows ⟨rfl, rfl, rfl⟩)
  | defineTypeAlias name typeId =>
      simp only [stepInSession] at hStep
      split_ifs at hStep with hType
      cases hStep
      have hGrows :
          Grows own' own' (fun r => r = session.cur) s
            (s.keepStore
              (s.store.defineTypeAlias
                (fun name => (s.pool.find name).isSome)
                session.cur name typeId)) :=
        alias_grows hRun.sound (typeAlias_valid hType)
          (fun _ _ => ScopeStore.defineTypeAlias_aliasesAt)
      exact .inl (hRun.atCur hSession hGrows ⟨rfl, rfl, rfl⟩)
  | importForeignHandles typeId isGlobal =>
      rcases Option.bind_eq_some_iff.mp hStep with
        ⟨type, hType, hImport⟩
      split_ifs at hImport
      cases hImport
      have hGrows :
          Grows own' own' (fun r => r = session.cur) s
            { s with
              store :=
                (s.store.importForeignHandles session.cur type
                  isGlobal).1 } :=
        importForeignHandles_grows hRun.sound
          (hRun.sound.modType_valid hType)
      exact .inl (hRun.atCur hSession hGrows ⟨rfl, rfl, rfl⟩)
  | enterModule path =>
      exact .inl (hRun.enterModule hSession hStep)
  | exitModule handleMap => exact .inl (hRun.exitModule hStep)
  | succeed handleMap => exact .inr (hRun.succeed hStep)
  | fail =>
      cases hStep
      exact .inr ⟨rfl, own', hRun.fail_outside⟩
  | bindVariable name typeId attr => cases hStep
  | boot handleMap => cases hStep
  | createReifiedType template elementTypes => cases hStep
  | createFuncType returnType paramTypes => cases hStep
  | lookupMethod recvType methodName => cases hStep
  | evalScript sourceName => cases hStep
  | loadModule path isReadable separate => cases hStep
  | complete underlying => cases hStep

----
-- The Begin of a Compilation
----

theorem begin_running
    {provider : Context}
    {discarded : ScopeRef}
    {isCompletion : Bool}
    (hOutside : Outside own base)
    (hGrows : Grows own own (fun r => r = discarded) base s)
    (hBuiltin : s.builtin = base.builtin)
    (hRoot : s.root = base.root)
    (hDiscarded :
      discarded = base.root ∨ base.store.size ≤ discarded)
    (hProvider : IsContext base s discarded provider) :
    Continues own base
      (s.begin provider discarded
        (base.getDiscardPoint base.root) isCompletion) := by
  have hSound : Sound own (fun _ => False) s := by
    apply hOutside.sound.grows hGrows
    · rintro r ⟨⟩
    · rintro r ⟨⟩
  have hClear :=
    changes_grows hSound
      (ScopeStore.clearLocalSize_changes (R := fun _ => False)
        provider.scope) rfl rfl
  have hBoth :=
    hGrows.trans hClear
      (by
        rintro r ⟨⟩)
  have hContext := hProvider.grows hClear
  have hRun :
      Running own own base
        { s with store := s.store.clearLocalSize provider.scope }
        { provider := provider
          discarded := discarded
          point := base.getDiscardPoint base.root
          isCompletion := isCompletion
          modules := []
          cur := provider.scope } := by
    constructor
    · exact hOutside
    · exact hBoth
    · exact hBuiltin
    · exact hRoot
    · rfl
    · exact hDiscarded
    · exact hContext.isOpen
    · exact hContext
    · rintro context ⟨⟩
  exact hRun.continues

/- The root scope is discarded, another one may be used. -/
theorem begin_root
    {sourceName : String}
    {isCompletion : Bool}
    (hOutside : Outside own base)
    (hGrows : Grows own own (fun _ => False) base s)
    (hBuiltin : s.builtin = base.builtin)
    (hRoot : s.root = base.root) :
    Continues own base
      (s.begin ⟨base.root, sourceName⟩ base.root
        (base.getDiscardPoint base.root) isCompletion) := by
  have hWide :
      Grows own own (fun r => r = base.root) base s :=
    (Grows.refl hOutside.sound).trans hGrows
      (by
        rintro r ⟨⟩)
  have hScope := hOutside.root.grows hGrows
  apply begin_running hOutside hWide hBuiltin hRoot (.inl rfl)
  exact ⟨⟨hScope.lt, .inl rfl⟩, hScope.kind⟩

/- A module is loaded in its own scope or in the root scope. -/
theorem loadModule_cases
    {path : String}
    {isReadable separate : Bool}
    (hOutside : Outside own s)
    (hSession : s.session = none)
    (hLoad :
      s.loadModule path isReadable separate = some s') :
    Continues own s s' ∨ Ended s' := by
  simp only [loadModule] at hLoad
  cases hAdd : s.loader.addNewModEntry path with
  | complete typeId | circular =>
      rw [hAdd] at hLoad
      cases hLoad
      exact .inr ⟨hSession, own, hOutside⟩
  | modLimit =>
      rw [hAdd] at hLoad
      cases hLoad
  | loaded loader =>
      rw [hAdd] at hLoad
      simp only at hLoad
      have hLoader :
          Grows own own (fun _ => False) s
            { s with loader := loader } :=
        loader_grows hOutside.sound (addNewModEntry_length hAdd)
      split_ifs at hLoad
      · cases hLoad
        exact
          .inr ⟨hSession, own, hOutside.grows hLoader rfl rfl⟩
      · cases hBuiltin :
            ({ s with loader := loader } :
              SymbolState).getBuiltinModType with
        | none =>
            rw [hBuiltin] at hLoad
            cases hLoad
        | some type =>
            rw [hBuiltin] at hLoad
            rcases Option.map_eq_some_iff.mp hLoad with
              ⟨⟨created, ref⟩, hCreate, hEq⟩
            cases hEq
            have hSound := hOutside.sound
            have hSound' :
                Sound own (fun _ => False)
                  { s with loader := loader } := by
              apply hSound.grows hLoader
              · rintro r ⟨⟩
              · rintro r ⟨⟩
            rcases createGlobalScope_grows
              (R := fun _ => False) hSound'
              (hSound.getBuiltinModType_valid hBuiltin)
              hCreate with
              ⟨hCreated, hRef, hSize, hKind, _, hSame⟩
            have hGrows :
                Grows own own (fun r => r = ref) s created :=
              ((Grows.refl hSound).trans hLoader
                (by rintro r ⟨⟩)).trans hCreated
                (by rintro r ⟨⟩)
            have hBegin :
                s.store.size ≤ ref ∧
                  ref < created.store.size := by
              rw [hSize, hRef]
              exact ⟨Nat.le_refl _, Nat.lt_succ_self _⟩
            apply Or.inl
            apply begin_running hOutside hGrows
            · rw [hSame]
            · rw [hSame]
            · exact .inr hBegin.1
            · exact ⟨⟨hBegin.2, .inl rfl⟩, hKind⟩
      · cases hLoad
        exact .inl (begin_root hOutside hLoader rfl rfl)

/- Completion works on the root or on a scope made again. -/
theorem complete_continues
    {underlying : Option TypeId}
    (hOutside : Outside own s)
    (hComplete : s.complete underlying = some s') :
    Continues own s s' := by
  simp only [SymbolState.complete] at hComplete
  have hSound := hOutside.sound
  cases underlying with
  | none =>
      cases hComplete
      exact begin_root hOutside (.refl hSound) rfl rfl
  | some typeId =>
      rcases Option.map_eq_some_iff.mp hComplete with
        ⟨type, hType, hEq⟩
      cases hEq
      rcases recreate_grows (R := fun r => r = s.root) hSound
        (hSound.modType_valid hType) hSound.children_valid with
        ⟨hGrows, hRef, hSize, hKind, _⟩
      apply begin_running hOutside hGrows rfl rfl (.inl rfl)
      constructor
      · constructor
        · change
            (s.store.recreate type (s.children type)).2 <
              (s.store.recreate type (s.children type)).1.size
          rw [hRef, hSize]
          exact Nat.lt_succ_self _
        · apply Or.inr
          change
            s.store.size ≤
              (s.store.recreate type (s.children type)).2
          exact Nat.le_of_eq hRef.symm
      · change
          ((s.store.recreate type (s.children type)).1.scope
            (s.store.recreate type (s.children type)).2).kind =
            .global
        rw [hRef]
        exact hKind

/- The scope that is made last becomes the root scope. -/
theorem Outside.newRoot
    {path : String}
    {type : ModType}
    {ref : ScopeRef}
    (hOutside : Outside own s)
    (hType : ModTypeValid (s.extent own) type)
    (hCreate :
      s.createGlobalScope path type = some (s', ref)) :
    Outside own { s' with root := ref, isBooted := true } := by
  rcases createGlobalScope_grows (R := fun _ => False)
    hOutside.sound hType hCreate with
    ⟨hGrows, hRef, hSize, hKind, hParent, hSame⟩
  have hBuiltin := hOutside.builtin.grows hGrows
  have hSound :
      Sound own (fun r => r = s.builtin ∨ r = ref) s' := by
    apply hOutside.sound.grows hGrows
    · intro r hLive
      rcases hLive with hEq | hEq
      · rw [hEq]
        exact hBuiltin.lt
      · rw [hEq, hSize, hRef]
        exact Nat.lt_succ_self _
    · intro r hLive hLt
      rcases hLive with hEq | hEq
      · exact .inl hEq
      · rw [hEq, hRef] at hLt
        exact absurd hLt (Nat.lt_irrefl _)
  have hSame' : s'.builtin = s.builtin := by
    rw [hSame]
  constructor
  · constructor
    · exact hSound.pool
    · exact hSound.predefined
    · exact hSound.contiguous
    · exact hSound.counted
    · intro r hLive
      change r = s'.builtin ∨ r = ref at hLive
      rw [hSame'] at hLive
      exact hSound.handles r hLive
    · exact hSound.modules
    · exact hSound.numbered
  · change IsModScope _ s'.builtin
    rw [hSame']
    exact ⟨hBuiltin.lt, hBuiltin.kind, hBuiltin.parent⟩
  · constructor
    · change ref < s'.store.size
      rw [hSize, hRef]
      exact Nat.lt_succ_self _
    · exact hKind
    · exact hParent

/- The builtin names become a module before the root scope. -/
theorem boot_ended
    {handleMap : HandleMap}
    (hOutside : Outside own s)
    (hSession : s.session = none)
    (hBoot : s.boot table handleMap = some s') :
    Ended s' := by
  rw [SymbolState.boot] at hBoot
  cases hCreate :
      s.createModType table s.builtin "(builtin)" handleMap with
  | none =>
      rw [hCreate] at hBoot
      cases hBoot
  | some mid =>
      rw [hCreate] at hBoot
      rcases createModType_grows (R := fun _ => False)
        hOutside.sound (.inl rfl) hOutside.builtin.kind hCreate
        with ⟨own', hGrows, _, _, hSame⟩
      have hMid : Outside own' mid := by
        apply hOutside.grows hGrows
        · rw [hSame]
        · rw [hSame]
      have hSession' : mid.session = none := by
        rw [hSame]
        exact hSession
      simp only at hBoot
      cases hAdd : mid.loader.addNewModEntry "(root)" with
      | complete typeId | circular | modLimit =>
          simp only [hAdd] at hBoot
          cases hBoot
      | loaded loader =>
          cases hBuiltin : mid.getBuiltinModType with
          | none =>
              simp only [hAdd, hBuiltin] at hBoot
              cases hBoot
          | some type =>
              simp only [hAdd, hBuiltin] at hBoot
              rcases Option.map_eq_some_iff.mp hBoot with
                ⟨⟨created, ref⟩, hScope, hEq⟩
              cases hEq
              have hLoader :
                  Grows own' own' (fun _ => False) mid
                    { mid with loader := loader } :=
                loader_grows hMid.sound
                  (addNewModEntry_length hAdd)
              have hLoaded :
                  Outside own' { mid with loader := loader } :=
                hMid.grows hLoader rfl rfl
              have hType :=
                hMid.sound.getBuiltinModType_valid hBuiltin
              refine ⟨?_, own', hLoaded.newRoot hType hScope⟩
              rcases createGlobalScope_grows
                (R := fun _ => False) hLoaded.sound hType hScope
                with ⟨_, _, _, _, _, hSame'⟩
              change created.session = none
              rw [hSame']
              exact hSession'

theorem stepOutside_cases
    {event : SymbolEvent}
    (hOutside : Outside own s)
    (hSession : s.session = none)
    (hStep : stepOutside table s event = some s') :
    Continues own s s' ∨ Ended s' := by
  cases event with
  | bindVariable name typeId attr =>
      simp only [stepOutside] at hStep
      split_ifs at hStep with hDecl
      cases hStep
      simp only [Bool.and_eq_true] at hDecl
      rcases hDecl with ⟨⟨_, hType⟩, hAttr⟩
      have hKind : (s.store.scope s.builtin).kind ≠ .func := by
        rw [hOutside.builtin.kind]
        rintro ⟨⟩
      rcases defineHandle_grows hOutside.sound hType hAttr hKind
        with ⟨own', hGrows⟩
      exact
        .inr ⟨hSession, own', hOutside.grows hGrows rfl rfl⟩
  | boot handleMap =>
      simp only [stepOutside] at hStep
      split_ifs at hStep
      exact .inr (boot_ended hOutside hSession hStep)
  | evalScript sourceName =>
      cases hStep
      exact
        .inl
          (begin_root hOutside (.refl hOutside.sound) rfl rfl)
  | loadModule path isReadable separate =>
      simp only [stepOutside] at hStep
      split_ifs at hStep
      exact loadModule_cases hOutside hSession hStep
  | complete underlying =>
      simp only [stepOutside] at hStep
      split_ifs at hStep
      exact .inl (complete_continues hOutside hStep)
  | createReifiedType template elementTypes => cases hStep
  | createFuncType returnType paramTypes => cases hStep
  | lookupMethod recvType methodName => cases hStep
  | enterScope kind => cases hStep
  | exitScope => cases hStep
  | defineHandle name typeId attr => cases hStep
  | defineAlias name target => cases hStep
  | defineTypeAlias name typeId => cases hStep
  | importForeignHandles typeId isGlobal => cases hStep
  | enterModule path => cases hStep
  | exitModule handleMap => cases hStep
  | succeed handleMap => cases hStep
  | fail => cases hStep

----
-- Steps
----

/- The steps that may be taken at any time. -/
def onPool : SymbolEvent → Bool
  | .createReifiedType _ _ => true
  | .createFuncType _ _ => true
  | .lookupMethod _ _ => true
  | _ => false

theorem onPool_grows
    {live : ScopeRef → Prop}
    {event : SymbolEvent}
    (hSound : Sound own live s)
    (hEvent : onPool event = true)
    (hStep : step table s event = some s') :
    Grows own own R s s' ∧
      s' = { s with pool := s'.pool } := by
  have hTypes :
      ∀ types : List TypeId, types.all s.isType = true →
        ∀ type ∈ types, type < s.pool.size := by
    intro types hAll type hMem
    have hType := List.all_eq_true.mp hAll type hMem
    exact of_decide_eq_true hType
  cases event with
  | createReifiedType template elementTypes =>
      simp only [step] at hStep
      split_ifs at hStep with hAll
      exact
        keepPool_grows hSound
          (fun _ _ hCreate =>
            TypePool.createReifiedType_growsTo hSound.pool
              hSound.predefined (hTypes _ hAll) hCreate)
          hStep
  | createFuncType returnType paramTypes =>
      simp only [step] at hStep
      split_ifs at hStep with hAll
      have hKnown := hTypes _ hAll
      exact
        keepPool_grows hSound
          (fun _ _ hCreate =>
            TypePool.createFuncType_growsTo hSound.pool
              hSound.predefined
              (hKnown returnType List.mem_cons_self)
              (fun type hMem =>
                hKnown type (List.mem_cons_of_mem _ hMem))
              hCreate)
          hStep
  | lookupMethod recvType methodName =>
      cases hStep
      exact
        ⟨keeps_grows hSound
          (TypePool.lookupMethod_keeps hSound.pool
            hSound.predefined rfl), rfl⟩
  | _ => cases hEvent

theorem step_eq_stepInSession
    {event : SymbolEvent}
    (hEvent : onPool event = false)
    (hSession : s.session = some session) :
    step table s event = stepInSession table s session event := by
  cases event <;>
    first
    | (simp only [step, hSession]; done)
    | cases hEvent

theorem step_eq_stepOutside
    {event : SymbolEvent}
    (hEvent : onPool event = false)
    (hSession : s.session = none) :
    step table s event = stepOutside table s event := by
  cases event <;>
    first
    | (simp only [step, hSession]; done)
    | cases hEvent

/- A step of a compilation goes on with it or ends it. -/
theorem step_running
    {event : SymbolEvent}
    (hRun : Running own own' base s session)
    (hSession : s.session = some session)
    (hStep : step table s event = some s') :
    Continues own base s' ∨ Ended s' := by
  cases hEvent : onPool event with
  | true =>
      rcases onPool_grows (R := fun _ => False) hRun.sound hEvent
        hStep with ⟨hGrows, hSame⟩
      apply Or.inl
      refine ⟨own', session, ?_, ?_⟩
      · rw [hSame]
        exact hSession
      · apply hRun.stay hGrows
        · rintro r ⟨⟩
        · rw [hSame]
        · rw [hSame]
  | false =>
      rw [step_eq_stepInSession hEvent hSession] at hStep
      exact stepInSession_cases hRun hSession hStep

/- A step between compilations may begin one. -/
theorem step_outside
    {event : SymbolEvent}
    (hOutside : Outside own s)
    (hSession : s.session = none)
    (hStep : step table s event = some s') :
    Continues own s s' ∨ Ended s' := by
  cases hEvent : onPool event with
  | true =>
      rcases onPool_grows (R := fun _ => False) hOutside.sound
        hEvent hStep with ⟨hGrows, hSame⟩
      apply Or.inr
      refine ⟨?_, own, ?_⟩
      · rw [hSame]
        exact hSession
      · apply hOutside.grows hGrows
        · rw [hSame]
        · rw [hSame]
  | false =>
      rw [step_eq_stepOutside hEvent hSession] at hStep
      exact stepOutside_cases hOutside hSession hStep

----
-- Runs
----

/- A state is between compilations or in one of them. -/
def Reached (s : SymbolState) : Prop :=
  (∃ own base, Continues own base s) ∨ Ended s

theorem init_pool (table : NativeTable) :
    (SymbolState.init table).pool = TypePool.init table := by
  rw [SymbolState.init]

theorem init_sound
    (table : NativeTable)
    (live : ScopeRef → Prop) :
    Sound id live (SymbolState.init table) := by
  constructor
  · rw [init_pool]
    exact TypePool.init_wellFormed table
  · rw [init_pool]
    exact TypePool.init_hasPredefined table
  · intro r
    rfl
  · intro r
    constructor
    · rintro ⟨⟩
    · intro hNe
      exact absurd rfl hNe
  · rintro r _ entry ⟨⟩
  · intro type hMem module hShape
    rw [init_pool] at hMem
    exact
      absurd hShape (TypePool.init_shape_ne_module hMem module)
  · constructor
    · rintro index ⟨⟩
    · rintro index ⟨⟩

theorem init_ended (table : NativeTable) :
    Ended (SymbolState.init table) := by
  have hScope : (SymbolState.init table).IsModScope 0 :=
    ⟨Nat.zero_lt_one, rfl, rfl⟩
  exact ⟨rfl, id, init_sound table _, hScope, hScope⟩

theorem step_reached
    (s : SymbolState)
    (event : SymbolEvent)
    (s' : SymbolState)
    (hReached : Reached s)
    (hStep : step table s event = some s') :
    Reached s' := by
  rcases hReached with
    ⟨own, base, own', session, hSession, hRun⟩ |
    ⟨hSession, own, hOutside⟩
  · rcases step_running hRun hSession hStep with hGoes | hEnded
    · exact .inl ⟨own, base, hGoes⟩
    · exact .inr hEnded
  · rcases step_outside hOutside hSession hStep with
      hBegun | hEnded
    · exact .inl ⟨own, s, hBegun⟩
    · exact .inr hEnded

/- Every state that the shell gets to. -/
theorem run_reached
    {events : List SymbolEvent}
    (hRun :
      exec (step table) (SymbolState.init table) events =
        some s) :
    Reached s :=
  exec_invariant step_reached hRun (.inr (init_ended table))

/- The compilation that has begun in `base` goes on. -/
theorem guardedRun_continues
    {events : List SymbolEvent}
    (hRun :
      GuardedRun (step table)
        (fun u _ => u.session.isSome = true) s events s')
    (hContinues : Continues own base s)
    (hSession : s'.session.isSome = true) :
    Continues own base s' := by
  have hCases : Continues own base s' ∨ s'.session = none := by
    apply hRun.invariant (I := fun u =>
      Continues own base u ∨ u.session = none)
    · intro u event v hIn hOk hStep
      rcases hIn with ⟨own', session, hSome, hIn⟩ | hNone
      · rcases step_running hIn hSome hStep with
          hGoes | ⟨hNone, _⟩
        · exact .inl hGoes
        · exact .inr hNone
      · rw [hNone] at hOk
        cases hOk
    · exact .inl hContinues
  rcases hCases with hGoes | hNone
  · exact hGoes
  · rw [hNone] at hSession
    cases hSession

/-
  A compilation begins in `s` and takes any steps to `u`.  If it
  fails there, the scopes that were there in `s` have the names
  they had, the pool has the types and methods it had, and no
  name or method refers to a type that is gone.
-/
theorem discard_restores
    {events events' : List SymbolEvent}
    {event : SymbolEvent}
    {t u v : SymbolState}
    (hReach :
      exec (step table) (SymbolState.init table) events =
        some s)
    (hOutside : s.session = none)
    (hBegin : step table s event = some t)
    (hRun :
      GuardedRun (step table)
        (fun u _ => u.session.isSome = true) t events' u)
    (hFail : step table u .fail = some v) :
    v.pool = s.pool ∧
      (∀ r < s.store.size,
        (v.store.scope r).handles = (s.store.scope r).handles ∧
          (v.store.scope r).Contiguous) ∧
      (∀ r, r = s.builtin ∨ r = s.root →
        ∀ entry ∈ (v.store.scope r).handles,
          entry.2.typeId < v.pool.size) ∧
      ∀ entry ∈ v.pool.methodMap,
        entry.1.1 < v.pool.size ∧
          ∀ handle, entry.2 = .handle handle →
            ∀ type ∈ handle.mentions, type < v.pool.size := by
  have hReached := run_reached hReach
  have hNow : Ended s := by
    rcases hReached with ⟨_, _, _, session, hSome, _⟩ | hEnded
    · rw [hOutside] at hSome
      cases hSome
    · exact hEnded
  rcases hNow with ⟨_, own, hBefore⟩
  have hSession : u.session.isSome = true := by
    cases hNone : u.session with
    | some session => rfl
    | none =>
        simp only [step, hNone] at hFail
        cases hFail
  have hBegun : Continues own s t := by
    rcases step_outside hBefore hOutside hBegin with
      hBegun | ⟨hNone, _⟩
    · exact hBegun
    · cases hRun with
      | nil _ =>
          rw [hNone] at hSession
          cases hSession
      | cons hOk _ _ =>
          rw [hNone] at hOk
          cases hOk
  rcases guardedRun_continues hRun hBegun hSession with
    ⟨own', session, hSome, hFailing⟩
  have hEq : v = u.fail session := by
    simp only [step, hSome, stepInSession] at hFail
    exact (Option.some.inj hFail).symm
  subst hEq
  have hRoots := fail_roots u session
  have hAfter := hFailing.fail_outside
  refine ⟨hFailing.fail_pool, ?_, ?_, ?_⟩
  · intro r hLt
    exact
      ⟨hFailing.fail_handles hLt, hFailing.fail_contiguous r⟩
  · intro r hLive entry hMem
    rw [← hFailing.builtin_eq, ← hFailing.root_eq, ← hRoots.1,
      ← hRoots.2] at hLive
    exact (hAfter.sound.handles r hLive entry hMem).typeId_lt
  · intro entry hMem
    rcases hAfter.sound.pool.methods_lt entry hMem with
      ⟨hLt, hKnown⟩
    refine ⟨hLt, ?_⟩
    intro handle hHandle
    rw [hHandle] at hKnown
    exact hKnown.2

/- A table without native functions. -/
def noMethods : NativeTable :=
  ⟨fun _ => ⟨"", []⟩, fun _ => ⟨0, 0⟩, fun _ => ⟨0, 0⟩⟩

/- A script that defines a variable. -/
def definedIn (s : SymbolState) (name : String) : SymbolState :=
  let s := s.evalScript "(string)"
  s.keepStore (s.store.defineHandle 0 name TYPE.Int {})

theorem step_definedIn
    {table : NativeTable}
    {s : SymbolState}
    {name : String}
    (hRoot : s.root = 0)
    (hKind : (s.store.scope 0).kind = .global)
    (hSize : s.pool.size = (TypePool.init table).size) :
    step table (s.evalScript "(string)")
        (.defineHandle name TYPE.Int {}) =
      some (s.definedIn name) := by
  have hType :
      (s.evalScript "(string)").isType TYPE.Int = true := by
    apply decide_eq_true
    change TYPE.Int < s.pool.size
    rw [hSize, TypePool.init_size]
    decide
  have hScope :
      (s.evalScript "(string)").session =
        some
          { provider := ⟨0, "(string)"⟩
            discarded := 0
            point := s.getDiscardPoint 0
            isCompletion := false
            modules := []
            cur := 0 } := by
    simp only [evalScript, begin, hRoot]
  have hGlobal :
      ((s.evalScript "(string)").store.scope 0).kind ≠ .func := by
    simp only [evalScript, begin, hRoot]
    change (s.store.scope 0).kind ≠ .func
    rw [hKind]
    decide
  simp only [step, hScope, stepInSession]
  rw [hType, if_pos (by simpa using ⟨rfl, hGlobal⟩)]
  rfl

/- The state in which a first script defines a variable. -/
def definedFirst (table : NativeTable) : SymbolState :=
  let s := (SymbolState.init table).evalScript "(string)"
  s.keepStore (s.store.defineHandle 0 "x" TYPE.Int {})

theorem step_definedFirst (table : NativeTable) :
    step table
        ((SymbolState.init table).evalScript "(string)")
        (.defineHandle "x" TYPE.Int {}) =
      some (definedFirst table) :=
  step_definedIn rfl rfl (by rw [init_pool])

theorem discard_restores_definedFirst :
    ∃ v,
      step noMethods (definedFirst noMethods) .fail = some v ∧
        v.pool = (SymbolState.init noMethods).pool ∧
        (v.store.scope 0).handles = [] := by
  have hBegin :
      step noMethods (SymbolState.init noMethods)
          (.evalScript "(string)") =
        some
          ((SymbolState.init noMethods).evalScript "(string)") :=
    rfl
  have hAll :=
    discard_restores (exec_nil _ _) rfl hBegin
      (.cons rfl (step_definedFirst noMethods) (.nil _)) rfl
  exact ⟨_, rfl, hAll.1, (hAll.2.1 0 Nat.zero_lt_one).1⟩

end SymbolState

end Scope

end Ydsh
