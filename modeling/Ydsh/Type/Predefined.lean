import Ydsh.Type.PoolDiscard

/-
  The pool with the predefined types.

  Main declarations:
    * `predefinedTypes`
    * `TypePool.init_typeTable`
    * `TypePool.init_nameMap`
    * `TypePool.init_wellFormed`
-/

----
-- Predefined Types
----

namespace Ydsh

namespace Pool

open TypePool

def builtinEntry (type : String × Option TypeId) : PoolType :=
  ⟨type.1, type.2, .builtin⟩

def errorEntry (typeName : String) : PoolType :=
  ⟨typeName, some TYPE.Error, .builtin⟩

def stringArrayEntry : PoolType :=
  ⟨"[String]", some TYPE.Any, .reified .array [TYPE.String]⟩

/- The type table of a new pool. -/
def predefinedTypes : List PoolType :=
  builtinTypes.map builtinEntry ++ [stringArrayEntry] ++
    errorTypes.map errorEntry ++ statusTypes.map builtinEntry

/- A pool that holds these types and their native methods. -/
structure Holds
    (types : List PoolType)
    (pool : TypePool) : Prop where
  typeTable : pool.typeTable = types
  nameMap :
    pool.nameMap =
      types.zipIdx.map (fun entry => (entry.1.name, entry.2))
  methods :
    ∀ entry ∈ pool.methodMap,
      entry.1.1 < types.length ∧
        ∃ index, entry.2 = .index index

namespace Holds

variable {types : List PoolType}
variable {pool : TypePool}
variable {table : NativeTable}

theorem of_empty : Holds [] TypePool.empty := by
  constructor
  · rfl
  · rfl
  · rintro entry ⟨⟩

/- A new type at the end, before its methods are entered. -/
theorem addType
    (hHolds : Holds types pool)
    (hLimit : types.length + 1 < SYS_LIMIT_TYPE_ID)
    (type : PoolType) :
    ∃ pool',
      pool.addType type = .ok (pool', types.length) ∧
        Holds (types ++ [type]) pool' := by
  have hNe : pool.typeTable.length + 1 ≠ SYS_LIMIT_TYPE_ID := by
    rw [hHolds.typeTable]
    exact Nat.ne_of_lt hLimit
  have hLength : pool.typeTable.length = types.length := by
    rw [hHolds.typeTable]
  rw [TypePool.addType, if_neg hNe, hLength]
  refine ⟨_, rfl, ?_⟩
  constructor
  · rw [hHolds.typeTable]
  · rw [hHolds.nameMap]
    simp [List.zipIdx_append]
  · intro entry hMem
    rcases hHolds.methods entry hMem with ⟨hLt, hIndex⟩
    rw [List.length_append]
    exact ⟨Nat.lt_add_right _ hLt, hIndex⟩

theorem registerHandles
    {recv : TypeId}
    (hHolds : Holds types pool)
    (hRecv : recv < types.length)
    (info : NativeTypeInfo) :
    Holds types (pool.registerHandles table recv info) := by
  constructor
  · exact hHolds.typeTable
  · exact hHolds.nameMap
  · intro entry hMem
    rcases List.mem_append.mp hMem with hOld | hNew
    · exact hHolds.methods entry hOld
    · rcases List.mem_map.mp hNew with ⟨index, _, hEq⟩
      subst hEq
      exact ⟨hRecv, index, rfl⟩

theorem initBuiltinType
    (hHolds : Holds types pool)
    (hLimit : types.length + 1 < SYS_LIMIT_TYPE_ID)
    (type : String × Option TypeId) :
    Holds (types ++ [builtinEntry type])
      (TypePool.initBuiltinType table pool type) := by
  rcases hHolds.addType hLimit (builtinEntry type) with
    ⟨pool', hAdd, hNew⟩
  rw [TypePool.initBuiltinType, ← builtinEntry, hAdd]
  apply hNew.registerHandles
  simp

theorem initErrorType
    (hHolds : Holds types pool)
    (hLimit : types.length + 1 < SYS_LIMIT_TYPE_ID)
    (typeName : String) :
    Holds (types ++ [errorEntry typeName])
      (TypePool.initErrorType pool typeName) := by
  rcases hHolds.addType hLimit (errorEntry typeName) with
    ⟨pool', hAdd, hNew⟩
  rw [TypePool.initErrorType, ← errorEntry, hAdd]
  exact hNew

theorem foldl_initBuiltinType
    {news : List (String × Option TypeId)}
    (hHolds : Holds types pool)
    (hLimit : types.length + news.length < SYS_LIMIT_TYPE_ID) :
    Holds (types ++ news.map builtinEntry)
      (news.foldl (TypePool.initBuiltinType table) pool) := by
  induction news generalizing types pool with
  | nil => simpa using hHolds
  | cons type news ih =>
      rw [List.length_cons] at hLimit
      have hNext :
          Holds (types ++ [builtinEntry type])
            (TypePool.initBuiltinType table pool type) :=
        hHolds.initBuiltinType (by omega) type
      have hRest :=
        ih hNext
          (by
            rw [List.length_append, List.length_singleton]
            omega)
      simpa using hRest

theorem foldl_initErrorType
    {news : List String}
    (hHolds : Holds types pool)
    (hLimit : types.length + news.length < SYS_LIMIT_TYPE_ID) :
    Holds (types ++ news.map errorEntry)
      (news.foldl TypePool.initErrorType pool) := by
  induction news generalizing types pool with
  | nil => simpa using hHolds
  | cons type news ih =>
      rw [List.length_cons] at hLimit
      have hNext := hHolds.initErrorType (by omega) type
      have hRest :=
        ih hNext
          (by
            rw [List.length_append, List.length_singleton]
            omega)
      simpa using hRest

/- The array of strings is a new type, and a valid one. -/
theorem initStringArray
    (hHolds : Holds (builtinTypes.map builtinEntry) pool) :
    Holds (builtinTypes.map builtinEntry ++ [stringArrayEntry])
      (TypePool.initStringArray table pool) := by
  rcases hHolds.addType (by decide) stringArrayEntry with
    ⟨pool', hAdd, hNew⟩
  have hCheck :
      pool.checkTemplateElements .array [TYPE.String] =
        .ok () := by
    rcases pool with ⟨typeTable, nameMap, methodMap, count⟩
    have hTypes := hHolds.typeTable
    simp only at hTypes
    subst hTypes
    rfl
  have hName :
      pool.toReifiedTypeName .array [TYPE.String] =
        "[String]" := by
    rcases pool with ⟨typeTable, nameMap, methodMap, count⟩
    have hTypes := hHolds.typeTable
    simp only at hTypes
    subst hTypes
    rfl
  have hFind : pool.find "[String]" = none := by
    rw [TypePool.find, hHolds.nameMap]
    decide
  have hCreate :
      pool.createArrayType table TYPE.String =
        .ok
          (pool'.registerHandles table
            (builtinTypes.map builtinEntry).length
            (table.templateInfo .array),
            (builtinTypes.map builtinEntry).length) := by
    rw [createArrayType, createReifiedType, hCheck, hName,
      afterCheck, findOrAdd, hFind, ← stringArrayEntry, hAdd]
    · rintro ⟨⟩
    · rintro ⟨⟩
  rw [TypePool.initStringArray, hCreate]
  apply hNew.registerHandles
  simp

end Holds

namespace TypePool

theorem init_holds (table : NativeTable) :
    Holds predefinedTypes (init table) := by
  have hBuiltin :
      Holds (builtinTypes.map builtinEntry)
        (builtinTypes.foldl (initBuiltinType table) empty) := by
    have hFold :
        Holds ([] ++ builtinTypes.map builtinEntry)
          (builtinTypes.foldl (initBuiltinType table) empty) := by
      apply Holds.of_empty.foldl_initBuiltinType
      decide
    exact hFold
  have hArray :
      Holds (builtinTypes.map builtinEntry ++ [stringArrayEntry])
        (initStringArray table
          (builtinTypes.foldl (initBuiltinType table) empty)) :=
    hBuiltin.initStringArray
  have hErrors :
      Holds
        (builtinTypes.map builtinEntry ++ [stringArrayEntry] ++
          errorTypes.map errorEntry)
        (errorTypes.foldl initErrorType
          (initStringArray table
            (builtinTypes.foldl (initBuiltinType table)
              empty))) := by
    apply hArray.foldl_initErrorType
    simp only [List.length_append, List.length_map]
    decide
  rw [predefinedTypes, init]
  apply hErrors.foldl_initBuiltinType
  simp only [List.length_append, List.length_map]
  decide

theorem init_typeTable (table : NativeTable) :
    (init table).typeTable = predefinedTypes :=
  (init_holds table).typeTable

theorem init_nameMap (table : NativeTable) :
    (init table).nameMap =
      predefinedTypes.zipIdx.map
        (fun entry => (entry.1.name, entry.2)) :=
  (init_holds table).nameMap

theorem init_size (table : NativeTable) :
    (init table).size = 33 := by
  rw [size, init_typeTable]
  rfl

/- No module has been loaded. -/
theorem init_shape_ne_module
    {table : NativeTable}
    {type : PoolType}
    (hMem : type ∈ (init table).typeTable)
    (module : Scope.ModType) :
    type.shape ≠ .module module := by
  rw [init_typeTable] at hMem
  rcases List.mem_append.mp hMem with hMem | hStatus
  · rcases List.mem_append.mp hMem with hMem | hError
    · rcases List.mem_append.mp hMem with hBuiltin | hArray
      · rcases List.mem_map.mp hBuiltin with ⟨entry, _, hEq⟩
        rw [← hEq]
        rintro ⟨⟩
      · rw [List.mem_singleton.mp hArray]
        rintro ⟨⟩
    · rcases List.mem_map.mp hError with ⟨entry, _, hEq⟩
      rw [← hEq]
      rintro ⟨⟩
  · rcases List.mem_map.mp hStatus with ⟨entry, _, hEq⟩
    rw [← hEq]
    rintro ⟨⟩

theorem init_hasPredefined (table : NativeTable) :
    (init table).HasPredefined := by
  rw [HasPredefined, init_size]
  decide

theorem init_wellFormed (table : NativeTable) :
    (init table).WellFormed := by
  have hHolds := init_holds table
  constructor
  · intro id type hType
    rw [hHolds.typeTable] at hType
    have hTable :
        ∀ id : Fin predefinedTypes.length,
          ∀ mentioned ∈ (predefinedTypes.get id).mentions,
            mentioned < id.val := by
      decide
    rcases List.getElem?_eq_some_iff.mp hType with ⟨hLt, hEq⟩
    rw [← hEq]
    exact hTable ⟨id, hLt⟩
  · rw [hHolds.nameMap, init_size]
    decide
  · intro entry hMem
    rcases hHolds.methods entry hMem with ⟨hLt, index, hEq⟩
    rw [hEq]
    refine ⟨?_, trivial⟩
    rw [size, hHolds.typeTable]
    exact hLt

end TypePool

end Pool

end Ydsh
