import Ydsh.Type.TypePool

/-
  Discarding what was added to the type pool.

  A pool only grows between two discard points: types, names
  and methods of new types are added at the end, and methods
  of old types are allocated in place with fresh numbers.

  Main declarations:
    * `TypePool.WellFormed`
    * `TypePool.Extends`
    * `TypePool.Since`
-/

----
-- Well-Formed Pools
----

namespace Ydsh

namespace Pool

open Scope (ModType)

namespace TypeShape

/- The types that a type is made of. -/
def mentions : TypeShape → List TypeId
  | .builtin => []
  | .reified _ elementTypes => elementTypes
  | .function returnType paramTypes => returnType :: paramTypes
  | .module type =>
      type.children.map (fun child => child.typeId) ++
        type.handleMap.map (fun entry => entry.2.typeId)

end TypeShape

namespace PoolType

def mentions (type : PoolType) : List TypeId :=
  type.superType.toList ++ type.shape.mentions

end PoolType

namespace MethodHandle

def mentions (handle : MethodHandle) : List TypeId :=
  handle.recvType :: handle.returnType :: handle.paramTypes

end MethodHandle

namespace MethodValue

/- An allocated method is numbered and mentions known types. -/
def Known (size count : Nat) : MethodValue → Prop
  | .index _ => True
  | .handle method =>
      method.methodId < count ∧
        ∀ type ∈ method.mentions, type < size

theorem Known.mono
    {size size' count count' : Nat}
    {value : MethodValue}
    (hSize : size ≤ size')
    (hCount : count ≤ count')
    (hKnown : value.Known size count) :
    value.Known size' count' := by
  cases value with
  | index _ => trivial
  | handle method =>
      constructor
      · exact Nat.lt_of_lt_of_le hKnown.1 hCount
      · intro type hMem
        exact Nat.lt_of_lt_of_le (hKnown.2 type hMem) hSize

end MethodValue

namespace TypePool

def size (pool : TypePool) : Nat :=
  pool.typeTable.length

structure WellFormed (pool : TypePool) : Prop where
  types_lt :
    ∀ (id : TypeId) (type : PoolType),
      pool.typeTable[id]? = some type →
      ∀ mentioned ∈ type.mentions, mentioned < id
  names_lt : ∀ entry ∈ pool.nameMap, entry.2 < pool.size
  methods_lt :
    ∀ entry ∈ pool.methodMap,
      entry.1.1 < pool.size ∧
        entry.2.Known pool.size pool.methodIdCount

/- The types that are made when the pool is made. -/
def HasPredefined (pool : TypePool) : Prop :=
  TYPE.UnixFD < pool.size

----
-- Growth
----

/-
  Only types, names and methods of new types are added; new
  module types meet `M`.
-/
structure Extends
    (M : ModType → Prop)
    (pool pool' : TypePool) : Prop where
  types :
    ∃ types,
      pool'.typeTable = pool.typeTable ++ types ∧
        ∀ type ∈ types, ∀ module,
          type.shape = .module module → M module
  names :
    ∃ names,
      pool'.nameMap = pool.nameMap ++ names ∧
        ∀ entry ∈ names, pool.size ≤ entry.2
  methods :
    ∃ methods,
      pool'.methodMap = pool.methodMap ++ methods ∧
        ∀ entry ∈ methods, pool.size ≤ entry.1.1
  count_le : pool.methodIdCount ≤ pool'.methodIdCount

namespace Extends

variable {M : ModType → Prop}
variable {pool pool' pool'' : TypePool}

theorem refl (pool : TypePool) : pool.Extends M pool := by
  constructor
  · exact ⟨[], by simp⟩
  · exact ⟨[], by simp⟩
  · exact ⟨[], by simp⟩
  · exact Nat.le_refl _

theorem size_le (hExtends : pool.Extends M pool') :
    pool.size ≤ pool'.size := by
  rcases hExtends.types with ⟨types, hTypes, _⟩
  rw [size, size, hTypes, List.length_append]
  exact Nat.le_add_right _ _

theorem trans
    (hFirst : pool.Extends M pool')
    (hSecond : pool'.Extends M pool'') :
    pool.Extends M pool'' := by
  have hSize := hFirst.size_le
  rcases hFirst.types with ⟨types, hTypes, hMods⟩
  rcases hSecond.types with ⟨types', hTypes', hMods'⟩
  rcases hFirst.names with ⟨names, hNames, hNew⟩
  rcases hSecond.names with ⟨names', hNames', hNew'⟩
  rcases hFirst.methods with ⟨methods, hMethods, hFresh⟩
  rcases hSecond.methods with ⟨methods', hMethods', hFresh'⟩
  constructor
  · refine ⟨types ++ types', by simp [hTypes', hTypes], ?_⟩
    intro type hMem
    rcases List.mem_append.mp hMem with hOld | hLater
    · exact hMods type hOld
    · exact hMods' type hLater
  · refine ⟨names ++ names', by simp [hNames', hNames], ?_⟩
    intro entry hMem
    rcases List.mem_append.mp hMem with hOld | hLater
    · exact hNew entry hOld
    · exact Nat.le_trans hSize (hNew' entry hLater)
  · refine
      ⟨methods ++ methods', by simp [hMethods', hMethods], ?_⟩
    intro entry hMem
    rcases List.mem_append.mp hMem with hOld | hLater
    · exact hFresh entry hOld
    · exact Nat.le_trans hSize (hFresh' entry hLater)
  · exact Nat.le_trans hFirst.count_le hSecond.count_le

theorem predefined
    (hExtends : pool.Extends M pool')
    (hPredefined : pool.HasPredefined) :
    pool'.HasPredefined :=
  Nat.lt_of_lt_of_le hPredefined hExtends.size_le

theorem ids_lt
    (hExtends : pool.Extends M pool')
    {ids : List TypeId}
    (hIds : ∀ id ∈ ids, id < pool.size) :
    ∀ id ∈ ids, id < pool'.size :=
  fun id hMem =>
    Nat.lt_of_lt_of_le (hIds id hMem) hExtends.size_le

theorem method_eq
    (hExtends : pool.Extends M pool')
    {key : TypeId × String}
    {value : MethodValue}
    (hLookup : pool.methodMap.lookup key = some value) :
    pool'.methodMap.lookup key = some value := by
  rcases hExtends.methods with ⟨methods, hMethods, _⟩
  rw [hMethods, List.lookup_append, hLookup]
  rfl

end Extends

----
-- New Types
----

/- A pool after an operation, with ids that are in it. -/
structure GrowsTo
    (M : ModType → Prop)
    (pool pool' : TypePool)
    (ids : List TypeId) : Prop where
  extends_ : pool.Extends M pool'
  wellFormed : pool'.WellFormed
  ids_lt : ∀ id ∈ ids, id < pool'.size

namespace GrowsTo

variable {M : ModType → Prop}
variable {pool pool' pool'' : TypePool}
variable {ids ids' : List TypeId}

theorem refl
    (hPool : pool.WellFormed)
    (hIds : ∀ id ∈ ids, id < pool.size) :
    pool.GrowsTo M pool ids :=
  ⟨.refl pool, hPool, hIds⟩

theorem trans
    (hFirst : pool.GrowsTo M pool' ids)
    (hSecond : pool'.GrowsTo M pool'' ids') :
    pool.GrowsTo M pool'' (ids ++ ids') := by
  constructor
  · exact hFirst.extends_.trans hSecond.extends_
  · exact hSecond.wellFormed
  · intro id hMem
    rcases List.mem_append.mp hMem with hOld | hNew
    · exact
        Nat.lt_of_lt_of_le (hFirst.ids_lt id hOld)
          hSecond.extends_.size_le
    · exact hSecond.ids_lt id hNew

theorem weaken
    (hGrows : pool.GrowsTo M pool' ids)
    (hIds : ∀ id ∈ ids', id < pool'.size) :
    pool.GrowsTo M pool' ids' :=
  ⟨hGrows.extends_, hGrows.wellFormed, hIds⟩

end GrowsTo

variable {M : ModType → Prop}
variable {pool pool' : TypePool}
variable {table : NativeTable}

theorem addType_eq_ok
    {type : PoolType}
    {id : TypeId}
    (hAdd : pool.addType type = .ok (pool', id)) :
    id = pool.size ∧
      pool' =
        { pool with
          typeTable := pool.typeTable ++ [type]
          nameMap := pool.nameMap ++ [(type.name, pool.size)] } := by
  rw [addType] at hAdd
  split_ifs at hAdd
  cases hAdd
  exact ⟨rfl, rfl⟩

theorem addType_growsTo
    {type : PoolType}
    {id : TypeId}
    (hPool : pool.WellFormed)
    (hType : ∀ mentioned ∈ type.mentions, mentioned < pool.size)
    (hModule : ∀ module, type.shape = .module module → M module)
    (hAdd : pool.addType type = .ok (pool', id)) :
    pool.GrowsTo M pool' [id] := by
  rcases addType_eq_ok hAdd with ⟨hId, hPool'⟩
  subst hId hPool'
  have hSize :
      ({ pool with
          typeTable := pool.typeTable ++ [type]
          nameMap :=
            pool.nameMap ++ [(type.name, pool.size)] } :
        TypePool).size = pool.size + 1 := by
    simp [size]
  constructor
  · constructor
    · refine ⟨[type], rfl, ?_⟩
      intro found hMem
      rw [List.mem_singleton.mp hMem]
      exact hModule
    · refine ⟨[(type.name, pool.size)], rfl, ?_⟩
      intro entry hMem
      cases List.mem_singleton.mp hMem
      exact Nat.le_refl _
    · exact ⟨[], by simp⟩
    · exact Nat.le_refl _
  · constructor
    · intro id found hFound
      rcases Nat.lt_trichotomy id pool.size with
        hLt | hEq | hGt
      · rw [List.getElem?_append_left hLt] at hFound
        exact hPool.types_lt id found hFound
      · subst hEq
        have hNew : type = found := by
          simpa [size] using hFound
        subst hNew
        exact hType
      · rw [List.getElem?_eq_none] at hFound
        · cases hFound
        · simp only [size] at hGt
          simp only [List.length_append, List.length_singleton]
          exact hGt
    · intro entry hMem
      rw [hSize]
      rcases List.mem_append.mp hMem with hOld | hNew
      · exact Nat.lt_succ_of_lt (hPool.names_lt entry hOld)
      · cases List.mem_singleton.mp hNew
        exact Nat.lt_succ_self _
    · intro entry hMem
      rw [hSize]
      rcases hPool.methods_lt entry hMem with ⟨hLt, hKnown⟩
      exact
        ⟨Nat.lt_succ_of_lt hLt,
          MethodValue.Known.mono (Nat.le_succ _)
            (Nat.le_refl _) hKnown⟩
  · intro id hMem
    cases List.mem_singleton.mp hMem
    rw [hSize]
    exact Nat.lt_succ_self _

/- The methods of a type that was not there before. -/
theorem registerHandles_growsTo
    {recv : TypeId}
    {info : NativeTypeInfo}
    (hGrows : pool.GrowsTo M pool' [recv])
    (hNew : pool.size ≤ recv) :
    pool.GrowsTo M (pool'.registerHandles table recv info)
      [recv] := by
  have hFresh :
      ∀ entry ∈
          (List.range' info.offset info.methodSize).map
            (fun index =>
              (((recv, (table.funcInfo index).funcName),
                .index index) :
                (TypeId × String) × MethodValue)),
        entry.1.1 = recv ∧
          ∃ index, entry.2 = .index index := by
    intro entry hMem
    rcases List.mem_map.mp hMem with ⟨index, _, hEq⟩
    subst hEq
    exact ⟨rfl, index, rfl⟩
  rcases hGrows.extends_.methods with
    ⟨methods, hMethods, hAfter⟩
  constructor
  · constructor
    · exact hGrows.extends_.types
    · exact hGrows.extends_.names
    · refine
        ⟨methods ++ _, by
          rw [registerHandles, hMethods, List.append_assoc], ?_⟩
      intro entry hMem
      rcases List.mem_append.mp hMem with hOld | hLater
      · exact hAfter entry hOld
      · rw [(hFresh entry hLater).1]
        exact hNew
    · exact hGrows.extends_.count_le
  · constructor
    · exact hGrows.wellFormed.types_lt
    · exact hGrows.wellFormed.names_lt
    · intro entry hMem
      rcases List.mem_append.mp hMem with hOld | hLater
      · exact hGrows.wellFormed.methods_lt entry hOld
      · rcases hFresh entry hLater with ⟨hRecv, index, hValue⟩
        constructor
        · rw [hRecv]
          exact hGrows.ids_lt recv List.mem_cons_self
        · rw [hValue]
          trivial
  · exact hGrows.ids_lt

theorem findOrAdd_growsTo
    {type : PoolType}
    {info : NativeTypeInfo}
    {id : TypeId}
    (hPool : pool.WellFormed)
    (hType : ∀ mentioned ∈ type.mentions, mentioned < pool.size)
    (hModule : ∀ module, type.shape = .module module → M module)
    (hFind :
      pool.findOrAdd table type info = .ok (pool', id)) :
    pool.GrowsTo M pool' [id] := by
  rw [findOrAdd] at hFind
  cases hOld : pool.find type.name with
  | some old =>
      rw [hOld] at hFind
      cases hFind
      apply GrowsTo.refl hPool
      intro found hMem
      cases List.mem_singleton.mp hMem
      rcases List.lookup_eq_some_iff.mp hOld with
        ⟨before, after, hEq, _⟩
      apply hPool.names_lt (type.name, _)
      rw [hEq]
      simp
  | none =>
      rw [hOld] at hFind
      cases hAdd : pool.addType type with
      | error e =>
          rw [hAdd] at hFind
          cases hFind
      | ok added =>
          rcases added with ⟨pool'', id'⟩
          rw [hAdd] at hFind
          cases hFind
          apply registerHandles_growsTo
          · exact addType_growsTo hPool hType hModule hAdd
          · exact Nat.le_of_eq (addType_eq_ok hAdd).1.symm

theorem finish_growsTo
    {rest : List HandleInfo}
    {created : Except TypeLookupError (TypePool × TypeId)}
    {result : Option (TypeId × List HandleInfo)}
    (hPool : pool.WellFormed)
    (hCreated :
      ∀ pool' id,
        created = .ok (pool', id) → pool.GrowsTo M pool' [id])
    (hFinish : pool.finish rest created = (pool', result)) :
    pool.GrowsTo M pool' (result.toList.map Prod.fst) := by
  cases created with
  | error e =>
      cases hFinish
      exact
        .refl hPool
          (by
            rintro id ⟨⟩)
  | ok found =>
      cases hFinish
      exact hCreated found.1 found.2 rfl

----
-- Creation of Types
----

theorem HasPredefined.any_lt
    (hPredefined : pool.HasPredefined) :
    TYPE.Any < pool.size :=
  Nat.lt_trans (by decide) hPredefined

section

variable {id : TypeId}
variable (hPool : pool.WellFormed)
variable (hPredefined : pool.HasPredefined)

include hPool hPredefined

theorem createTupleType_growsTo
    {elementTypes : List TypeId}
    (hTypes : ∀ type ∈ elementTypes, type < pool.size)
    (hCreate :
      pool.createTupleType table elementTypes =
        .ok (pool', id)) :
    pool.GrowsTo M pool' [id] := by
  apply findOrAdd_growsTo hPool _ _ (afterCheck_eq_ok.mp hCreate).2
  · intro mentioned hMem
    rcases List.mem_append.mp hMem with hSuper | hElement
    · cases List.mem_singleton.mp hSuper
      exact hPredefined.any_lt
    · exact hTypes mentioned hElement
  · rintro module ⟨⟩

theorem createOptionReified_growsTo
    {elementTypes : List TypeId}
    (hTypes : ∀ type ∈ elementTypes, type < pool.size)
    (hCreate :
      pool.createOptionReified table elementTypes =
        .ok (pool', id)) :
    pool.GrowsTo M pool' [id] := by
  simp only [createOptionReified] at hCreate
  split_ifs at hCreate
  · cases hCreate
    apply GrowsTo.refl hPool
    intro found hMem
    rw [List.mem_singleton.mp hMem]
    cases elementTypes with
    | nil => exact Nat.lt_trans (by decide) hPredefined
    | cons element rest =>
        exact hTypes element List.mem_cons_self
  · apply findOrAdd_growsTo hPool _ _ hCreate
    · intro mentioned hMem
      exact hTypes mentioned hMem
    · rintro module ⟨⟩

theorem createReifiedType_growsTo
    {template : TypeTemplate}
    {elementTypes : List TypeId}
    (hTypes : ∀ type ∈ elementTypes, type < pool.size)
    (hCreate :
      pool.createReifiedType table template elementTypes =
        .ok (pool', id)) :
    pool.GrowsTo M pool' [id] := by
  have hMentions :
      ∀ name template',
        ∀ mentioned ∈
          (PoolType.mk name (some TYPE.Any)
            (.reified template' elementTypes)).mentions,
          mentioned < pool.size := by
    intro name template' mentioned hMem
    rcases List.mem_append.mp hMem with hSuper | hElement
    · cases List.mem_singleton.mp hSuper
      exact hPredefined.any_lt
    · exact hTypes mentioned hElement
  have hNoModule :
      ∀ name template' module,
        (PoolType.mk name (some TYPE.Any)
          (.reified template' elementTypes)).shape =
            .module module → M module := by
    rintro name template' module ⟨⟩
  cases template with
  | tuple =>
      exact
        createTupleType_growsTo hPool hPredefined hTypes hCreate
  | option =>
      exact
        createOptionReified_growsTo hPool hPredefined hTypes
          hCreate
  | array | map =>
      exact
        findOrAdd_growsTo hPool (hMentions _ _) (hNoModule _ _)
          (afterCheck_eq_ok.mp hCreate).2

theorem createFuncType_growsTo
    {returnType : TypeId}
    {paramTypes : List TypeId}
    (hReturn : returnType < pool.size)
    (hParams : ∀ type ∈ paramTypes, type < pool.size)
    (hCreate :
      pool.createFuncType table returnType paramTypes =
        .ok (pool', id)) :
    pool.GrowsTo M pool' [id] := by
  apply findOrAdd_growsTo hPool _ _ (afterCheck_eq_ok.mp hCreate).2
  · intro mentioned hMem
    rcases List.mem_append.mp hMem with hSuper | hRest
    · cases List.mem_singleton.mp hSuper
      exact Nat.lt_trans (by decide) hPredefined
    · rcases List.mem_cons.mp hRest with hEq | hParam
      · rw [hEq]
        exact hReturn
      · exact hParams mentioned hParam
  · rintro module ⟨⟩

theorem createModType_growsTo
    {type : ModType}
    (hChildren :
      ∀ child ∈ type.children, child.typeId < pool.size)
    (hHandles :
      ∀ entry ∈ type.handleMap, entry.2.typeId < pool.size)
    (hModule : M { type with typeId := pool.size })
    (hCreate :
      pool.createModType table type = .ok (pool', id)) :
    pool.GrowsTo M pool' [id] := by
  apply findOrAdd_growsTo hPool _ _ hCreate
  · intro mentioned hMem
    rcases List.mem_append.mp hMem with hSuper | hRest
    · cases List.mem_singleton.mp hSuper
      exact hPredefined.any_lt
    · rcases List.mem_append.mp hRest with hChild | hHandle
      · rcases List.mem_map.mp hChild with ⟨child, hIn, hEq⟩
        rw [← hEq]
        exact hChildren child hIn
      · rcases List.mem_map.mp hHandle with ⟨entry, hIn, hEq⟩
        rw [← hEq]
        exact hHandles entry hIn
  · rintro module ⟨⟩
    exact hModule

end

----
-- Decoding Signatures
----

/- What decoding may do to a pool. -/
def DecodesWell
    (M : ModType → Prop)
    (typeParams : List TypeId)
    (many : DecodeMany) : Prop :=
  ∀ pool pool' count infos result,
    pool.WellFormed →
    pool.HasPredefined →
    (∀ type ∈ typeParams, type < pool.size) →
    many pool count infos = (pool', result) →
    pool.GrowsTo M pool'
      ((result.toList.map Prod.fst).flatten)

section

variable {typeParams : List TypeId}
variable {many : DecodeMany}
variable {infos : List HandleInfo}
variable {result : Option (TypeId × List HandleInfo)}
variable (hMany : DecodesWell M typeParams many)
variable (hPool : pool.WellFormed)
variable (hPredefined : pool.HasPredefined)
variable (hParams : ∀ type ∈ typeParams, type < pool.size)

include hMany hPool hPredefined hParams

theorem decodeReified_growsTo
    {template : TypeTemplate}
    (hDecode :
      decodeReified table many pool template infos =
        (pool', result)) :
    pool.GrowsTo M pool' (result.toList.map Prod.fst) := by
  rw [decodeReified] at hDecode
  cases hNum : decodeNum infos with
  | none =>
      rw [hNum] at hDecode
      cases hDecode
      exact .refl hPool (by rintro id ⟨⟩)
  | some counted =>
      rcases counted with ⟨count, rest⟩
      rw [hNum] at hDecode
      simp only at hDecode
      cases hElements : many pool count rest with
      | mk pool'' elements =>
          have hGrows :=
            hMany pool pool'' count rest elements hPool
              hPredefined hParams hElements
          rw [hElements] at hDecode
          cases elements with
          | none =>
              cases hDecode
              exact hGrows
          | some found =>
              rcases found with ⟨elementTypes, rest'⟩
              have hTypes :
                  ∀ type ∈ elementTypes, type < pool''.size := by
                simpa using hGrows.ids_lt
              have hFinish :
                  pool''.GrowsTo M pool'
                    (result.toList.map Prod.fst) :=
                finish_growsTo hGrows.wellFormed
                  (fun _ _ hCreate =>
                    createReifiedType_growsTo hGrows.wellFormed
                      (hGrows.extends_.predefined hPredefined)
                      hTypes hCreate)
                  hDecode
              exact
                (hGrows.trans hFinish).weaken hFinish.ids_lt

theorem decodeFunc_growsTo
    (hDecode :
      decodeFunc table many pool infos = (pool', result)) :
    pool.GrowsTo M pool' (result.toList.map Prod.fst) := by
  rw [decodeFunc] at hDecode
  cases hReturn : many pool 1 infos with
  | mk first returns =>
      have hFirst :=
        hMany pool first 1 infos returns hPool hPredefined
          hParams hReturn
      have hKept := hFirst.extends_.predefined hPredefined
      rw [hReturn] at hDecode
      cases returns with
      | none =>
          cases hDecode
          exact hFirst
      | some found =>
          rcases found with ⟨returnTypes, rest⟩
          simp only at hDecode
          have hReturns :
              ∀ type ∈ returnTypes, type < first.size := by
            simpa using hFirst.ids_lt
          have hHead : returnTypes.headD 0 < first.size := by
            cases returnTypes with
            | nil => exact Nat.lt_trans (by decide) hKept
            | cons type rest =>
                exact hReturns type List.mem_cons_self
          cases hNum : decodeNum rest with
          | none =>
              rw [hNum] at hDecode
              cases hDecode
              exact hFirst.weaken (by rintro id ⟨⟩)
          | some counted =>
              rcases counted with ⟨count, rest'⟩
              rw [hNum] at hDecode
              simp only at hDecode
              cases hRest : many first count rest' with
              | mk second params =>
                  have hSecond :=
                    hMany first second count rest' params
                      hFirst.wellFormed hKept
                      (hFirst.extends_.ids_lt hParams) hRest
                  rw [hRest] at hDecode
                  cases params with
                  | none =>
                      cases hDecode
                      exact
                        (hFirst.trans hSecond).weaken
                          (by rintro id ⟨⟩)
                  | some found =>
                      rcases found with ⟨paramTypes, rest''⟩
                      have hTypes :
                          ∀ type ∈ paramTypes,
                            type < second.size := by
                        simpa using hSecond.ids_lt
                      have hFinish :
                          second.GrowsTo M pool'
                            (result.toList.map Prod.fst) :=
                        finish_growsTo hSecond.wellFormed
                          (fun _ _ hCreate =>
                            createFuncType_growsTo
                              hSecond.wellFormed
                              (hSecond.extends_.predefined hKept)
                              (Nat.lt_of_lt_of_le hHead
                                hSecond.extends_.size_le)
                              hTypes hCreate)
                          hDecode
                      exact
                        ((hFirst.trans hSecond).trans
                          hFinish).weaken hFinish.ids_lt

theorem decodeType_growsTo
    (hDecode :
      decodeType table typeParams many pool infos =
        (pool', result)) :
    pool.GrowsTo M pool' (result.toList.map Prod.fst) := by
  fun_cases decodeType table typeParams many pool infos
  all_goals simp only [decodeType] at hDecode
  case case1 =>
    cases hDecode
    exact .refl hPool (by rintro id ⟨⟩)
  case case2 type rest =>
    cases hDecode
    apply GrowsTo.refl hPool
    intro id hMem
    cases List.mem_singleton.mp hMem
    exact Nat.lt_of_le_of_lt type.typeId_le hPredefined
  case case3 index rest =>
    cases hDecode
    apply GrowsTo.refl hPool
    intro id hMem
    cases hParam : typeParams[index]? with
    | none =>
        rw [hParam] at hMem
        cases hMem
    | some type =>
        rw [hParam] at hMem
        cases List.mem_singleton.mp hMem
        exact hParams type (List.mem_of_getElem? hParam)
  case case4 =>
    cases hDecode
    exact .refl hPool (by rintro id ⟨⟩)
  case case5 | case6 | case7 | case9 =>
    exact
      decodeReified_growsTo hMany hPool hPredefined hParams
        hDecode
  case case8 =>
    exact
      finish_growsTo hPool
        (fun _ _ hCreate =>
          createTupleType_growsTo hPool hPredefined hParams
            hCreate)
        hDecode
  case case10 =>
    exact
      decodeFunc_growsTo hMany hPool hPredefined hParams hDecode

end

theorem decodesWell_decodeMany
    (typeParams : List TypeId)
    (limit : Nat) :
    DecodesWell M typeParams
      (decodeMany table typeParams limit) := by
  induction limit with
  | zero =>
      intro pool pool' count infos result hPool _ _ hDecode
      cases hDecode
      exact .refl hPool (by rintro id ⟨⟩)
  | succ limit ih =>
      intro pool pool' count infos result hPool hPredefined
        hParams hDecode
      cases count with
      | zero =>
          cases hDecode
          exact .refl hPool (by rintro id ⟨⟩)
      | succ count =>
          simp only [decodeMany] at hDecode
          cases hType :
              decodeType table typeParams
                (decodeMany table typeParams limit) pool
                infos with
          | mk first found =>
              have hFirst :=
                decodeType_growsTo ih hPool hPredefined hParams
                  hType
              rw [hType] at hDecode
              cases found with
              | none =>
                  cases hDecode
                  exact hFirst
              | some found =>
                  rcases found with ⟨type, rest⟩
                  simp only at hDecode
                  cases hMany :
                      decodeMany table typeParams limit first
                        count rest with
                  | mk second types =>
                      have hSecond :=
                        ih first second count rest types
                          hFirst.wellFormed
                          (hFirst.extends_.predefined hPredefined)
                          (hFirst.extends_.ids_lt hParams) hMany
                      rw [hMany] at hDecode
                      cases types with
                      | none =>
                          cases hDecode
                          exact
                            (hFirst.trans hSecond).weaken
                              (by rintro id ⟨⟩)
                      | some types =>
                          cases hDecode
                          apply (hFirst.trans hSecond).weaken
                          intro id hMem
                          apply (hFirst.trans hSecond).ids_lt
                          simpa using hMem

theorem decode_growsTo
    {typeParams : List TypeId}
    {count : Nat}
    {infos : List HandleInfo}
    {result : Option (List TypeId × List HandleInfo)}
    (hPool : pool.WellFormed)
    (hPredefined : pool.HasPredefined)
    (hParams : ∀ type ∈ typeParams, type < pool.size)
    (hDecode :
      decode table typeParams pool count infos =
        (pool', result)) :
    pool.GrowsTo M pool'
      ((result.toList.map Prod.fst).flatten) :=
  decodesWell_decodeMany typeParams _ pool pool' count infos
    result hPool hPredefined hParams hDecode

theorem checkConstraints_growsTo
    {typeParams : List TypeId}
    {count : Nat}
    {infos : List HandleInfo}
    {result : Option (List HandleInfo)}
    (hPool : pool.WellFormed)
    (hPredefined : pool.HasPredefined)
    (hParams : ∀ type ∈ typeParams, type < pool.size)
    (hCheck :
      checkConstraints table typeParams count pool infos =
        (pool', result)) :
    pool.GrowsTo M pool' [] := by
  induction count generalizing pool infos with
  | zero =>
      cases hCheck
      exact .refl hPool (by rintro id ⟨⟩)
  | succ count ih =>
      simp only [checkConstraints] at hCheck
      cases hDecode : decode table typeParams pool 2 infos with
      | mk first found =>
          have hFirst : pool.GrowsTo M first [] :=
            (decode_growsTo hPool hPredefined hParams
              hDecode).weaken
              (by
                intro id hMem
                exact absurd hMem List.not_mem_nil)
          rw [hDecode] at hCheck
          split at hCheck
          · rename_i heq
            cases heq
            split_ifs at hCheck
            · have hRest :=
                ih hFirst.wellFormed
                  (hFirst.extends_.predefined hPredefined)
                  (hFirst.extends_.ids_lt hParams) hCheck
              exact hFirst.trans hRest
            · cases hCheck
              exact hFirst
          · rename_i heq
            cases heq
            cases hCheck
            exact hFirst

----
-- Growth since a Discard Point
----

/- Discarding takes the pool back to `base`. -/
structure Since (base pool : TypePool) : Prop where
  size_le : base.size ≤ pool.size
  count_le : base.methodIdCount ≤ pool.methodIdCount
  discard_eq : pool.discard base.getDiscardPoint = base

theorem MethodValue.discard_of_known
    {size count : Nat}
    {value : MethodValue}
    (hKnown : value.Known size count) :
    value.discard count = value := by
  cases value with
  | index _ => rfl
  | handle method =>
      exact if_neg (Nat.not_le.mpr hKnown.1)

namespace Since

variable {base : TypePool}

theorem refl (hPool : pool.WellFormed) :
    Since pool pool := by
  have hTypes : pool.typeTable.take pool.size = pool.typeTable :=
    List.take_length
  have hNames :
      pool.nameMap.filter (fun entry => entry.2 < pool.size) =
        pool.nameMap := by
    apply List.filter_eq_self.mpr
    intro entry hMem
    exact decide_eq_true (hPool.names_lt entry hMem)
  have hKeys :
      pool.methodMap.filter
          (fun entry => entry.1.1 < pool.size) =
        pool.methodMap := by
    apply List.filter_eq_self.mpr
    intro entry hMem
    exact decide_eq_true (hPool.methods_lt entry hMem).1
  have hMethods :
      pool.methodMap.map
          (fun entry =>
            (entry.1, entry.2.discard pool.methodIdCount)) =
        pool.methodMap := by
    rw [List.map_congr_left, List.map_id]
    intro entry hMem
    rw [MethodValue.discard_of_known
      (hPool.methods_lt entry hMem).2]
    rfl
  constructor
  · exact Nat.le_refl _
  · exact Nat.le_refl _
  · rw [discard, getDiscardPoint, ← size, hTypes, hNames, hKeys,
      hMethods]

/- What is added belongs to ids that are discarded. -/
theorem extends_
    (hSince : Since base pool)
    (hExtends : pool.Extends M pool') :
    Since base pool' := by
  rcases hExtends.types with ⟨types, hTypes, _⟩
  rcases hExtends.names with ⟨names, hNames, hNew⟩
  rcases hExtends.methods with ⟨methods, hMethods, hFresh⟩
  have hTake :
      pool'.typeTable.take base.size =
        pool.typeTable.take base.size := by
    rw [hTypes, List.take_append_of_le_length hSince.size_le]
  have hNoName :
      names.filter (fun entry => entry.2 < base.size) = [] := by
    apply List.filter_eq_nil_iff.mpr
    intro entry hMem hLt
    exact
      absurd (of_decide_eq_true hLt)
        (Nat.not_lt.mpr
          (Nat.le_trans hSince.size_le (hNew entry hMem)))
  have hNoMethod :
      methods.filter (fun entry => entry.1.1 < base.size) =
        [] := by
    apply List.filter_eq_nil_iff.mpr
    intro entry hMem hLt
    exact
      absurd (of_decide_eq_true hLt)
        (Nat.not_lt.mpr
          (Nat.le_trans hSince.size_le (hFresh entry hMem)))
  constructor
  · exact Nat.le_trans hSince.size_le hExtends.size_le
  · exact Nat.le_trans hSince.count_le hExtends.count_le
  · have hDiscard :
        pool'.discard base.getDiscardPoint =
          pool.discard base.getDiscardPoint := by
      rw [discard, discard, getDiscardPoint, ← size]
      simp only [hTake, hNames, hMethods, List.filter_append,
        hNoName, hNoMethod, List.append_nil]
    rw [hDiscard]
    exact hSince.discard_eq

end Since

/- A method that becomes an index again is as it was. -/
theorem discard_replaceMethod
    {key : TypeId × String}
    {handle : MethodHandle}
    {methods : MethodMap}
    (sizeOffset countOffset : Nat)
    (hLookup :
      methods.lookup key = some (.index handle.methodIndex))
    (hNew : countOffset ≤ handle.methodId) :
    ((replaceMethod key (.handle handle) methods).filter
        (fun entry => entry.1.1 < sizeOffset)).map
        (fun entry =>
          (entry.1, entry.2.discard countOffset)) =
      (methods.filter
        (fun entry => entry.1.1 < sizeOffset)).map
        (fun entry =>
          (entry.1, entry.2.discard countOffset)) := by
  induction methods with
  | nil => rfl
  | cons entry rest ih =>
      rcases entry with ⟨found, value⟩
      rw [replaceMethod]
      by_cases hKey : found = key
      · subst hKey
        rw [List.lookup_cons_self] at hLookup
        cases hLookup
        have hSame :
            (MethodValue.handle handle).discard countOffset =
              (MethodValue.index handle.methodIndex).discard
                countOffset :=
          if_pos hNew
        rw [if_pos rfl, List.filter_cons, List.filter_cons]
        split_ifs
        · rw [List.map_cons, List.map_cons, hSame]
        · rfl
      · have hNe : (key == found) = false := by
          simpa using Ne.symm hKey
        rw [List.lookup_cons, hNe] at hLookup
        rw [if_neg hKey, List.filter_cons, List.filter_cons]
        split_ifs
        · rw [List.map_cons, List.map_cons, ih hLookup]
        · exact ih hLookup

theorem mem_replaceMethod
    {key : TypeId × String}
    {value : MethodValue}
    {methods : MethodMap}
    {entry : (TypeId × String) × MethodValue}
    (hMem : entry ∈ replaceMethod key value methods) :
    entry ∈ methods ∨
      entry = (key, value) ∧ ∃ old, (key, old) ∈ methods := by
  induction methods with
  | nil => cases hMem
  | cons found rest ih =>
      rw [replaceMethod] at hMem
      split_ifs at hMem with hKey
      · rcases List.mem_cons.mp hMem with hEq | hRest
        · apply Or.inr
          refine ⟨hEq, found.2, ?_⟩
          rw [← hKey]
          exact List.mem_cons_self
        · exact .inl (List.mem_cons_of_mem _ hRest)
      · rcases List.mem_cons.mp hMem with hEq | hRest
        · rw [hEq]
          exact .inl List.mem_cons_self
        · rcases ih hRest with hOld | ⟨hEq, old, hIn⟩
          · exact .inl (List.mem_cons_of_mem _ hOld)
          · exact .inr ⟨hEq, old, List.mem_cons_of_mem _ hIn⟩

----
-- Allocation of Methods
----

/- A pool after an operation that may allocate a method. -/
structure Keeps (pool pool' : TypePool) : Prop where
  wellFormed : pool'.WellFormed
  types :
    ∃ types,
      pool'.typeTable = pool.typeTable ++ types ∧
        ∀ type ∈ types, ∀ module, type.shape ≠ .module module
  since : ∀ base, Since base pool → Since base pool'

namespace Keeps

theorem of_extends
    (hExtends : pool.Extends (fun _ => False) pool')
    (hPool : pool'.WellFormed) :
    pool.Keeps pool' :=
  ⟨hPool, hExtends.types,
    fun _ hSince => hSince.extends_ hExtends⟩

theorem size_le (hKeeps : pool.Keeps pool') :
    pool.size ≤ pool'.size := by
  rcases hKeeps.types with ⟨types, hTypes, _⟩
  rw [size, size, hTypes, List.length_append]
  exact Nat.le_add_right _ _

end Keeps

/- The method takes the place of its index. -/
theorem replaceMethod_keeps
    {key : TypeId × String}
    {handle : MethodHandle}
    (hExtends : pool.Extends (fun _ => False) pool')
    (hPool : pool'.WellFormed)
    (hLookup :
      pool.methodMap.lookup key =
        some (.index handle.methodIndex))
    (hNew : pool.methodIdCount ≤ handle.methodId)
    (hNumber : handle.methodId < pool'.methodIdCount)
    (hMentions : ∀ type ∈ handle.mentions, type < pool'.size) :
    pool.Keeps
      { pool' with
        methodMap :=
          replaceMethod key (.handle handle)
            pool'.methodMap } := by
  have hLookup' := hExtends.method_eq hLookup
  constructor
  · constructor
    · exact hPool.types_lt
    · exact hPool.names_lt
    · intro entry hMem
      rcases mem_replaceMethod hMem with
        hOld | ⟨hEq, old, hIn⟩
      · exact hPool.methods_lt entry hOld
      · rw [hEq]
        exact
          ⟨(hPool.methods_lt _ hIn).1, hNumber, hMentions⟩
  · exact hExtends.types
  · intro base hSince
    have hAfter := hSince.extends_ hExtends
    constructor
    · exact hAfter.size_le
    · exact hAfter.count_le
    · have hDiscard := hAfter.discard_eq
      have hMethods :=
        discard_replaceMethod
          base.getDiscardPoint.typeIdOffset
          base.getDiscardPoint.methodIdOffset hLookup'
          (Nat.le_trans hSince.count_le hNew)
      rw [discard] at hDiscard ⊢
      simp only [hMethods]
      exact hDiscard

theorem headD_lt
    {ids : List TypeId}
    (hPredefined : pool.HasPredefined)
    (hIds : ∀ id ∈ ids, id < pool.size) :
    ids.headD 0 < pool.size := by
  cases ids with
  | nil => exact Nat.lt_trans (by decide) hPredefined
  | cons id rest => exact hIds id List.mem_cons_self

/- Counting a method changes nothing that is discarded. -/
theorem count_growsTo
    {ids : List TypeId}
    (hGrows : pool.GrowsTo M pool' ids) :
    pool.GrowsTo M
      { pool' with methodIdCount := pool'.methodIdCount + 1 }
      ids := by
  constructor
  · exact
      ⟨hGrows.extends_.types, hGrows.extends_.names,
        hGrows.extends_.methods,
        Nat.le_succ_of_le hGrows.extends_.count_le⟩
  · constructor
    · exact hGrows.wellFormed.types_lt
    · exact hGrows.wellFormed.names_lt
    · intro entry hMem
      rcases hGrows.wellFormed.methods_lt entry hMem with
        ⟨hLt, hKnown⟩
      exact
        ⟨hLt,
          hKnown.mono (Nat.le_refl _) (Nat.le_succ _)⟩
  · exact hGrows.ids_lt

theorem allocChecked_keeps
    {recv : TypeId}
    {methodName : String}
    {methodIndex : Nat}
    {typeParams : List TypeId}
    {infos : List HandleInfo}
    {result : Option MethodHandle}
    {base : TypePool}
    (hGrows : base.GrowsTo (fun _ => False) pool [])
    (hPredefined : base.HasPredefined)
    (hParams : ∀ type ∈ typeParams, type < base.size)
    (hLookup :
      base.methodMap.lookup (recv, methodName) =
        some (.index methodIndex))
    (hAlloc :
      pool.allocChecked table recv methodName methodIndex
        typeParams infos = (pool', result)) :
    base.Keeps pool' := by
  have hStop :
      ∀ {pool : TypePool} {ids : List TypeId},
        base.GrowsTo (fun _ => False) pool ids →
          base.Keeps pool :=
    fun hGrows => .of_extends hGrows.extends_ hGrows.wellFormed
  have hDecode :
      ∀ {pool pool' : TypePool} {ids : List TypeId}
        {count : Nat} {infos : List HandleInfo}
        {result : Option (List TypeId × List HandleInfo)},
        base.GrowsTo (fun _ => False) pool ids →
        decode table typeParams pool count infos =
          (pool', result) →
        base.GrowsTo (fun _ => False) pool'
          (ids ++ (result.toList.map Prod.fst).flatten) :=
    fun hGrows hEq =>
      hGrows.trans
        (decode_growsTo hGrows.wellFormed
          (hGrows.extends_.predefined hPredefined)
          (hGrows.extends_.ids_lt hParams) hEq)
  rw [allocChecked] at hAlloc
  cases hReturn : decode table typeParams pool 1 infos with
  | mk first returns =>
      have hFirst := hDecode hGrows hReturn
      rw [hReturn] at hAlloc
      cases returns with
      | none =>
          cases hAlloc
          exact hStop hFirst
      | some found =>
          rcases found with ⟨returnTypes, rest⟩
          simp only at hAlloc
          cases hNum : decodeNum rest with
          | none =>
              rw [hNum] at hAlloc
              cases hAlloc
              exact hStop hFirst
          | some counted =>
              rcases counted with ⟨paramSize, rest'⟩
              rw [hNum] at hAlloc
              simp only at hAlloc
              cases hRecv :
                  decode table typeParams first 1 rest' with
              | mk second recvs =>
                  have hSecond := hDecode hFirst hRecv
                  rw [hRecv] at hAlloc
                  cases recvs with
                  | none =>
                      cases hAlloc
                      exact hStop hSecond
                  | some found =>
                      rcases found with ⟨recvTypes, rest''⟩
                      simp only at hAlloc
                      have hThird := count_growsTo hSecond
                      cases hRest :
                          decode table typeParams
                            { second with
                              methodIdCount :=
                                second.methodIdCount + 1 }
                            (paramSize - 1) rest'' with
                      | mk last params =>
                          have hLast := hDecode hThird hRest
                          have hCount :
                              second.methodIdCount <
                                last.methodIdCount :=
                            (decode_growsTo
                              (M := fun _ => False)
                              hThird.wellFormed
                              (hThird.extends_.predefined
                                hPredefined)
                              (hThird.extends_.ids_lt hParams)
                              hRest).extends_.count_le
                          rw [hRest] at hAlloc
                          cases params with
                          | none =>
                              cases hAlloc
                              exact hStop hLast
                          | some found =>
                              rcases found with ⟨paramTypes, _⟩
                              cases hAlloc
                              have hKept :=
                                hLast.extends_.predefined
                                  hPredefined
                              have hIds :
                                  ∀ id,
                                    id ∈ returnTypes ∨
                                      id ∈ recvTypes ∨
                                      id ∈ paramTypes →
                                    id < last.size := by
                                intro id hMem
                                apply hLast.ids_lt
                                simpa [or_assoc] using hMem
                              apply replaceMethod_keeps
                                hLast.extends_ hLast.wellFormed
                                hLookup
                              · exact hSecond.extends_.count_le
                              · exact hCount
                              · intro type hMem
                                rcases List.mem_cons.mp hMem with
                                  hEq | hMem
                                · rw [hEq]
                                  exact
                                    headD_lt hKept
                                      (fun id hIn =>
                                        hIds id (.inr (.inl hIn)))
                                · rcases List.mem_cons.mp hMem
                                    with hEq | hMem
                                  · rw [hEq]
                                    exact
                                      headD_lt hKept
                                        (fun id hIn =>
                                          hIds id (.inl hIn))
                                  · exact
                                      hIds type
                                        (.inr (.inr hMem))

/- A type is made of types that were there before it. -/
theorem WellFormed.elementTypes_lt
    (hPool : pool.WellFormed)
    (id : TypeId) :
    ∀ type ∈ (pool.get id).elementTypes, type < pool.size := by
  intro type hMem
  rw [get, List.getD_eq_getElem?_getD] at hMem
  cases hType : pool.typeTable[id]? with
  | none =>
      rw [hType] at hMem
      cases hMem
  | some found =>
      rw [hType] at hMem
      have hLt : id < pool.size := by
        rcases List.getElem?_eq_some_iff.mp hType with ⟨h, _⟩
        exact h
      apply Nat.lt_trans _ hLt
      apply hPool.types_lt id found hType
      apply List.mem_append_right
      simp only [Option.getD_some, PoolType.elementTypes] at hMem
      cases hShape : found.shape with
      | reified template elementTypes =>
          rw [hShape] at hMem
          exact hMem
      | builtin | function returnType paramTypes | module type =>
          rw [hShape] at hMem
          cases hMem

theorem allocMethodHandle_keeps
    {recv : TypeId}
    {methodName : String}
    {methodIndex : Nat}
    {result : Option MethodHandle}
    (hPool : pool.WellFormed)
    (hPredefined : pool.HasPredefined)
    (hLookup :
      pool.methodMap.lookup (recv, methodName) =
        some (.index methodIndex))
    (hAlloc :
      pool.allocMethodHandle table recv methodName methodIndex =
        (pool', result)) :
    pool.Keeps pool' := by
  have hParams := hPool.elementTypes_lt recv
  have hRefl : pool.GrowsTo (fun _ => False) pool [] :=
    .refl hPool (by rintro id ⟨⟩)
  simp only [allocMethodHandle] at hAlloc
  cases hNum :
      decodeNum (table.funcInfo methodIndex).handleInfo with
  | none =>
      rw [hNum] at hAlloc
      cases hAlloc
      exact .of_extends hRefl.extends_ hPool
  | some counted =>
      rcases counted with ⟨constraintSize, infos⟩
      rw [hNum] at hAlloc
      simp only at hAlloc
      cases hCheck :
          checkConstraints table (pool.get recv).elementTypes
            constraintSize pool infos with
      | mk checked found =>
          have hGrows :
              pool.GrowsTo (fun _ => False) checked [] :=
            checkConstraints_growsTo hPool hPredefined hParams
              hCheck
          rw [hCheck] at hAlloc
          cases found with
          | none =>
              cases hAlloc
              exact
                .of_extends hGrows.extends_ hGrows.wellFormed
          | some infos =>
              exact
                allocChecked_keeps hGrows hPredefined hParams
                  hLookup hAlloc

/- Looking up a method keeps all that was there before. -/
theorem lookupMethod_keeps
    {recvType : TypeId}
    {methodName : String}
    {result : Option MethodHandle}
    (hPool : pool.WellFormed)
    (hPredefined : pool.HasPredefined)
    (hLookup :
      pool.lookupMethod table recvType methodName =
        (pool', result)) :
    pool.Keeps pool' := by
  have hRefl : pool.Keeps pool := .of_extends (.refl pool) hPool
  rw [lookupMethod] at hLookup
  generalize recvType + 1 = limit at hLookup
  induction limit generalizing recvType with
  | zero =>
      cases hLookup
      exact hRefl
  | succ limit ih =>
      rw [lookupMethodWithin] at hLookup
      cases hEntry :
          pool.methodMap.lookup (recvType, methodName) with
      | some value =>
          rw [hEntry] at hLookup
          cases value with
          | handle method =>
              cases hLookup
              exact hRefl
          | index methodIndex =>
              exact
                allocMethodHandle_keeps hPool hPredefined
                  hEntry hLookup
      | none =>
          rw [hEntry] at hLookup
          cases hSuper : (pool.get recvType).superType with
          | none =>
              simp only [hSuper] at hLookup
              cases hLookup
              exact hRefl
          | some super =>
              simp only [hSuper] at hLookup
              exact ih hLookup

end TypePool

end Pool

end Ydsh
