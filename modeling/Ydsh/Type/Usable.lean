import Ydsh.Type.Interning

/-
  Pools whose types can be made again.

  The elements of each type of the pool pass the check of its
  constructor, so asking for the type once more gives the type
  itself.

  Main declarations:
    * `TypePool.Usable`
    * `TypeCall.run_usable`
    * `Usable.createReifiedType_self`
-/

----
-- Checks of Elements
----

namespace Ydsh

namespace Pool

open Library

namespace TypePool

variable {pool pool' : TypePool}
variable {table : NativeTable}

theorem checkElements_eq_ok
    {limit : Nat}
    {elementTypes : List TypeId} :
    pool.checkElements limit elementTypes = .ok () ↔
      elementTypes.length ≤ limit ∧
        ∀ type ∈ elementTypes,
          type ≠ TYPE.Void ∧ type ≠ TYPE.Nothing := by
  rw [checkElements]
  by_cases hLimit : limit < elementTypes.length
  · rw [if_pos hLimit]
    constructor
    · rintro ⟨⟩
    · rintro ⟨hLe, _⟩
      omega
  · rw [if_neg hLimit]
    cases hFind :
        elementTypes.find?
          (fun type => type == TYPE.Void || type == TYPE.Nothing)
      with
    | none =>
        simp only [true_iff]
        refine ⟨Nat.not_lt.mp hLimit, ?_⟩
        intro type hMem
        have hNot := List.find?_eq_none.mp hFind type hMem
        simpa using hNot
    | some type =>
        constructor
        · rintro ⟨⟩
        · rintro ⟨_, hAll⟩
          have hMem := List.mem_of_find?_eq_some hFind
          have hIs := List.find?_some hFind
          have hNot := hAll type hMem
          simp [hNot.1, hNot.2] at hIs

theorem checkTemplateElements_eq_ok
    {template : TypeTemplate}
    {elementTypes : List TypeId} :
    pool.checkTemplateElements template elementTypes =
        .ok () ↔
      template.getAcceptableTypes.length =
          elementTypes.length ∧
        ∀ types ∈ template.getAcceptableTypes.zip elementTypes,
          pool.isAcceptable types.1 types.2 = true := by
  rw [checkTemplateElements]
  by_cases hLength :
      template.getAcceptableTypes.length = elementTypes.length
  · rw [if_neg (fun hNe => hNe hLength)]
    cases hFind :
        (template.getAcceptableTypes.zip elementTypes).find?
          (fun types => !pool.isAcceptable types.1 types.2) with
    | none =>
        simp only [true_iff]
        refine ⟨hLength, ?_⟩
        intro types hMem
        have hNot := List.find?_eq_none.mp hFind types hMem
        simpa using hNot
    | some types =>
        constructor
        · rintro ⟨⟩
        · rintro ⟨_, hAll⟩
          have hMem := List.mem_of_find?_eq_some hFind
          have hIs := List.find?_some hFind
          simp [hAll types hMem] at hIs
  · rw [if_pos hLength]
    constructor
    · rintro ⟨⟩
    · rintro ⟨hEq, _⟩
      exact absurd hEq hLength

/- A type is tried against the super type of another one. -/
def isSameOrBaseSuper
    (pool : TypePool)
    (limit : Nat)
    (type : TypeId) : Option TypeId → Bool
  | some super => pool.isSameOrBaseWithin limit type super
  | none => false

/- Relations between old types stay as they are. -/
theorem isSameOrBaseWithin_kept
    {type target : TypeId}
    (limit : Nat)
    (hPool : pool.WellFormed)
    (hKept : pool.KeptIn pool')
    (hType : type < pool.size)
    (hTarget : target < pool.size) :
    pool'.isSameOrBaseWithin limit type target =
      pool.isSameOrBaseWithin limit type target := by
  have hBelow :
      ∀ id < pool.size, ∀ mentioned ∈ (pool.get id).mentions,
        mentioned < pool.size := by
    intro id hLt mentioned hMem
    have hLess :=
      hPool.types_lt id _ (getElem?_of_lt hLt) mentioned hMem
    exact Nat.lt_trans hLess hLt
  induction limit generalizing type target with
  | zero => rfl
  | succ limit ih =>
      rw [isSameOrBaseWithin, isSameOrBaseWithin]
      rw [hKept type hType, hKept target hTarget]
      have hSuper :
          ∀ super, (pool.get target).superType = some super →
            pool'.isSameOrBaseWithin limit type super =
              pool.isSameOrBaseWithin limit type super := by
        intro super hSome
        apply ih hType
        apply hBelow target hTarget
        rw [PoolType.mentions, hSome]
        exact List.mem_cons_self
      have hElement :
          ∀ element rest,
            (pool.get type).shape =
                .reified .option (element :: rest) →
              pool'.isSameOrBaseWithin limit element target =
                pool.isSameOrBaseWithin limit element target := by
        intro element rest hShape
        apply ih _ hTarget
        apply hBelow type hType
        rw [PoolType.mentions, hShape]
        apply List.mem_append_right
        exact List.mem_cons_self
      have hStep :
          isSameOrBaseSuper pool' limit type
              (pool.get target).superType =
            isSameOrBaseSuper pool limit type
              (pool.get target).superType := by
        cases hSome : (pool.get target).superType with
        | none => rfl
        | some super => exact hSuper super hSome
      split_ifs
      · rfl
      · rfl
      · cases hShape : (pool.get type).shape with
        | builtin => exact hStep
        | module _ => exact hStep
        | function _ _ => exact hStep
        | reified template elementTypes =>
            cases template with
            | array => exact hStep
            | map => exact hStep
            | tuple => exact hStep
            | option =>
                cases elementTypes with
                | nil => exact hStep
                | cons element rest =>
                    exact hElement element rest hShape

theorem isAcceptable_kept
    {acceptType elementType : TypeId}
    (hPool : pool.WellFormed)
    (hKept : pool.KeptIn pool')
    (hAccept : acceptType < pool.size)
    (hElement : elementType < pool.size) :
    pool'.isAcceptable acceptType elementType =
      pool.isAcceptable acceptType elementType := by
  rw [isAcceptable, isAcceptable, isSameOrBaseTypeOf,
    isSameOrBaseTypeOf,
    isSameOrBaseWithin_kept _ hPool hKept hAccept hElement,
    hKept elementType hElement]

theorem acceptable_lt
    {template : TypeTemplate}
    {type : TypeId}
    (hPredefined : pool.HasPredefined)
    (hMem : type ∈ template.getAcceptableTypes) :
    type < pool.size := by
  have hLe : type ≤ TYPE.UnixFD := by
    revert type
    cases template <;> decide
  exact Nat.lt_of_le_of_lt hLe hPredefined

theorem checkTemplateElements_kept
    {template : TypeTemplate}
    {elementTypes : List TypeId}
    (hPool : pool.WellFormed)
    (hPredefined : pool.HasPredefined)
    (hKept : pool.KeptIn pool')
    (hTypes : ∀ type ∈ elementTypes, type < pool.size)
    (hCheck :
      pool.checkTemplateElements template elementTypes =
        .ok ()) :
    pool'.checkTemplateElements template elementTypes =
      .ok () := by
  rcases checkTemplateElements_eq_ok.mp hCheck with
    ⟨hLength, hAll⟩
  apply checkTemplateElements_eq_ok.mpr
  refine ⟨hLength, ?_⟩
  rintro ⟨acceptType, elementType⟩ hMem
  rcases List.of_mem_zip hMem with ⟨hAccept, hElement⟩
  rw [isAcceptable_kept hPool hKept
    (acceptable_lt hPredefined hAccept)
    (hTypes elementType hElement)]
  exact hAll _ hMem

----
-- Pools That Are Used
----

structure Usable (pool : TypePool) : Prop where
  interned : pool.Interned
  wellFormed : pool.WellFormed
  predefined : pool.HasPredefined
  checked : ∀ id < pool.size, pool.Checked (pool.get id).shape

theorem Checked.kept
    {shape : TypeShape}
    (hPool : pool.WellFormed)
    (hPredefined : pool.HasPredefined)
    (hKept : pool.KeptIn pool')
    (hLt :
      ∀ mentioned ∈ shape.mentions, mentioned < pool.size)
    (hChecked : pool.Checked shape) :
    pool'.Checked shape := by
  cases shape with
  | builtin => trivial
  | module type => trivial
  | function returnType paramTypes =>
      apply checkElements_eq_ok.mpr
      exact checkElements_eq_ok.mp hChecked
  | reified template elementTypes =>
      cases template with
      | tuple =>
          apply checkElements_eq_ok.mpr
          exact checkElements_eq_ok.mp hChecked
      | option => exact hChecked
      | array | map =>
          exact
            checkTemplateElements_kept hPool hPredefined hKept hLt
              hChecked

/- Only a type of the shape that is asked for is added. -/
theorem findOrAdd_new
    {type : PoolType}
    {info : NativeTypeInfo}
    {id found : TypeId}
    (hFind : pool.findOrAdd table type info = .ok (pool', id))
    (hOld : ¬found < pool.size)
    (hFound : found < pool'.size) :
    found = id := by
  rw [findOrAdd] at hFind
  cases hOldName : pool.find type.name with
  | some old =>
      simp only [hOldName] at hFind
      cases hFind
      exact absurd hFound hOld
  | none =>
      simp only [hOldName] at hFind
      cases hAdd : pool.addType type with
      | error e =>
          rw [hAdd] at hFind
          cases hFind
      | ok added =>
          rcases added with ⟨made, newId⟩
          rw [hAdd] at hFind
          cases hFind
          rcases addType_eq_ok hAdd with ⟨hId, hMadeEq⟩
          subst hId hMadeEq
          simp only [size, registerHandles, List.length_append,
            List.length_singleton] at hFound hOld ⊢
          exact
            Nat.le_antisymm (Nat.le_of_lt_succ hFound)
              (Nat.not_lt.mp hOld)

theorem Makes.usable
    {shape : TypeShape}
    {id : TypeId}
    (hMakes : pool.Makes table pool' id shape)
    (hPool : pool.Usable) :
    pool'.Usable := by
  have hYields := hMakes.yields hPool.interned
  cases hMakes with
  | option _ => exact hPool
  | findOrAdd hMade hProper hMentions hSuper hChecked hFind =>
      have hGrows : pool.GrowsTo (fun _ => True) pool' [id] := by
        apply
          findOrAdd_growsTo hPool.wellFormed _
            (fun _ _ => trivial) hFind
        intro mentioned hMem
        rcases List.mem_append.mp hMem with hIn | hIn
        · exact
            Nat.lt_of_le_of_lt (hSuper mentioned hIn)
              hPool.predefined
        · exact hMentions mentioned hIn
      have hKept := hYields.keptIn
      constructor
      · exact hYields.interned
      · exact hGrows.wellFormed
      · exact hGrows.extends_.predefined hPool.predefined
      · intro found hFound
        by_cases hOld : found < pool.size
        · rw [hKept found hOld]
          apply
            (hPool.checked found hOld).kept hPool.wellFormed
              hPool.predefined hKept
          exact hPool.interned.mentions_lt hOld
        · rw [findOrAdd_new hFind hOld hFound, hYields.shape_eq]
          exact
            hChecked.kept hPool.wellFormed hPool.predefined hKept
              hMentions

/- The array of strings is made with a type that fits. -/
theorem stringArray_checked
    (hTable : pool.typeTable = predefinedTypes) :
    pool.Checked stringArrayEntry.shape := by
  rcases pool with ⟨typeTable, nameMap, methodMap, count⟩
  simp only at hTable
  subst hTable
  rfl

theorem init_usable (table : NativeTable) :
    (init table).Usable := by
  have hTable := init_typeTable table
  have hInterned := init_interned table
  have hWellFormed := init_wellFormed table
  have hPredefined := init_hasPredefined table
  generalize init table = pool at *
  constructor
  · exact hInterned
  · exact hWellFormed
  · exact hPredefined
  · intro id hLt
    have hMem :=
      List.mem_of_getElem? (getElem?_of_lt hLt)
    rw [hTable] at hMem
    rcases mem_predefinedTypes hMem with ⟨hShape, _⟩ | hEq
    · rw [hShape]
      trivial
    · rw [hEq]
      exact stringArray_checked hTable

end TypePool

namespace TypeCall

variable {pool pool' : TypePool}
variable {table : NativeTable}
variable {call : TypeCall}

theorem run_usable
    {id : TypeId}
    (hPool : pool.Usable)
    (hValid : call.IsValid pool)
    (hElements : call.HasElements)
    (hRun : call.run table pool = .ok (pool', id)) :
    pool'.Usable :=
  (run_makes hValid hElements hRun).usable hPool

theorem step_usable
    (hPool : pool.Usable)
    (hElements : call.HasElements)
    (hStep : call.step table pool = some pool') :
    pool'.Usable := by
  rw [step] at hStep
  split_ifs at hStep with hValid
  cases hRun : call.run table pool with
  | ok result =>
      rcases result with ⟨made, id⟩
      rw [hRun] at hStep
      cases hStep
      exact run_usable hPool hValid hElements hRun
  | error e =>
      rw [hRun] at hStep
      cases e <;> cases hStep <;> exact hPool

theorem run_all_usable
    {calls : List TypeCall}
    (hPool : pool.Usable)
    (hRun :
      GuardedRun (fun pool call => call.step table pool)
        (fun _ call => call.HasElements) pool calls pool') :
    pool'.Usable := by
  induction hRun with
  | nil => exact hPool
  | cons hElements hStep _ ih =>
      exact ih (step_usable hPool hElements hStep)

end TypeCall

----
-- Making a Type Again
----

namespace TypePool

namespace Usable

variable {pool : TypePool}
variable {table : NativeTable}
variable {id : TypeId}

theorem lt_of_shape
    (hShape : (pool.get id).shape ≠ .builtin) :
    id < pool.size := by
  by_contra hNot
  apply hShape
  rw [get, List.getD_eq_getElem?_getD,
    List.getElem?_eq_none (Nat.not_lt.mp hNot)]
  rfl

/- What is known of a type that was made. -/
theorem of_shape
    {shape : TypeShape}
    (hPool : pool.Usable)
    (hShape : (pool.get id).shape = shape)
    (hMade : IsMade shape) :
    id < pool.size ∧ pool.Proper shape ∧
      pool.Checked shape := by
  have hLt : id < pool.size := by
    apply lt_of_shape
    rw [hShape]
    rintro rfl
    exact hMade
  have hProper :=
    hPool.interned.proper id _ (getElem?_of_lt hLt)
  have hChecked := hPool.checked id hLt
  rw [hShape] at hProper hChecked
  exact ⟨hLt, hProper, hChecked⟩

theorem findOrAdd_self
    {shape : TypeShape}
    {superType : Option TypeId}
    {info : NativeTypeInfo}
    (hPool : pool.Usable)
    (hMade : IsMade shape)
    (hShape : (pool.get id).shape = shape) :
    pool.findOrAdd table
        ⟨pool.shapeName shape, superType, shape⟩ info =
      .ok (pool, id) := by
  have hLt := (hPool.of_shape hShape hMade).1
  have hName :=
    hPool.interned.named id _ (getElem?_of_lt hLt)
      (by rw [hShape]; exact hMade)
  rw [hShape] at hName
  have hFind := hPool.interned.find_getName hLt
  rw [getName, hName] at hFind
  rw [findOrAdd, hFind]

/- A reified type is found with its constructor. -/
theorem createReifiedType_self
    {template : TypeTemplate}
    {elementTypes : List TypeId}
    (hPool : pool.Usable)
    (hShape :
      (pool.get id).shape = .reified template elementTypes) :
    pool.createReifiedType table template elementTypes =
      .ok (pool, id) := by
  have hMade : IsMade (.reified template elementTypes) := trivial
  rcases hPool.of_shape hShape hMade with ⟨_, hProper, hChecked⟩
  cases template with
  | tuple | array | map =>
      apply afterCheck_eq_ok.mpr
      exact ⟨hChecked, hPool.findOrAdd_self hMade hShape⟩
  | option =>
      rcases hProper with ⟨element, hEq, hNot⟩
      subst hEq
      have hSome :
          ¬(element = TYPE.Void ∨ element = TYPE.Nothing) :=
        not_or.mpr hChecked
      change createOptionReified pool table [element] = _
      rw [createOptionReified_singleton, if_neg hSome,
        if_neg (by simp [hNot])]
      exact hPool.findOrAdd_self hMade hShape

theorem createFuncType_self
    {returnType : TypeId}
    {paramTypes : List TypeId}
    (hPool : pool.Usable)
    (hShape :
      (pool.get id).shape = .function returnType paramTypes) :
    pool.createFuncType table returnType paramTypes =
      .ok (pool, id) := by
  have hMade : IsMade (.function returnType paramTypes) :=
    trivial
  have hChecked := (hPool.of_shape hShape hMade).2.2
  apply afterCheck_eq_ok.mpr
  exact ⟨hChecked, hPool.findOrAdd_self hMade hShape⟩

end Usable

end TypePool

end Pool

end Ydsh
