import Mathlib.Data.List.Basic
import Ydsh.Library.Run
import Ydsh.Type.NameForm
import Ydsh.Type.Predefined

/-
  Types are made once.

  A type is looked up by its name before it is made.  The name
  has one reading, so the type that is found is the type that
  is asked for.

  Main declarations:
    * `TypePool.Interned`
    * `TypePool.formOf`
    * `TypeCall`
    * `TypeCall.run_interned`
-/

----
-- Forms of Types
----

namespace Ydsh

namespace Pool

open Library

namespace TypePool

def word (pool : TypePool) (id : TypeId) : List Char :=
  (pool.getName id).toList

def formOf (pool : TypePool) (type : PoolType) : NameForm :=
  match type.shape with
  | .builtin => .atom type.name.toList
  | .module _ => .atom type.name.toList
  | .reified .array elementTypes =>
      .array (pool.word (elementTypes.headD 0))
  | .reified .map elementTypes =>
      .map (pool.word (elementTypes.headD 0))
        (pool.word (elementTypes.getD 1 0))
  | .reified .tuple elementTypes =>
      .tuple (elementTypes.map pool.word)
  | .reified .option elementTypes =>
      .option (pool.word (elementTypes.headD 0))
  | .function returnType paramTypes =>
      .function (pool.word returnType)
        (paramTypes.map pool.word)

/- What a constructor of types is applied to. -/
def Proper (pool : TypePool) : TypeShape → Prop
  | .builtin => True
  | .module _ => True
  | .reified .array elementTypes =>
      ∃ element, elementTypes = [element]
  | .reified .map elementTypes =>
      ∃ key value, elementTypes = [key, value]
  | .reified .tuple elementTypes => elementTypes ≠ []
  | .reified .option elementTypes =>
      ∃ element,
        elementTypes = [element] ∧
          (pool.get element).isOptionType = false
  | .function _ _ => True

/- A shape that names are put together for. -/
def IsMade : TypeShape → Prop
  | .builtin => False
  | .module _ => False
  | .reified _ _ => True
  | .function _ _ => True

/- The name of a type that is made. -/
def shapeName (pool : TypePool) : TypeShape → String
  | .reified .tuple elementTypes =>
      pool.toTupleTypeName elementTypes
  | .reified template elementTypes =>
      pool.toReifiedTypeName template elementTypes
  | .function returnType paramTypes =>
      pool.toFunctionTypeName returnType paramTypes
  | .builtin => ""
  | .module _ => ""

structure Interned (pool : TypePool) : Prop where
  nameMap :
    pool.nameMap =
      pool.typeTable.zipIdx.map
        (fun entry => (entry.1.name, entry.2))
  distinct : (pool.typeTable.map PoolType.name).Nodup
  mentions :
    ∀ (id : TypeId) (type : PoolType),
      pool.typeTable[id]? = some type →
      ∀ mentioned ∈ type.shape.mentions, mentioned < id
  proper :
    ∀ (id : TypeId) (type : PoolType),
      pool.typeTable[id]? = some type →
      pool.Proper type.shape
  named :
    ∀ (id : TypeId) (type : PoolType),
      pool.typeTable[id]? = some type →
      IsMade type.shape →
      type.name = pool.shapeName type.shape
  spells :
    ∀ (id : TypeId) (type : PoolType),
      pool.typeTable[id]? = some type →
      Spells (pool.formOf type) type.name.toList

variable {pool pool' : TypePool}
variable {table : NativeTable}

----
-- Names in the Pool
----

theorem getElem?_of_lt
    {id : TypeId}
    (hLt : id < pool.size) :
    pool.typeTable[id]? = some (pool.get id) := by
  rw [get, List.getD_eq_getElem?_getD,
    List.getElem?_eq_getElem hLt]
  rfl

theorem lt_of_getElem?
    {id : TypeId}
    {type : PoolType}
    (hType : pool.typeTable[id]? = some type) :
    id < pool.size ∧ pool.get id = type := by
  rcases List.getElem?_eq_some_iff.mp hType with ⟨hLt, _⟩
  have hGet := getElem?_of_lt hLt
  rw [hType] at hGet
  exact ⟨hLt, (Option.some.inj hGet).symm⟩

namespace Interned

variable (hPool : pool.Interned)

include hPool

/- Types are known by their names. -/
theorem getName_inj
    {id id' : TypeId}
    (hLt : id < pool.size)
    (hLt' : id' < pool.size)
    (hName : pool.getName id = pool.getName id') :
    id = id' := by
  have hLength : (pool.typeTable.map PoolType.name).length =
      pool.size := by
    rw [List.length_map, size]
  have hGet :
      ∀ id, id < pool.size →
        (pool.typeTable.map PoolType.name)[id]? =
          some (pool.getName id) := by
    intro id hLt
    rw [List.getElem?_map, getElem?_of_lt hLt]
    rfl
  apply (List.getElem?_inj _ hPool.distinct).mp
  · rw [hGet id hLt, hGet id' hLt', hName]
  · rw [hLength]
    exact hLt

theorem find_eq_some
    {name : String}
    {id : TypeId}
    (hFind : pool.find name = some id) :
    id < pool.size ∧ pool.getName id = name := by
  rcases List.lookup_eq_some_iff.mp hFind with
    ⟨before, after, hEq, _⟩
  have hMem : (name, id) ∈ pool.nameMap := by
    rw [hEq]
    simp
  rw [hPool.nameMap] at hMem
  rcases List.mem_map.mp hMem with ⟨entry, hIn, hEntry⟩
  cases hEntry
  have hType := List.mem_zipIdx_iff_getElem?.mp hIn
  rcases lt_of_getElem? hType with ⟨hLt, hGet⟩
  refine ⟨hLt, ?_⟩
  rw [getName, hGet]

theorem find_getName
    {id : TypeId}
    (hLt : id < pool.size) :
    pool.find (pool.getName id) = some id := by
  cases hFind : pool.find (pool.getName id) with
  | none =>
      have hMem : (pool.getName id, id) ∈ pool.nameMap := by
        rw [hPool.nameMap]
        apply List.mem_map.mpr
        refine ⟨(pool.get id, id), ?_, rfl⟩
        apply List.mem_zipIdx_iff_getElem?.mpr
        exact getElem?_of_lt hLt
      have hNone := List.lookup_eq_none_iff.mp hFind _ hMem
      simp at hNone
  | some found =>
      rcases hPool.find_eq_some hFind with ⟨hLt', hName⟩
      rw [hPool.getName_inj hLt' hLt hName]

theorem isName
    {id : TypeId}
    (hLt : id < pool.size) :
    IsName (pool.word id) :=
  (hPool.spells id _ (getElem?_of_lt hLt)).isName

theorem word_inj
    {id id' : TypeId}
    (hLt : id < pool.size)
    (hLt' : id' < pool.size)
    (hWord : pool.word id = pool.word id') :
    id = id' :=
  hPool.getName_inj hLt hLt' (String.toList_inj.mp hWord)

end Interned

----
-- Names That Are Put Together
----

theorem joinNames_toList (names : List String) :
    (joinNames names).toList =
      COMMA.intercalate (names.map String.toList) := by
  induction names with
  | nil => rfl
  | cons name names ih =>
      cases names with
      | nil =>
          rw [joinNames, List.map_singleton,
            List.intercalate_singleton]
      | cons next names =>
          rw [joinNames, String.toList_append,
            String.toList_append, ih]
          · simp [List.intercalate_cons_cons]
          · rintro ⟨⟩

theorem map_getName_toList
    (pool : TypePool)
    (ids : List TypeId) :
    (ids.map pool.getName).map String.toList =
      ids.map pool.word := by
  rw [List.map_map]
  rfl

namespace Interned

variable (hPool : pool.Interned)

include hPool

theorem isName_map
    {ids : List TypeId}
    (hIds : ∀ id ∈ ids, id < pool.size) :
    ∀ name ∈ ids.map pool.word, IsName name := by
  intro name hMem
  rcases List.mem_map.mp hMem with ⟨id, hIn, hEq⟩
  rw [← hEq]
  exact hPool.isName (hIds id hIn)

theorem spells_array
    {element : TypeId}
    (hLt : element < pool.size) :
    Spells (.array (pool.word element))
      (pool.toReifiedTypeName .array [element]).toList := by
  have hName :
      (pool.toReifiedTypeName .array [element]).toList =
        '[' :: (pool.word element ++ [']']) := by
    simp [toReifiedTypeName, word]
  rw [hName]
  exact .array (hPool.isName hLt)

theorem spells_map
    {key value : TypeId}
    (hLt : key < pool.size)
    (hLt' : value < pool.size) :
    Spells (.map (pool.word key) (pool.word value))
      (pool.toReifiedTypeName .map [key, value]).toList := by
  have hName :
      (pool.toReifiedTypeName .map [key, value]).toList =
        '[' :: (pool.word key ++
          ' ' :: ':' :: ' ' :: (pool.word value ++ [']'])) := by
    simp [toReifiedTypeName, word]
  rw [hName]
  exact .map (hPool.isName hLt) (hPool.isName hLt')

theorem spells_tuple
    {elementTypes : List TypeId}
    (hNe : elementTypes ≠ [])
    (hLt : ∀ type ∈ elementTypes, type < pool.size) :
    Spells (.tuple (elementTypes.map pool.word))
      (pool.toTupleTypeName elementTypes).toList := by
  have hNames := hPool.isName_map hLt
  cases elementTypes with
  | nil => exact absurd rfl hNe
  | cons first rest =>
      cases rest with
      | nil =>
          have hName :
              (pool.toTupleTypeName [first]).toList =
                '(' :: (pool.word first ++ [',', ')']) := by
            simp [toTupleTypeName, joinNames, word]
          rw [hName]
          exact .single (hNames _ List.mem_cons_self)
      | cons second rest =>
          have hName :
              (pool.toTupleTypeName
                  (first :: second :: rest)).toList =
                '(' :: (COMMA.intercalate
                  ((first :: second :: rest).map pool.word) ++
                  [')']) := by
            rw [toTupleTypeName, String.toList_append,
              String.toList_append, String.toList_append,
              joinNames_toList, map_getName_toList, if_neg]
            · simp
            · simp
          rw [hName]
          exact .tuple (by simp) hNames

theorem spells_function
    {returnType : TypeId}
    {paramTypes : List TypeId}
    (hReturn : returnType < pool.size)
    (hLt : ∀ type ∈ paramTypes, type < pool.size) :
    Spells
      (.function (pool.word returnType)
        (paramTypes.map pool.word))
      (pool.toFunctionTypeName returnType paramTypes).toList := by
  have hName :
      (pool.toFunctionTypeName returnType paramTypes).toList =
        '(' :: (COMMA.intercalate (paramTypes.map pool.word) ++
          ')' :: (ARROW ++ pool.word returnType)) := by
    rw [toFunctionTypeName, String.toList_append,
      String.toList_append, String.toList_append,
      joinNames_toList, map_getName_toList]
    simp [word]
  rw [hName]
  exact .function (hPool.isName hReturn) (hPool.isName_map hLt)

omit hPool in
theorem formOf_ne_option
    {type : PoolType}
    (hOption : type.isOptionType = false)
    (inner : List Char) :
    pool.formOf type ≠ .option inner := by
  rw [formOf]
  rw [PoolType.isOptionType] at hOption
  split <;> rintro ⟨⟩
  rename_i hShape
  rw [hShape] at hOption
  cases hOption

theorem spells_option
    {element : TypeId}
    (hLt : element < pool.size)
    (hOption : (pool.get element).isOptionType = false) :
    Spells (.option (pool.word element))
      (pool.toReifiedTypeName .option [element]).toList := by
  have hSpells := hPool.spells element _ (getElem?_of_lt hLt)
  have hWord :
      (pool.get element).name.toList = pool.word element := rfl
  rw [hWord] at hSpells
  cases hFunc : (pool.get element).isFuncType with
  | true =>
      have hName :
          (pool.toReifiedTypeName .option [element]).toList =
            '(' :: (pool.word element ++ [')', '!']) := by
        simp [toReifiedTypeName, word, hFunc]
      rw [hName]
      cases hShape : (pool.get element).shape with
      | function returnType paramTypes =>
          rw [formOf, hShape] at hSpells
          exact .optionFunc hSpells
      | builtin | reified template elementTypes | module type =>
          rw [PoolType.isFuncType, hShape] at hFunc
          cases hFunc
  | false =>
      have hName :
          (pool.toReifiedTypeName .option [element]).toList =
            pool.word element ++ ['!'] := by
        simp [toReifiedTypeName, word, hFunc]
      rw [hName]
      apply Spells.option hSpells
      · exact formOf_ne_option hOption
      · intro ret params
        rw [formOf]
        rw [PoolType.isFuncType] at hFunc
        split <;> rintro ⟨⟩
        rename_i hShape
        rw [hShape] at hFunc
        cases hFunc

/- The name of a made type has the form of the type. -/
theorem spells_made
    {shape : TypeShape}
    (hMade : IsMade shape)
    (hProper : pool.Proper shape)
    (hLt : ∀ mentioned ∈ shape.mentions, mentioned < pool.size)
    (superType : Option TypeId) :
    Spells (pool.formOf ⟨pool.shapeName shape, superType, shape⟩)
      (pool.shapeName shape).toList := by
  cases shape with
  | builtin => cases hMade
  | module type => cases hMade
  | function returnType paramTypes =>
      apply hPool.spells_function
      · exact hLt returnType List.mem_cons_self
      · intro type hMem
        exact hLt type (List.mem_cons_of_mem _ hMem)
  | reified template elementTypes =>
      cases template with
      | array =>
          rcases hProper with ⟨element, hEq⟩
          subst hEq
          exact
            hPool.spells_array (hLt element List.mem_cons_self)
      | map =>
          rcases hProper with ⟨key, value, hEq⟩
          subst hEq
          apply hPool.spells_map
          · exact hLt key List.mem_cons_self
          · apply hLt value
            exact List.mem_cons_of_mem _ List.mem_cons_self
      | tuple => exact hPool.spells_tuple hProper hLt
      | option =>
          rcases hProper with ⟨element, hEq, hOption⟩
          subst hEq
          exact
            hPool.spells_option (hLt element List.mem_cons_self)
              hOption

theorem map_word_inj
    {ids ids' : List TypeId}
    (hLt : ∀ id ∈ ids, id < pool.size)
    (hLt' : ∀ id ∈ ids', id < pool.size)
    (hWords : ids.map pool.word = ids'.map pool.word) :
    ids = ids' := by
  induction ids generalizing ids' with
  | nil =>
      cases ids' with
      | nil => rfl
      | cons id' ids' => cases hWords
  | cons id ids ih =>
      cases ids' with
      | nil => cases hWords
      | cons id' ids' =>
          rw [List.map_cons, List.map_cons] at hWords
          rcases List.cons_eq_cons.mp hWords with
            ⟨hHead, hTail⟩
          have hId :=
            hPool.word_inj (hLt id List.mem_cons_self)
              (hLt' id' List.mem_cons_self) hHead
          have hIds :=
            ih
              (fun id hMem => hLt id (List.mem_cons_of_mem _ hMem))
              (fun id hMem =>
                hLt' id (List.mem_cons_of_mem _ hMem))
              hTail
          rw [hId, hIds]

/- Types of one form are made in the same way. -/
theorem shape_inj
    {type type' : PoolType}
    (hMade : IsMade type.shape)
    (hProper : pool.Proper type.shape)
    (hProper' : pool.Proper type'.shape)
    (hLt :
      ∀ mentioned ∈ type.shape.mentions, mentioned < pool.size)
    (hLt' :
      ∀ mentioned ∈ type'.shape.mentions, mentioned < pool.size)
    (hForm : pool.formOf type = pool.formOf type') :
    type.shape = type'.shape := by
  rcases type with ⟨name, superType, shape⟩
  rcases type' with ⟨name', superType', shape'⟩
  simp only at hMade hProper hProper' hLt hLt' ⊢
  rw [formOf, formOf] at hForm
  simp only at hForm
  cases shape with
  | builtin => cases hMade
  | module type => cases hMade
  | function returnType paramTypes =>
      cases shape' with
      | function returnType' paramTypes' =>
          rcases NameForm.function.inj hForm with ⟨hRet, hParams⟩
          have hReturn :=
            hPool.word_inj (hLt _ List.mem_cons_self)
              (hLt' _ List.mem_cons_self) hRet
          have hTypes :=
            hPool.map_word_inj
              (fun id hMem => hLt id (List.mem_cons_of_mem _ hMem))
              (fun id hMem =>
                hLt' id (List.mem_cons_of_mem _ hMem))
              hParams
          rw [hReturn, hTypes]
      | builtin => cases hForm
      | module type => cases hForm
      | reified template' elementTypes' =>
          cases template' <;> cases hForm
  | reified template elementTypes =>
      cases shape' with
      | function returnType' paramTypes' =>
          cases template <;> cases hForm
      | builtin => cases template <;> cases hForm
      | module type => cases template <;> cases hForm
      | reified template' elementTypes' =>
          cases template with
          | array =>
              cases template' with
              | array =>
                  rcases hProper with ⟨element, hEq⟩
                  rcases hProper' with ⟨element', hEq'⟩
                  subst hEq hEq'
                  have hElement :=
                    hPool.word_inj (hLt _ List.mem_cons_self)
                      (hLt' _ List.mem_cons_self)
                      (NameForm.array.inj hForm)
                  rw [hElement]
              | map => cases hForm
              | tuple => cases hForm
              | option => cases hForm
          | map =>
              cases template' with
              | map =>
                  rcases hProper with ⟨key, value, hEq⟩
                  rcases hProper' with ⟨key', value', hEq'⟩
                  subst hEq hEq'
                  rcases NameForm.map.inj hForm with
                    ⟨hKey, hValue⟩
                  have hKeys :=
                    hPool.word_inj (hLt _ List.mem_cons_self)
                      (hLt' _ List.mem_cons_self) hKey
                  have hValues :=
                    hPool.word_inj
                      (hLt value
                        (List.mem_cons_of_mem _
                          List.mem_cons_self))
                      (hLt' value'
                        (List.mem_cons_of_mem _
                          List.mem_cons_self))
                      hValue
                  rw [hKeys, hValues]
              | array => cases hForm
              | tuple => cases hForm
              | option => cases hForm
          | tuple =>
              cases template' with
              | tuple =>
                  have hTypes : elementTypes = elementTypes' :=
                    hPool.map_word_inj hLt hLt'
                      (NameForm.tuple.inj hForm)
                  rw [hTypes]
              | array => cases hForm
              | map => cases hForm
              | option => cases hForm
          | option =>
              cases template' with
              | option =>
                  rcases hProper with ⟨element, hEq, _⟩
                  rcases hProper' with ⟨element', hEq', _⟩
                  subst hEq hEq'
                  have hElement :=
                    hPool.word_inj (hLt _ List.mem_cons_self)
                      (hLt' _ List.mem_cons_self)
                      (NameForm.option.inj hForm)
                  rw [hElement]
              | array => cases hForm
              | map => cases hForm
              | tuple => cases hForm

theorem mentions_lt
    {id : TypeId}
    (hLt : id < pool.size) :
    ∀ mentioned ∈ (pool.get id).shape.mentions,
      mentioned < pool.size := by
  intro mentioned hMem
  have hLess :=
    hPool.mentions id _ (getElem?_of_lt hLt) mentioned hMem
  exact Nat.lt_trans hLess hLt

/- A type that has the name of a shape is of that shape. -/
theorem shape_of_getName
    {id : TypeId}
    {shape : TypeShape}
    (hLt : id < pool.size)
    (hMade : IsMade shape)
    (hProper : pool.Proper shape)
    (hMentions :
      ∀ mentioned ∈ shape.mentions, mentioned < pool.size)
    (hName : pool.getName id = pool.shapeName shape) :
    (pool.get id).shape = shape := by
  have hType := getElem?_of_lt hLt
  have hSpells := hPool.spells id _ hType
  have hSpells' :=
    hPool.spells_made hMade hProper hMentions none
  have hText :
      (pool.get id).name.toList =
        (pool.shapeName shape).toList :=
    congrArg String.toList hName
  rw [hText] at hSpells
  have hForm := hSpells'.form_unique hSpells
  have hShape :=
    hPool.shape_inj hMade hProper (hPool.proper id _ hType)
      hMentions (hPool.mentions_lt hLt) hForm
  exact hShape.symm

end Interned

----
-- New Types
----

/- The types of `pool` are where they were in `pool'`. -/
def KeptIn (pool pool' : TypePool) : Prop :=
  ∀ id < pool.size, pool'.get id = pool.get id

namespace KeptIn

theorem word_eq
    {id : TypeId}
    (hKept : pool.KeptIn pool')
    (hLt : id < pool.size) :
    pool'.word id = pool.word id := by
  rw [word, word, getName, getName, hKept id hLt]

theorem map_word_eq
    {ids : List TypeId}
    (hKept : pool.KeptIn pool')
    (hLt : ∀ id ∈ ids, id < pool.size) :
    ids.map pool'.word = ids.map pool.word := by
  apply List.map_congr_left
  intro id hMem
  exact hKept.word_eq (hLt id hMem)

theorem map_getName_eq
    {ids : List TypeId}
    (hKept : pool.KeptIn pool')
    (hLt : ∀ id ∈ ids, id < pool.size) :
    ids.map pool'.getName = ids.map pool.getName := by
  apply List.map_congr_left
  intro id hMem
  rw [getName, getName, hKept id (hLt id hMem)]

theorem proper_iff
    {shape : TypeShape}
    (hKept : pool.KeptIn pool')
    (hLt :
      ∀ mentioned ∈ shape.mentions, mentioned < pool.size) :
    pool'.Proper shape ↔ pool.Proper shape := by
  cases shape with
  | builtin => exact Iff.rfl
  | module type => exact Iff.rfl
  | function returnType paramTypes => exact Iff.rfl
  | reified template elementTypes =>
      cases template with
      | array => exact Iff.rfl
      | map => exact Iff.rfl
      | tuple => exact Iff.rfl
      | option =>
          constructor
          · rintro ⟨element, hEq, hOption⟩
            subst hEq
            have hGet := hKept element (hLt _ List.mem_cons_self)
            rw [hGet] at hOption
            exact ⟨element, rfl, hOption⟩
          · rintro ⟨element, hEq, hOption⟩
            subst hEq
            have hGet := hKept element (hLt _ List.mem_cons_self)
            rw [← hGet] at hOption
            exact ⟨element, rfl, hOption⟩

theorem shapeName_eq
    {shape : TypeShape}
    (hKept : pool.KeptIn pool')
    (hProper : pool.Proper shape)
    (hLt :
      ∀ mentioned ∈ shape.mentions, mentioned < pool.size) :
    pool'.shapeName shape = pool.shapeName shape := by
  have hName :
      ∀ id ∈ shape.mentions, pool'.getName id = pool.getName id := by
    intro id hMem
    rw [getName, getName, hKept id (hLt id hMem)]
  cases shape with
  | builtin => rfl
  | module type => rfl
  | function returnType paramTypes =>
      have hParams : paramTypes.map pool'.getName =
          paramTypes.map pool.getName :=
        hKept.map_getName_eq
          (fun id hMem => hLt id (List.mem_cons_of_mem _ hMem))
      rw [shapeName, shapeName, toFunctionTypeName,
        toFunctionTypeName, hParams,
        hName returnType List.mem_cons_self]
  | reified template elementTypes =>
      cases template with
      | array =>
          rcases hProper with ⟨element, hEq⟩
          subst hEq
          simp only [shapeName, toReifiedTypeName,
            hName element List.mem_cons_self]
      | map =>
          rcases hProper with ⟨key, value, hEq⟩
          subst hEq
          simp only [shapeName, toReifiedTypeName,
            hName key List.mem_cons_self,
            hName value
              (List.mem_cons_of_mem _ List.mem_cons_self)]
      | tuple =>
          have hElements : elementTypes.map pool'.getName =
              elementTypes.map pool.getName :=
            hKept.map_getName_eq hLt
          rw [shapeName, shapeName, toTupleTypeName,
            toTupleTypeName, hElements]
      | option =>
          rcases hProper with ⟨element, hEq, _⟩
          subst hEq
          have hGet := hKept element (hLt _ List.mem_cons_self)
          simp only [shapeName, toReifiedTypeName, hGet,
            hName element List.mem_cons_self]

theorem formOf_eq
    {type : PoolType}
    (hKept : pool.KeptIn pool')
    (hProper : pool.Proper type.shape)
    (hLt :
      ∀ mentioned ∈ type.shape.mentions,
        mentioned < pool.size) :
    pool'.formOf type = pool.formOf type := by
  rcases type with ⟨name, superType, shape⟩
  simp only at hProper hLt
  simp only [formOf]
  cases shape with
  | builtin => rfl
  | module type => rfl
  | function returnType paramTypes =>
      have hReturn :=
        hKept.word_eq (hLt _ List.mem_cons_self)
      have hParams :=
        hKept.map_word_eq
          (fun id hMem => hLt id (List.mem_cons_of_mem _ hMem))
      simp only [hReturn, hParams]
  | reified template elementTypes =>
      cases template with
      | array =>
          rcases hProper with ⟨element, hEq⟩
          subst hEq
          simp only [List.headD_cons,
            hKept.word_eq (hLt _ List.mem_cons_self)]
      | map =>
          rcases hProper with ⟨key, value, hEq⟩
          subst hEq
          have hKey := hKept.word_eq (hLt _ List.mem_cons_self)
          have hValue :=
            hKept.word_eq
              (hLt value
                (List.mem_cons_of_mem _ List.mem_cons_self))
          simp only [List.headD_cons, List.getD_cons_succ,
            List.getD_cons_zero, hKey, hValue]
      | tuple =>
          have hWords :
              elementTypes.map pool'.word =
                elementTypes.map pool.word :=
            hKept.map_word_eq hLt
          simp only [hWords]
      | option =>
          rcases hProper with ⟨element, hEq, _⟩
          subst hEq
          simp only [List.headD_cons,
            hKept.word_eq (hLt _ List.mem_cons_self)]

end KeptIn

theorem keptIn_append
    {types : List PoolType}
    (hTypes : pool'.typeTable = pool.typeTable ++ types) :
    pool.KeptIn pool' := by
  intro id hLt
  rw [get, get, hTypes, List.getD_eq_getElem?_getD,
    List.getD_eq_getElem?_getD, List.getElem?_append_left hLt]

namespace Interned

/- A type is added under a name that is not taken. -/
theorem add
    {shape : TypeShape}
    {superType : Option TypeId}
    (hPool : pool.Interned)
    (hMade : IsMade shape)
    (hProper : pool.Proper shape)
    (hMentions :
      ∀ mentioned ∈ shape.mentions, mentioned < pool.size)
    (hFind : pool.find (pool.shapeName shape) = none)
    (hTypes :
      pool'.typeTable =
        pool.typeTable ++
          [⟨pool.shapeName shape, superType, shape⟩])
    (hNames :
      pool'.nameMap =
        pool.nameMap ++ [(pool.shapeName shape, pool.size)]) :
    pool'.Interned := by
  have hKept := keptIn_append hTypes
  have hCases :
      ∀ (id : TypeId) (type : PoolType),
        pool'.typeTable[id]? = some type →
        pool.typeTable[id]? = some type ∧ id < pool.size ∨
          id = pool.size ∧
            type = ⟨pool.shapeName shape, superType, shape⟩ := by
    intro id type hType
    rw [hTypes] at hType
    rcases Nat.lt_trichotomy id pool.size with hLt | hEq | hGt
    · rw [List.getElem?_append_left hLt] at hType
      exact .inl ⟨hType, hLt⟩
    · apply Or.inr
      refine ⟨hEq, ?_⟩
      rw [hEq, size, List.getElem?_concat_length] at hType
      exact (Option.some.inj hType).symm
    · rw [List.getElem?_eq_none] at hType
      · cases hType
      · rw [List.length_append, List.length_singleton]
        exact hGt
  constructor
  · rw [hNames, hTypes, hPool.nameMap, List.zipIdx_append,
      List.map_append, Nat.zero_add]
    rfl
  · rw [hTypes, List.map_append, List.map_singleton,
      List.nodup_append]
    refine ⟨hPool.distinct, by simp, ?_⟩
    intro name hMem name' hMem' hEq
    rw [List.mem_singleton.mp hMem'] at hEq
    rcases List.mem_map.mp hMem with ⟨type, hIn, hName⟩
    rcases List.getElem?_of_mem hIn with ⟨id, hType⟩
    rcases lt_of_getElem? hType with ⟨hLt, hGet⟩
    have hFound := hPool.find_getName hLt
    rw [getName, hGet, hName, hEq] at hFound
    simp only at hFound
    rw [hFind] at hFound
    cases hFound
  · intro id type hType mentioned hMem
    rcases hCases id type hType with ⟨hOld, _⟩ | ⟨hEq, hNew⟩
    · exact hPool.mentions id type hOld mentioned hMem
    · rw [hNew] at hMem
      rw [hEq]
      exact hMentions mentioned hMem
  · intro id type hType
    rcases hCases id type hType with ⟨hOld, hLt⟩ | ⟨_, hNew⟩
    · have hBelow := hPool.mentions_lt hLt
      rw [(lt_of_getElem? hOld).2] at hBelow
      exact
        (hKept.proper_iff hBelow).mpr (hPool.proper id type hOld)
    · rw [hNew]
      exact (hKept.proper_iff hMentions).mpr hProper
  · intro id type hType hIsMade
    rcases hCases id type hType with ⟨hOld, hLt⟩ | ⟨_, hNew⟩
    · have hBelow := hPool.mentions_lt hLt
      rw [(lt_of_getElem? hOld).2] at hBelow
      rw [hKept.shapeName_eq (hPool.proper id type hOld) hBelow]
      exact hPool.named id type hOld hIsMade
    · rw [hNew, hKept.shapeName_eq hProper hMentions]
  · intro id type hType
    rcases hCases id type hType with ⟨hOld, hLt⟩ | ⟨_, hNew⟩
    · have hBelow := hPool.mentions_lt hLt
      rw [(lt_of_getElem? hOld).2] at hBelow
      rw [hKept.formOf_eq (hPool.proper id type hOld) hBelow]
      exact hPool.spells id type hOld
    · rw [hNew, hKept.formOf_eq hProper hMentions]
      exact
        hPool.spells_made hMade hProper hMentions superType

end Interned

/- An operation gives a type of the shape. -/
structure Yields
    (pool pool' : TypePool)
    (id : TypeId)
    (shape : TypeShape) : Prop where
  interned : pool'.Interned
  keptIn : pool.KeptIn pool'
  size_le : pool.size ≤ pool'.size
  lt : id < pool'.size
  shape_eq : (pool'.get id).shape = shape

theorem KeptIn.refl (pool : TypePool) : pool.KeptIn pool :=
  fun _ _ => rfl

theorem KeptIn.trans
    {pool'' : TypePool}
    (hFirst : pool.KeptIn pool')
    (hSize : pool.size ≤ pool'.size)
    (hSecond : pool'.KeptIn pool'') :
    pool.KeptIn pool'' := by
  intro id hLt
  rw [hSecond id (Nat.lt_of_lt_of_le hLt hSize)]
  exact hFirst id hLt

theorem findOrAdd_yields
    {shape : TypeShape}
    {superType : Option TypeId}
    {info : NativeTypeInfo}
    {id : TypeId}
    (hPool : pool.Interned)
    (hMade : IsMade shape)
    (hProper : pool.Proper shape)
    (hMentions :
      ∀ mentioned ∈ shape.mentions, mentioned < pool.size)
    (hFind :
      pool.findOrAdd table
          ⟨pool.shapeName shape, superType, shape⟩ info =
        .ok (pool', id)) :
    pool.Yields pool' id shape := by
  rw [findOrAdd] at hFind
  cases hOld : pool.find (pool.shapeName shape) with
  | some old =>
      simp only [hOld] at hFind
      cases hFind
      rcases hPool.find_eq_some hOld with ⟨hLt, hName⟩
      have hShape :=
        hPool.shape_of_getName hLt hMade hProper hMentions hName
      exact
        ⟨hPool, .refl pool, Nat.le_refl _, hLt, hShape⟩
  | none =>
      simp only [hOld] at hFind
      cases hAdd :
          pool.addType
            ⟨pool.shapeName shape, superType, shape⟩ with
      | error e =>
          rw [hAdd] at hFind
          cases hFind
      | ok added =>
          rcases added with ⟨pool'', id'⟩
          rw [hAdd] at hFind
          cases hFind
          rcases addType_eq_ok hAdd with ⟨hId, hPool'⟩
          subst hId hPool'
          constructor
          · exact
              hPool.add hMade hProper hMentions hOld rfl rfl
          · exact keptIn_append rfl
          · change
              pool.typeTable.length ≤
                (pool.typeTable ++ [_]).length
            rw [List.length_append]
            exact Nat.le_add_right _ _
          · change pool.size < (pool.typeTable ++ [_]).length
            rw [List.length_append, List.length_singleton]
            exact Nat.lt_succ_self _
          · simp [get, registerHandles, size]

end TypePool

----
-- Calls
----

/- A call that makes a type. -/
inductive TypeCall where
  | createReifiedType
      (template : TypeTemplate) (elementTypes : List TypeId)
  | createTupleType (elementTypes : List TypeId)
  | createFuncType
      (returnType : TypeId) (paramTypes : List TypeId)
  | createOptionType (elementType : TypeId)
  deriving DecidableEq, Repr

namespace TypeCall

def run
    (table : NativeTable)
    (pool : TypePool) :
    TypeCall → Except TypeLookupError (TypePool × TypeId)
  | .createReifiedType template elementTypes =>
      pool.createReifiedType table template elementTypes
  | .createTupleType elementTypes =>
      pool.createTupleType table elementTypes
  | .createFuncType returnType paramTypes =>
      pool.createFuncType table returnType paramTypes
  | .createOptionType elementType =>
      pool.createOptionType table elementType

def args : TypeCall → List TypeId
  | .createReifiedType _ elementTypes => elementTypes
  | .createTupleType elementTypes => elementTypes
  | .createFuncType returnType paramTypes =>
      returnType :: paramTypes
  | .createOptionType elementType => [elementType]

/- A call is made with types that are there. -/
def IsValid (pool : TypePool) (call : TypeCall) : Prop :=
  ∀ type ∈ call.args, type < pool.size

instance
    (pool : TypePool)
    (call : TypeCall) :
    Decidable (call.IsValid pool) :=
  inferInstanceAs
    (Decidable (∀ type ∈ call.args, type < pool.size))

/- A call that fails leaves the pool as it was. -/
def step
    (table : NativeTable)
    (pool : TypePool)
    (call : TypeCall) : Option TypePool :=
  if call.IsValid pool then
    match call.run table pool with
    | .ok (pool, _) => some pool
    | .error .typeLimit => none
    | .error _ => some pool
  else
    none

/- The type that a call asks for. -/
def asked : TypeCall → TypeShape
  | .createReifiedType template elementTypes =>
      .reified template elementTypes
  | .createTupleType elementTypes => .reified .tuple elementTypes
  | .createFuncType returnType paramTypes =>
      .function returnType paramTypes
  | .createOptionType elementType =>
      .reified .option [elementType]

/- An option type of an option type is that type. -/
def collapse (pool : TypePool) : TypeShape → TypeShape
  | .reified .option [elementType] =>
      if (pool.get elementType).isOptionType then
        (pool.get elementType).shape
      else
        .reified .option [elementType]
  | shape => shape

def denotes (pool : TypePool) (call : TypeCall) : TypeShape :=
  collapse pool call.asked

/- An option type has one element and a tuple type some. -/
def HasElements (call : TypeCall) : Prop :=
  ∀ elementTypes,
    (call.asked = .reified .option elementTypes →
      elementTypes.length = 1) ∧
      (call.asked = .reified .tuple elementTypes →
        elementTypes ≠ [])

end TypeCall

namespace TypePool

variable {pool pool' : TypePool}
variable {table : NativeTable}

/- The elements of a shape pass the check of its constructor. -/
def Checked (pool : TypePool) : TypeShape → Prop
  | .builtin => True
  | .module _ => True
  | .reified .tuple elementTypes =>
      pool.checkElements SYS_LIMIT_TUPLE_NUM elementTypes = .ok ()
  | .reified .option elementTypes =>
      elementTypes.headD 0 ≠ TYPE.Void ∧
        elementTypes.headD 0 ≠ TYPE.Nothing
  | .reified template elementTypes =>
      pool.checkTemplateElements template elementTypes = .ok ()
  | .function _ paramTypes =>
      pool.checkElements SYS_LIMIT_FUNC_PARAM_NUM paramTypes =
        .ok ()

/-
  What a constructor does when it succeeds: the type is there or
  is added, and an option of an option is that option.
-/
inductive Makes (pool : TypePool) (table : NativeTable) :
    TypePool → TypeId → TypeShape → Prop where
  | option
      {elementType : TypeId}
      (hType : elementType < pool.size) :
      Makes pool table pool elementType
        (pool.get elementType).shape
  | findOrAdd
      {pool' : TypePool}
      {id : TypeId}
      {shape : TypeShape}
      {superType : Option TypeId}
      {info : NativeTypeInfo}
      (hMade : IsMade shape)
      (hProper : pool.Proper shape)
      (hMentions :
        ∀ mentioned ∈ shape.mentions, mentioned < pool.size)
      (hSuper : ∀ super ∈ superType.toList, super ≤ TYPE.UnixFD)
      (hChecked : pool.Checked shape)
      (hFind :
        pool.findOrAdd table
            ⟨pool.shapeName shape, superType, shape⟩ info =
          .ok (pool', id)) :
      Makes pool table pool' id shape

theorem Makes.yields
    {id : TypeId}
    {shape : TypeShape}
    (hMakes : pool.Makes table pool' id shape)
    (hPool : pool.Interned) :
    pool.Yields pool' id shape := by
  cases hMakes with
  | option hType =>
      exact ⟨hPool, .refl pool, Nat.le_refl _, hType, rfl⟩
  | findOrAdd hMade hProper hMentions _ _ hFind =>
      exact findOrAdd_yields hPool hMade hProper hMentions hFind

theorem super_any :
    ∀ super ∈ (some TYPE.Any).toList, super ≤ TYPE.UnixFD := by
  intro super hMem
  cases List.mem_singleton.mp hMem
  decide

theorem checkTemplateElements_length
    {template : TypeTemplate}
    {elementTypes : List TypeId}
    (hCheck :
      pool.checkTemplateElements template elementTypes =
        .ok ()) :
    template.getAcceptableTypes.length =
      elementTypes.length := by
  simp only [checkTemplateElements] at hCheck
  by_contra hNe
  rw [if_pos hNe] at hCheck
  cases hCheck

theorem createTupleType_makes
    {elementTypes : List TypeId}
    {id : TypeId}
    (hTypes : ∀ type ∈ elementTypes, type < pool.size)
    (hNe : elementTypes ≠ [])
    (hCreate :
      pool.createTupleType table elementTypes =
        .ok (pool', id)) :
    pool.Makes table pool' id (.reified .tuple elementTypes) := by
  rcases afterCheck_eq_ok.mp hCreate with ⟨hCheck, hFind⟩
  exact .findOrAdd trivial hNe hTypes super_any hCheck hFind

theorem createOptionReified_singleton
    (elementType : TypeId) :
    pool.createOptionReified table [elementType] =
      if elementType = TYPE.Void ∨ elementType = TYPE.Nothing then
        .error (.invalidElement (pool.getName elementType))
      else if (pool.get elementType).isOptionType then
        .ok (pool, elementType)
      else
        pool.findOrAdd table
          ⟨pool.shapeName (.reified .option [elementType]),
            none, .reified .option [elementType]⟩
          (table.templateInfo .option) :=
  rfl

theorem createOptionReified_makes
    {elementType : TypeId}
    {id : TypeId}
    (hType : elementType < pool.size)
    (hCreate :
      pool.createOptionReified table [elementType] =
        .ok (pool', id)) :
    pool.Makes table pool' id
      (TypeCall.collapse pool
        (.reified .option [elementType])) := by
  rw [createOptionReified_singleton] at hCreate
  by_cases hVoid :
      elementType = TYPE.Void ∨ elementType = TYPE.Nothing
  · rw [if_pos hVoid] at hCreate
    cases hCreate
  · rw [if_neg hVoid] at hCreate
    simp only [TypeCall.collapse]
    by_cases hOption :
        (pool.get elementType).isOptionType = true
    · rw [if_pos hOption] at hCreate
      cases hCreate
      rw [if_pos hOption]
      exact .option hType
    · rw [if_neg hOption] at hCreate
      rw [if_neg hOption]
      refine .findOrAdd trivial ?_ ?_ ?_ ?_ hCreate
      · exact ⟨elementType, rfl, by simpa using hOption⟩
      · intro mentioned hMem
        rw [List.mem_singleton.mp hMem]
        exact hType
      · rintro super ⟨⟩
      · exact not_or.mp hVoid

theorem createReifiedType_makes
    {template : TypeTemplate}
    {elementTypes : List TypeId}
    {id : TypeId}
    (hTypes : ∀ type ∈ elementTypes, type < pool.size)
    (hOption : template = .option → elementTypes.length = 1)
    (hTuple : template = .tuple → elementTypes ≠ [])
    (hCreate :
      pool.createReifiedType table template elementTypes =
        .ok (pool', id)) :
    pool.Makes table pool' id
      (TypeCall.collapse pool
        (.reified template elementTypes)) := by
  cases template with
  | tuple =>
      exact createTupleType_makes hTypes (hTuple rfl) hCreate
  | option =>
      rcases List.length_eq_one_iff.mp (hOption rfl) with
        ⟨elementType, hEq⟩
      subst hEq
      exact
        createOptionReified_makes (hTypes _ List.mem_cons_self)
          hCreate
  | array =>
      rcases afterCheck_eq_ok.mp hCreate with ⟨hCheck, hFind⟩
      have hLength := checkTemplateElements_length hCheck
      exact
        .findOrAdd trivial (List.length_eq_one_iff.mp hLength.symm)
          hTypes super_any hCheck hFind
  | map =>
      rcases afterCheck_eq_ok.mp hCreate with ⟨hCheck, hFind⟩
      have hLength := checkTemplateElements_length hCheck
      exact
        .findOrAdd trivial (List.length_eq_two.mp hLength.symm)
          hTypes super_any hCheck hFind

theorem createFuncType_makes
    {returnType : TypeId}
    {paramTypes : List TypeId}
    {id : TypeId}
    (hTypes : ∀ type ∈ returnType :: paramTypes, type < pool.size)
    (hCreate :
      pool.createFuncType table returnType paramTypes =
        .ok (pool', id)) :
    pool.Makes table pool' id
      (.function returnType paramTypes) := by
  rcases afterCheck_eq_ok.mp hCreate with ⟨hCheck, hFind⟩
  refine .findOrAdd trivial trivial hTypes ?_ hCheck hFind
  intro super hMem
  cases List.mem_singleton.mp hMem
  decide

end TypePool

namespace TypeCall

variable {pool pool' : TypePool}
variable {table : NativeTable}
variable {call : TypeCall}

theorem run_makes
    {id : TypeId}
    (hValid : call.IsValid pool)
    (hElements : call.HasElements)
    (hRun : call.run table pool = .ok (pool', id)) :
    pool.Makes table pool' id (call.denotes pool) := by
  cases call with
  | createReifiedType template elementTypes =>
      apply TypePool.createReifiedType_makes hValid _ _ hRun
      · intro hEq
        apply (hElements elementTypes).1
        rw [asked, hEq]
      · intro hEq
        apply (hElements elementTypes).2
        rw [asked, hEq]
  | createTupleType elementTypes =>
      exact
        TypePool.createTupleType_makes hValid
          ((hElements elementTypes).2 rfl) hRun
  | createFuncType returnType paramTypes =>
      exact TypePool.createFuncType_makes hValid hRun
  | createOptionType elementType =>
      exact
        TypePool.createOptionReified_makes
          (hValid _ List.mem_cons_self) hRun

/- A call gives the type it asks for. -/
theorem run_yields
    {id : TypeId}
    (hPool : pool.Interned)
    (hValid : call.IsValid pool)
    (hElements : call.HasElements)
    (hRun : call.run table pool = .ok (pool', id)) :
    pool.Yields pool' id (call.denotes pool) :=
  (run_makes hValid hElements hRun).yields hPool

/- A step keeps the types and their names apart. -/
theorem step_interned
    (hPool : pool.Interned)
    (hElements : call.HasElements)
    (hStep : call.step table pool = some pool') :
    pool'.Interned ∧ pool.KeptIn pool' ∧
      pool.size ≤ pool'.size := by
  rw [step] at hStep
  split_ifs at hStep with hValid
  cases hRun : call.run table pool with
  | ok result =>
      rcases result with ⟨made, id⟩
      rw [hRun] at hStep
      cases hStep
      have hYields := run_yields hPool hValid hElements hRun
      exact
        ⟨hYields.interned, hYields.keptIn, hYields.size_le⟩
  | error e =>
      rw [hRun] at hStep
      cases e <;> cases hStep <;>
        exact ⟨hPool, .refl _, Nat.le_refl _⟩

theorem run_interned
    {calls : List TypeCall}
    (hPool : pool.Interned)
    (hRun :
      GuardedRun (fun pool call => call.step table pool)
        (fun _ call => call.HasElements) pool calls pool') :
    pool'.Interned ∧ pool.KeptIn pool' ∧
      pool.size ≤ pool'.size := by
  induction hRun with
  | nil pool => exact ⟨hPool, .refl _, Nat.le_refl _⟩
  | cons hElements hStep _ ih =>
      rcases step_interned hPool hElements hStep with
        ⟨hNext, hKept, hSize⟩
      rcases ih hNext with ⟨hLast, hKept', hSize'⟩
      exact
        ⟨hLast, hKept.trans hSize hKept',
          Nat.le_trans hSize hSize'⟩

end TypeCall

----
-- The Predefined Types
----

namespace TypePool

/- Of the predefined types only one is made of another. -/
theorem mem_predefinedTypes
    {type : PoolType}
    (hMem : type ∈ predefinedTypes) :
    type.shape = .builtin ∧ IsAtom type.name.toList ∨
      type = stringArrayEntry := by
  have hAll :
      ∀ type ∈ predefinedTypes,
        type.shape = .builtin ∧ IsAtom type.name.toList ∨
          type = stringArrayEntry := by
    decide +kernel
  exact hAll type hMem

theorem init_interned (table : NativeTable) :
    (init table).Interned := by
  have hTable := init_typeTable table
  constructor
  · rw [init_nameMap, hTable]
  · rw [hTable]
    decide
  · intro id type hType mentioned hMem
    apply (init_wellFormed table).types_lt id type hType
    exact List.mem_append_right _ hMem
  · intro id type hType
    have hMem := List.mem_of_getElem? hType
    rw [hTable] at hMem
    rcases mem_predefinedTypes hMem with ⟨hShape, _⟩ | hEq
    · rw [hShape]
      trivial
    · rw [hEq]
      exact ⟨TYPE.String, rfl⟩
  · intro id type hType hMade
    have hMem := List.mem_of_getElem? hType
    rw [hTable] at hMem
    rcases mem_predefinedTypes hMem with ⟨hShape, _⟩ | hEq
    · rw [hShape] at hMade
      cases hMade
    · have hString : (init table).getName TYPE.String = "String" := by
        rw [getName, get, hTable]
        rfl
      rw [hEq, stringArrayEntry]
      simp only [shapeName, toReifiedTypeName, hString]
      rfl
  · intro id type hType
    have hMem := List.mem_of_getElem? hType
    rw [hTable] at hMem
    rcases mem_predefinedTypes hMem with ⟨hShape, hAtom⟩ | hEq
    · rw [formOf, hShape]
      exact .atom hAtom
    · have hWord : (init table).word TYPE.String =
          "String".toList := by
        rw [word, getName, get, hTable]
        rfl
      have hName : IsName "String".toList :=
        (Spells.atom (by decide)).isName
      rw [hEq, formOf]
      simp only [stringArrayEntry, List.headD_cons, hWord]
      exact .array hName

end TypePool

end Pool

end Ydsh
