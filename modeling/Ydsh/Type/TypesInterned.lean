import Ydsh.Type.RoundTrip

/-
  Types are interned exactly.

  Two calls give the same type exactly if they denote the same
  structure, types have different names, and a name is read
  back as its type as long as it is not nested too deeply.

  Main declarations:
    * `TypeCall.Makes`
    * `TypeCall.eq_iff_denotes_eq`
    * `types_interned`
-/

----
-- Runs of Calls
----

namespace Ydsh

namespace Pool

open Library

namespace TypeCall

variable {pool pool' : TypePool}
variable {table : NativeTable}
variable {call call' : TypeCall}

/- Calls that have elements are made one after the other. -/
abbrev Makes
    (table : NativeTable)
    (pool : TypePool)
    (calls : List TypeCall)
    (pool' : TypePool) : Prop :=
  GuardedRun (fun pool call => call.step table pool)
    (fun _ call => call.HasElements) pool calls pool'

theorem denotes_isMade
    (pool : TypePool)
    (call : TypeCall) :
    TypePool.IsMade (call.denotes pool) := by
  have hAsked : TypePool.IsMade call.asked := by
    cases call <;> trivial
  rw [denotes, collapse.eq_def]
  split
  · split_ifs with hOption
    · rw [PoolType.isOptionType] at hOption
      split at hOption
      · rename_i hShape
        rw [hShape]
        trivial
      · cases hOption
    · trivial
  · exact hAsked

/- Types of one structure are one type. -/
theorem eq_of_shape_eq
    {id id' : TypeId}
    (hPool : pool.Interned)
    (hLt : id < pool.size)
    (hLt' : id' < pool.size)
    (hMade : TypePool.IsMade (pool.get id).shape)
    (hShape : (pool.get id).shape = (pool.get id').shape) :
    id = id' := by
  have hName :=
    hPool.named id _ (TypePool.getElem?_of_lt hLt) hMade
  have hName' :=
    hPool.named id' _ (TypePool.getElem?_of_lt hLt')
      (hShape ▸ hMade)
  apply hPool.getName_inj hLt hLt'
  rw [TypePool.getName, TypePool.getName, hName, hName', hShape]

/- A call and one that is made later. -/
theorem eq_iff_denotes_eq
    {made made' : TypePool}
    {later : List TypeCall}
    {id id' : TypeId}
    (hPool : pool.Interned)
    (hValid : call.IsValid pool)
    (hElements : call.HasElements)
    (hCall : call.run table pool = .ok (made, id))
    (hLater : Makes table made later pool')
    (hValid' : call'.IsValid pool')
    (hElements' : call'.HasElements)
    (hCall' : call'.run table pool' = .ok (made', id')) :
    id = id' ↔ call.denotes pool = call'.denotes pool' := by
  have hYields := run_yields hPool hValid hElements hCall
  rcases run_interned hYields.interned hLater with
    ⟨hPool', hKept, hSize⟩
  have hYields' := run_yields hPool' hValid' hElements' hCall'
  have hLt : id < pool'.size :=
    Nat.lt_of_lt_of_le hYields.lt hSize
  have hShape : (made'.get id).shape = call.denotes pool := by
    rw [hYields'.keptIn id hLt, hKept id hYields.lt]
    exact hYields.shape_eq
  constructor
  · rintro rfl
    rw [← hShape, ← hYields'.shape_eq]
  · intro hDenotes
    apply eq_of_shape_eq hYields'.interned
    · exact Nat.lt_of_lt_of_le hLt hYields'.size_le
    · exact hYields'.lt
    · rw [hShape]
      exact denotes_isMade pool call
    · rw [hShape, hDenotes, hYields'.shape_eq]

end TypeCall

/-
  The three parts: calls give the same type exactly if they
  denote the same, names are different, and a name is read
  back in a scope that does not hide predefined types.
-/
theorem types_interned
    {table : NativeTable}
    {calls : List TypeCall}
    {pool : TypePool}
    (hRun :
      TypeCall.Makes table (TypePool.init table) calls pool) :
    (∀ (call call' : TypeCall) (made pool' made' : TypePool)
        (later : List TypeCall) (id id' : TypeId),
      call.IsValid pool →
      call.HasElements →
      call.run table pool = .ok (made, id) →
      TypeCall.Makes table made later pool' →
      call'.IsValid pool' →
      call'.HasElements →
      call'.run table pool' = .ok (made', id') →
      (id = id' ↔ call.denotes pool = call'.denotes pool')) ∧
      (∀ id < pool.size, ∀ id' < pool.size,
        pool.getName id = pool.getName id' → id = id') ∧
      ∀ (scope : TypeScope) (parser : TypeParser)
          (depth : Nat) (id : TypeId),
        (∀ id < pool.size, (pool.get id).shape = .builtin →
          scope.lookup
              (Scope.toTypeAliasFullName (pool.getName id)) =
            none) →
        Nameable pool depth id →
        depth < MAX_NESTING_DEPTH →
        ∃ node,
          parseType parser (pool.getName id) =
              .ok (node, lexType []) ∧
            toType scope table pool node = (pool, .ok id) := by
  have hUsable : pool.Usable :=
    TypeCall.run_all_usable (TypePool.init_usable table) hRun
  refine ⟨?_, ?_, ?_⟩
  · intro call call' made pool' made' later id id' hValid
      hElements hCall hLater hValid' hElements' hCall'
    exact
      TypeCall.eq_iff_denotes_eq hUsable.interned hValid
        hElements hCall hLater hValid' hElements' hCall'
  · intro id hLt id' hLt' hName
    exact hUsable.interned.getName_inj hLt hLt' hName
  · intro scope parser depth id hAlias hName hDepth
    exact hName.parseType hUsable hAlias hDepth

----
-- Nested Function Types
----

/- The tokens of `() -> () -> .. -> Int`. -/
def functionTokens : Nat → List Token
  | 0 => [wordToken "Int".toList]
  | depth + 1 =>
      parenOpen :: parenClose :: arrow :: functionTokens depth

section

variable {pool : TypePool}
variable {table : NativeTable}
variable {id : TypeId}

theorem findOrAdd_isOk
    (type : PoolType)
    (info : NativeTypeInfo)
    (hSize : pool.size + 1 < SYS_LIMIT_TYPE_ID) :
    ∃ pool' id',
      pool.findOrAdd table type info = .ok (pool', id') ∧
        pool'.size ≤ pool.size + 1 := by
  rw [TypePool.findOrAdd]
  cases hFind : pool.find type.name with
  | some id => exact ⟨pool, id, rfl, Nat.le_succ _⟩
  | none =>
      have hAdd :
          pool.addType type =
            .ok
              ({ pool with
                  typeTable := pool.typeTable ++ [type]
                  nameMap :=
                    pool.nameMap ++ [(type.name, pool.size)] },
                pool.size) :=
        if_neg (Nat.ne_of_lt hSize)
      refine ⟨_, _, by rw [hAdd], ?_⟩
      apply Nat.le_of_eq
      simp [TypePool.size, TypePool.registerHandles]

/- A function type without parameters can always be made. -/
theorem function_made
    {depth : Nat}
    (hPool : pool.Usable)
    (hSize : pool.size + 1 < SYS_LIMIT_TYPE_ID)
    (hName : Nameable pool depth id) :
    ∃ pool' id',
      (TypeCall.createFuncType id []).step table pool =
          some pool' ∧
        pool'.Usable ∧
        pool'.size ≤ pool.size + 1 ∧
        Nameable pool' (depth + 1) id' ∧
        pool'.word id' = '(' :: ')' :: (ARROW ++ pool.word id) ∧
        (pool'.get id').shape = .function id [] := by
  have hValid :
      (TypeCall.createFuncType id []).IsValid pool := by
    intro type hMem
    rw [List.mem_singleton.mp hMem]
    exact hName.lt
  have hElements :
      (TypeCall.createFuncType id []).HasElements := by
    intro elementTypes
    constructor <;> rintro ⟨⟩
  have hFound :
      ∃ pool' id',
        pool.findOrAdd table
            ⟨pool.toFunctionTypeName id [], some TYPE.Func,
              .function id []⟩ ⟨0, 0⟩ =
          .ok (pool', id') ∧
        pool'.size ≤ pool.size + 1 :=
    findOrAdd_isOk _ _ hSize
  rcases hFound with ⟨pool', id', hFind, hSize'⟩
  have hRun :
      (TypeCall.createFuncType id []).run table pool =
        .ok (pool', id') :=
    hFind
  have hStep :
      (TypeCall.createFuncType id []).step table pool =
        some pool' := by
    rw [TypeCall.step, if_pos hValid, hRun]
  have hYields :=
    TypeCall.run_yields hPool.interned hValid hElements hRun
  have hUsable := TypeCall.run_usable hPool hValid hElements hRun
  have hShape : (pool'.get id').shape = .function id [] :=
    hYields.shape_eq
  have hWord := hUsable.word_function hShape
  rw [hYields.keptIn.word_eq hName.lt] at hWord
  refine ⟨pool', id', hStep, hUsable, hSize', ?_, hWord, hShape⟩
  apply Nameable.function hShape (hName.kept hYields.keptIn)
  intro param hMem
  cases hMem

theorem functions_made
    {start depth : Nat}
    (hPool : pool.Usable)
    (hSize : pool.size + depth < SYS_LIMIT_TYPE_ID)
    (hName : Nameable pool (start + 2) id)
    (hLexes : Lexes (pool.word id) (functionTokens start)) :
    ∃ calls pool' id',
      TypeCall.Makes table pool calls pool' ∧
        Nameable pool' (start + depth + 2) id' ∧
        Lexes (pool'.word id') (functionTokens (start + depth)) := by
  induction depth generalizing start pool id with
  | zero => exact ⟨[], pool, id, .nil pool, hName, hLexes⟩
  | succ depth ih =>
      have hMade :
          ∃ pool' id',
            (TypeCall.createFuncType id []).step table pool =
                some pool' ∧
              pool'.Usable ∧
              pool'.size ≤ pool.size + 1 ∧
              Nameable pool' (start + 2 + 1) id' ∧
              pool'.word id' =
                '(' :: ')' :: (ARROW ++ pool.word id) ∧
              (pool'.get id').shape = .function id [] :=
        function_made hPool (by omega) hName
      rcases hMade with
        ⟨pool', id', hStep, hUsable, hSize', hName', hWord, _⟩
      have hLexes' :
          Lexes (pool'.word id') (functionTokens (start + 1)) := by
        have hFunction := Lexes.nil.function hLexes
        rw [hWord]
        exact hFunction
      have hNext :
          pool'.size + depth < SYS_LIMIT_TYPE_ID := by
        omega
      have hNamed : Nameable pool' (start + 1 + 2) id' := hName'
      rcases ih hUsable hNext hNamed hLexes' with
        ⟨calls, last, lastId, hRun, hLast, hLexesLast⟩
      have hElements :
          (TypeCall.createFuncType id []).HasElements := by
        intro elementTypes
        constructor <;> rintro ⟨⟩
      have hSum : start + 1 + depth = start + (depth + 1) := by
        omega
      rw [hSum] at hLast hLexesLast
      exact
        ⟨_, last, lastId, .cons hElements hStep hRun, hLast,
          hLexesLast⟩

/- `Int` is the type that the others are built from. -/
theorem init_word_int (table : NativeTable) :
    (TypePool.init table).word TYPE.Int = "Int".toList := by
  rw [TypePool.word, TypePool.getName, TypePool.get,
    TypePool.init_typeTable]
  rfl

theorem isWord_int : IsWord "Int".toList := by
  constructor
  · exact ⟨'I', ['n', 't'], rfl, by decide⟩
  · exact List.all_eq_true.mp (by decide)
  · decide

theorem init_nameable_int (table : NativeTable) :
    Nameable (TypePool.init table) 2 TYPE.Int := by
  apply Nameable.builtin
  · rw [TypePool.get, TypePool.init_typeTable]
    rfl
  · rw [init_word_int]
    exact isWord_int

/- Each function type takes one call more. -/
theorem parse_typeName_tooDeep
    {parser : TypeParser}
    {remaining depth : Nat}
    (rest : List Token)
    (hDepth : remaining ≤ depth + 1) :
    parse_typeName parser remaining
        (functionTokens depth ++ rest) =
      .error .deepNesting := by
  induction depth generalizing remaining with
  | zero =>
      cases remaining with
      | zero => rfl
      | succ remaining =>
          have hZero : remaining = 0 := by omega
          rw [hZero]
          rfl
  | succ depth ih =>
      cases remaining with
      | zero => rfl
      | succ remaining =>
          have hReturn :=
            ih (Nat.le_of_succ_le_succ hDepth)
          have hParse :
              parseParenType (parse_typeName parser remaining)
                  (parenClose :: arrow ::
                    (functionTokens depth ++ rest)) =
                .error .deepNesting := by
            have hClose :
                expect .PTYPE_CLOSE
                    (parenClose :: arrow ::
                      (functionTokens depth ++ rest)) =
                  .ok (arrow :: (functionTokens depth ++ rest)) :=
              rfl
            have hArrow :
                expect .TYPE_ARROW
                    (arrow :: (functionTokens depth ++ rest)) =
                  .ok (functionTokens depth ++ rest) :=
              rfl
            rw [parseParenType, parseParens_close]
            simp only [hClose, hArrow, List.isEmpty_nil,
              Bool.true_or, if_true, hReturn]
          have hImpl :
              parse_typeNameImpl parser
                  (parse_typeName parser remaining)
                  (basicAt parser remaining)
                  (functionTokens (depth + 1) ++ rest) =
                .error .deepNesting :=
            hParse
          rw [parse_typeName_succ, parseWithOptions, hImpl]

end

----
-- Types That Are Not Interned
----

/- A table without native functions. -/
def noNatives : NativeTable :=
  ⟨fun _ => ⟨"", []⟩, fun _ => ⟨0, 0⟩, fun _ => ⟨0, 0⟩⟩

/- A scope without aliases, and a parser of no expressions. -/
def noAliases : TypeScope :=
  ⟨fun _ => none, fun _ _ => none, fun _ => none⟩

def noExpressions : TypeParser :=
  ⟨false, fun _ => .error .deepNesting⟩

abbrev optionOfInt : TypeCall :=
  .createReifiedType .option [TYPE.Int]

abbrev optionOfTwo : TypeCall :=
  .createReifiedType .option [TYPE.Int, TYPE.String]

theorem init_int_notOption (table : NativeTable) :
    ((TypePool.init table).get TYPE.Int).isOptionType = false := by
  rw [TypePool.get, TypePool.init_typeTable]
  rfl

theorem optionOfInt_denotes
    {pool : TypePool}
    (hNot : (pool.get TYPE.Int).isOptionType = false) :
    optionOfInt.denotes pool = .reified .option [TYPE.Int] :=
  if_neg (by simp [hNot])

theorem optionOfInt_made (table : NativeTable) :
    ∃ pool id,
      optionOfInt.run table (TypePool.init table) =
          .ok (pool, id) ∧
        pool.Usable ∧
        (TypePool.init table).KeptIn pool ∧
        (pool.get id).shape = .reified .option [TYPE.Int] := by
  have hPool := TypePool.init_usable table
  have hNot := init_int_notOption table
  have hSize := TypePool.init_size table
  generalize TypePool.init table = pool at *
  have hFound :
      ∃ pool' id',
        pool.findOrAdd table
            ⟨pool.shapeName (.reified .option [TYPE.Int]), none,
              .reified .option [TYPE.Int]⟩
            (table.templateInfo .option) =
          .ok (pool', id') ∧
        pool'.size ≤ pool.size + 1 := by
    apply findOrAdd_isOk
    rw [hSize]
    decide
  rcases hFound with ⟨pool', id', hFind, _⟩
  have hRun : optionOfInt.run table pool = .ok (pool', id') := by
    change pool.createOptionReified table [TYPE.Int] = _
    rw [TypePool.createOptionReified_singleton,
      if_neg (by decide), if_neg (by simp [hNot])]
    exact hFind
  have hValid : optionOfInt.IsValid pool := by
    intro type hMem
    rw [List.mem_singleton.mp hMem, hSize]
    decide
  have hElements : optionOfInt.HasElements := by
    intro elementTypes
    constructor
    · rintro ⟨⟩
      rfl
    · rintro ⟨⟩
  have hYields :=
    TypeCall.run_yields hPool.interned hValid hElements hRun
  have hShape : (pool'.get id').shape = optionOfInt.denotes pool :=
    hYields.shape_eq
  rw [optionOfInt_denotes hNot] at hShape
  exact
    ⟨pool', id', hRun,
      TypeCall.run_usable hPool hValid hElements hRun,
      hYields.keptIn, hShape⟩

theorem createOptionReified_cons
    (pool : TypePool)
    (table : NativeTable)
    (element : TypeId)
    (rest : List TypeId) :
    pool.createOptionReified table (element :: rest) =
      if element = TYPE.Void ∨ element = TYPE.Nothing then
        .error (.invalidElement (pool.getName element))
      else if (pool.get element).isOptionType then
        .ok (pool, element)
      else
        pool.findOrAdd table
          ⟨pool.toReifiedTypeName .option (element :: rest),
            none, .reified .option (element :: rest)⟩
          (table.templateInfo .option) :=
  rfl

/- The elements after the first one are not looked at. -/
theorem optionOfTwo_found
    {pool : TypePool}
    {table : NativeTable}
    {id : TypeId}
    (hPool : pool.Usable)
    (hNot : (pool.get TYPE.Int).isOptionType = false)
    (hShape :
      (pool.get id).shape = .reified .option [TYPE.Int]) :
    optionOfTwo.run table pool = .ok (pool, id) := by
  have hLt : id < pool.size := by
    apply TypePool.Usable.lt_of_shape
    rw [hShape]
    rintro ⟨⟩
  have hMade :
      TypePool.IsMade (.reified .option [TYPE.Int]) := trivial
  have hWord := hPool.word_eq hMade hShape
  have hName :
      pool.getName id =
        pool.toReifiedTypeName .option
          [TYPE.Int, TYPE.String] :=
    String.toList_inj.mp hWord
  have hFind := hPool.interned.find_getName hLt
  rw [hName] at hFind
  change
    pool.createOptionReified table [TYPE.Int, TYPE.String] = _
  rw [createOptionReified_cons, if_neg (by decide),
    if_neg (by simp [hNot]), TypePool.findOrAdd, hFind]

theorem types_not_interned :
    (∃ pool id,
      optionOfInt.run noNatives (TypePool.init noNatives) =
          .ok (pool, id) ∧
        optionOfTwo.run noNatives pool = .ok (pool, id) ∧
        optionOfInt.denotes (TypePool.init noNatives) ≠
          optionOfTwo.denotes pool) ∧
      ∃ calls pool id,
        TypeCall.Makes noNatives (TypePool.init noNatives) calls
            pool ∧
          Nameable pool MAX_NESTING_DEPTH id ∧
          parseType noExpressions (pool.getName id) =
            .error .deepNesting := by
  constructor
  · rcases optionOfInt_made noNatives with
      ⟨pool, id, hRun, hUsable, hKept, hShape⟩
    have hInt : TYPE.Int < (TypePool.init noNatives).size := by
      rw [TypePool.init_size]
      decide
    have hNot := init_int_notOption noNatives
    have hDenotes := optionOfInt_denotes hNot
    rw [← hKept TYPE.Int hInt] at hNot
    refine ⟨pool, id, hRun, ?_, ?_⟩
    · exact optionOfTwo_found hUsable hNot hShape
    · rw [hDenotes]
      rintro ⟨⟩
  · have hLexes :
        Lexes ((TypePool.init noNatives).word TYPE.Int)
          (functionTokens 0) := by
      rw [init_word_int]
      exact .of_word isWord_int
    have hSize :
        (TypePool.init noNatives).size + 4998 <
          SYS_LIMIT_TYPE_ID := by
      rw [TypePool.init_size]
      decide
    rcases functions_made (TypePool.init_usable noNatives) hSize
        (init_nameable_int noNatives) hLexes with
      ⟨calls, pool, id, hRun, hName, hDeep⟩
    refine ⟨calls, pool, id, hRun, hName, ?_⟩
    have hLex := hDeep [] .nil
    rw [List.append_nil] at hLex
    rw [parseType]
    change parse_typeName _ _ (lexType (pool.word id)) = _
    rw [hLex]
    exact parse_typeName_tooDeep _ (by decide)

theorem types_interned_function :
    ∃ calls pool id node,
      TypeCall.Makes noNatives (TypePool.init noNatives) calls
          pool ∧
        (pool.get id).shape = .function TYPE.Int [] ∧
        parseType noExpressions (pool.getName id) =
          .ok (node, lexType []) ∧
        toType noAliases noNatives pool node =
          (pool, .ok id) := by
  have hSize :
      (TypePool.init noNatives).size + 1 < SYS_LIMIT_TYPE_ID := by
    rw [TypePool.init_size]
    decide
  have hMade :
      ∃ pool id,
        (TypeCall.createFuncType TYPE.Int []).step noNatives
            (TypePool.init noNatives) = some pool ∧
          pool.Usable ∧
          pool.size ≤ (TypePool.init noNatives).size + 1 ∧
          Nameable pool 3 id ∧
          pool.word id =
            '(' :: ')' :: (ARROW ++
              (TypePool.init noNatives).word TYPE.Int) ∧
          (pool.get id).shape = .function TYPE.Int [] :=
    function_made (TypePool.init_usable noNatives) hSize
      (init_nameable_int noNatives)
  rcases hMade with ⟨pool, id, hStep, _, _, hName, _, hShape⟩
  have hElements :
      (TypeCall.createFuncType TYPE.Int []).HasElements := by
    intro elementTypes
    constructor <;> rintro ⟨⟩
  have hRun :
      TypeCall.Makes noNatives (TypePool.init noNatives)
        [.createFuncType TYPE.Int []] pool :=
    .cons hElements hStep (.nil pool)
  have hDepth : 3 < MAX_NESTING_DEPTH := by decide
  rcases (types_interned hRun).2.2 noAliases noExpressions 3 id
      (fun _ _ _ => rfl) hName hDepth with
    ⟨node, hParse, hType⟩
  exact ⟨_, pool, id, node, hRun, hShape, hParse, hType⟩

end Pool

end Ydsh
