import Ydsh.Archive.Archive

/-
  What can be read.

  A number that is read has bytes that survive, whatever the
  data is.  So every type that is read is intact, if the types
  of the pool are.

  Main declarations:
    * `HeadSurvives`
    * `OwnSurvives`
    * `Intact`
    * `Part`
    * `unpack_gives`
-/

----
-- Numbers That Survive
----

namespace Ydsh

namespace Archive

abbrev Keeps16 (b : UInt16) : Prop :=
  Survives (write16 b)

abbrev Keeps32 (b : UInt32) : Prop :=
  Survives (write32 b)

/- The numbers of a handle. -/
structure HeadSurvives (handle : FieldHandle DSType) : Prop where
  commitID : Keeps32 handle.commitID
  index : Keeps32 handle.index
  attr : Keeps16 handle.attr
  modID : Keeps16 handle.modID

/- The numbers of a module type and of its handles. -/
structure ModSurvives
    (modID : UInt16)
    (index : UInt32)
    (children : List (ImportedModEntry DSType))
    (handleMap : HandleMap) : Prop where
  modID : Keeps16 modID
  index : Keeps32 index
  childSize : Keeps16 (UInt16.ofNat children.length)
  children : ∀ e ∈ children, Keeps16 e.type.getModID
  size : Keeps32 (UInt32.ofNat handleMap.length)
  names :
    ∀ e ∈ handleMap, Keeps32 (UInt32.ofNat e.1.length)
  handles : ∀ e ∈ handleMap, HeadSurvives e.2

def OwnSurvives : DSType → Prop
  | .module modID index children handleMap =>
      ModSurvives modID index children handleMap
  | _ => True

/- The types that are written with a type. -/
def DSType.mentions : DSType → List DSType
  | .builtin _ => []
  | .array e => [e]
  | .map k v => [k, v]
  | .tuple es => es
  | .option e => [e]
  | .function r ps => r :: ps
  | .module _ _ _ handleMap =>
      handleMap.map (fun e => e.2.type)

/- Every number that is written for the type survives. -/
inductive Intact (archiver : Archiver) : DSType → Prop where
  | predefined {type : DSType}
      (hPredefined : archiver.predefined type ≠ none) :
      Intact archiver type
  | made {type : DSType}
      (hOwn : OwnSurvives type)
      (hMentions : ∀ e ∈ type.mentions, Intact archiver e) :
      Intact archiver type

/- The types whose kind is written with a type. -/
inductive Part
    (archiver : Archiver)
    (root : DSType) : DSType → Prop where
  | self : Part archiver root root
  | inside {type e : DSType}
      (hPart : Part archiver root type)
      (hMade : archiver.predefined type = none)
      (hMem : e ∈ type.mentions) :
      Part archiver root e

theorem Intact.part
    {archiver : Archiver}
    {root type : DSType}
    (hRoot : Intact archiver root)
    (hPart : Part archiver root type) :
    Intact archiver type := by
  induction hPart with
  | self => exact hRoot
  | inside hPart hMade hMem ih =>
      cases ih with
      | predefined hPredefined => exact absurd hMade hPredefined
      | made hOwn hMentions => exact hMentions _ hMem

----
-- Results of Reading
----

variable {archiver : Archiver}
variable {root : DSType}
variable {data : List UInt8}
variable {α β : Type}

/- A type is intact if it is written with the root. -/
def IntactIn
    (archiver : Archiver)
    (root type : DSType) : Prop :=
  Part archiver root type → Intact archiver type

theorem IntactIn.made
    {type : DSType}
    (hOwn : OwnSurvives type)
    (hMentions :
      ∀ e ∈ type.mentions, IntactIn archiver root e) :
    IntactIn archiver root type := by
  intro hPart
  by_cases hMade : archiver.predefined type = none
  · apply Intact.made hOwn
    intro e hMem
    exact hMentions e hMem (.inside hPart hMade hMem)
  · exact .predefined hMade

def IntactPool
    (archiver : Archiver)
    (root : DSType)
    (pool : TypePool) : Prop :=
  ∀ type ∈ pool.typeTable, IntactIn archiver root type

/- What stays so while a reader runs. -/
structure Settled
    (archiver : Archiver)
    (root : DSType)
    (state : Unarchiver) : Prop where
  pool : IntactPool archiver root state.pool
  pos_lt : state.pos < UINT_RANGE

/- A reader gives a value that has the property. -/
def Gives
    (archiver : Archiver)
    (root : DSType)
    (reader : Unarchive α)
    (property : α → Prop) : Prop :=
  ∀ (self self' : Unarchiver) (value : α),
    reader self = .ok (value, self') →
      Settled archiver root self →
        property value ∧ Settled archiver root self'

theorem bind_eq_ok
    {reader : Unarchive α}
    {f : α → Unarchive β}
    {self self'' : Unarchiver}
    {value : β} :
    (reader >>= f) self = .ok (value, self'') ↔
      ∃ first self',
        reader self = .ok (first, self') ∧
          f first self' = .ok (value, self'') := by
  show (reader self >>= fun p => f p.1 p.2) = _ ↔ _
  cases hFirst : reader self with
  | error e =>
      constructor
      · rintro ⟨⟩
      · rintro ⟨_, _, ⟨⟩, _⟩
  | ok found =>
      rcases found with ⟨first, self'⟩
      constructor
      · intro hEq
        exact ⟨first, self', rfl, hEq⟩
      · rintro ⟨_, _, hEq, hRest⟩
        cases hEq
        exact hRest

namespace Gives

theorem pure
    {property : α → Prop}
    {value : α}
    (hValue : property value) :
    Gives archiver root (Pure.pure value) property := by
  intro self self' found hEq hSelf
  cases hEq
  exact ⟨hValue, hSelf⟩

theorem throw
    {property : α → Prop}
    (fault : Fault) :
    Gives archiver root (MonadExcept.throw fault) property := by
  intro self self' found hEq
  cases hEq

theorem bind
    {reader : Unarchive α}
    {f : α → Unarchive β}
    {property : α → Prop}
    {property' : β → Prop}
    (hFirst : Gives archiver root reader property)
    (hRest :
      ∀ first, property first →
        Gives archiver root (f first) property') :
    Gives archiver root (reader >>= f) property' := by
  intro self self'' value hEq hSelf
  rcases bind_eq_ok.mp hEq with ⟨first, self', hRead, hNext⟩
  rcases hFirst self self' first hRead hSelf with
    ⟨hProperty, hSelf'⟩
  exact hRest first hProperty self' self'' value hNext hSelf'

/- A reader that leaves the pool as it is. -/
theorem of_pool_eq
    {reader : Unarchive α}
    {property : α → Prop}
    (hReader :
      ∀ (self self' : Unarchiver) (value : α),
        reader self = .ok (value, self') →
          self.pos < UINT_RANGE →
            property value ∧
              self'.pool = self.pool ∧ self'.pos < UINT_RANGE) :
    Gives archiver root reader property := by
  intro self self' value hEq hSelf
  rcases hReader self self' value hEq hSelf.pos_lt with
    ⟨hValue, hSame, hLt⟩
  refine ⟨hValue, ?_, hLt⟩
  rw [hSame]
  exact hSelf.pool

end Gives

----
-- Numbers
----

theorem next_eq_ok
    {self self' : Unarchiver}
    {ch : UInt8}
    (hEq : next data self = .ok (ch, self')) :
    self'.pool = self.pool ∧ self'.pos < UINT_RANGE := by
  unfold next at hEq
  split at hEq
  · cases hEq
    exact ⟨rfl, Nat.mod_lt _ (by decide)⟩
  · cases hEq

/- The bytes that a number is read from. -/
theorem readInto_eq_ok
    {n : Nat}
    {v w : BitVec 64}
    {self self' : Unarchiver}
    (hEq : readInto data n v self = .ok (w, self'))
    (hLt : self.pos < UINT_RANGE) :
    (self'.pool = self.pool ∧ self'.pos < UINT_RANGE) ∧
      ∃ bytes : List UInt8,
        bytes.length = n ∧ w = readFrom v bytes := by
  induction n generalizing v self with
  | zero =>
      cases hEq
      exact ⟨⟨rfl, hLt⟩, [], rfl, rfl⟩
  | succ n ih =>
      rcases bind_eq_ok.mp hEq with ⟨ch, after, hNext, hRest⟩
      rcases next_eq_ok hNext with ⟨hPool, hLt'⟩
      rcases ih hRest hLt' with ⟨hSame, bytes, hLength, hValue⟩
      rw [hPool] at hSame
      refine ⟨hSame, ch :: bytes, ?_, ?_⟩
      · rw [List.length_cons, hLength]
      · rw [hValue, ← hLength]
        rfl

theorem survives_writeN_readFrom
    {bytes : List UInt8}
    (hLe : bytes.length ≤ 8)
    {b : BitVec 64}
    (hBits :
      ∀ i < bytes.length * 8,
        b.getLsbD i = (readFrom 0#64 bytes).getLsbD i) :
    Survives (writeN bytes.length b) := by
  rw [writeN_congr hLe hBits, writeN_readFrom bytes hLe]
  exact survives_smear bytes

/- A number is cut to its width before it is written. -/
theorem getLsbD_cut
    {w i : Nat}
    (hLt : i < w)
    (hLe : w ≤ 64)
    (v : BitVec 64) :
    ((v.setWidth w).setWidth 64).getLsbD i = v.getLsbD i := by
  have hIn : i < 64 := by
    omega
  simp [hLt, hIn]

theorem read16_gives :
    Gives archiver root (read16 data) Keeps16 := by
  apply Gives.of_pool_eq
  intro self self' value hEq hLt
  rcases bind_eq_ok.mp hEq with ⟨v, after, hRead, hPure⟩
  cases hPure
  rcases readInto_eq_ok hRead hLt with
    ⟨hPool, bytes, hLength, hValue⟩
  refine ⟨?_, hPool⟩
  unfold Keeps16 write16
  rw [← hLength, hValue]
  apply survives_writeN_readFrom (by omega)
  intro i hBit
  rw [hLength] at hBit
  exact getLsbD_cut hBit (by decide) _

theorem read32_gives :
    Gives archiver root (read32 data) Keeps32 := by
  apply Gives.of_pool_eq
  intro self self' value hEq hLt
  rcases bind_eq_ok.mp hEq with ⟨v, after, hRead, hPure⟩
  cases hPure
  rcases readInto_eq_ok hRead hLt with
    ⟨hPool, bytes, hLength, hValue⟩
  refine ⟨?_, hPool⟩
  unfold Keeps32 write32
  rw [← hLength, hValue]
  apply survives_writeN_readFrom (by omega)
  intro i hBit
  rw [hLength] at hBit
  exact getLsbD_cut hBit (by decide) _

theorem read8_gives :
    Gives archiver root (read8 data) (fun _ => True) := by
  apply Gives.of_pool_eq
  intro self self' value hEq hLt
  rcases bind_eq_ok.mp hEq with ⟨v, after, hRead, hPure⟩
  cases hPure
  exact ⟨trivial, (readInto_eq_ok hRead hLt).1⟩

theorem readStr_gives :
    Gives archiver root (readStr data)
      (fun name => Keeps32 (UInt32.ofNat name.length)) := by
  apply Gives.bind read32_gives
  intro length hKeeps
  apply Gives.of_pool_eq
  intro self self' name hEq _
  unfold readBytes at hEq
  split_ifs at hEq with hIn
  cases hEq
  refine ⟨?_, rfl, Nat.mod_lt _ (by decide)⟩
  rw [List.length_take, List.length_drop, Nat.min_eq_left]
  · rw [UInt32.ofNat_toNat]
    exact hKeeps
  · omega

----
-- Types
----

theorem times_gives
    {one : Unarchive α}
    {property : α → Prop}
    (hOne : Gives archiver root one property)
    (n : Nat) :
    Gives archiver root (times one n)
      (fun values =>
        values.length = n ∧ ∀ value ∈ values, property value) := by
  induction n with
  | zero =>
      apply Gives.pure
      exact ⟨rfl, fun _ hMem => absurd hMem List.not_mem_nil⟩
  | succ n ih =>
      apply Gives.bind hOne
      intro first hFirst
      apply Gives.bind ih
      intro rest hRest
      apply Gives.pure
      refine ⟨?_, ?_⟩
      · rw [List.length_cons, hRest.1]
      · intro value hMem
        rcases List.mem_cons.mp hMem with rfl | hIn
        · exact hFirst
        · exact hRest.2 value hIn

theorem findOrAdd_intact
    {pool pool' : TypePool}
    {type type' : DSType}
    (hPool : IntactPool archiver root pool)
    (hType : IntactIn archiver root type)
    (hEq : pool.findOrAdd type = (pool', type')) :
    IntactIn archiver root type' ∧ IntactPool archiver root pool' := by
  unfold TypePool.findOrAdd at hEq
  split_ifs at hEq
  · cases hEq
    exact ⟨hType, hPool⟩
  · cases hEq
    refine ⟨hType, ?_⟩
    intro found hMem
    rcases List.mem_append.mp hMem with hOld | hNew
    · exact hPool found hOld
    · rw [List.mem_singleton.mp hNew]
      exact hType

theorem create_gives
    {make : TypePool → Option (TypePool × DSType)}
    (hMake :
      ∀ (pool pool' : TypePool) (type : DSType),
        make pool = some (pool', type) →
          IntactPool archiver root pool →
            IntactIn archiver root type ∧ IntactPool archiver root pool') :
    Gives archiver root (create make) (IntactIn archiver root) := by
  intro self self' value hEq hSelf
  unfold create at hEq
  split at hEq
  · rename_i pool type hFound
    cases hEq
    rcases hMake _ _ _ hFound hSelf.pool with ⟨hType, hPool⟩
    exact ⟨hType, hPool, hSelf.pos_lt⟩
  · cases hEq

theorem createArrayType_gives
    {e : DSType}
    (hType : IntactIn archiver root e) :
    Gives archiver root (create (fun pool => pool.createArrayType e))
      (IntactIn archiver root) := by
  apply create_gives
  intro pool pool' type hEq hPool
  unfold TypePool.createArrayType at hEq
  split_ifs at hEq
  apply findOrAdd_intact hPool _ (Option.some.inj hEq)
  apply IntactIn.made
  · trivial
  · intro found hMem
    rw [List.mem_singleton.mp hMem]
    exact hType

theorem createMapType_gives
    {k v : DSType}
    (hKey : IntactIn archiver root k)
    (hValue : IntactIn archiver root v) :
    Gives archiver root (create (fun pool => pool.createMapType k v))
      (IntactIn archiver root) := by
  apply create_gives
  intro pool pool' type hEq hPool
  unfold TypePool.createMapType at hEq
  split_ifs at hEq
  apply findOrAdd_intact hPool _ (Option.some.inj hEq)
  apply IntactIn.made
  · trivial
  · intro found hMem
    rcases List.mem_cons.mp hMem with rfl | hIn
    · exact hKey
    · rw [List.mem_singleton.mp hIn]
      exact hValue

theorem createTupleType_gives
    {es : List DSType}
    (hTypes : ∀ e ∈ es, IntactIn archiver root e) :
    Gives archiver root (create (fun pool => pool.createTupleType es))
      (IntactIn archiver root) := by
  apply create_gives
  intro pool pool' type hEq hPool
  unfold TypePool.createTupleType at hEq
  split_ifs at hEq
  apply findOrAdd_intact hPool _ (Option.some.inj hEq)
  apply IntactIn.made
  · trivial
  · exact hTypes

theorem createOptionType_gives
    {e : DSType}
    (hType : IntactIn archiver root e) :
    Gives archiver root (create (fun pool => pool.createOptionType e))
      (IntactIn archiver root) := by
  apply create_gives
  intro pool pool' type hEq hPool
  unfold TypePool.createOptionType at hEq
  split_ifs at hEq
  · cases hEq
    exact ⟨hType, hPool⟩
  · apply findOrAdd_intact hPool _ (Option.some.inj hEq)
    apply IntactIn.made
    · trivial
    · intro found hMem
      rw [List.mem_singleton.mp hMem]
      exact hType

theorem createFuncType_gives
    {r : DSType}
    {ps : List DSType}
    (hReturn : IntactIn archiver root r)
    (hParams : ∀ e ∈ ps, IntactIn archiver root e) :
    Gives archiver root (create (fun pool => pool.createFuncType r ps))
      (IntactIn archiver root) := by
  apply create_gives
  intro pool pool' type hEq hPool
  unfold TypePool.createFuncType at hEq
  split_ifs at hEq
  apply findOrAdd_intact hPool _ (Option.some.inj hEq)
  apply IntactIn.made
  · trivial
  · intro found hMem
    rcases List.mem_cons.mp hMem with rfl | hIn
    · exact hReturn
    · exact hParams found hIn

theorem createModType_gives
    {modID : UInt16}
    {index : UInt32}
    {children : List (ImportedModEntry DSType)}
    {handleMap : HandleMap}
    (hOwn : ModSurvives modID index children handleMap)
    (hTypes : ∀ e ∈ handleMap, IntactIn archiver root e.2.type) :
    Gives archiver root
      (create
        (fun pool =>
          some
            (pool.createModType modID handleMap children index)))
      (IntactIn archiver root) := by
  apply create_gives
  intro pool pool' type hEq hPool
  have hType :
      IntactIn archiver root
        (.module modID index children handleMap) := by
    apply IntactIn.made
    · exact hOwn
    · intro found hMem
      rcases List.mem_map.mp hMem with ⟨e, hIn, rfl⟩
      exact hTypes e hIn
  have hCreate := Option.some.inj hEq
  unfold TypePool.createModType at hCreate
  split at hCreate
  · rename_i old hFound
    cases hCreate
    exact ⟨hPool _ (List.mem_of_find?_eq_some hFound), hPool⟩
  · cases hCreate
    refine ⟨hType, ?_⟩
    intro found hMem
    rcases List.mem_append.mp hMem with hOld | hNew
    · exact hPool found hOld
    · rw [List.mem_singleton.mp hNew]
      exact hType

theorem readPredefined_gives :
    Gives archiver root (readPredefined data) (IntactIn archiver root) := by
  apply Gives.bind read8_gives
  intro id _ self self' value hEq hSelf
  rcases bind_eq_ok.mp hEq with ⟨now, _, hGet, hRest⟩
  cases hGet
  cases hFound : self.pool.get id.toNat with
  | none =>
      simp only [hFound] at hRest
      cases hRest
  | some type =>
      simp only [hFound] at hRest
      cases hRest
      exact
        ⟨hSelf.pool _ (List.mem_of_getElem? hFound), hSelf⟩

theorem getModID_of_isModTypeOf
    {modID : UInt16}
    {type : DSType}
    (hIs : type.isModTypeOf modID = true) :
    type.getModID = modID := by
  cases type with
  | module modID' index children handleMap =>
      exact beq_iff_eq.mp hIs
  | _ => cases hIs

theorem readChild_gives :
    Gives archiver root (readChild data)
      (fun e => Keeps16 e.type.getModID) := by
  apply Gives.bind read8_gives
  intro isGlobal _
  apply Gives.bind read16_gives
  intro modID hKeeps self self' value hEq hSelf
  rcases bind_eq_ok.mp hEq with ⟨now, _, hGet, hRest⟩
  cases hGet
  cases hFound : self.pool.getModTypeById modID with
  | none =>
      simp only [hFound] at hRest
      cases hRest
  | some type =>
      simp only [hFound] at hRest
      cases hRest
      refine ⟨?_, hSelf⟩
      have hIs := List.find?_some hFound
      show Keeps16 type.getModID
      rw [getModID_of_isModTypeOf hIs]
      exact hKeeps

section Nested

variable {unpackType : Unarchive DSType}
variable (hUnpack : Gives archiver root unpackType (IntactIn archiver root))

include hUnpack

theorem unpackHandle_gives :
    Gives archiver root (unpackHandle data unpackType)
      (fun handle =>
        HeadSurvives handle ∧ IntactIn archiver root handle.type) := by
  apply Gives.bind read32_gives
  intro commitID hCommit
  apply Gives.bind read32_gives
  intro index hIndex
  apply Gives.bind read16_gives
  intro attr hAttr
  apply Gives.bind read16_gives
  intro modID hModID
  apply Gives.bind hUnpack
  intro type hType
  apply Gives.pure
  exact ⟨⟨hCommit, hIndex, hAttr, hModID⟩, hType⟩

/- What holds of an entry of a handle map that was read. -/
def EntrySurvives
    (archiver : Archiver)
    (root : DSType)
    (e : List UInt8 × FieldHandle DSType) : Prop :=
  Keeps32 (UInt32.ofNat e.1.length) ∧
    HeadSurvives e.2 ∧ IntactIn archiver root e.2.type

theorem readHandles_gives
    (n : Nat)
    {handleMap : HandleMap}
    (hMap : ∀ e ∈ handleMap, EntrySurvives archiver root e) :
    Gives archiver root (readHandles data unpackType n handleMap)
      (fun handleMap' =>
        handleMap'.length = handleMap.length + n ∧
          ∀ e ∈ handleMap', EntrySurvives archiver root e) := by
  induction n generalizing handleMap with
  | zero =>
      apply Gives.pure
      exact ⟨rfl, hMap⟩
  | succ n ih =>
      apply Gives.bind readStr_gives
      intro name hName
      apply Gives.bind (unpackHandle_gives hUnpack)
      intro handle hHandle
      split_ifs
      · exact Gives.throw _
      · have hMap' :
            ∀ e ∈ handleMap ++ [(name, handle)],
              EntrySurvives archiver root e := by
          intro e hMem
          rcases List.mem_append.mp hMem with hOld | hNew
          · exact hMap e hOld
          · rw [List.mem_singleton.mp hNew]
            exact ⟨hName, hHandle⟩
        have hRest := ih hMap'
        rw [List.length_append, List.length_singleton,
          Nat.add_assoc, Nat.add_comm 1] at hRest
        exact hRest

theorem readModType_gives :
    Gives archiver root (readModType data unpackType)
      (IntactIn archiver root) := by
  apply Gives.bind read16_gives
  intro modID hModID
  apply Gives.bind read32_gives
  intro index hIndex
  apply Gives.bind read16_gives
  intro childSize hChildSize
  apply Gives.bind (times_gives readChild_gives _)
  intro children hChildren
  apply Gives.bind read32_gives
  intro len hLen
  apply
    Gives.bind
      (readHandles_gives hUnpack _
        (fun _ hMem => absurd hMem List.not_mem_nil))
  intro handleMap hMap
  rw [List.length_nil, Nat.zero_add] at hMap
  apply createModType_gives
  · constructor
    · exact hModID
    · exact hIndex
    · rw [hChildren.1, UInt16.ofNat_toNat]
      exact hChildSize
    · exact hChildren.2
    · rw [hMap.1, UInt32.ofNat_toNat]
      exact hLen
    · exact fun e hMem => (hMap.2 e hMem).1
    · exact fun e hMem => (hMap.2 e hMem).2.1
  · exact fun e hMem => (hMap.2 e hMem).2.2

theorem unpackKind_gives (k : UInt8) :
    Gives archiver root (unpackKind data unpackType k)
      (IntactIn archiver root) := by
  unfold unpackKind
  split_ifs
  · exact readPredefined_gives
  · exact
      Gives.bind hUnpack (fun _ hType => createArrayType_gives hType)
  · apply Gives.bind hUnpack
    intro key hKey
    exact
      Gives.bind hUnpack
        (fun _ hValue => createMapType_gives hKey hValue)
  · apply Gives.bind read8_gives
    intro n _
    exact
      Gives.bind (times_gives hUnpack _)
        (fun _ hTypes => createTupleType_gives hTypes.2)
  · exact
      Gives.bind hUnpack
        (fun _ hType => createOptionType_gives hType)
  · apply Gives.bind hUnpack
    intro retType hReturn
    apply Gives.bind read8_gives
    intro n _
    exact
      Gives.bind (times_gives hUnpack _)
        (fun _ hTypes => createFuncType_gives hReturn hTypes.2)
  · exact readModType_gives hUnpack
  · exact Gives.throw _

end Nested

theorem unpackType_gives (limit : Nat) :
    Gives archiver root (unpackType data limit) (IntactIn archiver root) := by
  induction limit with
  | zero => exact Gives.throw _
  | succ limit ih =>
      exact
        Gives.bind read8_gives (fun k _ => unpackKind_gives ih k)

/- The numbers of a handle that is read survive. -/
theorem unpack_gives
    {pool : TypePool}
    {handle : FieldHandle DSType}
    {self : Unarchiver}
    (hPool : IntactPool archiver root pool)
    (hUnpack : unpack data pool = .ok (handle, self)) :
    (HeadSurvives handle ∧ IntactIn archiver root handle.type) ∧
      self.pos < UINT_RANGE := by
  have hStart : Settled archiver root ⟨pool, 0⟩ :=
    ⟨hPool, (by decide : 0 < UINT_RANGE)⟩
  rcases
      unpackHandle_gives (unpackType_gives _) _ _ _ hUnpack
        hStart with
    ⟨hHandle, hSelf⟩
  exact ⟨hHandle, hSelf.pos_lt⟩

end Archive

end Ydsh
