import Ydsh.Archive.Reading

/-
  Archives are read back.

  A handle is read back as it was written if the numbers of the
  archive survive.  Where none of the types that the pool had
  before holds a number that does not, this is the only way.

  Main declarations:
    * `Archiver.addTypes_eq`
    * `unpackType_reads`
    * `ReadsBack`
    * `readsBack_of_survivable`
    * `survivable_of_readsBack`
-/

----
-- Bytes That Are Written
----

namespace Ydsh

namespace Archive

theorem write8_eq (b : UInt8) : write8 b = [b] := by
  unfold write8
  rw [writeN_succ (by decide)]
  have hByte : byteAt (b.toBitVec.setWidth 64) 0 = b := by
    unfold byteAt
    have hBits :
        (b.toBitVec.setWidth 64).extractLsb' (0 * 8) 8 =
          b.toBitVec := by
      apply BitVec.eq_of_getLsbD_eq
      intro i hLt
      have hIn : i < 64 := by
        omega
      rw [BitVec.getLsbD_extractLsb', BitVec.getLsbD_setWidth]
      simp [hLt, hIn]
    rw [hBits, UInt8.ofBitVec_toBitVec]
  rw [hByte]
  rfl

theorem flatMap_write8 (str : List UInt8) :
    str.flatMap write8 = str := by
  have hEach : str.flatMap write8 = str.flatMap (fun b => [b]) :=
    List.flatMap_congr (fun b _ => write8_eq b)
  rw [hEach, List.flatMap_singleton']

theorem write_eq (str : List UInt8) :
    write str = write32 (UInt32.ofNat str.length) ++ str := by
  unfold write
  rw [flatMap_write8]

namespace Archiver

theorem addTypes_eq
    (archiver : Archiver)
    (es : List DSType) :
    archiver.addTypes es = es.flatMap archiver.add := by
  induction es with
  | nil => rfl
  | cons e es ih =>
      unfold addTypes
      rw [ih, List.flatMap_cons]

theorem addHandles_eq
    (archiver : Archiver)
    (es : HandleMap) :
    archiver.addHandles es = es.flatMap archiver.addEntry := by
  induction es with
  | nil => rfl
  | cons e es ih =>
      unfold addHandles
      rw [ih, List.flatMap_cons]

theorem length_le_addHandles
    (archiver : Archiver)
    (es : HandleMap) :
    es.length ≤ (archiver.addHandles es).length := by
  induction es with
  | nil => exact Nat.zero_le _
  | cons e es ih =>
      unfold addHandles addEntry
      rw [write_eq]
      simp only [List.length_append, List.length_cons, write32,
        writeN_length]
      omega

/- A predefined type is written as its id. -/
theorem add_of_predefined
    {archiver : Archiver}
    {type : DSType}
    {id : Nat}
    (hId : archiver.predefined type = some id) :
    archiver.add type = addPredefined id := by
  have hOr (bytes : List UInt8) :
      archiver.addOr type bytes = addPredefined id := by
    unfold addOr
    rw [hId]
    rfl
  cases type <;> exact hOr _

theorem addOr_of_made
    {archiver : Archiver}
    {type : DSType}
    (hMade : archiver.predefined type = none)
    (bytes : List UInt8) :
    archiver.addOr type bytes = bytes := by
  unfold addOr
  rw [hMade]
  rfl

theorem predefined_eq_some
    {archiver : Archiver}
    {type : DSType}
    {id : Nat}
    (hId : archiver.predefined type = some id) :
    archiver.pool.get id = some type ∧
      id < archiver.builtinTypeIdCount ∧ id < 256 := by
  rcases Option.filter_eq_some_iff.mp hId with ⟨hFound, hBelow⟩
  rw [Bool.and_eq_true, decide_eq_true_eq,
    decide_eq_true_eq] at hBelow
  rcases List.findIdx?_eq_some_iff_getElem.mp hFound with
    ⟨hLt, hEq, _⟩
  refine ⟨?_, hBelow.1, ?_⟩
  · unfold TypePool.get
    rw [List.getElem?_eq_getElem hLt, beq_iff_eq.mp hEq]
  · exact
      Nat.lt_of_lt_of_le hBelow.1
        (Nat.le_trans hBelow.2 (by decide))

end Archiver

----
-- Names and Lists
----

variable {archiver : Archiver}
variable {root : DSType}
variable {data : List UInt8}
variable {α : Type}

theorem readBytes_reads
    (hFits : data.length < UINT_RANGE)
    (bytes : List UInt8) :
    Reads archiver root data (readBytes data bytes.length) bytes
      bytes := by
  intro before rest pool hData hHeld
  refine ⟨pool, ?_, hHeld⟩
  have hLength :
      before.length + bytes.length + rest.length =
        data.length := by
    rw [hData, List.length_append, List.length_append]
    omega
  have hIn :
      before.length + bytes.length ≤ (terminated data).length := by
    unfold terminated
    rw [List.length_append, List.length_singleton]
    omega
  unfold readBytes
  dsimp only
  rw [if_pos hIn]
  have hText :
      ((terminated data).drop before.length).take bytes.length =
        bytes := by
    unfold terminated
    rw [hData, List.append_assoc, List.drop_left,
      List.append_assoc, List.take_left]
  rw [hText, List.length_append, Nat.mod_eq_of_lt (by omega)]

theorem toNat_of_fits
    {n : Nat}
    (hLt : n < UINT_RANGE) :
    (UInt32.ofNat n).toNat = n :=
  UInt32.toNat_ofNat_of_lt' hLt

theorem readStr_reads
    (hFits : data.length < UINT_RANGE)
    {name : List UInt8}
    (hKeeps : Keeps32 (UInt32.ofNat name.length)) :
    Reads archiver root data (readStr data) (write name) name := by
  apply Reads.of_length_le
  intro hLe
  rw [write_eq] at hLe ⊢
  rw [List.length_append] at hLe
  apply (read32_reads hFits hKeeps).bind
  rw [toNat_of_fits (by omega)]
  exact readBytes_reads hFits name

theorem times_reads
    {one : Unarchive α}
    {write : α → List UInt8}
    {xs : List α}
    (hEach : ∀ x ∈ xs, Reads archiver root data one (write x) x) :
    Reads archiver root data (times one xs.length)
      (xs.flatMap write) xs := by
  induction xs with
  | nil => exact .pure []
  | cons x xs ih =>
      rw [List.flatMap_cons]
      apply (hEach x List.mem_cons_self).bind
      apply Reads.bind_nil
      · exact ih (fun y hMem => hEach y (List.mem_cons_of_mem _ hMem))
      · exact .pure _

theorem create_reads
    {make : TypePool → Option (TypePool × DSType)}
    {type : DSType}
    (hMake :
      ∀ pool, Held archiver root pool →
        ∃ pool',
          make pool = some (pool', type) ∧
            Held archiver root pool') :
    Reads archiver root data (create make) [] type := by
  intro before rest pool _ hHeld
  rcases hMake pool hHeld with ⟨pool', hEq, hHeld'⟩
  rw [List.append_nil]
  refine ⟨pool', ?_, hHeld'⟩
  unfold create
  simp only [hEq]

theorem unpackHandle_reads
    (hFits : data.length < UINT_RANGE)
    {unpackType : Unarchive DSType}
    {handle : FieldHandle DSType}
    (hHead : HeadSurvives handle)
    (hType :
      Reads archiver root data unpackType
        (archiver.add handle.type) handle.type) :
    Reads archiver root data (unpackHandle data unpackType)
      (archiver.addHandle handle) handle := by
  unfold Archiver.addHandle
  rw [List.append_assoc, List.append_assoc, List.append_assoc]
  apply (read32_reads hFits hHead.commitID).bind
  apply (read32_reads hFits hHead.index).bind
  apply (read16_reads hFits hHead.attr).bind
  apply (read16_reads hFits hHead.modID).bind
  exact hType.bind_nil (.pure _)

/- Names that are apart are read into a map. -/
theorem readHandles_reads
    (hFits : data.length < UINT_RANGE)
    {unpackType : Unarchive DSType}
    {es handleMap : HandleMap}
    (hNames : ((handleMap ++ es).map Prod.fst).Nodup)
    (hSizes :
      ∀ e ∈ es, Keeps32 (UInt32.ofNat e.1.length))
    (hHeads : ∀ e ∈ es, HeadSurvives e.2)
    (hTypes :
      ∀ e ∈ es,
        Reads archiver root data unpackType
          (archiver.add e.2.type) e.2.type) :
    Reads archiver root data
      (readHandles data unpackType es.length handleMap)
      (archiver.addHandles es) (handleMap ++ es) := by
  induction es generalizing handleMap with
  | nil =>
      rw [List.append_nil]
      exact .pure handleMap
  | cons e es ih =>
      rcases e with ⟨name, handle⟩
      have hNew : name ∉ handleMap.map Prod.fst := by
        rw [List.map_append, List.nodup_append] at hNames
        intro hMem
        exact
          hNames.2.2 name hMem name
            (List.mem_map_of_mem List.mem_cons_self) rfl
      have hApart :
          (((handleMap ++ [(name, handle)]) ++ es).map
            Prod.fst).Nodup := by
        rw [List.append_assoc]
        exact hNames
      have hRest :=
        ih hApart
          (fun x hMem => hSizes x (List.mem_cons_of_mem _ hMem))
          (fun x hMem => hHeads x (List.mem_cons_of_mem _ hMem))
          (fun x hMem => hTypes x (List.mem_cons_of_mem _ hMem))
      rw [List.append_assoc, List.singleton_append] at hRest
      unfold Archiver.addHandles Archiver.addEntry
      rw [List.append_assoc]
      apply
        (readStr_reads hFits (hSizes _ List.mem_cons_self)).bind
      apply
        (unpackHandle_reads hFits (hHeads _ List.mem_cons_self)
          (hTypes _ List.mem_cons_self)).bind
      rw [if_neg hNew]
      exact hRest

----
-- Types
----

theorem readPredefined_reads
    (hFits : data.length < UINT_RANGE)
    {type : DSType}
    {id : Nat}
    (hId : archiver.predefined type = some id) :
    Reads archiver root data (readPredefined data)
      (write8 (UInt8.ofNat id)) type := by
  rcases Archiver.predefined_eq_some hId with
    ⟨hGet, hLt, hByte⟩
  apply (read8_reads hFits _).bind_nil
  intro before rest pool _ hHeld
  rw [List.append_nil]
  refine ⟨pool, ?_, hHeld⟩
  have hFound := hHeld.predefined id hLt type hGet
  rw [UInt8.toNat_ofNat_of_lt' hByte]
  apply bind_eq_ok.mpr
  refine ⟨⟨pool, before.length⟩, _, rfl, ?_⟩
  simp only [hFound]
  rfl

theorem readChild_reads
    (hFits : data.length < UINT_RANGE)
    {part : DSType}
    (hPart : Part archiver root part)
    (hMade : archiver.predefined part = none)
    {e : ImportedModEntry DSType}
    (hMem : e ∈ part.children)
    (hKeeps : Keeps16 e.type.getModID) :
    Reads archiver root data (readChild data)
      (Archiver.addChild e) e := by
  apply (read8_reads hFits _).bind
  apply (read16_reads hFits hKeeps).bind_nil
  intro before rest pool _ hHeld
  rw [List.append_nil]
  refine ⟨pool, ?_, hHeld⟩
  have hFound := hHeld.children part hPart hMade e hMem
  apply bind_eq_ok.mpr
  refine ⟨⟨pool, before.length⟩, _, rfl, ?_⟩
  simp only [hFound]
  rcases e with ⟨type, isGlobal⟩
  cases isGlobal <;> rfl

/- The tag of a type leads to the reader for its kind. -/
theorem unpackType_of_kind
    (hFits : data.length < UINT_RANGE)
    {limit : Nat}
    {t : ArchiveType}
    {bytes : List UInt8}
    {type : DSType}
    (hKind :
      Reads archiver root data
        (unpackKind data (unpackType data limit) t.code) bytes
        type) :
    Reads archiver root data (unpackType data (limit + 1))
      (writeT t ++ bytes) type :=
  (read8_reads hFits t.code).bind hKind

theorem findOrAdd_reads
    {type : DSType}
    (hBuilt : Built archiver root)
    (hPart : Part archiver root type)
    (hMade : archiver.predefined type = none)
    {make : TypePool → Option (TypePool × DSType)}
    (hMake : ∀ pool, make pool = some (pool.findOrAdd type)) :
    Reads archiver root data (create make) [] type := by
  apply create_reads
  intro pool hHeld
  rcases hHeld.findOrAdd hBuilt hPart hMade with
    ⟨pool', hEq, hHeld'⟩
  refine ⟨pool', ?_, hHeld'⟩
  rw [hMake, hEq]

theorem createModType_reads
    {modID : UInt16}
    {index : UInt32}
    {children : List (ImportedModEntry DSType)}
    {handleMap : HandleMap}
    (hBuilt : Built archiver root)
    (hPart :
      Part archiver root
        (.module modID index children handleMap))
    (hMade :
      archiver.predefined
          (.module modID index children handleMap) =
        none) :
    Reads archiver root data
      (create
        (fun pool =>
          some
            (pool.createModType modID handleMap children index)))
      [] (.module modID index children handleMap) := by
  apply create_reads
  intro pool hHeld
  unfold TypePool.createModType
  cases hOld : pool.getModTypeById modID with
  | some old =>
      have hSame := hHeld.same _ hPart hMade rfl old hOld
      rw [hSame]
      exact ⟨pool, rfl, hHeld⟩
  | none => exact ⟨_, rfl, hHeld.append hBuilt hPart hMade⟩

section Nested

variable {unpackType : Unarchive DSType}

theorem readModType_reads
    (hFits : data.length < UINT_RANGE)
    {modID : UInt16}
    {index : UInt32}
    {children : List (ImportedModEntry DSType)}
    {handleMap : HandleMap}
    (hBuilt : Built archiver root)
    (hPart :
      Part archiver root
        (.module modID index children handleMap))
    (hMade :
      archiver.predefined
          (.module modID index children handleMap) =
        none)
    (hKeeps : ModSurvives modID index children handleMap)
    (hTypes :
      ∀ e ∈ handleMap,
        Reads archiver root data unpackType
          (archiver.add e.2.type) e.2.type) :
    Reads archiver root data (readModType data unpackType)
      (write16 modID ++ (write32 index ++
        (write16 (UInt16.ofNat children.length) ++
          (children.flatMap Archiver.addChild ++
            (write32 (UInt32.ofNat handleMap.length) ++
              archiver.addHandles handleMap)))))
      (.module modID index children handleMap) := by
  have hSound := hBuilt _ hPart hMade
  apply Reads.of_length_le
  intro hLe
  have hSize := archiver.length_le_addHandles handleMap
  simp only [List.length_append] at hLe
  apply (read16_reads hFits hKeeps.modID).bind
  apply (read32_reads hFits hKeeps.index).bind
  apply (read16_reads hFits hKeeps.childSize).bind
  rw [UInt16.toNat_ofNat_of_lt' (Nat.lt_succ_of_le hSound.1)]
  apply Reads.bind
  · apply times_reads
    intro e hMem
    exact
      readChild_reads hFits hPart hMade hMem
        (hKeeps.children e hMem)
  · apply (read32_reads hFits hKeeps.size).bind
    rw [toNat_of_fits (by omega)]
    apply Reads.bind_nil
    · exact
        readHandles_reads hFits hSound.2.1 hKeeps.names
          hKeeps.handles hTypes
    · exact createModType_reads hBuilt hPart hMade

theorem length_le_of_check
    {es : List DSType}
    (hCheck : DSType.checkElementTypes 255 es = true) :
    es.length ≤ 255 := by
  unfold DSType.checkElementTypes at hCheck
  rw [Bool.and_eq_true, decide_eq_true_eq] at hCheck
  exact hCheck.1

theorem typeList_reads
    (hFits : data.length < UINT_RANGE)
    {es : List DSType}
    (hSize : es.length ≤ 255)
    (hTypes :
      ∀ e ∈ es,
        Reads archiver root data unpackType (archiver.add e) e)
    {f : List DSType → Unarchive DSType}
    {type : DSType}
    (hRest : Reads archiver root data (f es) [] type) :
    Reads archiver root data
      (do
        let n ← read8 data
        let types ← times unpackType n.toNat
        f types)
      (write8 (UInt8.ofNat es.length) ++ archiver.addTypes es)
      type := by
  apply (read8_reads hFits _).bind
  rw [UInt8.toNat_ofNat_of_lt' (Nat.lt_succ_of_le hSize),
    archiver.addTypes_eq]
  exact (times_reads hTypes).bind_nil hRest

/- The tag of a made type and the bytes after it. -/
theorem unpackKind_of_made
    (hFits : data.length < UINT_RANGE)
    (hBuilt : Built archiver root)
    {type : DSType}
    (hPart : Part archiver root type)
    (hMade : archiver.predefined type = none)
    (hOwn : OwnSurvives type)
    (hTypes :
      ∀ e ∈ type.mentions,
        Reads archiver root data unpackType (archiver.add e) e) :
    ∃ (t : ArchiveType) (bytes : List UInt8),
      archiver.add type = writeT t ++ bytes ∧
        Reads archiver root data
          (unpackKind data unpackType t.code) bytes type := by
  have hSound := hBuilt type hPart hMade
  cases type with
  | builtin names => exact absurd hSound id
  | array e =>
      have hCheck : e.isAcceptable "Any" = true := hSound
      refine ⟨.ARRAY, _, Archiver.addOr_of_made hMade _, ?_⟩
      apply (hTypes e List.mem_cons_self).bind_nil
      apply findOrAdd_reads hBuilt hPart hMade
      intro pool
      unfold TypePool.createArrayType
      rw [if_pos hCheck]
  | map k v =>
      have hCheck := Bool.and_eq_true_iff.mpr hSound
      refine
        ⟨.MAP, archiver.add k ++ archiver.add v, ?_, ?_⟩
      · rw [← List.append_assoc]
        exact Archiver.addOr_of_made hMade _
      · apply (hTypes k List.mem_cons_self).bind
        apply
          (hTypes v
            (List.mem_cons_of_mem _ List.mem_cons_self)).bind_nil
        apply findOrAdd_reads hBuilt hPart hMade
        intro pool
        unfold TypePool.createMapType
        rw [if_pos hCheck]
  | tuple es =>
      have hCheck :
          DSType.checkElementTypes SYS_LIMIT_TUPLE_NUM es = true :=
        hSound
      refine
        ⟨.TUPLE,
          write8 (UInt8.ofNat es.length) ++ archiver.addTypes es,
          ?_, ?_⟩
      · rw [← List.append_assoc]
        exact Archiver.addOr_of_made hMade _
      · apply typeList_reads hFits (length_le_of_check hCheck) hTypes
        apply findOrAdd_reads hBuilt hPart hMade
        intro pool
        unfold TypePool.createTupleType
        rw [if_pos hCheck]
  | option e =>
      refine ⟨.OPTION, _, Archiver.addOr_of_made hMade _, ?_⟩
      apply (hTypes e List.mem_cons_self).bind_nil
      apply findOrAdd_reads hBuilt hPart hMade
      intro pool
      unfold TypePool.createOptionType
      rw [hSound.1, hSound.2]
      rfl
  | function r ps =>
      have hCheck :
          DSType.checkElementTypes SYS_LIMIT_FUNC_PARAM_NUM ps =
            true :=
        hSound
      refine
        ⟨.FUNC,
          archiver.add r ++
            (write8 (UInt8.ofNat ps.length) ++
              archiver.addTypes ps), ?_, ?_⟩
      · rw [← List.append_assoc, ← List.append_assoc]
        exact Archiver.addOr_of_made hMade _
      · apply (hTypes r List.mem_cons_self).bind
        apply
          typeList_reads hFits (length_le_of_check hCheck)
            (fun e hMem => hTypes e (List.mem_cons_of_mem _ hMem))
        apply findOrAdd_reads hBuilt hPart hMade
        intro pool
        unfold TypePool.createFuncType
        rw [if_pos hCheck]
  | module modID index children handleMap =>
      have hAdd :
          archiver.add (.module modID index children handleMap) =
            _ :=
        Archiver.addOr_of_made hMade _
      simp only [List.append_assoc] at hAdd
      refine ⟨.MOD, _, hAdd, ?_⟩
      exact
        readModType_reads hFits hBuilt hPart hMade hOwn
          (fun e hMem => hTypes _ (List.mem_map_of_mem hMem))

end Nested

theorem mentions_induct
    {motive : DSType → Prop}
    (made :
      ∀ type, (∀ e ∈ type.mentions, motive e) → motive type)
    (type : DSType) :
    motive type := by
  induction type using DSType.induct with
  | builtin names =>
      apply made
      exact fun _ hMem => absurd hMem List.not_mem_nil
  | array e ih | option e ih =>
      apply made
      intro found hMem
      rw [List.mem_singleton.mp hMem]
      exact ih
  | map k v ihKey ihValue =>
      apply made
      intro found hMem
      rcases List.mem_cons.mp hMem with rfl | hIn
      · exact ihKey
      · rw [List.mem_singleton.mp hIn]
        exact ihValue
  | tuple es ih => exact made _ ih
  | function r ps ihReturn ih =>
      apply made
      intro found hMem
      rcases List.mem_cons.mp hMem with rfl | hIn
      · exact ihReturn
      · exact ih found hIn
  | module modID index children handleMap _ ih =>
      apply made
      intro found hMem
      rcases List.mem_map.mp hMem with ⟨e, hIn, rfl⟩
      exact ih e hIn

theorem length_le_flatMap
    {f : α → List UInt8}
    {x : α}
    {xs : List α}
    (hMem : x ∈ xs) :
    (f x).length ≤ (xs.flatMap f).length := by
  rw [List.flatMap_def]
  apply List.Sublist.length_le
  exact List.sublist_flatten_of_mem (List.mem_map_of_mem hMem)

theorem writeT_length (t : ArchiveType) :
    (writeT t).length = 1 :=
  writeN_length 1 _

theorem add_length_pos
    {type : DSType}
    (hMade : archiver.predefined type = none)
    (hSound : Sound archiver type) :
    0 < (archiver.add type).length := by
  cases type with
  | builtin names => exact absurd hSound id
  | _ =>
      unfold Archiver.add
      rw [Archiver.addOr_of_made hMade]
      simp only [List.length_append, writeT_length]
      omega

/- The types that a type holds are written in fewer bytes. -/
theorem add_length_lt
    {type e : DSType}
    (hMade : archiver.predefined type = none)
    (hMem : e ∈ type.mentions) :
    (archiver.add e).length < (archiver.add type).length := by
  cases type with
  | builtin names => exact absurd hMem List.not_mem_nil
  | array e' | option e' =>
      rw [List.mem_singleton.mp hMem, Archiver.add,
        Archiver.addOr_of_made hMade, List.length_append,
        writeT_length]
      omega
  | map k v =>
      rw [Archiver.add, Archiver.addOr_of_made hMade,
        List.length_append, List.length_append, writeT_length]
      rcases List.mem_cons.mp hMem with rfl | hIn
      · omega
      · rw [List.mem_singleton.mp hIn]
        omega
  | tuple es =>
      have hIn : e ∈ es := hMem
      have hLe := length_le_flatMap (f := archiver.add) hIn
      rw [Archiver.add, Archiver.addOr_of_made hMade,
        Archiver.addTypes_eq, List.length_append,
        List.length_append, writeT_length]
      omega
  | function r ps =>
      rw [Archiver.add, Archiver.addOr_of_made hMade,
        Archiver.addTypes_eq, List.length_append,
        List.length_append, List.length_append, writeT_length]
      rcases List.mem_cons.mp hMem with rfl | hIn
      · omega
      · have hLe := length_le_flatMap (f := archiver.add) hIn
        omega
  | module modID index children handleMap =>
      rcases List.mem_map.mp hMem with ⟨⟨name, handle⟩, hIn, rfl⟩
      have hLe := length_le_flatMap (f := archiver.addEntry) hIn
      have hEntry :
          (archiver.add handle.type).length ≤
            (archiver.addEntry (name, handle)).length := by
        unfold Archiver.addEntry Archiver.addHandle
        simp only [List.length_append]
        omega
      dsimp only
      rw [Archiver.add, Archiver.addOr_of_made hMade,
        Archiver.addHandles_eq]
      simp only [List.length_append, writeT_length]
      omega

/- A type is read from the bytes it is written as. -/
theorem unpackType_reads
    (hFits : data.length < UINT_RANGE)
    (hBuilt : Built archiver root)
    (hIntact : Intact archiver root)
    {type : DSType}
    (hPart : Part archiver root type)
    {limit : Nat}
    (hLimit : (archiver.add type).length ≤ limit) :
    Reads archiver root data (unpackType data limit)
      (archiver.add type) type := by
  induction type using mentions_induct generalizing limit with
  | made type ih =>
      cases hId : archiver.predefined type with
      | some id =>
          rw [Archiver.add_of_predefined hId] at hLimit ⊢
          unfold Archiver.addPredefined at hLimit ⊢
          rw [List.length_append, writeT_length] at hLimit
          cases limit with
          | zero => omega
          | succ limit =>
              exact
                unpackType_of_kind hFits
                  (readPredefined_reads hFits hId)
      | none =>
          have hPos := add_length_pos hId (hBuilt type hPart hId)
          have hOwn : OwnSurvives type := by
            cases hIntact.part hPart with
            | predefined hPredefined => exact absurd hId hPredefined
            | made hOwn _ => exact hOwn
          cases limit with
          | zero => omega
          | succ limit =>
              have hTypes :
                  ∀ e ∈ type.mentions,
                    Reads archiver root data (unpackType data limit)
                      (archiver.add e) e := by
                intro e hMem
                have hLt := add_length_lt hId hMem
                exact
                  ih e hMem (.inside hPart hId hMem) (by omega)
              rcases
                  unpackKind_of_made hFits hBuilt hPart hId hOwn
                    hTypes with
                ⟨t, bytes, hAdd, hKind⟩
              rw [hAdd]
              exact unpackType_of_kind hFits hKind

----
-- Handles
----

/- The handle is read, and all bytes that were written. -/
def ReadsBack
    (archiver : Archiver)
    (handle : FieldHandle DSType)
    (pool : TypePool) : Prop :=
  ∃ pool',
    unpack (archiver.addHandle handle) pool =
      .ok (handle, ⟨pool', (archiver.addHandle handle).length⟩)

/- The archive fits and the numbers in it survive. -/
structure Survivable
    (archiver : Archiver)
    (handle : FieldHandle DSType) : Prop where
  fits : (archiver.addHandle handle).length < UINT_RANGE
  head : HeadSurvives handle
  intact : Intact archiver handle.type

theorem readsBack_of_survivable
    {archiver : Archiver}
    {handle : FieldHandle DSType}
    {pool : TypePool}
    (hBuilt : Built archiver handle.type)
    (hHeld : Held archiver handle.type pool)
    (hSurvives : Survivable archiver handle) :
    ReadsBack archiver handle pool := by
  have hLe :
      (archiver.add handle.type).length ≤
        (archiver.addHandle handle).length + 1 := by
    unfold Archiver.addHandle
    rw [List.length_append]
    omega
  have hReads :=
    unpackHandle_reads hSurvives.fits hSurvives.head
      (unpackType_reads hSurvives.fits hBuilt hSurvives.intact
        .self hLe)
  rcases hReads [] [] pool (by simp) hHeld with ⟨pool', hEq, _⟩
  exact ⟨pool', hEq⟩

/-
  A pool may have a type of the handle already.  What is read
  for a module type is then dropped, so the numbers of that type
  are of no account here.
-/
theorem survivable_of_readsBack
    {handle : FieldHandle DSType}
    {pool : TypePool}
    (hPool : IntactPool archiver handle.type pool)
    (hReads : ReadsBack archiver handle pool) :
    Survivable archiver handle := by
  rcases hReads with ⟨pool', hUnpack⟩
  rcases unpack_gives hPool hUnpack with ⟨⟨hHead, hType⟩, hLt⟩
  exact ⟨hLt, hHead, hType .self⟩

----
-- Handles of a Module and of a Number
----

def intType : DSType :=
  .builtin ("Int" :: "Value%%" :: DSType.anyNames)

def intPool : TypePool :=
  ⟨[intType]⟩

def intArchiver : Archiver :=
  { pool := intPool
    builtinTypeIdCount := 1 }

theorem predefined_intType :
    intArchiver.predefined intType = some 0 := by
  decide +kernel

/- A module without names, which another one imports. -/
def childType : DSType :=
  .module 1 0 [] []

/- `(Int) -> [Int : [Int]]` -/
def funcType : DSType :=
  .function (.map intType (.array intType)) [intType]

/- The module has a function of the name `f`. -/
def modType : DSType :=
  .module 3 2 [⟨childType, true⟩]
    [([0x66], ⟨5, funcType, 1, 2, 3⟩)]

def modArchiver : Archiver :=
  { pool := ⟨[intType, childType, modType]⟩
    builtinTypeIdCount := 1 }

def modHandle : FieldHandle DSType :=
  { commitID := 7
    type := modType
    index := 40
    attr := 1
    modID := 0 }

theorem predefined_mod_intType :
    modArchiver.predefined intType = some 0 := by
  decide +kernel

theorem part_modHandle
    {part : DSType}
    (hPart : Part modArchiver modHandle.type part) :
    part = intType ∨
      part ∈
        [modType, funcType, .map intType (.array intType),
          .array intType] := by
  induction hPart with
  | self => exact .inr List.mem_cons_self
  | inside hPart hMade hMem ih =>
      rcases ih with rfl | hIn
      · rw [predefined_mod_intType] at hMade
        cases hMade
      · simp only [List.mem_cons, List.not_mem_nil, or_false]
          at hIn
        rcases hIn with rfl | rfl | rfl | rfl
        · rw [List.mem_singleton.mp hMem]
          simp
        · rcases List.mem_cons.mp hMem with rfl | hRest
          · simp
          · exact .inl (List.mem_singleton.mp hRest)
        · rcases List.mem_cons.mp hMem with rfl | hRest
          · exact .inl rfl
          · rw [List.mem_singleton.mp hRest]
            simp
        · exact .inl (List.mem_singleton.mp hMem)

theorem built_modHandle : Built modArchiver modHandle.type := by
  intro part hPart hMade
  rcases part_modHandle hPart with rfl | hIn
  · rw [predefined_mod_intType] at hMade
    cases hMade
  · simp only [List.mem_cons, List.not_mem_nil, or_false] at hIn
    rcases hIn with rfl | rfl | rfl | rfl
    · refine ⟨by decide, by decide, ?_⟩
      decide +kernel
    · exact
        (by decide :
          DSType.checkElementTypes SYS_LIMIT_FUNC_PARAM_NUM
            [intType] = true)
    · exact ⟨by decide, by decide⟩
    · exact (by decide : intType.isAcceptable "Any" = true)

/- A pool with the predefined type and the imported module. -/
theorem held_modHandle :
    Held modArchiver modHandle.type ⟨[intType, childType]⟩ := by
  constructor
  · intro id hLt type hGet
    have hZero : id = 0 := Nat.lt_one_iff.mp hLt
    rw [hZero] at hGet ⊢
    exact hGet
  · intro part hPart _ e hMem
    rcases part_modHandle hPart with rfl | hIn
    · exact absurd hMem List.not_mem_nil
    · simp only [List.mem_cons, List.not_mem_nil, or_false] at hIn
      rcases hIn with rfl | rfl | rfl | rfl
      · rw [List.mem_singleton.mp hMem]
        decide +kernel
      · exact absurd hMem List.not_mem_nil
      · exact absurd hMem List.not_mem_nil
      · exact absurd hMem List.not_mem_nil
  · intro part hPart _ hMod type hFound
    rcases part_modHandle hPart with rfl | hIn
    · cases hMod
    · simp only [List.mem_cons, List.not_mem_nil, or_false] at hIn
      rcases hIn with rfl | rfl | rfl | rfl
      · cases hFound
      · cases hMod
      · cases hMod
      · cases hMod

theorem intact_modType : Intact modArchiver modType := by
  have hInt : Intact modArchiver intType := by
    apply Intact.predefined
    rw [predefined_mod_intType]
    rintro ⟨⟩
  have hArray : Intact modArchiver (.array intType) := by
    refine Intact.made trivial ?_
    simpa [DSType.mentions] using hInt
  have hMap :
      Intact modArchiver (.map intType (.array intType)) := by
    refine Intact.made trivial ?_
    simpa [DSType.mentions] using ⟨hInt, hArray⟩
  have hFunc : Intact modArchiver funcType := by
    refine Intact.made trivial ?_
    simpa [funcType, DSType.mentions] using ⟨hMap, hInt⟩
  refine Intact.made ?_ ?_
  · constructor
    · decide
    · decide
    · decide
    · intro e hMem
      rw [List.mem_singleton.mp hMem]
      decide
    · decide
    · intro e hMem
      rw [List.mem_singleton.mp hMem]
      decide
    · intro e hMem
      rw [List.mem_singleton.mp hMem]
      constructor <;> decide
  · simpa [modType, DSType.mentions] using hFunc

theorem readsBack_modHandle :
    ReadsBack modArchiver modHandle ⟨[intType, childType]⟩ := by
  apply readsBack_of_survivable built_modHandle held_modHandle
  constructor
  · decide +kernel
  · constructor <;> decide
  · exact intact_modType

/- The 128th commit. -/
def lateInt : FieldHandle DSType :=
  { commitID := 128
    type := intType
    index := 0
    attr := 0
    modID := 0 }

theorem part_lateInt
    {part : DSType}
    (hPart : Part intArchiver lateInt.type part) :
    part = intType := by
  induction hPart with
  | self => rfl
  | inside hPart hMade hMem ih =>
      rw [ih, predefined_intType] at hMade
      cases hMade

/- A handle that is not read back, although it should be. -/
theorem not_readsBack_lateInt :
    Built intArchiver lateInt.type ∧
      Held intArchiver lateInt.type intPool ∧
        ¬ReadsBack intArchiver lateInt intPool := by
  refine ⟨?_, ?_, ?_⟩
  · intro part hPart hMade
    rw [part_lateInt hPart, predefined_intType] at hMade
    cases hMade
  · constructor
    · exact fun id _ type hGet => hGet
    · intro part hPart hMade
      rw [part_lateInt hPart, predefined_intType] at hMade
      cases hMade
    · intro part hPart hMade
      rw [part_lateInt hPart, predefined_intType] at hMade
      cases hMade
  · intro hReads
    have hPool :
        IntactPool intArchiver lateInt.type intPool := by
      intro type hMem _
      rw [List.mem_singleton.mp hMem]
      apply Intact.predefined
      rw [predefined_intType]
      rintro ⟨⟩
    have hSurvives := survivable_of_readsBack hPool hReads
    exact absurd hSurvives.head.commitID (by decide)

end Archive

end Ydsh
