import Ydsh.Archive.Intact

/-
  Reading what was written.

  A reader reads a value from bytes if it gives the value and
  goes past them, wherever they are in the data.  What a type
  is read into must have the predefined types and the types of
  the imported modules; this stays so when types are added.

  Main declarations:
    * `Built`
    * `Held`
    * `Reads`
    * `Reads.bind`
-/

----
-- Types That Are Written
----

namespace Ydsh

namespace Archive

variable {archiver : Archiver}

/- The pool gives the type for what it is made of. -/
def Sound (archiver : Archiver) : DSType → Prop
  | .builtin _ => False
  | .array e => e.isAcceptable "Any" = true
  | .map k v =>
      k.isAcceptable "Value%%" = true ∧
        v.isAcceptable "Any" = true
  | .tuple es =>
      DSType.checkElementTypes SYS_LIMIT_TUPLE_NUM es = true
  | .option e =>
      (e.isVoidType || e.isNothingType) = false ∧
        e.isOptionType = false
  | .function _ ps =>
      DSType.checkElementTypes SYS_LIMIT_FUNC_PARAM_NUM ps = true
  | .module modID index children handleMap =>
      children.length ≤ UINT16_MAX ∧
        (handleMap.map Prod.fst).Nodup ∧
          archiver.pool.getModTypeById modID =
            some (.module modID index children handleMap)

/- A type is built from predefined types. -/
def Built (archiver : Archiver) (root : DSType) : Prop :=
  ∀ part, Part archiver root part →
    archiver.predefined part = none → Sound archiver part

def DSType.children :
    DSType → List (ImportedModEntry DSType)
  | .module _ _ children _ => children
  | _ => []

/- A pool has the types that the reader looks up. -/
structure Held
    (archiver : Archiver)
    (root : DSType)
    (pool : TypePool) : Prop where
  predefined :
    ∀ id < archiver.builtinTypeIdCount, ∀ type,
      archiver.pool.get id = some type →
        pool.get id = some type
  children :
    ∀ part, Part archiver root part →
      archiver.predefined part = none →
        ∀ e ∈ part.children,
          pool.getModTypeById e.type.getModID = some e.type
  same :
    ∀ part, Part archiver root part →
      archiver.predefined part = none →
        part.isModType = true →
          ∀ type,
            pool.getModTypeById part.getModID = some type →
              type = part

----
-- Pools That Grow
----

namespace Held

variable {root : DSType}
variable {pool : TypePool}

theorem getModTypeById_append
    (pool : TypePool)
    (type : DSType)
    (modID : UInt16) :
    TypePool.getModTypeById ⟨pool.typeTable ++ [type]⟩ modID =
      (pool.getModTypeById modID).or
        (if type.isModTypeOf modID = true then
          some type
        else
          none) := by
  unfold TypePool.getModTypeById
  rw [List.find?_append, List.find?_singleton]

theorem get_append
    {id : Nat}
    {type found : DSType}
    (hGet : pool.get id = some found) :
    TypePool.get ⟨pool.typeTable ++ [type]⟩ id = some found := by
  unfold TypePool.get at hGet ⊢
  rcases List.getElem?_eq_some_iff.mp hGet with ⟨hLt, _⟩
  rw [List.getElem?_append_left hLt]
  exact hGet

theorem getModTypeById_of_sound
    {part : DSType}
    (hSound : Sound archiver part)
    (hMod : part.isModType = true) :
    archiver.pool.getModTypeById part.getModID = some part := by
  cases part with
  | module modID index children handleMap => exact hSound.2.2
  | _ => cases hMod

/- A type that was written is added. -/
theorem append
    {type : DSType}
    (hBuilt : Built archiver root)
    (hHeld : Held archiver root pool)
    (hPart : Part archiver root type)
    (hMade : archiver.predefined type = none) :
    Held archiver root ⟨pool.typeTable ++ [type]⟩ := by
  constructor
  · intro id hLt found hGet
    exact get_append (hHeld.predefined id hLt found hGet)
  · intro part hPart' hMade' e hMem
    rw [getModTypeById_append,
      hHeld.children part hPart' hMade' e hMem]
    rfl
  · intro part hPart' hMade' hMod found hFound
    rw [getModTypeById_append] at hFound
    cases hOld : pool.getModTypeById part.getModID with
    | some old =>
        rw [hOld] at hFound
        cases hFound
        exact hHeld.same part hPart' hMade' hMod _ hOld
    | none =>
        rw [hOld, Option.none_or] at hFound
        split_ifs at hFound with hIs
        cases hFound
        have hType : type.isModType = true := by
          cases type with
          | module modID index children handleMap => rfl
          | _ => cases hIs
        have hFirst :=
          getModTypeById_of_sound (hBuilt type hPart hMade) hType
        have hSecond :=
          getModTypeById_of_sound (hBuilt part hPart' hMade') hMod
        rw [getModID_of_isModTypeOf hIs, hSecond] at hFirst
        exact (Option.some.inj hFirst).symm

theorem findOrAdd
    {type : DSType}
    (hBuilt : Built archiver root)
    (hHeld : Held archiver root pool)
    (hPart : Part archiver root type)
    (hMade : archiver.predefined type = none) :
    ∃ pool',
      pool.findOrAdd type = (pool', type) ∧
        Held archiver root pool' := by
  unfold TypePool.findOrAdd
  by_cases hOld : type ∈ pool.typeTable
  · rw [if_pos hOld]
    exact ⟨pool, rfl, hHeld⟩
  · rw [if_neg hOld]
    exact ⟨_, rfl, hHeld.append hBuilt hPart hMade⟩

end Held

----
-- Readers
----

section Readers

variable {root : DSType}
variable {data : List UInt8}
variable {α β : Type}

def Reads
    (archiver : Archiver)
    (root : DSType)
    (data : List UInt8)
    (reader : Unarchive α)
    (bytes : List UInt8)
    (value : α) : Prop :=
  ∀ (before rest : List UInt8) (pool : TypePool),
    data = before ++ (bytes ++ rest) →
      Held archiver root pool →
        ∃ pool',
          reader ⟨pool, before.length⟩ =
              .ok (value, ⟨pool', (before ++ bytes).length⟩) ∧
            Held archiver root pool'

namespace Reads

theorem pure (value : α) :
    Reads archiver root data (Pure.pure value) [] value := by
  intro before rest pool _ hHeld
  rw [List.append_nil]
  exact ⟨pool, rfl, hHeld⟩

theorem bind
    {reader : Unarchive α}
    {f : α → Unarchive β}
    {bytes bytes' : List UInt8}
    {first : α}
    {value : β}
    (hFirst : Reads archiver root data reader bytes first)
    (hRest : Reads archiver root data (f first) bytes' value) :
    Reads archiver root data (reader >>= f) (bytes ++ bytes')
      value := by
  intro before rest pool hData hHeld
  rw [List.append_assoc] at hData
  rcases hFirst before (bytes' ++ rest) pool hData hHeld with
    ⟨pool', hRead, hHeld'⟩
  rw [← List.append_assoc] at hData
  rcases hRest (before ++ bytes) rest pool' hData hHeld' with
    ⟨pool'', hRead', hHeld''⟩
  refine ⟨pool'', ?_, hHeld''⟩
  rw [← List.append_assoc]
  exact bind_eq_ok.mpr ⟨first, _, hRead, hRead'⟩

/- The last reader takes no bytes. -/
theorem bind_nil
    {reader : Unarchive α}
    {f : α → Unarchive β}
    {bytes : List UInt8}
    {first : α}
    {value : β}
    (hFirst : Reads archiver root data reader bytes first)
    (hRest : Reads archiver root data (f first) [] value) :
    Reads archiver root data (reader >>= f) bytes value := by
  have hBind := hFirst.bind hRest
  rw [List.append_nil] at hBind
  exact hBind

/- The bytes are part of the data. -/
theorem of_length_le
    {reader : Unarchive α}
    {bytes : List UInt8}
    {value : α}
    (hReads :
      bytes.length ≤ data.length →
        Reads archiver root data reader bytes value) :
    Reads archiver root data reader bytes value := by
  intro before rest pool hData
  have hLe : bytes.length ≤ data.length := by
    rw [hData, List.length_append, List.length_append]
    omega
  exact hReads hLe before rest pool hData

end Reads

----
-- Numbers
----

theorem terminated_getElem?
    {before bytes : List UInt8}
    {ch : UInt8}
    (hData : data = before ++ ch :: bytes) :
    (terminated data)[before.length]? = some ch := by
  unfold terminated
  rw [hData, List.append_assoc, List.getElem?_append_right
    (Nat.le_refl _), Nat.sub_self]
  rfl

theorem next_reads
    (hFits : data.length < UINT_RANGE)
    (ch : UInt8) :
    Reads archiver root data (next data) [ch] ch := by
  intro before rest pool hData hHeld
  refine ⟨pool, ?_, hHeld⟩
  unfold next
  simp only [terminated_getElem? hData]
  have hLt : before.length + 1 < UINT_RANGE := by
    rw [hData] at hFits
    simp only [List.length_append, List.length_cons,
      List.length_nil] at hFits
    omega
  rw [List.length_append, List.length_singleton,
    Nat.mod_eq_of_lt hLt]

theorem readInto_reads
    (hFits : data.length < UINT_RANGE)
    (v : BitVec 64)
    (bytes : List UInt8) :
    Reads archiver root data (readInto data bytes.length v) bytes
      (readFrom v bytes) := by
  induction bytes generalizing v with
  | nil => exact .pure v
  | cons ch rest ih => exact (next_reads hFits ch).bind (ih _)

theorem readN_reads
    (hFits : data.length < UINT_RANGE)
    (n : Nat)
    (b : BitVec 64) :
    Reads archiver root data (readN data n) (writeN n b)
      (readFrom 0 (writeN n b)) := by
  have hReads :
      Reads archiver root data
        (readInto data (writeN n b).length 0) (writeN n b)
        (readFrom 0 (writeN n b)) :=
    readInto_reads hFits 0 (writeN n b)
  rw [writeN_length] at hReads
  exact hReads

/- The lowest bits are those that were written. -/
theorem setWidth_readFrom
    {n w : Nat}
    (hLe : n ≤ 8)
    (hWidth : w = n * 8)
    {b : BitVec w}
    (hKeeps : Survives (writeN n (b.setWidth 64))) :
    (readFrom 0#64 (writeN n (b.setWidth 64))).setWidth w = b := by
  have hBits := (readFrom_writeN_iff hLe _).mpr hKeeps
  apply BitVec.eq_of_getLsbD_eq
  intro i hLt
  rw [BitVec.getLsbD_setWidth, hBits i (by omega),
    BitVec.getLsbD_setWidth]
  have hIn : i < 64 := by
    omega
  simp [hLt, hIn]

theorem read8_reads
    (hFits : data.length < UINT_RANGE)
    (b : UInt8) :
    Reads archiver root data (read8 data) (write8 b) b := by
  have hKeeps : Survives (write8 b) :=
    ⟨fun hHigh => Bool.noConfusion hHigh, trivial⟩
  have hValue :=
    setWidth_readFrom (by decide) (by decide) hKeeps
  have hReads :
      Reads archiver root data (read8 data) (write8 b)
        (UInt8.ofBitVec
          ((readFrom 0#64 (write8 b)).setWidth 8)) :=
    (readN_reads hFits 1 _).bind_nil (.pure _)
  unfold write8 at hReads
  rw [hValue, UInt8.ofBitVec_toBitVec] at hReads
  exact hReads

theorem read16_reads
    (hFits : data.length < UINT_RANGE)
    {b : UInt16}
    (hKeeps : Keeps16 b) :
    Reads archiver root data (read16 data) (write16 b) b := by
  have hValue :=
    setWidth_readFrom (by decide) (by decide) hKeeps
  have hReads :
      Reads archiver root data (read16 data) (write16 b)
        (UInt16.ofBitVec
          ((readFrom 0#64 (write16 b)).setWidth 16)) :=
    (readN_reads hFits 2 _).bind_nil (.pure _)
  unfold write16 at hReads
  rw [hValue, UInt16.ofBitVec_toBitVec] at hReads
  exact hReads

theorem read32_reads
    (hFits : data.length < UINT_RANGE)
    {b : UInt32}
    (hKeeps : Keeps32 b) :
    Reads archiver root data (read32 data) (write32 b) b := by
  have hValue :=
    setWidth_readFrom (by decide) (by decide) hKeeps
  have hReads :
      Reads archiver root data (read32 data) (write32 b)
        (UInt32.ofBitVec
          ((readFrom 0#64 (write32 b)).setWidth 32)) :=
    (readN_reads hFits 4 _).bind_nil (.pure _)
  unfold write32 at hReads
  rw [hValue, UInt32.ofBitVec_toBitVec] at hReads
  exact hReads

end Readers

end Archive

end Ydsh
