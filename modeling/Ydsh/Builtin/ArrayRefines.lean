import Ydsh.Builtin.Sequences

/-
  The methods of arrays are the operations on sequences.

  Main declarations:
    * `addSize_toInt`
    * `observe_run_iff`
    * `trace_eq_iff`
-/

----
-- Sums of Indices and Sizes
----

namespace Ydsh

namespace Builtin

/- The sum is small enough for both kinds of arithmetic. -/
theorem addSize_toInt
    (index : Int64)
    {size : Nat}
    (hSize : size ≤ MAX_SIZE) :
    (addSize index (.ofNat size)).toInt =
      normalize size index.toInt := by
  have hLow := index.le_toInt
  have hHigh := index.toInt_lt
  unfold MAX_SIZE at hSize
  unfold addSize normalize
  by_cases hNegative : index < 0
  · have hInt : index.toInt < 0 :=
      Int64.lt_iff_toInt_lt.mp hNegative
    have hNat : (Int64.ofNat size).toInt = size :=
      Int64.toInt_ofNat_of_lt (by omega)
    rw [if_pos hNegative, if_pos hInt, UInt64.toInt64_add,
      Int64.toInt64_toUInt64, UInt64.toInt64_ofNat',
      Int64.toInt_add, hNat]
    apply Int.bmod_eq_of_le
    · omega
    · omega
  · have hInt : ¬ index.toInt < 0 :=
      fun hLt => hNegative (Int64.lt_iff_toInt_lt.mpr hLt)
    rw [if_neg hNegative, if_neg hInt, UInt64.toInt64_add,
      Int64.toInt64_toUInt64]
    exact congrArg Int64.toInt (Int64.add_zero index)

theorem toNat_toUInt64
    {index : Int64}
    (hIndex : 0 ≤ index.toInt) :
    index.toUInt64.toNat = index.toInt.toNat := by
  have hLe : 0 ≤ index := Int64.le_iff_toInt_le.mpr hIndex
  rw [Int64.toNat_toUInt64_of_le hLe, Int64.toNat_toInt]

theorem toNat_ofNat
    {size : Nat}
    (hSize : size ≤ MAX_SIZE) :
    (UInt64.ofNat size).toNat = size :=
  UInt64.toNat_ofNat_of_lt'
    (Nat.lt_of_le_of_lt hSize (by decide))

theorem toInt64_ofNat_toInt
    {size : Nat}
    (hSize : size ≤ MAX_SIZE) :
    (UInt64.ofNat size).toInt64.toInt = size := by
  unfold MAX_SIZE at hSize
  rw [UInt64.toInt64_ofNat']
  exact Int64.toInt_ofNat_of_lt (by omega)

----
-- Resolved Indices
----

section

variable {size : Nat}
variable (hSize : size ≤ MAX_SIZE)

include hSize

theorem resolveIndex_of_valid
    {index : Int64}
    {i : Nat}
    (hPosition : position? size index.toInt = some i) :
    (resolveIndex index (.ofNat size)).s = true ∧
      (resolveIndex index (.ofNat size)).index.toNat = i := by
  have hSum := addSize_toInt index hSize
  unfold position? at hPosition
  rw [← hSum] at hPosition
  split at hPosition
  · rename_i hRange
    cases hPosition
    have hNat := toNat_toUInt64 hRange.1
    unfold resolveIndex
    refine ⟨?_, hNat⟩
    rw [Bool.and_eq_true, decide_eq_true_eq, decide_eq_true_eq,
      Int64.lt_iff_toInt_lt, UInt64.lt_iff_toNat_lt, hNat,
      toNat_ofNat hSize]
    have hMinus : (-1 : Int64).toInt = -1 := rfl
    omega
  · cases hPosition

theorem resolveIndex_of_invalid
    {index : Int64}
    (hPosition : position? size index.toInt = none) :
    (resolveIndex index (.ofNat size)).s = false := by
  have hSum := addSize_toInt index hSize
  unfold position? at hPosition
  rw [← hSum] at hPosition
  split at hPosition
  · cases hPosition
  · rename_i hRange
    unfold resolveIndex
    rw [Bool.and_eq_false_iff, decide_eq_false_iff_not,
      decide_eq_false_iff_not, Int64.lt_iff_toInt_lt,
      UInt64.lt_iff_toNat_lt, toNat_ofNat hSize]
    have hMinus : (-1 : Int64).toInt = -1 := rfl
    by_cases hNegative : (addSize index (.ofNat size)).toInt < 0
    · exact Or.inl (by omega)
    · rw [toNat_toUInt64 (by omega)]
      exact Or.inr (by omega)

/- The position, or the error of the index. -/
theorem resolveOrRaise_eq
    (index : Int64) :
    resolveOrRaise index (.ofNat size) =
      (position? size index.toInt).elim
        (.error
          (raiseOutOfRangeError (indexMessage index (.ofNat size))))
        (fun i => .ok i) := by
  unfold resolveOrRaise
  cases hPosition : position? size index.toInt with
  | none =>
      rw [resolveIndex_of_invalid hSize hPosition]
      rfl
  | some i =>
      rcases resolveIndex_of_valid hSize hPosition
        with ⟨hValid, hIndex⟩
      rw [hValid, hIndex]
      rfl

/- A gap is a position or the end. -/
theorem insertPosition_eq
    (index : Int64) :
    insertPosition (.ofNat size) index =
      (gap? size index.toInt).elim
        (.error
          (raiseOutOfRangeError (indexMessage index (.ofNat size))))
        (fun i => .ok i) := by
  have hLow := index.le_toInt
  have hEnd := toInt64_ofNat_toInt hSize
  unfold insertPosition
  by_cases hEq : index = (UInt64.ofNat size).toInt64
  · have hInt : index.toInt = size := by rw [hEq, hEnd]
    have hNormal : normalize size index.toInt = size := by
      unfold normalize
      rw [hInt, if_neg (by omega)]
    have hCast : castIndex index = size := by
      unfold castIndex
      unfold MAX_SIZE at hSize
      rw [UInt64.toNat_toUInt32, toNat_toUInt64 (by omega), hInt]
      omega
    have hGap : gap? size index.toInt = some size := by
      unfold gap?
      rw [hNormal, if_pos ⟨by omega, by omega⟩]
      rfl
    rw [if_neg (by rw [ne_eq, not_not]; exact hEq), hCast, hGap]
    rfl
  · have hInt : index.toInt ≠ size := by
      intro hInt
      apply hEq
      rw [← Int64.toInt_inj, hInt, hEnd]
    have hGap :
        gap? size index.toInt = position? size index.toInt := by
      have hNe : normalize size index.toInt ≠ size := by
        unfold normalize
        split
        · omega
        · exact hInt
      unfold gap? position?
      by_cases hRange :
          0 ≤ normalize size index.toInt ∧
            normalize size index.toInt < size
      · rw [if_pos hRange, if_pos ⟨hRange.1, by omega⟩]
      · rw [if_neg hRange, if_neg (by omega)]
    rw [if_pos hEq, hGap]
    exact resolveOrRaise_eq hSize index

end

theorem gap?_le
    {size : Nat}
    {index : Int}
    {i : Nat}
    (hGap : gap? size index = some i) :
    i ≤ size := by
  unfold gap? at hGap
  split at hGap
  · rename_i hRange
    cases hGap
    omega
  · cases hGap

theorem gap?_size (size : Nat) : gap? size size = some size := by
  have hNormal : normalize size size = size := by
    unfold normalize
    rw [if_neg (by omega)]
  unfold gap?
  rw [hNormal, if_pos ⟨by omega, by omega⟩]
  rfl

theorem gap?_zero (size : Nat) : gap? size 0 = some 0 := by
  have hNormal : normalize size 0 = 0 := by
    unfold normalize
    rw [if_neg (by omega)]
  unfold gap?
  rw [hNormal, if_pos ⟨by omega, by omega⟩]
  rfl

theorem normalize_of_nonneg
    {size : Nat}
    {index : Int}
    (hIndex : 0 ≤ index) :
    normalize size index = index := by
  unfold normalize
  exact if_neg (Int.not_lt.mpr hIndex)

theorem range?_eq_some
    {size : Nat}
    {start stop : Int}
    {r : Nat × Nat}
    (hRange : range? size start stop = some r) :
    normalize size start ≤ normalize size stop ∧
      normalize size stop ≤ size ∧
        r =
          ((normalize size start).toNat,
            (normalize size stop).toNat) := by
  unfold range? at hRange
  split at hRange
  · rename_i hLe
    exact ⟨hLe.2.1, hLe.2.2, (Option.some.inj hRange).symm⟩
  · cases hRange

theorem range?_stop_eq
    {size : Nat}
    {start : Int}
    {r : Nat × Nat}
    (hRange : range? size start size = some r) :
    r.2 = size := by
  rcases range?_eq_some hRange with ⟨_, _, hEq⟩
  rw [hEq, normalize_of_nonneg (Int.natCast_nonneg size)]
  exact Int.toNat_natCast size

theorem range?_start_eq
    {size : Nat}
    {stop : Int}
    {r : Nat × Nat}
    (hRange : range? size 0 stop = some r) :
    r.1 = 0 := by
  rcases range?_eq_some hRange with ⟨_, _, hEq⟩
  rw [hEq, normalize_of_nonneg (Int.le_refl 0)]
  rfl

/- A range that is no range of the array. -/
theorem slice_eq
    {V : Type}
    {obj : ArrayObject V}
    (hSize : obj.size ≤ MAX_SIZE)
    (start stop : Int64) :
    slice obj start stop =
      (range? obj.size start.toInt stop.toInt).elim
        (.error
          (raiseOutOfRangeError
            (rangeMessage (addSize start obj.uintSize)
              (addSize stop obj.uintSize) obj.uintSize)))
        (fun r => .ok (obj.sliceImpl r.1 r.2)) := by
  unfold ArrayObject.size at hSize
  have hStart := addSize_toInt start hSize
  have hStop := addSize_toInt stop hSize
  have hNat := toNat_ofNat hSize
  have hZero : (0 : Int64).toInt = 0 := rfl
  unfold slice range? ArrayObject.uintSize ArrayObject.size
  rw [← hStart, ← hStop]
  simp only [Bool.or_eq_true, decide_eq_true_eq, gt_iff_lt,
    Int64.lt_iff_toInt_lt, UInt64.lt_iff_toNat_lt, hNat, hZero]
  by_cases hRange :
      0 ≤ (addSize start (.ofNat obj.values.length)).toInt ∧
        (addSize start (.ofNat obj.values.length)).toInt ≤
          (addSize stop (.ofNat obj.values.length)).toInt ∧
        (addSize stop (.ofNat obj.values.length)).toInt ≤
          obj.values.length
  · have hFrom := toNat_toUInt64 hRange.1
    have hTo :=
      toNat_toUInt64 (Int.le_trans hRange.1 hRange.2.1)
    rw [if_pos hRange, if_neg (by omega), hFrom, hTo]
    rfl
  · have hOut :
        (((((addSize stop (.ofNat obj.values.length)).toInt <
                (addSize start (.ofNat obj.values.length)).toInt ∨
              (addSize start (.ofNat obj.values.length)).toInt <
                0) ∨
            obj.values.length <
              (addSize start
                (.ofNat obj.values.length)).toUInt64.toNat) ∨
          (addSize stop (.ofNat obj.values.length)).toInt < 0) ∨
        obj.values.length <
          (addSize stop
            (.ofNat obj.values.length)).toUInt64.toNat) := by
      by_cases hNegative :
          (addSize stop (.ofNat obj.values.length)).toInt < 0
      · omega
      · have hTo := toNat_toUInt64 (Int.not_lt.mp hNegative)
        omega
    rw [if_neg hRange, if_pos hOut]
    rfl

----
-- Heaps and Sequences
----

section

variable {V : Type}

theorem sequences_put
    (heap : Heap V)
    (ref : ArrayRef)
    (obj : ArrayObject V) :
    (heap.put ref obj).sequences =
      heap.sequences.put ref obj.values := by
  unfold Heap.put Heap.sequences Sequences.put
  congr 1
  funext r
  by_cases hRef : r = ref
  · simp [hRef]
  · simp [hRef]

theorem sequences_alloc
    (heap : Heap V)
    (obj : ArrayObject V) :
    (heap.alloc obj).sequences =
      heap.sequences.alloc obj.values := by
  have hPut := sequences_put heap heap.next obj
  unfold Heap.alloc Sequences.alloc
  have hLists :
      (Heap.mk (heap.put heap.next obj).arrays
          (heap.next + 1)).sequences.lists =
        (heap.sequences.put heap.next obj.values).lists := by
    rw [← hPut]
    rfl
  exact congrArg (fun l => Sequences.mk l (heap.next + 1)) hLists

/- What an error leaves. -/
theorem observe_error
    (heap : Heap V)
    (message : String) :
    observe (.error (raiseOutOfRangeError message), heap) =
      (.error .outOfRangeError, heap.sequences) := rfl

theorem observe_ok
    (heap : Heap V)
    (ret : ArrayResult V) :
    observe (.ok ret, heap) = (.ok ret, heap.sequences) := rfl

theorem insertIdx_eq_take_drop
    (list : List V)
    {i : Nat}
    (hIndex : i ≤ list.length)
    (v : V) :
    list.insertIdx i v = list.take i ++ v :: list.drop i := by
  induction list generalizing i with
  | nil =>
      have hZero : i = 0 := Nat.le_zero.mp hIndex
      subst hZero
      rfl
  | cons w list ih =>
      cases i with
      | zero => rfl
      | succ i =>
          rw [List.insertIdx_succ_cons,
            ih (Nat.le_of_succ_le_succ hIndex)]
          rfl

variable (heap : Heap V)
variable (self : ArrayRef)

theorem lists_eq :
    heap.sequences.lists self = (heap.arrays self).values :=
  rfl

theorem getElem?_position
    {index : Int}
    {i : Nat}
    (hPosition :
      position? (heap.arrays self).values.length index = some i) :
    ∃ v, (heap.arrays self).values[i]? = some v := by
  unfold position? at hPosition
  split at hPosition
  · rename_i hRange
    cases hPosition
    refine ⟨_, List.getElem?_eq_getElem ?_⟩
    omega
  · cases hPosition

theorem valueAt_of_some
    {i : Nat}
    {v : V}
    (hValue : (heap.arrays self).values[i]? = some v) :
    valueAt heap self i = .value v := by
  unfold valueAt
  rw [hValue]
  rfl

theorem observe_array_pop :
    observe (array_pop heap self) =
      ArrayMethod.pop.specRun heap.sequences self := by
  simp only [array_pop, take, array_fetch, ArrayMethod.specRun,
    ArrayMethod.spec, ArrayObject.size]
  rw [lists_eq, if_pos trivial]
  cases (heap.arrays self).values.getLast? with
  | none => rfl
  | some v =>
      simp only [Option.elim_some, Option.map_some, orRaise,
        observe_ok, sequences_put, ArrayObject.erase,
        List.eraseIdx_length_sub_one]

theorem observe_array_shift :
    observe (array_shift heap self) =
      ArrayMethod.shift.specRun heap.sequences self := by
  simp only [array_shift, take, array_fetch,
    ArrayMethod.specRun, ArrayMethod.spec]
  rw [lists_eq, if_neg Bool.false_ne_true]
  cases (heap.arrays self).values.head? with
  | none => rfl
  | some v =>
      simp only [Option.elim_some, Option.map_some, orRaise,
        observe_ok, sequences_put, ArrayObject.erase,
        List.eraseIdx_zero]

theorem observe_array_peek :
    observe (array_peek heap self) =
      ArrayMethod.peek.specRun heap.sequences self := by
  simp only [array_peek, array_fetch, ArrayMethod.specRun,
    ArrayMethod.spec]
  rw [lists_eq, if_pos trivial]
  cases (heap.arrays self).values.getLast? with
  | none => rfl
  | some v => rfl

----
-- Methods With an Index
----

variable (hSize : (heap.arrays self).size ≤ MAX_SIZE)

include hSize

/- A method with an index goes on from the position of the
   index. -/
theorem observe_withIndex
    (index : Int64)
    (go : Nat → Effect V) :
    observe (withIndex heap self index go) =
      (position? (heap.arrays self).size index.toInt).elim
        (.error .outOfRangeError, heap.sequences)
        (fun i => observe (go i)) := by
  unfold withIndex ArrayObject.uintSize
  rw [resolveOrRaise_eq hSize index]
  cases position? (heap.arrays self).size index.toInt with
  | none => rfl
  | some i => rfl

/- `get`, `remove` and `swap` return the element. -/
theorem observe_element
    (index : Int64)
    (next : Nat → Heap V)
    (nextSeq : Nat → Sequences V)
    (hNext : ∀ i, (next i).sequences = nextSeq i) :
    observe
        (withIndex heap self index
          (fun i => (.ok (valueAt heap self i), next i))) =
      ((position? (heap.sequences.lists self).length
          index.toInt).bind
        (fun i =>
          (heap.sequences.lists self)[i]?.map
            (fun v => (ArrayResult.value v, nextSeq i)))).elim
        (.error .outOfRangeError, heap.sequences)
        (fun found => (.ok found.1, found.2)) := by
  rw [observe_withIndex heap self hSize]
  unfold ArrayObject.size
  rw [lists_eq]
  cases hPosition :
      position? (heap.arrays self).values.length index.toInt with
  | none => rfl
  | some i =>
      rcases getElem?_position heap self hPosition with ⟨v, hValue⟩
      simp only [Option.elim_some, Option.bind_some, hValue,
        Option.map_some, valueAt_of_some heap self hValue,
        observe_ok, hNext]

theorem observe_array_get
    (index : Int64) :
    observe (array_get heap self index) =
      (ArrayMethod.get index).specRun heap.sequences self :=
  observe_element heap self hSize index (fun _ => heap)
    (fun _ => heap.sequences) (fun _ => rfl)

theorem observe_array_remove
    (index : Int64) :
    observe (array_remove heap self index) =
      (ArrayMethod.remove index).specRun heap.sequences self :=
  observe_element heap self hSize index _ _
    (fun i => sequences_put heap self ((heap.arrays self).erase i))

theorem observe_array_swap
    (index : Int64)
    (v : V) :
    observe (array_swap heap self index v) =
      (ArrayMethod.swap index v).specRun heap.sequences self :=
  observe_element heap self hSize index _ _
    (fun i => sequences_put heap self ((heap.arrays self).set i v))

theorem observe_array_set
    (index : Int64)
    (v : V) :
    observe (array_set heap self index v) =
      (ArrayMethod.set index v).specRun heap.sequences self := by
  simp only [array_set, ArrayMethod.specRun, ArrayMethod.spec]
  rw [observe_withIndex heap self hSize]
  have hLists :
      (heap.sequences.lists self).length =
        (heap.arrays self).size := rfl
  rw [hLists]
  cases position? (heap.arrays self).size index.toInt with
  | none => rfl
  | some i =>
      simp only [Option.elim_some, Option.map_some, observe_ok,
        sequences_put]
      rfl

theorem observe_array_get2
    (index : Int64) :
    observe (array_get2 heap self index) =
      (ArrayMethod.get2 index).specRun heap.sequences self := by
  simp only [array_get2, ArrayMethod.specRun, ArrayMethod.spec]
  rw [lists_eq]
  cases hPosition :
      position? (heap.arrays self).values.length index.toInt with
  | none =>
      have hInvalid :
          (resolveIndex index (heap.arrays self).uintSize).s =
            false :=
        resolveIndex_of_invalid hSize hPosition
      simp only [hInvalid, Bool.false_eq_true, if_false]
      rfl
  | some i =>
      have hValid :
          (resolveIndex index (heap.arrays self).uintSize).s =
              true ∧
            (resolveIndex index
              (heap.arrays self).uintSize).index.toNat = i :=
        resolveIndex_of_valid hSize hPosition
      simp only [hValid.1, hValid.2, if_true]
      rfl

----
-- Methods That Add an Element
----

theorem observe_array_insertImpl
    (index : Int64)
    (v : V)
    (ret : ArrayResult V) :
    observe (array_insertImpl heap self index v ret) =
      ((gap? (heap.sequences.lists self).length
          index.toInt).bind
        (fun i =>
          heap.sequences.grow self
            ((heap.sequences.lists self).take i ++
              v :: (heap.sequences.lists self).drop i)
            ret)).elim
        (.error .outOfRangeError, heap.sequences)
        (fun found => (.ok found.1, found.2)) := by
  have hLe : (heap.arrays self).values.length ≤ MAX_SIZE := hSize
  have hGap := insertPosition_eq hLe index
  unfold array_insertImpl Sequences.grow
  rw [lists_eq]
  by_cases hFull : (heap.arrays self).size = MAX_SIZE
  · rw [if_pos hFull]
    have hNot :
        ¬ (heap.arrays self).values.length < MAX_SIZE :=
      Nat.not_lt.mpr (Nat.le_of_eq hFull.symm)
    simp only [if_neg hNot, Option.bind_fun_none]
    rfl
  · have hLess :
        (heap.arrays self).values.length < MAX_SIZE :=
      Nat.lt_of_le_of_ne hSize hFull
    rw [if_neg hFull]
    unfold ArrayObject.uintSize ArrayObject.size
    rw [hGap]
    cases hFound :
        gap? (heap.arrays self).values.length index.toInt with
    | none => rfl
    | some i =>
        simp only [Option.elim_some, Option.bind_some,
          if_pos hLess, orRaise, observe_ok, sequences_put]
        rw [← insertIdx_eq_take_drop _ (gap?_le hFound)]
        rfl

theorem observe_array_pushImpl
    (v : V)
    (ret : ArrayResult V) :
    observe (array_pushImpl heap self v ret) =
      (heap.sequences.grow self
          (heap.sequences.lists self ++ [v]) ret).elim
        (.error .outOfRangeError, heap.sequences)
        (fun found => (.ok found.1, found.2)) := by
  have hIndex :
      (heap.arrays self).uintSize.toInt64.toInt =
        (heap.sequences.lists self).length :=
    toInt64_ofNat_toInt hSize
  unfold array_pushImpl
  rw [observe_array_insertImpl heap self hSize, hIndex, gap?_size,
    Option.bind_some, List.take_length, List.drop_length]

theorem observe_array_unshift
    (v : V) :
    observe (array_unshift heap self v) =
      (ArrayMethod.unshift v).specRun heap.sequences self := by
  have hIndex : (0 : Int64).toInt = 0 := rfl
  unfold array_unshift
  rw [observe_array_insertImpl heap self hSize, hIndex, gap?_zero,
    Option.bind_some, List.take_zero, List.drop_zero]
  rfl

----
-- Slices
----

theorem observe_allocSlice
    (start stop : Int64) :
    observe
        (allocSlice heap (slice (heap.arrays self) start stop)) =
      ((range? (heap.sequences.lists self).length start.toInt
          stop.toInt).map
        (fun r =>
          (ArrayResult.array heap.sequences.next,
            heap.sequences.alloc
              (((heap.sequences.lists self).drop r.1).take
                (r.2 - r.1))))).elim
        (.error .outOfRangeError, heap.sequences)
        (fun found => (.ok found.1, found.2)) := by
  unfold allocSlice
  rw [slice_eq hSize, lists_eq]
  unfold ArrayObject.size
  cases range? (heap.arrays self).values.length start.toInt
      stop.toInt with
  | none => rfl
  | some r =>
      simp only [Option.elim_some, Option.map_some, orRaise,
        observe_ok, sequences_alloc]
      rfl

theorem observe_array_sliceFrom
    (start : Int64) :
    observe (array_sliceFrom heap self start) =
      (ArrayMethod.sliceFrom start).specRun heap.sequences
        self := by
  have hIndex :
      (heap.arrays self).uintSize.toInt64.toInt =
        (heap.sequences.lists self).length :=
    toInt64_ofNat_toInt hSize
  simp only [array_sliceFrom, ArrayMethod.specRun,
    ArrayMethod.spec]
  rw [observe_allocSlice heap self hSize, hIndex]
  cases hRange :
      range? (heap.sequences.lists self).length start.toInt
        (heap.sequences.lists self).length with
  | none => rfl
  | some r =>
      have hStop := range?_stop_eq hRange
      simp only [Option.map_some, hStop]
      rw [List.take_of_length_le (Nat.le_of_eq List.length_drop)]

theorem observe_array_sliceTo
    (stop : Int64) :
    observe (array_sliceTo heap self stop) =
      (ArrayMethod.sliceTo stop).specRun heap.sequences self := by
  have hIndex : (0 : Int64).toInt = 0 := rfl
  simp only [array_sliceTo, ArrayMethod.specRun,
    ArrayMethod.spec]
  rw [observe_allocSlice heap self hSize, hIndex]
  cases hRange :
      range? (heap.sequences.lists self).length 0 stop.toInt with
  | none => rfl
  | some r =>
      have hStart := range?_start_eq hRange
      simp only [Option.map_some, hStart, List.drop_zero,
        Nat.sub_zero]

----
-- Extension
----

omit hSize in
theorem append_size_le
    {obj : ArrayObject V}
    (hSize : obj.size ≤ MAX_SIZE)
    (hFull : obj.size ≠ MAX_SIZE)
    (v : V) :
    (obj.append v).size ≤ MAX_SIZE := by
  have hLess := Nat.lt_of_le_of_ne hSize hFull
  unfold ArrayObject.append ArrayObject.size at *
  rw [List.length_append]
  exact hLess

omit hSize in
/- As many values are appended as there is room for. -/
theorem extendLoop_values
    (values : List V)
    {obj : ArrayObject V}
    (hSize : obj.size ≤ MAX_SIZE) :
    (extendLoop values obj).2.values =
      obj.values ++
        values.take (MAX_SIZE - obj.values.length) := by
  induction values generalizing obj with
  | nil => simp [extendLoop]
  | cons v values ih =>
      unfold extendLoop
      by_cases hFull : obj.size = MAX_SIZE
      · have hZero : MAX_SIZE - obj.values.length = 0 := by
          unfold ArrayObject.size at hFull
          omega
        rw [if_pos hFull, hZero, List.take_zero,
          List.append_nil]
      · have hRoom :
            MAX_SIZE - obj.values.length =
              MAX_SIZE - (obj.values.length + 1) + 1 := by
          unfold ArrayObject.size at hSize hFull
          omega
        have hNext := append_size_le hSize hFull v
        rw [if_neg hFull, ih hNext, hRoom, List.take_succ_cons]
        simp [ArrayObject.append]

omit hSize in
theorem extendLoop_whole_iff
    (values : List V)
    {obj : ArrayObject V}
    (hSize : obj.size ≤ MAX_SIZE) :
    (extendLoop values obj).1 = true ↔
      obj.values.length + values.length ≤ MAX_SIZE := by
  induction values generalizing obj with
  | nil =>
      unfold ArrayObject.size at hSize
      simpa [extendLoop] using hSize
  | cons v values ih =>
      unfold extendLoop
      by_cases hFull : obj.size = MAX_SIZE
      · have hLength : obj.values.length = MAX_SIZE := hFull
        rw [if_pos hFull, List.length_cons]
        simp only [Bool.false_eq_true, false_iff]
        omega
      · have hNext := append_size_le hSize hFull v
        rw [if_neg hFull, ih hNext, List.length_cons]
        simp only [ArrayObject.append, List.length_append,
          List.length_singleton]
        omega

omit hSize in
theorem array_extend_arrays
    {value : ArrayRef}
    (hNe : self ≠ value) :
    (array_extend heap self value).2.arrays self =
      (extendLoop (heap.arrays value).values
        (heap.arrays self)).2 := by
  unfold array_extend
  rw [if_pos hNe]
  exact if_pos rfl

theorem observe_array_extend_iff
    (value : ArrayRef) :
    observe (array_extend heap self value) =
        (ArrayMethod.extend value).specRun heap.sequences self ↔
      ¬ Partial heap.sequences self (.extend value) := by
  have hLists :
      ∀ r, heap.sequences.lists r = (heap.arrays r).values :=
    fun _ => rfl
  simp only [array_extend, ArrayMethod.specRun,
    ArrayMethod.spec, Partial]
  rw [hLists, hLists]
  by_cases hSelf : value = self
  · rw [if_neg (by simp [hSelf]), if_pos hSelf]
    simp [hSelf, observe_ok]
  · have hNe : self ≠ value := fun hEq => hSelf hEq.symm
    have hValues :=
      extendLoop_values (heap.arrays value).values hSize
    have hWhole :=
      extendLoop_whole_iff (heap.arrays value).values hSize
    rw [if_pos hNe, if_neg hSelf]
    by_cases hFits :
        (heap.arrays self).values.length +
          (heap.arrays value).values.length ≤ MAX_SIZE
    · have hAll :
          (heap.arrays value).values.take
              (MAX_SIZE - (heap.arrays self).values.length) =
            (heap.arrays value).values :=
        List.take_of_length_le (by omega)
      rw [hAll] at hValues
      have hTrue := hWhole.mpr hFits
      have hNot :
          ¬ (value ≠ self ∧
              (heap.arrays self).values.length < MAX_SIZE ∧
                MAX_SIZE <
                  (heap.arrays self).values.length +
                    (heap.arrays value).values.length) := by
        omega
      simp only [hTrue, if_true, if_pos hFits, observe_ok,
        sequences_put, hValues, Option.elim_some, hNot,
        not_false_eq_true]
    · have hFalse :
          ¬ (extendLoop (heap.arrays value).values
              (heap.arrays self)).1 = true :=
        fun hTrue => hFits (hWhole.mp hTrue)
      rw [if_neg hFalse, if_neg hFits, observe_error,
        sequences_put, hValues, Option.elim_none]
      constructor
      · rintro hEq ⟨_, hRoom, _⟩
        have hSequences := congrArg Prod.snd hEq
        have hList :=
          congrArg (fun s => (Sequences.lists s self).length)
            hSequences
        simp only [Sequences.put, if_true, hLists,
          List.length_append, List.length_take] at hList
        omega
      · intro hNot
        have hFull :
            MAX_SIZE - (heap.arrays self).values.length = 0 := by
          by_contra hRoom
          exact hNot ⟨hSelf, by omega, by omega⟩
        rw [hFull, List.take_zero, List.append_nil]
        have hSame :
            heap.sequences.put self (heap.arrays self).values =
              heap.sequences := by
          unfold Sequences.put
          congr 1
          funext r
          by_cases hRef : r = self
          · rw [if_pos hRef, hRef]
          · rw [if_neg hRef, hLists]
        rw [hSame]

----
-- Runs
----

/- A call is what the operation does, except for one that
   extends partially. -/
theorem observe_run_iff
    (method : ArrayMethod V) :
    observe (method.run heap self) =
        method.specRun heap.sequences self ↔
      ¬ Partial heap.sequences self method := by
  cases method with
  | get index =>
      exact iff_of_true (observe_array_get heap self hSize index) id
  | get2 index =>
      exact iff_of_true (observe_array_get2 heap self hSize index) id
  | set index v =>
      exact iff_of_true (observe_array_set heap self hSize index v) id
  | remove index =>
      exact iff_of_true (observe_array_remove heap self hSize index) id
  | peek => exact iff_of_true (observe_array_peek heap self) id
  | push v =>
      exact
        iff_of_true (observe_array_pushImpl heap self hSize v .void) id
  | pop => exact iff_of_true (observe_array_pop heap self) id
  | shift => exact iff_of_true (observe_array_shift heap self) id
  | unshift v =>
      exact iff_of_true (observe_array_unshift heap self hSize v) id
  | insert index v =>
      exact
        iff_of_true
          (observe_array_insertImpl heap self hSize index v .void) id
  | add v =>
      exact
        iff_of_true
          (observe_array_pushImpl heap self hSize v (.array self)) id
  | extend value => exact observe_array_extend_iff heap self hSize value
  | swap index v =>
      exact iff_of_true (observe_array_swap heap self hSize index v) id
  | slice start stop =>
      exact
        iff_of_true (observe_allocSlice heap self hSize start stop) id
  | sliceFrom start =>
      exact
        iff_of_true (observe_array_sliceFrom heap self hSize start) id
  | sliceTo stop =>
      exact iff_of_true (observe_array_sliceTo heap self hSize stop) id
  | copy =>
      refine iff_of_true ?_ id
      exact
        congrArg (Prod.mk _)
          (sequences_alloc heap (heap.arrays self))
  | reverse =>
      refine iff_of_true ?_ id
      exact
        congrArg (Prod.mk _)
          (sequences_put heap self (heap.arrays self).reversed)
  | clear =>
      refine iff_of_true ?_ id
      exact
        congrArg (Prod.mk _) (sequences_put heap self .empty)

end

section

variable {V : Type}
variable {s : Sequences V}
variable (hWithin : s.Within)

include hWithin

theorem within_put
    (ref : ArrayRef)
    {list : List V}
    (hList : list.length ≤ MAX_SIZE) :
    (s.put ref list).Within := by
  intro r
  unfold Sequences.put
  by_cases hRef : r = ref
  · simpa [hRef] using hList
  · simpa [hRef] using hWithin r

theorem within_alloc
    {list : List V}
    (hList : list.length ≤ MAX_SIZE) :
    (s.alloc list).Within :=
  within_put hWithin s.next hList

theorem within_grow
    {ref : ArrayRef}
    {list : List V}
    (hList : list.length ≤ (s.lists ref).length + 1)
    {ret : ArrayResult V}
    {found : ArrayResult V × Sequences V}
    (hFound : s.grow ref list ret = some found) :
    found.2.Within := by
  unfold Sequences.grow at hFound
  split at hFound
  · rename_i hLess
    cases hFound
    exact within_put hWithin ref (Nat.le_trans hList hLess)
  · cases hFound

/- Only the operations that add values look at the limit. -/
theorem within_spec
    {self : ArrayRef}
    {method : ArrayMethod V}
    {found : ArrayResult V × Sequences V}
    (hFound : method.spec s self = some found) :
    found.2.Within := by
  have hSelf := hWithin self
  have hShorter :
      ∀ {list : List V},
        list.length ≤ (s.lists self).length →
          (s.put self list).Within ∧ (s.alloc list).Within := by
    intro list hList
    have hLe := Nat.le_trans hList hSelf
    exact ⟨within_put hWithin self hLe, within_alloc hWithin hLe⟩
  cases method with
  | get index =>
      simp only [ArrayMethod.spec, Option.bind_eq_some_iff,
        Option.map_eq_some_iff] at hFound
      rcases hFound with ⟨_, _, _, _, rfl⟩
      exact hWithin
  | get2 index =>
      cases hFound
      exact hWithin
  | set index v =>
      simp only [ArrayMethod.spec, Option.map_eq_some_iff] at hFound
      rcases hFound with ⟨_, _, rfl⟩
      exact (hShorter (Nat.le_of_eq List.length_set)).1
  | remove index =>
      simp only [ArrayMethod.spec, Option.bind_eq_some_iff,
        Option.map_eq_some_iff] at hFound
      rcases hFound with ⟨_, _, _, _, rfl⟩
      exact (hShorter (List.length_eraseIdx_le _ _)).1
  | peek =>
      simp only [ArrayMethod.spec, Option.map_eq_some_iff] at hFound
      rcases hFound with ⟨_, _, rfl⟩
      exact hWithin
  | push v | unshift v | add v =>
      exact
        within_grow hWithin (Nat.le_of_eq (by simp)) hFound
  | pop | shift =>
      simp only [ArrayMethod.spec, Option.map_eq_some_iff] at hFound
      rcases hFound with ⟨_, _, rfl⟩
      exact (hShorter (by simp)).1
  | insert index v =>
      simp only [ArrayMethod.spec, Option.bind_eq_some_iff] at hFound
      rcases hFound with ⟨i, hGap, hGrow⟩
      have hLe := gap?_le hGap
      refine within_grow hWithin ?_ hGrow
      simp only [List.length_append, List.length_cons,
        List.length_take, List.length_drop]
      omega
  | extend value =>
      simp only [ArrayMethod.spec] at hFound
      split at hFound
      · cases hFound
        exact hWithin
      · split at hFound
        · rename_i hFits
          cases hFound
          rw [← List.length_append] at hFits
          exact within_put hWithin self hFits
        · cases hFound
  | swap index v =>
      simp only [ArrayMethod.spec, Option.bind_eq_some_iff,
        Option.map_eq_some_iff] at hFound
      rcases hFound with ⟨_, _, _, _, rfl⟩
      exact (hShorter (Nat.le_of_eq List.length_set)).1
  | slice start stop =>
      simp only [ArrayMethod.spec, Option.map_eq_some_iff] at hFound
      rcases hFound with ⟨_, _, rfl⟩
      refine (hShorter ?_).2
      rw [List.length_take, List.length_drop]
      omega
  | sliceFrom start =>
      simp only [ArrayMethod.spec, Option.map_eq_some_iff] at hFound
      rcases hFound with ⟨_, _, rfl⟩
      exact (hShorter (by simp)).2
  | sliceTo stop =>
      simp only [ArrayMethod.spec, Option.map_eq_some_iff] at hFound
      rcases hFound with ⟨_, _, rfl⟩
      exact (hShorter (List.length_take_le' _ _)).2
  | copy =>
      cases hFound
      exact (hShorter (Nat.le_refl _)).2
  | reverse =>
      cases hFound
      exact (hShorter (Nat.le_of_eq List.length_reverse)).1
  | clear =>
      cases hFound
      exact (hShorter (Nat.zero_le _)).1

theorem within_specRun
    (self : ArrayRef)
    (method : ArrayMethod V) :
    (method.specRun s self).2.Within := by
  unfold ArrayMethod.specRun
  cases hFound : method.spec s self with
  | none => exact hWithin
  | some found => exact within_spec hWithin hFound

end

/- By induction on the calls: up to the first partial one the
   sequences are the same. -/
theorem trace_eq_iff
    {V : Type}
    (calls : List (Call V))
    (heap : Heap V)
    (hWithin : heap.sequences.Within) :
    trace calls heap = specTrace calls heap.sequences ↔
      Whole calls heap.sequences := by
  induction calls generalizing heap with
  | nil => exact iff_of_true rfl trivial
  | cons call calls ih =>
      have hStep :=
        observe_run_iff heap call.1 (hWithin call.1) call.2
      rw [trace, specTrace, Whole, List.cons.injEq, hStep]
      apply and_congr_right
      intro hNot
      have hNext := congrArg Prod.snd (hStep.mpr hNot)
      have hNextWithin :=
        within_specRun hWithin call.1 call.2
      rw [← hNext] at hNextWithin ⊢
      exact ih (call.2.run heap call.1).2 hNextWithin

/- An array with room for one more value, and one with two. -/
def nearlyFull : Heap Unit where
  arrays :=
    fun r =>
      if r = 0 then
        { values := List.replicate (MAX_SIZE - 1) () }
      else
        { values := [(), ()] }
  next := 2

theorem within_nearlyFull : nearlyFull.sequences.Within := by
  intro ref
  by_cases hRef : ref = 0
  · have hList :
        nearlyFull.sequences.lists ref =
          List.replicate (MAX_SIZE - 1) () :=
      congrArg ArrayObject.values (if_pos hRef)
    rw [hList, List.length_replicate]
    exact Nat.sub_le _ _
  · have hList : nearlyFull.sequences.lists ref = [(), ()] :=
      congrArg ArrayObject.values (if_neg hRef)
    rw [hList]
    unfold MAX_SIZE
    exact Nat.le_of_ble_eq_true rfl

theorem partial_nearlyFull :
    Partial nearlyFull.sequences 0 (.extend 1) := by
  have hFirst :
      (nearlyFull.sequences.lists 0).length = MAX_SIZE - 1 :=
    List.length_replicate
  have hSecond : (nearlyFull.sequences.lists 1).length = 2 := rfl
  unfold MAX_SIZE at hFirst
  refine ⟨Nat.succ_ne_zero 0, ?_, ?_⟩
  · unfold MAX_SIZE
    omega
  · unfold MAX_SIZE
    omega

/- The error leaves the receiver changed. -/
theorem not_trace_eq :
    trace [(0, .extend 1)] nearlyFull ≠
        specTrace [(0, .extend 1)] nearlyFull.sequences ∧
      (ArrayMethod.extend 1).spec nearlyFull.sequences 0 = none ∧
      (((ArrayMethod.extend 1).run nearlyFull 0).2.arrays
          0).values.length = MAX_SIZE := by
  have hPartial := partial_nearlyFull
  have hFirst :
      (nearlyFull.arrays 0).values.length = MAX_SIZE - 1 :=
    List.length_replicate
  have hSecond : (nearlyFull.arrays 1).values.length = 2 := rfl
  have hSize : (nearlyFull.arrays 0).size ≤ MAX_SIZE :=
    within_nearlyFull 0
  refine ⟨?_, ?_, ?_⟩
  · intro hTrace
    rw [trace, specTrace, List.cons.injEq] at hTrace
    exact
      (observe_run_iff nearlyFull 0 hSize (.extend 1)).mp
        hTrace.1 hPartial
  · have hNot :
        ¬ (nearlyFull.sequences.lists 0).length +
            (nearlyFull.sequences.lists 1).length ≤ MAX_SIZE :=
      Nat.not_le.mpr hPartial.2.2
    rw [ArrayMethod.spec, if_neg (Nat.succ_ne_zero 0),
      if_neg hNot]
  · have hValues :=
      extendLoop_values (nearlyFull.arrays 1).values hSize
    have hArray :
        ((ArrayMethod.extend 1).run nearlyFull 0).2.arrays 0 =
          (extendLoop (nearlyFull.arrays 1).values
            (nearlyFull.arrays 0)).2 :=
      array_extend_arrays nearlyFull 0 Nat.zero_ne_one
    rw [hArray, hValues, List.length_append, List.length_take,
      hFirst, hSecond]
    unfold MAX_SIZE
    omega

/- The array is filled up, a value is refused, and the last one
   is taken. -/
theorem trace_eq_iff_nearlyFull :
    nearlyFull.sequences.Within ∧
      (trace [(0, .push ()), (0, .push ()), (0, .pop)]
          nearlyFull =
        specTrace [(0, .push ()), (0, .push ()), (0, .pop)]
          nearlyFull.sequences) :=
  ⟨within_nearlyFull,
    (trace_eq_iff _ nearlyFull within_nearlyFull).mpr
      ⟨id, id, id, trivial⟩⟩

end Builtin

end Ydsh
