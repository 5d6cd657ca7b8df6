import Ydsh.Library.HashTable
import Ydsh.Object.ValueLaws

/-
  Maps and sorted arrays of values.

  A map is a hash table whose keys are compared and hashed as
  values are, and an array is sorted by the order of values.
  Unless there is a number that is not a number, a map is a
  finite map from what its keys denote, and an array is sorted.

  Main declarations:
    * `MapCall.run`
    * `MapCall.meaning`
    * `represents_runs`
    * `array_sort`
    * `Lawful`
    * `lawful_iff`
-/

----
-- Maps
----

namespace Ydsh

namespace Object

open Library.HashTable (Hashing Table Layout Respects Represents
  link assign erase)

open Library.StableSort (WeakOrder insertionSort equivalent)

open DSValue

/- `GenHash` and `KeyCompare` -/
def hashing (std : StdHash) : Hashing DSValue where
  hash := fun key => (key.hash std).toNat
  equal := DSValue.equals

abbrev HashMap (V : Type) : Type :=
  Table DSValue V

inductive MapCall (V : Type) where
  | find (key : DSValue)
  | set (key : DSValue) (value : V)
  | setDefault (key : DSValue) (value : V)
  | trySwap (key : DSValue) (value : V)
  | remove (key : DSValue)
  | clear
  deriving DecidableEq, Repr

/- No value in an option stands for an invalid value. -/
inductive MapAnswer (V : Type) where
  | option (value : Option V)
  | value (value : V)
  | boolean (value : Bool)
  | void
  deriving DecidableEq, Repr

variable {V : Type}

namespace MapCall

def key : MapCall V → Option DSValue
  | find key => some key
  | set key _ => some key
  | setDefault key _ => some key
  | trySwap key _ => some key
  | remove key => some key
  | clear => none

def run
    (std : StdHash)
    (layout : Layout DSValue V)
    (map : HashMap V) :
    MapCall V → HashMap V × MapAnswer V
  | find key =>
      (map, .option (Library.HashTable.find (hashing std) map key))
  | set key value =>
      match Library.HashTable.find (hashing std) map key with
      | none => (link layout map key value, .option none)
      | some old =>
          (assign (hashing std) map key value,
            .option (some old))
  | setDefault key value =>
      match Library.HashTable.find (hashing std) map key with
      | none => (link layout map key value, .value value)
      | some old => (map, .value old)
  | trySwap key value =>
      match Library.HashTable.find (hashing std) map key with
      | none => (map, .option none)
      | some old =>
          (assign (hashing std) map key value,
            .option (some old))
  | remove key =>
      match Library.HashTable.find (hashing std) map key with
      | none => (map, .boolean false)
      | some _ =>
          (erase (hashing std) map key, .boolean true)
  | clear => (Library.HashTable.clear map, .void)

/- The same calls on a finite map from what keys denote. -/
def meaning
    (map : KeyValue → Option V) :
    MapCall V → (KeyValue → Option V) × MapAnswer V
  | find key => (map, .option (map key.keyValue))
  | set key value =>
      (Function.update map key.keyValue (some value),
        .option (map key.keyValue))
  | setDefault key value =>
      match map key.keyValue with
      | none =>
          (Function.update map key.keyValue (some value),
            .value value)
      | some old => (map, .value old)
  | trySwap key value =>
      match map key.keyValue with
      | none => (map, .option none)
      | some old =>
          (Function.update map key.keyValue (some value),
            .option (some old))
  | remove key =>
      (Function.update map key.keyValue none,
        .boolean (map key.keyValue).isSome)
  | clear => (fun _ => none, .void)

end MapCall

/- One call after the other, with what they answer. -/
def runs
    (std : StdHash)
    (layout : Layout DSValue V) :
    HashMap V →
      List (MapCall V) → HashMap V × List (MapAnswer V)
  | map, [] => (map, [])
  | map, call :: calls =>
      let next := call.run std layout map
      let rest := runs std layout next.1 calls
      (rest.1, next.2 :: rest.2)

def meanings :
    (KeyValue → Option V) →
      List (MapCall V) →
        (KeyValue → Option V) × List (MapAnswer V)
  | map, [] => (map, [])
  | map, call :: calls =>
      let next := call.meaning map
      let rest := meanings next.1 calls
      (rest.1, next.2 :: rest.2)

----
-- Finite Maps
----

variable {std : StdHash}
variable {layout : Layout DSValue V}
variable {map : HashMap V}
variable {denoted : KeyValue → Option V}
variable {usable : DSValue → Prop}

def Numbers (usable : DSValue → Prop) : Prop :=
  ∀ value, usable value → value.isNaN = false

theorem respects_hashing
    (hNumbers : Numbers usable) :
    Respects (hashing std) keyValue usable where
  equal_iff := by
    intro x y hX hY
    exact equals_iff (hNumbers x hX) (hNumbers y hY)
  hash_eq := by
    intro x y hX hY hSame
    exact
      congrArg UInt64.toNat
        (hash_eq (hNumbers x hX) (hNumbers y hY) hSame)

/- One call answers as on a finite map. -/
theorem represents_run
    {call : MapCall V}
    (hNumbers : Numbers usable)
    (hMap : Represents keyValue usable map denoted)
    (hKey : ∀ key, call.key = some key → usable key) :
    (call.run std layout map).2 = (call.meaning denoted).2 ∧
      Represents keyValue usable (call.run std layout map).1
        (call.meaning denoted).1 := by
  have hRespects : Respects (hashing std) keyValue usable :=
    respects_hashing hNumbers
  have hFind (key : DSValue) (hUsable : usable key) :=
    hMap.find_eq hRespects hUsable
  cases call with
  | find key =>
      have hFound := hFind key (hKey key rfl)
      exact ⟨congrArg MapAnswer.option hFound, hMap⟩
  | set key value =>
      have hUsable := hKey key rfl
      simp only [MapCall.run, MapCall.meaning,
        hFind key hUsable]
      cases hOld : denoted key.keyValue with
      | none => exact ⟨rfl, hMap.link layout hUsable hOld⟩
      | some old =>
          exact ⟨rfl, hMap.assign hRespects hUsable hOld⟩
  | setDefault key value =>
      have hUsable := hKey key rfl
      simp only [MapCall.run, MapCall.meaning,
        hFind key hUsable]
      cases hOld : denoted key.keyValue with
      | none => exact ⟨rfl, hMap.link layout hUsable hOld⟩
      | some old => exact ⟨rfl, hMap⟩
  | trySwap key value =>
      have hUsable := hKey key rfl
      simp only [MapCall.run, MapCall.meaning,
        hFind key hUsable]
      cases hOld : denoted key.keyValue with
      | none => exact ⟨rfl, hMap⟩
      | some old =>
          exact ⟨rfl, hMap.assign hRespects hUsable hOld⟩
  | remove key =>
      have hUsable := hKey key rfl
      simp only [MapCall.run, MapCall.meaning,
        hFind key hUsable]
      cases hOld : denoted key.keyValue with
      | none =>
          have hSame :
              Function.update denoted key.keyValue none =
                denoted :=
            Function.update_eq_self_iff.mpr hOld.symm
          rw [hSame]
          exact ⟨rfl, hMap⟩
      | some old => exact ⟨rfl, hMap.erase hRespects hUsable⟩
  | clear => exact ⟨rfl, Represents.clear⟩

/- And so does a run of calls. -/
theorem represents_runs
    {calls : List (MapCall V)}
    (hNumbers : Numbers usable)
    (hMap : Represents keyValue usable map denoted)
    (hKeys :
      ∀ call ∈ calls,
        ∀ key, call.key = some key → usable key) :
    (runs std layout map calls).2 = (meanings denoted calls).2 ∧
      Represents keyValue usable (runs std layout map calls).1
        (meanings denoted calls).1 := by
  induction calls generalizing map denoted with
  | nil => exact ⟨rfl, hMap⟩
  | cons call calls ih =>
      rcases
          @represents_run V std layout map denoted usable call
            hNumbers hMap (hKeys call List.mem_cons_self) with
        ⟨hAnswer, hNext⟩
      rcases
          ih hNext
            (fun other hOther =>
              hKeys other (List.mem_cons_of_mem _ hOther)) with
        ⟨hAnswers, hLast⟩
      have hBoth := List.cons_eq_cons.mpr ⟨hAnswer, hAnswers⟩
      exact ⟨hBoth, hLast⟩

/- Two equal keys are never both there. -/
theorem not_equals_of_represents
    (hNumbers : Numbers usable)
    (hMap : Represents keyValue usable map denoted) :
    map.entries.Pairwise
      (fun entry other => entry.1.equals other.1 = false) := by
  have hDistinct := List.pairwise_map.mp hMap.distinct
  apply List.Pairwise.imp_of_mem _ hDistinct
  intro entry other hEntry hOther hNe
  have hNumber := hNumbers _ (hMap.usable entry hEntry)
  have hNumber' := hNumbers _ (hMap.usable other hOther)
  apply Bool.eq_false_iff.mpr
  intro hEquals
  exact hNe ((equals_iff hNumber hNumber').mp hEquals)

/- `std::sort`, of which is known that it sorts by a strict weak
   order. -/
structure StdSort (V : Type) where
  sort : (V → V → Bool) → List V → List V
  perm :
    ∀ lt values,
      WeakOrder lt values → (sort lt values).Perm values
  ordered :
    ∀ lt values,
      WeakOrder lt values →
        (sort lt values).Pairwise (fun x y => lt y x = false)

def array_sort
    (std : StdSort DSValue)
    (values : List DSValue) : List DSValue :=
  std.sort lessThan values

/- There is such a sort. -/
def StdSort.insertion : StdSort V where
  sort := insertionSort
  perm := fun _ _ hOrder =>
    (Library.StableSort.isStableSort_insertionSort hOrder).perm
  ordered := fun _ _ hOrder =>
    (Library.StableSort.isStableSort_insertionSort
      hOrder).ordered

example :
    array_sort StdSort.insertion [.int 3, .int 1, .int 2] =
      [.int 1, .int 2, .int 3] := by
  decide

----
-- The Laws
----

/- Usable values of one type. -/
def OfType
    (usable : DSValue → Prop)
    (type : BuiltinType)
    (values : List DSValue) : Prop :=
  ∀ value ∈ values, usable value ∧ value.getType = type

structure Lawful
    (std : StdHash)
    (usable : DSValue → Prop) : Prop where
  refl : ∀ x, usable x → x.equals x = true
  symm :
    ∀ x y, usable x → usable y →
      x.equals y = true → y.equals x = true
  trans :
    ∀ x y z, usable x → usable y → usable z →
      x.equals y = true → y.equals z = true → x.equals z = true
  denotes :
    ∀ x y, usable x → usable y →
      (x.equals y = true ↔ x.keyValue = y.keyValue)
  hash :
    ∀ x y, usable x → usable y →
      x.equals y = true → x.hash std = y.hash std
  compared :
    ∀ x y, usable x → usable y →
      x.getType = y.getType → (x.compare y).isSome = true
  ordered :
    ∀ type values,
      OfType usable type values → WeakOrder lessThan values
  incomparable :
    ∀ x y, usable x → usable y →
      x.getType = y.getType →
        (equivalent lessThan x y = true ↔ x.equals y = true)
  maps :
    ∀ (V : Type)
      (layout : Layout DSValue V)
      (calls : List (MapCall V)),
      (∀ call ∈ calls,
          ∀ key, call.key = some key → usable key) →
        (runs std layout Table.empty calls).2 =
            (meanings (fun _ => none) calls).2 ∧
          (runs std layout Table.empty calls).1.entries.Pairwise
            (fun entry other =>
              entry.1.equals other.1 = false)
  sorts :
    ∀ (sort : StdSort DSValue) type values,
      OfType usable type values →
        (array_sort sort values).Perm values ∧
          (array_sort sort values).Pairwise
            (fun x y => y.compare x = some false)

theorem comparable_of_ofType
    {type : BuiltinType}
    {values : List DSValue}
    (hNumbers : Numbers usable)
    (hValues : OfType usable type values) :
    Comparable type values := by
  intro value hMem
  rcases hValues value hMem with ⟨hUsable, hType⟩
  exact ⟨hNumbers value hUsable, hType⟩

/- An array of values of one type is sorted. -/
theorem array_sort_ordered
    {sort : StdSort DSValue}
    {type : BuiltinType}
    {values : List DSValue}
    (hNumbers : Numbers usable)
    (hValues : OfType usable type values) :
    (array_sort sort values).Perm values ∧
      (array_sort sort values).Pairwise
        (fun x y => y.compare x = some false) := by
  have hOrder :=
    weakOrder_lessThan (comparable_of_ofType hNumbers hValues)
  have hPerm := sort.perm lessThan values hOrder
  refine ⟨hPerm, ?_⟩
  apply
    List.Pairwise.imp_of_mem _
      (sort.ordered lessThan values hOrder)
  intro x y hX hY hNot
  have hTypeX := (hValues x (hPerm.mem_iff.mp hX)).2
  have hTypeY := (hValues y (hPerm.mem_iff.mp hY)).2
  have hSome := compare_isSome (hTypeY.trans hTypeX.symm)
  rcases Option.isSome_iff_exists.mp hSome with ⟨answer, hAnswer⟩
  have hFalse : answer = false := by
    unfold lessThan at hNot
    rw [hAnswer] at hNot
    exact hNot
  rw [hAnswer, hFalse]

/-
  The laws hold for a set of values exactly if there is no value
  among them that is not a number.
-/
theorem lawful_iff
    (std : StdHash)
    (usable : DSValue → Prop) :
    Lawful std usable ↔
      ∀ value, usable value → value.isNaN = false := by
  constructor
  · intro hLawful value hUsable
    by_contra hNot
    have hNaN : value.isNaN = true := Bool.of_not_eq_false hNot
    have hRefl := hLawful.refl value hUsable
    rw [not_equals_of_isNaN hNaN] at hRefl
    cases hRefl
  · intro hNumbers
    have hEquals (x y : DSValue) (hX : usable x) (hY : usable y) :=
      equals_iff (hNumbers x hX) (hNumbers y hY)
    constructor
    · intro x hX
      exact (hEquals x x hX hX).mpr rfl
    · intro x y hX hY hSame
      exact
        (hEquals y x hY hX).mpr
          ((hEquals x y hX hY).mp hSame).symm
    · intro x y z hX hY hZ hSame hSame'
      exact
        (hEquals x z hX hZ).mpr
          (((hEquals x y hX hY).mp hSame).trans
            ((hEquals y z hY hZ).mp hSame'))
    · exact hEquals
    · intro x y hX hY hSame
      exact
        hash_eq (hNumbers x hX) (hNumbers y hY)
          ((hEquals x y hX hY).mp hSame)
    · intro x y _ _ hType
      exact compare_isSome hType
    · intro type values hValues
      exact
        weakOrder_lessThan
          (comparable_of_ofType hNumbers hValues)
    · intro x y hX hY hType
      exact
        equivalent_iff_equals (hNumbers x hX) (hNumbers y hY)
          hType
    · intro V layout calls hKeys
      rcases
          @represents_runs V std layout Table.empty _ usable
            calls hNumbers Represents.empty hKeys with
        ⟨hAnswers, hMap⟩
      exact ⟨hAnswers, not_equals_of_represents hNumbers hMap⟩
    · intro sort type values hValues
      exact array_sort_ordered hNumbers hValues

/- A key that is not a number is stored and not found again. -/
theorem not_lawful :
    ¬ ∀ (std : StdHash) (usable : DSValue → Prop),
      Lawful std usable := by
  intro hAll
  have hMaps :=
    (hAll
      { bool := fun _ => 0
        int64 := fun _ => 0
        double := fun _ => 0
        double_eq := fun _ _ _ => rfl }
      (fun _ => True)).maps
  have hAnswers :=
    (hMaps Nat
      { bucketCount := fun _ _ => 1
        arrange := fun entries => entries
        perm := fun _ => List.Perm.refl _ }
      [.set (.float ⟨0x7ff8000000000000⟩) 1,
        .find (.float ⟨0x7ff8000000000000⟩)]
      (fun _ _ _ _ => trivial)).1
  exact absurd hAnswers (by decide)

end Object

end Ydsh
