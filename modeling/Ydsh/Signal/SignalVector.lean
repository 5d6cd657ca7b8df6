import Mathlib.Data.Int.Order.Basic
import Mathlib.Logic.Function.Basic
import Ydsh.Library.SortedVector

/-
  The handlers of the signals, in a vector that is searched by
  halving.

  Main declarations:
    * `insertOrUpdate`
    * `lookup`
    * `lookup_insertOrUpdate`
    * `signalVector_refines`
-/

----
-- Operations
----

namespace Ydsh

namespace SignalVector

open Library

/- A handler that is null is `none`. -/
variable {Handler : Type}

/- The first entry that is not below the signal. -/
def lowerEntry
    (data : List (Int × Handler))
    (sigNum : Int) : Nat :=
  lowerBound (keyBelow Prod.fst sigNum) data

def insertOrUpdate
    (data : List (Int × Handler))
    (sigNum : Int)
    (func : Option Handler) : List (Int × Handler) :=
  let iter := lowerEntry data sigNum
  if (data[iter]?).map Prod.fst = some sigNum then
    match func with
    | some handler => data.set iter (sigNum, handler)
    | none => data.eraseIdx iter
  else
    match func with
    | some handler => data.insertIdx iter (sigNum, handler)
    | none => data

def lookup
    (data : List (Int × Handler))
    (sigNum : Int) : Option Handler :=
  let iter := lowerEntry data sigNum
  if (data[iter]?).map Prod.fst = some sigNum then
    (data[iter]?).map Prod.snd
  else
    none

----
-- Entries
----

variable {data : List (Int × Handler)}
variable {sigNum other : Int}
variable {handler : Handler}

/- An entry of the signal is at its lower bound. -/
theorem entry_iff
    (hSorted : SortedBy Prod.fst data) :
    (sigNum, handler) ∈ data ↔
      data[lowerEntry data sigNum]? = some (sigNum, handler) := by
  constructor
  · intro hMem
    rcases List.mem_iff_getElem?.mp hMem with ⟨index, hGet⟩
    have hIndex : lowerEntry data sigNum = index :=
      hSorted.lowerBound_of_key hGet
    rw [hIndex]
    exact hGet
  · exact List.mem_of_getElem?

theorem lookup_eq_some_iff
    (hSorted : SortedBy Prod.fst data) :
    lookup data sigNum = some handler ↔
      (sigNum, handler) ∈ data := by
  rw [entry_iff hSorted]
  unfold lookup
  simp only
  cases hGet : data[lowerEntry data sigNum]? with
  | none => simp
  | some entry =>
      rcases entry with ⟨key, value⟩
      by_cases hKey : key = sigNum
      · simp [hKey]
      · simp [hKey]

/- Where no entry of the signal is found, there is none. -/
theorem ne_of_not_found
    (hSorted : SortedBy Prod.fst data)
    (hNone :
      (data[lowerEntry data sigNum]?).map Prod.fst ≠
        some sigNum) :
    ∀ entry ∈ data, entry.1 ≠ sigNum := by
  rintro ⟨key, value⟩ hMem hKey
  apply hNone
  subst hKey
  rw [(entry_iff hSorted).mp hMem]
  rfl

/- Only the handler of an entry is replaced. -/
theorem map_fst_set
    (hFound :
      (data[lowerEntry data sigNum]?).map Prod.fst =
        some sigNum) :
    (data.set (lowerEntry data sigNum) (sigNum, handler)).map
        Prod.fst =
      data.map Prod.fst := by
  apply List.ext_getElem?
  intro index
  rw [List.getElem?_map, List.getElem?_map, List.getElem?_set]
  by_cases hIndex : lowerEntry data sigNum = index
  · rw [if_pos hIndex, ← hIndex, hFound]
    rcases Option.map_eq_some_iff.mp hFound with ⟨_, hGet, _⟩
    rw [if_pos (List.getElem?_eq_some_iff.mp hGet).1]
    rfl
  · rw [if_neg hIndex]

theorem sorted_insertOrUpdate
    (hSorted : SortedBy Prod.fst data)
    (sigNum : Int)
    (func : Option Handler) :
    SortedBy Prod.fst (insertOrUpdate data sigNum func) := by
  by_cases hFound :
    (data[lowerEntry data sigNum]?).map Prod.fst = some sigNum
  · cases func with
    | none =>
        simp only [insertOrUpdate, if_pos hFound]
        exact List.Pairwise.sublist (List.eraseIdx_sublist _ _)
          hSorted
    | some handler =>
        simp only [insertOrUpdate, if_pos hFound]
        exact hSorted.of_map_eq (map_fst_set hFound)
  · cases func with
    | none =>
        simp only [insertOrUpdate, if_neg hFound]
        exact hSorted
    | some handler =>
        simp only [insertOrUpdate, if_neg hFound]
        exact
          @SortedBy.insertIdx _ _ _ Prod.fst data hSorted
            (sigNum, handler)
            (ne_of_not_found hSorted hFound)

/- The entries of other signals stay as they are. -/
theorem mem_insertOrUpdate_other
    (func : Option Handler)
    (hOther : other ≠ sigNum) :
    (other, handler) ∈ insertOrUpdate data sigNum func ↔
      (other, handler) ∈ data := by
  by_cases hFound :
    (data[lowerEntry data sigNum]?).map Prod.fst = some sigNum
  · have hHere :
        ∀ index, data[index]? = some (other, handler) →
          lowerEntry data sigNum ≠ index := by
      intro index hGet hIndex
      rw [hIndex, hGet] at hFound
      exact hOther (Option.some.inj hFound)
    cases func with
    | none =>
        simp only [insertOrUpdate, if_pos hFound]
        rw [List.mem_eraseIdx_iff_getElem?,
          List.mem_iff_getElem?]
        constructor
        · rintro ⟨index, _, hGet⟩
          exact ⟨index, hGet⟩
        · intro hMem
          rcases hMem with ⟨index, hGet⟩
          exact ⟨index, Ne.symm (hHere index hGet), hGet⟩
    | some value =>
        simp only [insertOrUpdate, if_pos hFound]
        rw [List.mem_iff_getElem?, List.mem_iff_getElem?]
        apply exists_congr
        intro index
        rw [List.getElem?_set]
        by_cases hIndex : lowerEntry data sigNum = index
        · rw [if_pos hIndex]
          constructor
          · intro hGet
            split_ifs at hGet
            exact absurd
              (congrArg Prod.fst (Option.some.inj hGet)).symm
              hOther
          · exact fun hGet => absurd hIndex (hHere index hGet)
        · rw [if_neg hIndex]
  · cases func with
    | none =>
        simp only [insertOrUpdate, if_neg hFound]
    | some value =>
        simp only [insertOrUpdate, if_neg hFound]
        have hLe : lowerEntry data sigNum ≤ data.length :=
          lowerBound_le_length _ _
        rw [List.mem_insertIdx hLe]
        apply or_iff_right
        exact fun hSame => hOther (congrArg Prod.fst hSame)

/- One signal has one handler. -/
theorem handler_unique
    (hSorted : SortedBy Prod.fst data)
    {value : Handler}
    (hMem : (sigNum, handler) ∈ data)
    (hOther : (sigNum, value) ∈ data) :
    handler = value := by
  have hGet := (entry_iff hSorted).mp hMem
  rw [(entry_iff hSorted).mp hOther] at hGet
  exact (congrArg Prod.snd (Option.some.inj hGet)).symm

/- A handler that is not null is there afterwards. -/
theorem mem_insertOrUpdate_some :
    (sigNum, handler) ∈
      insertOrUpdate data sigNum (some handler) := by
  by_cases hFound :
    (data[lowerEntry data sigNum]?).map Prod.fst = some sigNum
  · rcases Option.map_eq_some_iff.mp hFound with ⟨_, hGet, _⟩
    simp only [insertOrUpdate, if_pos hFound]
    exact List.mem_set (List.getElem?_eq_some_iff.mp hGet).1 _
  · have hLe : lowerEntry data sigNum ≤ data.length :=
      lowerBound_le_length _ _
    simp only [insertOrUpdate, if_neg hFound]
    exact (List.mem_insertIdx hLe).mpr (Or.inl rfl)

/- A null handler leaves no entry of the signal. -/
theorem not_mem_insertOrUpdate_none
    (hSorted : SortedBy Prod.fst data) :
    (sigNum, handler) ∉ insertOrUpdate data sigNum none := by
  intro hMem
  by_cases hFound :
    (data[lowerEntry data sigNum]?).map Prod.fst = some sigNum
  · simp only [insertOrUpdate, if_pos hFound] at hMem
    rcases List.mem_eraseIdx_iff_getElem?.mp hMem with
      ⟨index, hOther, hGet⟩
    exact hOther (hSorted.lowerBound_of_key hGet).symm
  · simp only [insertOrUpdate, if_neg hFound] at hMem
    exact ne_of_not_found hSorted hFound _ hMem rfl

/- What the entry of the signal is afterwards. -/
theorem mem_insertOrUpdate_self
    (hSorted : SortedBy Prod.fst data)
    (func : Option Handler) :
    (sigNum, handler) ∈ insertOrUpdate data sigNum func ↔
      func = some handler := by
  cases func with
  | none =>
      simpa using not_mem_insertOrUpdate_none hSorted
  | some value =>
      constructor
      · intro hMem
        have hAfter := sorted_insertOrUpdate hSorted sigNum
          (some value)
        rw [handler_unique hAfter hMem mem_insertOrUpdate_some]
      · intro hSame
        rw [hSame]
        exact mem_insertOrUpdate_some

/- An update changes the handler of its signal only. -/
theorem lookup_insertOrUpdate
    (hSorted : SortedBy Prod.fst data)
    (sigNum : Int)
    (func : Option Handler) :
    lookup (insertOrUpdate data sigNum func) =
      Function.update (lookup data) sigNum func := by
  have hAfter := sorted_insertOrUpdate hSorted sigNum func
  funext other
  apply Option.ext
  intro handler
  rw [lookup_eq_some_iff hAfter]
  by_cases hSame : other = sigNum
  · subst hSame
    rw [mem_insertOrUpdate_self hSorted,
      Function.update_self]
  · rw [mem_insertOrUpdate_other func hSame,
      Function.update_of_ne hSame,
      lookup_eq_some_iff hSorted]

----
-- Runs
----

/- The vector after some calls. -/
def run
    (data : List (Int × Handler))
    (calls : List (Int × Option Handler)) :
    List (Int × Handler) :=
  calls.foldl
    (fun data call => insertOrUpdate data call.1 call.2)
    data

/- The finite map the calls stand for. -/
def handlers
    (map : Int → Option Handler)
    (calls : List (Int × Option Handler)) :
    Int → Option Handler :=
  calls.foldl
    (fun map call => Function.update map call.1 call.2)
    map

theorem run_refines
    (calls : List (Int × Option Handler))
    (hSorted : SortedBy Prod.fst data) :
    SortedBy Prod.fst (run data calls) ∧
      lookup (run data calls) =
        handlers (lookup data) calls := by
  induction calls generalizing data with
  | nil => exact ⟨hSorted, rfl⟩
  | cons call calls ih =>
      have hNext :=
        ih (sorted_insertOrUpdate hSorted call.1 call.2)
      rw [lookup_insertOrUpdate hSorted] at hNext
      exact hNext

/-
  From the empty vector, the entries are in strict order of
  the signals after any calls, and a lookup finds what the
  last call for the signal has left.
-/
theorem signalVector_refines
    (calls : List (Int × Option Handler)) :
    (run [] calls).Pairwise (fun x y => x.1 < y.1) ∧
      ((run [] calls).map Prod.fst).Nodup ∧
      ∀ sigNum,
        lookup (run [] calls) sigNum =
          handlers (fun _ => none) calls sigNum := by
  rcases run_refines calls (SortedBy.nil Prod.fst) with
    ⟨hSorted, hLookup⟩
  refine ⟨hSorted, ?_, ?_⟩
  · apply List.pairwise_map.mpr
    exact hSorted.imp ne_of_lt
  · intro sigNum
    rw [hLookup]
    rfl

end SignalVector

end Ydsh
