import Mathlib.Data.List.Nodup
import Mathlib.Logic.Function.Basic

/-
  Hash tables and the finite maps that they represent.

  The entries of a bucket are those whose hash values have the
  same remainder.  How many buckets there are and in which order
  the entries stand is left to a layout.  If keys that denote
  the same are equal and hash alike, a table is a finite map
  from what its keys denote.

  Main declarations:
    * `Hashing`
    * `Table`
    * `Respects`
    * `Represents`
    * `Represents.find_eq`
    * `Represents.link`
    * `Represents.assign`
    * `Represents.erase`
-/

----
-- Tables
----

namespace Ydsh

namespace Library

namespace HashTable

structure Hashing (K : Type) where
  hash : K → Nat
  equal : K → K → Bool

structure Table (K V : Type) where
  bucketCount : Nat
  entries : List (K × V)
  deriving DecidableEq, Repr

/- Where a new entry goes, and when the buckets change. -/
structure Layout (K V : Type) where
  bucketCount : Nat → Nat → Nat
  arrange : List (K × V) → List (K × V)
  perm : ∀ entries, (arrange entries).Perm entries

variable {K V C : Type}

def Table.empty : Table K V :=
  { bucketCount := 1, entries := [] }

/- The entry is in the bucket of the key and has this key. -/
def holds
    (hashing : Hashing K)
    (table : Table K V)
    (key : K)
    (entry : K × V) : Bool :=
  hashing.hash entry.1 % table.bucketCount ==
      hashing.hash key % table.bucketCount &&
    hashing.equal key entry.1

def find
    (hashing : Hashing K)
    (table : Table K V)
    (key : K) : Option V :=
  (table.entries.find? (holds hashing table key)).map Prod.snd

def link
    (layout : Layout K V)
    (table : Table K V)
    (key : K)
    (value : V) : Table K V :=
  { bucketCount :=
      layout.bucketCount table.bucketCount table.entries.length
    entries := layout.arrange ((key, value) :: table.entries) }

/- The first entry found is given the value. -/
def replaceFirst
    (found : K × V → Bool)
    (value : V) : List (K × V) → List (K × V)
  | [] => []
  | entry :: rest =>
      if found entry then
        (entry.1, value) :: rest
      else
        entry :: replaceFirst found value rest

def assign
    (hashing : Hashing K)
    (table : Table K V)
    (key : K)
    (value : V) : Table K V :=
  { table with
    entries :=
      replaceFirst (holds hashing table key) value
        table.entries }

def erase
    (hashing : Hashing K)
    (table : Table K V)
    (key : K) : Table K V :=
  { table with
    entries := table.entries.eraseP (holds hashing table key) }

def clear (table : Table K V) : Table K V :=
  { table with entries := [] }

----
-- Lists with One Entry Found
----

section

variable {found : K × V → Bool}
variable {value : V}
variable {entries : List (K × V)}
variable {entry : K × V}

/- At most one entry is found. -/
def AtMostOne
    (found : K × V → Bool)
    (entries : List (K × V)) : Prop :=
  entries.Pairwise
    (fun entry other => found entry = true → found other = false)

theorem map_fst_replaceFirst :
    (replaceFirst found value entries).map Prod.fst =
      entries.map Prod.fst := by
  induction entries with
  | nil => rfl
  | cons entry rest ih =>
      unfold replaceFirst
      by_cases hFound : found entry = true
      · rw [if_pos hFound]
        simp
      · rw [if_neg hFound]
        simpa using ih

theorem mem_replaceFirst
    (hOne : AtMostOne found entries) :
    entry ∈ replaceFirst found value entries ↔
      (entry ∈ entries ∧ found entry = false) ∨
        ∃ old ∈ entries,
          found old = true ∧ entry = (old.1, value) := by
  induction entries with
  | nil => simp [replaceFirst]
  | cons first rest ih =>
      rcases List.pairwise_cons.mp hOne with ⟨hFirst, hRest⟩
      unfold replaceFirst
      by_cases hFound : found first = true
      · have hNone := fun other hOther =>
          hFirst other hOther hFound
        rw [if_pos hFound]
        constructor
        · intro hMem
          rcases List.mem_cons.mp hMem with hNew | hOld
          · exact
              Or.inr
                ⟨first, List.mem_cons_self, hFound, hNew⟩
          · exact
              Or.inl
                ⟨List.mem_cons_of_mem _ hOld, hNone _ hOld⟩
        · rintro (⟨hMem, hNot⟩ | ⟨old, hOld, hIs, hEntry⟩)
          · rcases List.mem_cons.mp hMem with hSame | hOld
            · rw [hSame, hFound] at hNot
              cases hNot
            · exact List.mem_cons_of_mem _ hOld
          · rcases List.mem_cons.mp hOld with hSame | hMore
            · rw [hEntry, hSame]
              exact List.mem_cons_self
            · rw [hNone old hMore] at hIs
              cases hIs
      · have hNot : found first = false :=
          Bool.eq_false_iff.mpr hFound
        rw [if_neg hFound, List.mem_cons, ih hRest]
        constructor
        · rintro (hSame | ⟨hMem, hFalse⟩ | ⟨old, hOld, hIs⟩)
          · rw [hSame]
            exact Or.inl ⟨List.mem_cons_self, hNot⟩
          · exact
              Or.inl ⟨List.mem_cons_of_mem _ hMem, hFalse⟩
          · exact
              Or.inr ⟨old, List.mem_cons_of_mem _ hOld, hIs⟩
        · rintro (⟨hMem, hFalse⟩ | ⟨old, hOld, hIs, hEntry⟩)
          · rcases List.mem_cons.mp hMem with hSame | hMore
            · exact Or.inl hSame
            · exact Or.inr (Or.inl ⟨hMore, hFalse⟩)
          · rcases List.mem_cons.mp hOld with hSame | hMore
            · rw [hSame, hNot] at hIs
              cases hIs
            · exact Or.inr (Or.inr ⟨old, hMore, hIs, hEntry⟩)

theorem mem_eraseP
    (hOne : AtMostOne found entries) :
    entry ∈ entries.eraseP found ↔
      entry ∈ entries ∧ found entry = false := by
  induction entries with
  | nil => simp
  | cons first rest ih =>
      rcases List.pairwise_cons.mp hOne with ⟨hFirst, hRest⟩
      by_cases hFound : found first = true
      · rw [List.eraseP_cons_of_pos hFound]
        constructor
        · intro hMem
          exact
            ⟨List.mem_cons_of_mem _ hMem,
              hFirst entry hMem hFound⟩
        · intro hBoth
          rcases List.mem_cons.mp hBoth.1 with hSame | hMem
          · rw [hSame, hFound] at hBoth
            cases hBoth.2
          · exact hMem
      · have hNot : found first = false :=
          Bool.eq_false_iff.mpr hFound
        rw [List.eraseP_cons_of_neg hFound, List.mem_cons,
          ih hRest, List.mem_cons]
        constructor
        · rintro (hSame | hBoth)
          · exact ⟨Or.inl hSame, hSame ▸ hNot⟩
          · exact ⟨Or.inr hBoth.1, hBoth.2⟩
        · intro hBoth
          rcases hBoth.1 with hSame | hMem
          · exact Or.inl hSame
          · exact Or.inr ⟨hMem, hBoth.2⟩

end

----
-- Finite Maps
----

variable {hashing : Hashing K}
variable {content : K → C}
variable {usable : K → Prop}
variable {table : Table K V}
variable {map : C → Option V}
variable {key : K}
variable {value : V}

/- Keys are equal if they denote the same, and hash alike. -/
structure Respects
    (hashing : Hashing K)
    (content : K → C)
    (usable : K → Prop) : Prop where
  equal_iff :
    ∀ x y, usable x → usable y →
      (hashing.equal x y = true ↔ content x = content y)
  hash_eq :
    ∀ x y, usable x → usable y →
      content x = content y → hashing.hash x = hashing.hash y

/- The map has the values of the entries and no others. -/
structure Represents
    (content : K → C)
    (usable : K → Prop)
    (table : Table K V)
    (map : C → Option V) : Prop where
  usable : ∀ entry ∈ table.entries, usable entry.1
  distinct :
    (table.entries.map (fun entry => content entry.1)).Nodup
  lookup :
    ∀ denoted value,
      map denoted = some value ↔
        ∃ entry ∈ table.entries,
          content entry.1 = denoted ∧ entry.2 = value

theorem Represents.empty :
    Represents content usable (Table.empty : Table K V)
      (fun _ => none) where
  usable := fun _ hMem => absurd hMem List.not_mem_nil
  distinct := List.nodup_nil
  lookup := by
    intro denoted value
    constructor
    · intro hSome
      cases hSome
    · rintro ⟨entry, hMem, _⟩
      cases hMem

namespace Represents

theorem link
    [DecidableEq C]
    (layout : Layout K V)
    (hTable : Represents content usable table map)
    (hKey : usable key)
    (hNew : map (content key) = none) :
    Represents content usable
      (HashTable.link layout table key value)
      (Function.update map (content key) (some value)) := by
  have hPerm := layout.perm ((key, value) :: table.entries)
  have hAbsent :
      ∀ entry ∈ table.entries, content entry.1 ≠ content key := by
    intro entry hMem hSame
    have hSome :=
      (hTable.lookup _ _).mpr ⟨entry, hMem, hSame, rfl⟩
    rw [hNew] at hSome
    cases hSome
  refine ⟨?_, ?_, ?_⟩
  · intro entry hMem
    rcases List.mem_cons.mp (hPerm.mem_iff.mp hMem) with
      hSame | hOld
    · rw [hSame]
      exact hKey
    · exact hTable.usable entry hOld
  · apply
      (hPerm.map (fun entry => content entry.1)).nodup_iff.mpr
    apply List.nodup_cons.mpr
    refine ⟨?_, hTable.distinct⟩
    intro hMem
    rcases List.mem_map.mp hMem with ⟨entry, hEntry, hSame⟩
    exact hAbsent entry hEntry hSame
  · intro denoted other
    unfold HashTable.link
    by_cases hDenoted : denoted = content key
    · rw [hDenoted, Function.update_self]
      constructor
      · intro hSome
        exact
          ⟨(key, value),
            hPerm.mem_iff.mpr List.mem_cons_self, rfl,
            Option.some.inj hSome⟩
      · rintro ⟨entry, hMem, hSame, hValue⟩
        rcases List.mem_cons.mp (hPerm.mem_iff.mp hMem) with
          hNewEntry | hOld
        · rw [← hValue, hNewEntry]
        · exact absurd hSame (hAbsent entry hOld)
    · rw [Function.update_of_ne hDenoted, hTable.lookup]
      constructor
      · rintro ⟨entry, hMem, hRest⟩
        exact
          ⟨entry,
            hPerm.mem_iff.mpr (List.mem_cons_of_mem _ hMem),
            hRest⟩
      · rintro ⟨entry, hMem, hSame, hValue⟩
        rcases List.mem_cons.mp (hPerm.mem_iff.mp hMem) with
          hNewEntry | hOld
        · rw [hNewEntry] at hSame
          exact absurd hSame.symm hDenoted
        · exact ⟨entry, hOld, hSame, hValue⟩

section

variable (hRespects : Respects hashing content usable)
variable (hTable : Represents content usable table map)
variable (hKey : usable key)

include hRespects hTable hKey

theorem holds_iff
    {entry : K × V}
    (hMem : entry ∈ table.entries) :
    holds hashing table key entry = true ↔
      content entry.1 = content key := by
  have hEntry := hTable.usable entry hMem
  unfold holds
  rw [Bool.and_eq_true, hRespects.equal_iff key _ hKey hEntry]
  constructor
  · intro hBoth
    exact hBoth.2.symm
  · intro hSame
    refine ⟨?_, hSame.symm⟩
    rw [hRespects.hash_eq _ key hEntry hKey hSame]
    exact beq_self_eq_true _

theorem holds_eq_false_iff
    {entry : K × V}
    (hMem : entry ∈ table.entries) :
    holds hashing table key entry = false ↔
      content entry.1 ≠ content key :=
  Bool.eq_false_iff.trans
    (not_congr (hTable.holds_iff hRespects hKey hMem))

theorem find_eq :
    find hashing table key = map (content key) := by
  unfold find
  cases hFind :
      table.entries.find? (holds hashing table key) with
  | none =>
      have hNone := List.find?_eq_none.mp hFind
      cases hMap : map (content key) with
      | none => rfl
      | some value =>
          rcases (hTable.lookup _ _).mp hMap with
            ⟨entry, hMem, hSame, _⟩
          have hHolds :=
            (hTable.holds_iff hRespects hKey hMem).mpr hSame
          exact absurd hHolds (hNone entry hMem)
  | some entry =>
      have hMem := List.mem_of_find?_eq_some hFind
      have hHolds := List.find?_some hFind
      have hSame :=
        (hTable.holds_iff hRespects hKey hMem).mp hHolds
      exact
        ((hTable.lookup _ _).mpr ⟨entry, hMem, hSame, rfl⟩).symm

theorem atMostOne :
    AtMostOne (holds hashing table key) table.entries := by
  have hDistinct := List.pairwise_map.mp hTable.distinct
  unfold AtMostOne
  apply List.Pairwise.imp_of_mem _ hDistinct
  intro entry other hEntry hOther hNe hHolds
  have hSame :=
    (hTable.holds_iff hRespects hKey hEntry).mp hHolds
  apply (hTable.holds_eq_false_iff hRespects hKey hOther).mpr
  intro hSame'
  exact hNe (hSame.trans hSame'.symm)

variable [DecidableEq C]

theorem assign
    {old : V}
    (hOld : map (content key) = some old) :
    Represents content usable
      (HashTable.assign hashing table key value)
      (Function.update map (content key) (some value)) := by
  have hOne := hTable.atMostOne hRespects hKey
  have hKeys :=
    @map_fst_replaceFirst K V (holds hashing table key) value
      table.entries
  refine ⟨?_, ?_, ?_⟩
  · intro entry hMem
    have hFst := List.mem_map_of_mem (f := Prod.fst) hMem
    unfold HashTable.assign at hFst
    rw [hKeys] at hFst
    rcases List.mem_map.mp hFst with ⟨other, hOther, hSame⟩
    rw [← hSame]
    exact hTable.usable other hOther
  · have hContents :=
      congrArg (List.map content) hKeys
    rw [List.map_map, List.map_map] at hContents
    have hDistinct := hTable.distinct
    exact hContents.symm ▸ hDistinct
  · intro denoted other
    unfold HashTable.assign
    by_cases hDenoted : denoted = content key
    · rw [hDenoted, Function.update_self]
      constructor
      · intro hSome
        rcases (hTable.lookup _ _).mp hOld with
          ⟨entry, hMem, hSame, _⟩
        refine
          ⟨(entry.1, value), (mem_replaceFirst hOne).mpr ?_,
            hSame, Option.some.inj hSome⟩
        exact
          Or.inr
            ⟨entry, hMem,
              (hTable.holds_iff hRespects hKey hMem).mpr hSame,
              rfl⟩
      · rintro ⟨entry, hMem, hSame, hValue⟩
        rcases (mem_replaceFirst hOne).mp hMem with
          ⟨hIn, hNot⟩ | ⟨found, _, _, hEntry⟩
        · exact
            absurd hSame
              ((hTable.holds_eq_false_iff hRespects hKey
                hIn).mp hNot)
        · rw [← hValue, hEntry]
    · rw [Function.update_of_ne hDenoted, hTable.lookup]
      constructor
      · rintro ⟨entry, hMem, hSame, hValue⟩
        refine
          ⟨entry, (mem_replaceFirst hOne).mpr (Or.inl ?_),
            hSame, hValue⟩
        refine
          ⟨hMem,
            (hTable.holds_eq_false_iff hRespects hKey
              hMem).mpr ?_⟩
        intro hIs
        exact hDenoted (hSame.symm.trans hIs)
      · rintro ⟨entry, hMem, hSame, hValue⟩
        rcases (mem_replaceFirst hOne).mp hMem with
          ⟨hIn, _⟩ | ⟨found, hIn, hHolds, hEntry⟩
        · exact ⟨entry, hIn, hSame, hValue⟩
        · have hIs :=
            (hTable.holds_iff hRespects hKey hIn).mp hHolds
          rw [hEntry] at hSame
          exact absurd (hSame.symm.trans hIs) hDenoted

theorem erase :
    Represents content usable
      (HashTable.erase hashing table key)
      (Function.update map (content key) none) := by
  have hOne := hTable.atMostOne hRespects hKey
  have hSublist :
      (table.entries.eraseP (holds hashing table key)).Sublist
        table.entries :=
    List.eraseP_sublist
  refine ⟨?_, ?_, ?_⟩
  · intro entry hMem
    exact hTable.usable entry (hSublist.subset hMem)
  · exact
      hTable.distinct.sublist
        (hSublist.map (fun entry => content entry.1))
  · intro denoted other
    unfold HashTable.erase
    by_cases hDenoted : denoted = content key
    · rw [hDenoted, Function.update_self]
      constructor
      · intro hSome
        cases hSome
      · rintro ⟨entry, hMem, hSame, _⟩
        rcases (mem_eraseP hOne).mp hMem with ⟨hIn, hNot⟩
        exact
          absurd hSame
            ((hTable.holds_eq_false_iff hRespects hKey hIn).mp
              hNot)
    · rw [Function.update_of_ne hDenoted, hTable.lookup]
      constructor
      · rintro ⟨entry, hMem, hSame, hValue⟩
        refine
          ⟨entry, (mem_eraseP hOne).mpr ⟨hMem, ?_⟩, hSame,
            hValue⟩
        apply
          (hTable.holds_eq_false_iff hRespects hKey hMem).mpr
        intro hIs
        exact hDenoted (hSame.symm.trans hIs)
      · rintro ⟨entry, hMem, hRest⟩
        exact ⟨entry, ((mem_eraseP hOne).mp hMem).1, hRest⟩

end

theorem clear :
    Represents content usable (HashTable.clear table)
      (fun _ => none) := by
  refine ⟨?_, ?_, ?_⟩
  · intro entry hMem
    cases hMem
  · exact List.nodup_nil
  · intro denoted value
    constructor
    · intro hSome
      cases hSome
    · rintro ⟨entry, hMem, _⟩
      cases hMem

end Represents

end HashTable

end Library

end Ydsh
