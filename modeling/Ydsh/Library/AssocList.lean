import Mathlib.Data.List.Nodup
import Mathlib.Data.List.Perm.Basic
import Mathlib.Logic.Function.Basic

/-
  Association lists whose keys are distinct, and the partial
  functions they denote.

  Main declarations:
    * `AssocList.Distinct`
    * `AssocList.Distinct.lookup_eq_some`
    * `AssocList.Distinct.lookup_perm`
    * `AssocList.denote`
    * `AssocList.Distinct.denote_eq_some`
-/

----
-- Distinct Keys
----

namespace Ydsh

namespace Library

namespace AssocList

variable {κ ν : Type}

def keys (entries : List (κ × ν)) : List κ :=
  entries.map Prod.fst

def Distinct (entries : List (κ × ν)) : Prop :=
  (keys entries).Nodup

theorem mem_keys
    {entries : List (κ × ν)}
    {key : κ} :
    key ∈ keys entries ↔ ∃ value, (key, value) ∈ entries := by
  simp [keys]

theorem mem_keys_of_mem
    {entries : List (κ × ν)}
    {entry : κ × ν}
    (hMem : entry ∈ entries) :
    entry.1 ∈ keys entries :=
  List.mem_map_of_mem hMem

@[simp] theorem keys_append
    (left right : List (κ × ν)) :
    keys (left ++ right) = keys left ++ keys right :=
  List.map_append

theorem Distinct.nil : Distinct ([] : List (κ × ν)) :=
  List.nodup_nil

theorem Distinct.filter
    {entries : List (κ × ν)}
    (hDistinct : Distinct entries)
    (keep : κ × ν → Bool) :
    Distinct (entries.filter keep) :=
  hDistinct.sublist (List.filter_sublist.map Prod.fst)

theorem Distinct.perm
    {entries entries' : List (κ × ν)}
    (hDistinct : Distinct entries)
    (hPerm : entries.Perm entries') :
    Distinct entries' :=
  (hPerm.map Prod.fst).nodup_iff.mp hDistinct

theorem Distinct.erase
    {entries : List (κ × ν)}
    (hDistinct : Distinct entries)
    (drop : κ × ν → Bool) :
    Distinct (entries.eraseP drop) :=
  hDistinct.sublist (List.eraseP_sublist.map Prod.fst)

theorem Distinct.concat
    {entries : List (κ × ν)}
    {key : κ}
    {value : ν}
    (hDistinct : Distinct entries)
    (hNew : key ∉ keys entries) :
    Distinct (entries ++ [(key, value)]) := by
  unfold Distinct
  rw [keys_append]
  apply List.Nodup.append hDistinct (List.nodup_singleton key)
  intro found hMem hEq
  rw [List.mem_singleton] at hEq
  rw [hEq] at hMem
  exact hNew hMem

/- An entry is known by its key. -/
theorem Distinct.eq_of_mem
    {entries : List (κ × ν)}
    {key : κ}
    {value value' : ν}
    (hDistinct : Distinct entries)
    (hMem : (key, value) ∈ entries)
    (hMem' : (key, value') ∈ entries) :
    value = value' := by
  have hEq :=
    List.inj_on_of_nodup_map hDistinct hMem hMem' rfl
  exact congrArg Prod.snd hEq

----
-- Lookups
----

section Lookup

variable [BEq κ] [LawfulBEq κ]

theorem mem_of_lookup
    {entries : List (κ × ν)}
    {key : κ}
    {value : ν}
    (hLookup : entries.lookup key = some value) :
    (key, value) ∈ entries := by
  rcases List.lookup_eq_some_iff.mp hLookup with
    ⟨before, after, hEntries, _⟩
  rw [hEntries]
  exact List.mem_append_right _ List.mem_cons_self

theorem lookup_eq_none
    {entries : List (κ × ν)}
    {key : κ} :
    entries.lookup key = none ↔ key ∉ keys entries := by
  cases hLookup : entries.lookup key with
  | none =>
      apply iff_of_true rfl
      intro hMem
      rcases mem_keys.mp hMem with ⟨value, hIn⟩
      have hNone := List.lookup_eq_none_iff.mp hLookup _ hIn
      simp at hNone
  | some value =>
      apply iff_of_false (by simp)
      intro hNew
      exact hNew (mem_keys_of_mem (mem_of_lookup hLookup))

theorem Distinct.lookup_eq_some
    {entries : List (κ × ν)}
    {key : κ}
    {value : ν}
    (hDistinct : Distinct entries) :
    entries.lookup key = some value ↔ (key, value) ∈ entries := by
  constructor
  · exact mem_of_lookup
  · intro hMem
    cases hLookup : entries.lookup key with
    | none =>
        exact
          absurd (mem_keys_of_mem hMem) (lookup_eq_none.mp hLookup)
    | some found =>
        rw [hDistinct.eq_of_mem (mem_of_lookup hLookup) hMem]

theorem Distinct.lookup_perm
    {entries entries' : List (κ × ν)}
    (hDistinct : Distinct entries)
    (hPerm : entries.Perm entries')
    (key : κ) :
    entries.lookup key = entries'.lookup key := by
  apply Option.ext
  intro value
  rw [hDistinct.lookup_eq_some,
    (hDistinct.perm hPerm).lookup_eq_some, hPerm.mem_iff]

end Lookup

----
-- Partial Functions
----

section Denote

variable [DecidableEq κ]

/- The partial function that the first entry of a key makes. -/
def denote
    (entries : List (κ × ν))
    (key : κ) : Option ν :=
  (entries.find? (fun entry => entry.1 = key)).map Prod.snd

@[simp] theorem denote_nil :
    denote ([] : List (κ × ν)) = fun _ => none :=
  rfl

theorem denote_cons
    (key : κ)
    (value : ν)
    (entries : List (κ × ν)) :
    denote ((key, value) :: entries) =
      Function.update (denote entries) key (some value) := by
  funext other
  by_cases hKey : key = other
  · rw [← hKey, Function.update_self]
    simp [denote]
  · rw [Function.update_of_ne (Ne.symm hKey)]
    simp [denote, hKey]

theorem mem_of_denote
    {entries : List (κ × ν)}
    {key : κ}
    {value : ν}
    (hValue : denote entries key = some value) :
    (key, value) ∈ entries := by
  rcases Option.map_eq_some_iff.mp hValue with
    ⟨entry, hFind, rfl⟩
  have hKey := List.find?_some hFind
  rw [decide_eq_true_eq] at hKey
  rw [← hKey]
  exact List.mem_of_find?_eq_some hFind

theorem Distinct.denote_eq_some
    {entries : List (κ × ν)}
    {key : κ}
    {value : ν}
    (hDistinct : Distinct entries) :
    denote entries key = some value ↔ (key, value) ∈ entries := by
  constructor
  · exact mem_of_denote
  · intro hMem
    cases hFound : denote entries key with
    | none =>
        have hNone :=
          List.find?_eq_none.mp (Option.map_eq_none_iff.mp hFound)
            _ hMem
        simp at hNone
    | some found =>
        rw [hDistinct.eq_of_mem (mem_of_denote hFound) hMem]

theorem denote_isSome
    {entries : List (κ × ν)}
    {key : κ} :
    (denote entries key).isSome = true ↔ key ∈ keys entries := by
  unfold denote
  rw [Option.isSome_map, List.find?_isSome]
  simp [keys]

theorem denote_eq_none
    {entries : List (κ × ν)}
    {key : κ} :
    denote entries key = none ↔ key ∉ keys entries := by
  rw [← Option.not_isSome_iff_eq_none, denote_isSome]

/- The order of the entries does not count. -/
theorem Distinct.denote_perm
    {entries entries' : List (κ × ν)}
    (hDistinct : Distinct entries)
    (hPerm : entries.Perm entries') :
    denote entries = denote entries' := by
  funext key
  apply Option.ext
  intro value
  rw [hDistinct.denote_eq_some,
    (hDistinct.perm hPerm).denote_eq_some, hPerm.mem_iff]

theorem denote_eq_empty
    {entries : List (κ × ν)} :
    (denote entries = fun _ => none) ↔ entries = [] := by
  constructor
  · intro hNone
    cases entries with
    | nil => rfl
    | cons entry entries =>
        have hKey := congrFun hNone entry.1
        rw [denote_cons entry.1 entry.2, Function.update_self]
          at hKey
        cases hKey
  · intro hNil
    rw [hNil]
    rfl

/- The value of a key that has one is replaced. -/
theorem denote_replace
    {entries : List (κ × ν)}
    {key : κ}
    (value : ν)
    (hKey : key ∈ keys entries) :
    denote
        (entries.map
          (fun entry =>
            if entry.1 = key then (entry.1, value) else entry)) =
      Function.update (denote entries) key (some value) := by
  funext other
  unfold denote
  rw [List.find?_map, Option.map_map]
  have hPred :
      ((fun entry : κ × ν => decide (entry.1 = other)) ∘
          fun entry =>
            if entry.1 = key then (entry.1, value) else entry) =
        fun entry => decide (entry.1 = other) := by
    funext entry
    simp only [Function.comp_apply]
    split_ifs
    · rfl
    · rfl
  rw [hPred]
  by_cases hOther : other = key
  · rw [hOther, Function.update_self]
    rcases Option.isSome_iff_exists.mp (denote_isSome.mpr hKey)
      with ⟨old, hOld⟩
    rcases Option.map_eq_some_iff.mp hOld with
      ⟨entry, hFind, -⟩
    have hIs := List.find?_some hFind
    rw [decide_eq_true_eq] at hIs
    rw [hFind]
    simp [hIs]
  · rw [Function.update_of_ne hOther]
    cases hFind :
        entries.find? (fun entry => decide (entry.1 = other)) with
    | none => rfl
    | some entry =>
        have hIs := List.find?_some hFind
        rw [decide_eq_true_eq] at hIs
        have hNe : entry.1 ≠ key := fun hEq => hOther (hIs ▸ hEq)
        simp [hNe]

theorem keys_replace
    (entries : List (κ × ν))
    (key : κ)
    (value : ν) :
    keys
        (entries.map
          (fun entry =>
            if entry.1 = key then (entry.1, value) else entry)) =
      keys entries := by
  unfold keys
  rw [List.map_map]
  apply List.map_congr_left
  intro entry _
  simp only [Function.comp_apply]
  split_ifs
  · rfl
  · rfl

/- The entry of a key is erased. -/
theorem Distinct.denote_erase
    {entries : List (κ × ν)}
    (hDistinct : Distinct entries)
    (key : κ) :
    denote (entries.eraseP (fun entry => entry.1 = key)) =
      Function.update (denote entries) key none := by
  induction entries with
  | nil =>
      funext other
      simp [denote]
  | cons entry entries ih =>
      rcases List.nodup_cons.mp hDistinct with ⟨hNew, hRest⟩
      by_cases hKey : entry.1 = key
      · rw [List.eraseP_cons_of_pos (by simpa using hKey),
          denote_cons entry.1 entry.2, hKey,
          Function.update_idem]
        funext other
        by_cases hOther : other = key
        · rw [hOther, Function.update_self]
          exact denote_eq_none.mpr (hKey ▸ hNew)
        · rw [Function.update_of_ne hOther]
      · rw [List.eraseP_cons_of_neg (by simpa using hKey),
          denote_cons entry.1 entry.2, ih hRest,
          denote_cons entry.1 entry.2,
          Function.update_comm hKey]

end Denote

end AssocList

end Library

end Ydsh
