import Mathlib.Data.List.Basic

/-
  The cache of the paths of commands.

  Main declarations:
    * `searchPath`
    * `step`
-/

----
-- Searching
----

namespace Ydsh

namespace FilePathCache

abbrev Bytes := List UInt8

abbrev slash : UInt8 := 0x2F
abbrev colon : UInt8 := 0x3A

/- The variable `PATH`, which may be unset, and the files that
may be executed. -/
structure Env where
  path : Option Bytes
  isExecutable : Bytes → Bool

/- `VAL_DEFAULT_PATH` -/
def VAL_DEFAULT_PATH : Bytes :=
  "/bin:/usr/bin:/usr/local/bin".toList.map Char.toUInt8

structure SearchOp where
  useDefaultPath : Bool
  directSearch : Bool

/- The keys of the map are names, and its order is that of the
insertions. -/
structure Cache where
  prevPath : Bytes
  map : List (Bytes × Bytes)

def MAX_CACHE_SIZE : Nat := 100

def getPathPrefix
    (env : Env)
    (useDefaultPath : Bool) : Bytes :=
  match env.path with
  | none => VAL_DEFAULT_PATH
  | some path => if useDefaultPath then VAL_DEFAULT_PATH else path

def toResolved
    (dir cmdName : Bytes) : Bytes :=
  if dir.getLast? = some slash then dir ++ cmdName
  else dir ++ slash :: cmdName

theorem length_remain
    {pathValue : Bytes}
    (hPath : pathValue ≠ []) :
    (pathValue.dropWhile (fun ch => ch ≠ colon)).tail.length <
      pathValue.length := by
  have hLe :=
    (List.dropWhile_sublist
      (fun ch => decide (ch ≠ colon)) (l := pathValue)).length_le
  have hPos := List.length_pos_iff.mpr hPath
  rw [List.length_tail]
  omega

/- The first directory of the path that has the command. -/
def resolve
    (env : Env)
    (cmdName pathValue : Bytes) : Option Bytes :=
  if _hPath : pathValue = [] then
    none
  else
    let dir := pathValue.takeWhile (fun ch => ch ≠ colon)
    if dir ≠ [] ∧ env.isExecutable (toResolved dir cmdName) then
      some (toResolved dir cmdName)
    else
      resolve env cmdName
        (pathValue.dropWhile (fun ch => ch ≠ colon)).tail
termination_by pathValue.length
decreasing_by exact length_remain _hPath

/- An entry is found by its name. -/
def find
    (map : List (Bytes × Bytes))
    (cmdName : Bytes) : Option Bytes :=
  (map.find? (fun entry => entry.1 = cmdName)).map Prod.snd

/- A full cache loses the first entry in the order of the hash
table, which may be any. -/
def insert
    (map : List (Bytes × Bytes))
    (begin : Nat)
    (cmdName resolved : Bytes) : List (Bytes × Bytes) :=
  if map.length = MAX_CACHE_SIZE then
    (cmdName, resolved) :: map.eraseIdx (begin % map.length)
  else
    (cmdName, resolved) :: map

/- `begin` is where the hash table begins. -/
def searchPath
    (env : Env)
    (begin : Nat)
    (cache : Cache)
    (cmdName : Bytes)
    (op : SearchOp) : Option Bytes × Cache :=
  if slash ∈ cmdName then
    (some cmdName, cache)
  else
    match
        if op.directSearch then none
        else find cache.map cmdName with
    | some path => (some path, cache)
    | none =>
        match
            resolve env cmdName
              (getPathPrefix env op.useDefaultPath) with
        | none => (none, cache)
        | some resolved =>
            if op.directSearch then
              (some resolved, { cache with prevPath := resolved })
            else
              (some resolved,
                { cache with
                  map := insert cache.map begin cmdName
                    resolved })

def removePath
    (cache : Cache)
    (cmdName : Option Bytes) : Cache :=
  match cmdName with
  | none => cache
  | some cmdName =>
      { cache with
        map := cache.map.eraseP (fun entry => entry.1 = cmdName) }

def clear (cache : Cache) : Cache :=
  { cache with map := [] }

----
-- Calls
----

inductive Call where
  | lookup (begin : Nat) (cmdName : Bytes) (op : SearchOp)
  | remove (cmdName : Option Bytes)
  | clear

def step
    (env : Env)
    (cache : Cache) : Call → Cache
  | .lookup begin cmdName op =>
      (searchPath env begin cache cmdName op).2
  | .remove cmdName => removePath cache cmdName
  | .clear => clear cache

def run
    (env : Env)
    (calls : List Call) : Cache :=
  calls.foldl (step env) ⟨[], []⟩

/- The answer without a cache. -/
def fresh
    (env : Env)
    (cmdName : Bytes)
    (useDefaultPath : Bool) : Option Bytes :=
  if slash ∈ cmdName then some cmdName
  else resolve env cmdName (getPathPrefix env useDefaultPath)

/- A lookup is answered from the cache. -/
def Hit
    (cache : Cache)
    (cmdName : Bytes)
    (op : SearchOp) : Prop :=
  slash ∉ cmdName ∧ op.directSearch = false ∧
    find cache.map cmdName ≠ none

/- A lookup of a name that is not answered from the cache may
store an entry for it. -/
def nextStored
    (cache : Cache)
    (cmdName : Bytes)
    (stored : Bool) : Call → Bool
  | .lookup _ name op =>
      if name = cmdName ∧ op.directSearch = false ∧
          find cache.map name = none then
        op.useDefaultPath
      else
        stored
  | _ => stored

/- Whether the last such lookup, which has stored the entry if
there is one, was of the default path. -/
def storedBy
    (env : Env)
    (cmdName : Bytes) :
    Cache → Bool → List Call → Bool
  | _, stored, [] => stored
  | cache, stored, call :: calls =>
      storedBy env cmdName (step env cache call)
        (nextStored cache cmdName stored call) calls

----
-- Entries
----

variable {env : Env}
variable {cache : Cache}
variable {stored : Bytes → Bool}

/- Each entry is what the search that stored it has found. -/
def Stored
    (env : Env)
    (cache : Cache)
    (stored : Bytes → Bool) : Prop :=
  ∀ entry ∈ cache.map,
    fresh env entry.1 (stored entry.1) = some entry.2

theorem find_eq_none_iff
    {map : List (Bytes × Bytes)}
    {cmdName : Bytes} :
    find map cmdName = none ↔
      ∀ entry ∈ map, entry.1 ≠ cmdName := by
  unfold find
  rw [Option.map_eq_none_iff, List.find?_eq_none]
  simp only [decide_eq_true_eq]

theorem mem_of_find
    {map : List (Bytes × Bytes)}
    {cmdName path : Bytes}
    (hFind : find map cmdName = some path) :
    (cmdName, path) ∈ map := by
  rcases Option.map_eq_some_iff.mp hFind with
    ⟨entry, hEntry, rfl⟩
  have hName := List.find?_some hEntry
  rw [← of_decide_eq_true hName]
  exact List.mem_of_find?_eq_some hEntry

/- An insertion adds one entry, and may drop another. -/
theorem mem_insert
    {map : List (Bytes × Bytes)}
    {begin : Nat}
    {cmdName resolved : Bytes}
    {entry : Bytes × Bytes}
    (hMem : entry ∈ insert map begin cmdName resolved) :
    entry = (cmdName, resolved) ∨ entry ∈ map := by
  unfold insert at hMem
  split_ifs at hMem with hFull
  · rcases List.mem_cons.mp hMem with hNew | hOld
    · exact Or.inl hNew
    · exact Or.inr (List.mem_of_mem_eraseIdx hOld)
  · exact List.mem_cons.mp hMem

/- A lookup of another name changes nothing for an entry, nor
does one for which there is an entry. -/
theorem nextStored_eq
    {entry : Bytes × Bytes}
    (hMem : entry ∈ cache.map)
    (call : Call) :
    nextStored cache entry.1 (stored entry.1) call =
      stored entry.1 := by
  cases call with
  | lookup begin name op =>
      apply if_neg
      rintro ⟨hName, _, hNone⟩
      exact find_eq_none_iff.mp hNone entry hMem hName.symm
  | remove cmdName => rfl
  | clear => rfl

/- An answer from outside the cache is a fresh one. -/
theorem searchPath_miss
    (begin : Nat)
    {cmdName : Bytes}
    {op : SearchOp}
    (hMiss : ¬ Hit cache cmdName op) :
    (searchPath env begin cache cmdName op).1 =
      fresh env cmdName op.useDefaultPath := by
  unfold searchPath fresh
  by_cases hSlash : slash ∈ cmdName
  · rw [if_pos hSlash, if_pos hSlash]
  · rw [if_neg hSlash, if_neg hSlash]
    have hNone :
        (if op.directSearch then none
          else find cache.map cmdName) = none := by
      split_ifs with hDirect
      · rfl
      · by_contra hFound
        exact
          hMiss ⟨hSlash, Bool.eq_false_iff.mpr hDirect,
            hFound⟩
    rw [hNone]
    cases resolve env cmdName
        (getPathPrefix env op.useDefaultPath) with
    | none => rfl
    | some resolved =>
        cases hDirect : op.directSearch with
        | false => rfl
        | true => rfl

theorem searchPath_hit
    (begin : Nat)
    {cmdName : Bytes}
    {op : SearchOp}
    (hHit : Hit cache cmdName op) :
    searchPath env begin cache cmdName op =
      (find cache.map cmdName, cache) := by
  rcases hHit with ⟨hSlash, hDirect, hFound⟩
  unfold searchPath
  rw [if_neg hSlash, hDirect]
  cases hFind : find cache.map cmdName with
  | none => exact absurd hFind hFound
  | some path => simp

/- The entries after a call are entries before it, or the
answer to a lookup that was no hit. -/
theorem mem_step
    {call : Call}
    {entry : Bytes × Bytes}
    (hMem : entry ∈ (step env cache call).map) :
    entry ∈ cache.map ∨
      ∃ begin op,
        call = .lookup begin entry.1 op ∧
          op.directSearch = false ∧
          find cache.map entry.1 = none ∧
          fresh env entry.1 op.useDefaultPath =
            some entry.2 := by
  cases call with
  | lookup begin cmdName op =>
      simp only [step, searchPath] at hMem
      by_cases hSlash : slash ∈ cmdName
      · rw [if_pos hSlash] at hMem
        exact Or.inl hMem
      · rw [if_neg hSlash] at hMem
        cases hDirect : op.directSearch with
        | true =>
            rw [hDirect] at hMem
            left
            cases hResolve : resolve env cmdName
                (getPathPrefix env op.useDefaultPath) with
            | none => simpa [hResolve] using hMem
            | some resolved => simpa [hResolve] using hMem
        | false =>
            rw [hDirect] at hMem
            cases hFind : find cache.map cmdName with
            | some path =>
                left
                simpa [hFind] using hMem
            | none =>
                cases hResolve : resolve env cmdName
                    (getPathPrefix env op.useDefaultPath) with
                | none =>
                    left
                    simpa [hFind, hResolve] using hMem
                | some resolved =>
                    have hInsert :
                        entry ∈ insert cache.map begin cmdName
                          resolved := by
                      simpa [hFind, hResolve] using hMem
                    rcases mem_insert hInsert with rfl | hOld
                    · right
                      refine
                        ⟨begin, op, rfl, hDirect, hFind, ?_⟩
                      unfold fresh
                      rw [if_neg hSlash, hResolve]
                    · exact Or.inl hOld
  | remove cmdName =>
      cases cmdName with
      | none => exact Or.inl hMem
      | some cmdName => exact Or.inl (List.mem_of_mem_eraseP hMem)
  | clear => exact absurd hMem List.not_mem_nil

----
-- Runs
----

theorem stored_step
    (hStored : Stored env cache stored)
    (call : Call) :
    Stored env (step env cache call)
      (fun cmdName =>
        nextStored cache cmdName (stored cmdName) call) := by
  intro entry hMem
  rcases mem_step hMem with
    hOld | ⟨begin, op, rfl, hDirect, hNone, hFresh⟩
  · have hSame := @nextStored_eq _ stored _ hOld call
    simp only [hSame]
    exact hStored entry hOld
  · have hNew :
        nextStored cache entry.1 (stored entry.1)
            (.lookup begin entry.1 op) =
          op.useDefaultPath :=
      if_pos ⟨rfl, hDirect, hNone⟩
    simp only [hNew]
    exact hFresh

theorem stored_run
    (calls : List Call)
    (hStored : Stored env cache stored) :
    Stored env (calls.foldl (step env) cache)
      (fun cmdName =>
        storedBy env cmdName cache (stored cmdName) calls) := by
  induction calls generalizing cache stored with
  | nil => exact hStored
  | cons call calls ih => exact ih (stored_step hStored call)

/- A hit is answered as the lookup that stored the entry. -/
theorem hit_answer
    (calls : List Call)
    {cmdName path : Bytes}
    (hFind : find (run env calls).map cmdName = some path) :
    fresh env cmdName
        (storedBy env cmdName ⟨[], []⟩ false calls) =
      some path :=
  @stored_run env ⟨[], []⟩ (fun _ => false) calls
    (fun _ hMem => absurd hMem List.not_mem_nil) _
    (mem_of_find hFind)

/-
  After any calls, a lookup answers as it would without the
  cache, if and only if it is no hit, or the entry was stored
  by a lookup with the same path option, or both searches give
  the same answer.
-/
theorem answer_fresh_iff
    (env : Env)
    (calls : List Call)
    (begin : Nat)
    (cmdName : Bytes)
    (op : SearchOp) :
    (searchPath env begin (run env calls) cmdName op).1 =
        fresh env cmdName op.useDefaultPath ↔
      (Hit (run env calls) cmdName op →
        storedBy env cmdName ⟨[], []⟩ false calls =
            op.useDefaultPath ∨
          fresh env cmdName true = fresh env cmdName false) := by
  by_cases hHit : Hit (run env calls) cmdName op
  · rw [searchPath_hit begin hHit]
    cases hFind : find (run env calls).map cmdName with
    | none => exact absurd hFind hHit.2.2
    | some path =>
        rw [← hit_answer calls hFind]
        simp only [hHit, true_implies]
        cases storedBy env cmdName ⟨[], []⟩ false calls with
        | false =>
            cases op.useDefaultPath with
            | false => simp
            | true => simp [eq_comm]
        | true =>
            cases op.useDefaultPath with
            | false => simp
            | true => simp
  · exact
      iff_of_true (searchPath_miss begin hHit)
        (fun hIs => absurd hIs hHit)

/- The first directory is the answer where every file may be
executed. -/
theorem resolve_first
    {cmdName pathValue dir : Bytes}
    (hExecutable : env.isExecutable = fun _ => true)
    (hDir : pathValue.takeWhile (fun ch => ch ≠ colon) = dir)
    (hNil : dir ≠ []) :
    resolve env cmdName pathValue =
      some (toResolved dir cmdName) := by
  have hPath : pathValue ≠ [] := by
    rintro rfl
    exact hNil hDir.symm
  rw [resolve, dif_neg hPath, hDir, if_pos]
  exact ⟨hNil, by rw [hExecutable]⟩

/- The path of a command in the default path is remembered
when the command is looked up in another path. -/
theorem default_path_remembered :
    ¬ ∀ env calls begin cmdName op,
      (searchPath env begin (run env calls) cmdName op).1 =
        fresh env cmdName op.useDefaultPath := by
  intro hAll
  have hDefault :
      resolve ⟨some [slash, 0x61], fun _ => true⟩ [0x78]
          VAL_DEFAULT_PATH =
        some (toResolved [slash, 0x62, 0x69, 0x6E] [0x78]) :=
    resolve_first rfl (by decide) (by decide)
  have hOther :
      resolve ⟨some [slash, 0x61], fun _ => true⟩ [0x78]
          [slash, 0x61] =
        some (toResolved [slash, 0x61] [0x78]) :=
    resolve_first rfl (by decide) (by decide)
  have hAnswer :=
    hAll ⟨some [slash, 0x61], fun _ => true⟩
      [.lookup 0 [0x78] ⟨true, false⟩] 0 [0x78] ⟨false, false⟩
  have hSlash : slash ∉ [(0x78 : UInt8)] := by
    decide
  simp [run, step, searchPath, fresh, hSlash, find,
    getPathPrefix, hDefault, hOther, insert,
    MAX_CACHE_SIZE] at hAnswer
  exact absurd hAnswer (by decide)

end FilePathCache

end Ydsh
