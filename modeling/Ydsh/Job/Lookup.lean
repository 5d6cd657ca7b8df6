import Ydsh.Job.JobTable

/-
  Lookup of processes by the builtin commands.

  `findProc` accepts the first entry whose process id is not
  below the requested one.  The lookup is exact on a table
  precisely when that entry is the requested one and live.

  Main declarations:
    * `parseProcOrJob`
    * `killTarget`
    * `LookupExact`
    * `FirstNotBelowMatches`
    * `lookupExact_iff_of_run`
-/

----
-- Arguments of `kill` and `wait`
----

namespace Ydsh

namespace Job

open Library

/-
  An argument with the number `toInt32` reads from it, after
  the `%` of a job has been skipped.
-/
structure PidOrJobArg where
  text : String
  isJob : Bool
  number : Option Int
  deriving DecidableEq, Repr

def PidOrJobArg.ofPid (pid : Int) : PidOrJobArg :=
  { text := toString pid, isJob := false, number := some pid }

inductive ProcOrJob where
  | pid (id : Int)
  | job (job : JobRef)
  | entry (entry : Entry)
  deriving DecidableEq, Repr

namespace JobTable

def findEntry
    (table : JobTable)
    (id : Int) : Option Entry :=
  (table.procTable.findProc id).bind
    (fun index => table.procTable.entries[index]?)

def parseProcOrJob
    (table : JobTable)
    (arg : PidOrJobArg)
    (alloNoChild : Bool) : Except String ProcOrJob :=
  match arg.number with
  | none =>
      .error (arg.text ++ ": arguments must be pid or job id")
  | some id =>
      if arg.isJob then
        match (if id > 0 then table.find id.toNat else none) with
        | some job => .ok (.job job)
        | none => .error (arg.text ++ ": no such job")
      else
        match (if id > -1 then table.findEntry id else none) with
        | some entry => .ok (.entry entry)
        | none =>
            if alloNoChild then
              .ok (.pid id)
            else
              .error
                (arg.text ++ ": not a child of this shell")

/- The process `kill` signals when the argument is a pid. -/
def killTarget
    (table : JobTable)
    (arg : PidOrJobArg) : Option Int :=
  match table.parseProcOrJob arg true with
  | .ok (.pid id) => some id
  | .ok (.entry entry) => some entry.pid
  | .ok (.job _) => none
  | .error _ => none

/- The process `wait` waits for when the argument is a pid. -/
def waitTarget
    (table : JobTable)
    (arg : PidOrJobArg) : Option (JobRef × Nat) :=
  match table.parseProcOrJob arg false with
  | .ok (.entry entry) =>
      (table.find entry.jobId).map
        (fun job => (job, entry.procOffset))
  | .ok _ => none
  | .error _ => none

----
-- Exact Lookup
----

/- A live entry with the process id stands at the index. -/
def ProcAt
    (table : JobTable)
    (pid : Int)
    (index : Nat) : Prop :=
  ∃ entry,
    table.procTable.entries[index]? = some entry ∧
      entry.isDeleted = false ∧
      entry.pid = pid

/-
  What a lookup by process id promises: `findProc` returns the
  live entry with that id and nothing else, and neither `kill`
  nor `wait` gets at another process.
-/
structure LookupExact
    (table : JobTable)
    (pid : Int) : Prop where
  found :
    ∀ index,
      table.procTable.findProc pid = some index ↔
        ProcAt table pid index
  signalled :
    ∀ target,
      killTarget table (PidOrJobArg.ofPid pid) = some target →
      target = pid
  waited :
    ∀ job offset,
      waitTarget table (PidOrJobArg.ofPid pid) =
        some (job, offset) →
      ∃ (index : Nat) (entry : Entry),
        table.procTable.entries[index]? = some entry ∧
          entry.isDeleted = false ∧
          entry.pid = pid ∧
          table.find entry.jobId = some job ∧
          entry.procOffset = offset

/-
  The first entry whose process id is not below a positive
  `pid`, if there is one, carries `pid` and is live.  For the
  other ids no live entry carries it.
-/
def FirstNotBelowMatches
    (table : ProcTable)
    (pid : Int) : Prop :=
  if pid > 0 then
    ∀ entry,
      table.entries.find?
        (fun entry => decide (pid ≤ entry.pid)) = some entry →
      entry.isDeleted = false ∧ entry.pid = pid
  else
    ∀ entry ∈ table.entries,
      entry.pid = pid → entry.isDeleted = true

/- `findProc` returns the first entry not below the pid. -/
theorem findProc_eq_some
    {table : ProcTable}
    {pid : Int}
    {index : Nat} :
    table.findProc pid = some index ↔
      0 < pid ∧ index = table.lowerBoundOf pid ∧
        index < table.entries.length := by
  have hLe : table.lowerBoundOf pid ≤ table.entries.length :=
    lowerBound_le_length (keyBelow Entry.pid pid) table.entries
  unfold ProcTable.findProc
  dsimp only
  split
  · next hPid =>
      split
      · next hEnd =>
          simp only [reduceCtorEq, false_iff]
          rintro ⟨_, hIndex, hLength⟩
          omega
      · next hEnd =>
          constructor
          · intro hSame
            cases hSame
            exact ⟨hPid, rfl, by omega⟩
          · rintro ⟨_, rfl, _⟩
            rfl
  · next hPid =>
      simp only [reduceCtorEq, false_iff]
      rintro ⟨hPos, _⟩
      exact hPid hPos

theorem findEntry_eq
    {table : JobTable}
    (hTable : table.procTable.WellFormed)
    {pid : Int}
    (hPid : 0 < pid) :
    table.findEntry pid =
      table.procTable.entries.find?
        (fun entry => decide (pid ≤ entry.pid)) := by
  rw [← hTable.sorted.lowerBound_getElem? pid]
  unfold findEntry
  cases hFind : table.procTable.findProc pid with
  | some index =>
      rcases findProc_eq_some.mp hFind with ⟨_, rfl, _⟩
      rfl
  | none =>
      symm
      apply List.getElem?_eq_none_iff.mpr
      by_contra hInside
      have hFound :=
        findProc_eq_some.mpr
          ⟨hPid, rfl, Nat.lt_of_not_le hInside⟩
      rw [hFind] at hFound
      cases hFound

theorem findEntry_nonpos
    {table : JobTable}
    {pid : Int}
    (hPid : ¬ 0 < pid) :
    table.findEntry pid = none := by
  unfold findEntry
  cases hFind : table.procTable.findProc pid with
  | some index =>
      exact absurd (findProc_eq_some.mp hFind).1 hPid
  | none => rfl

theorem parse_entry_iff
    {table : JobTable}
    {pid : Int}
    {alloNoChild : Bool}
    {entry : Entry} :
    table.parseProcOrJob (PidOrJobArg.ofPid pid)
        alloNoChild = .ok (.entry entry) ↔
      table.findEntry pid = some entry := by
  have hGuard :
      (if pid > -1 then table.findEntry pid else none) =
        table.findEntry pid := by
    split
    · rfl
    · exact (findEntry_nonpos (by omega)).symm
  simp only [parseProcOrJob, PidOrJobArg.ofPid, hGuard]
  cases table.findEntry pid with
  | some found => simp
  | none => cases alloNoChild <;> simp

theorem killTarget_eq
    (table : JobTable)
    (pid : Int) :
    killTarget table (PidOrJobArg.ofPid pid) =
      match table.findEntry pid with
      | some entry => some entry.pid
      | none => some pid := by
  have hGuard :
      (if pid > -1 then table.findEntry pid else none) =
        table.findEntry pid := by
    split
    · rfl
    · exact (findEntry_nonpos (by omega)).symm
  simp only [killTarget, parseProcOrJob, PidOrJobArg.ofPid,
    hGuard]
  cases table.findEntry pid with
  | some found => simp
  | none => simp

theorem waitTarget_eq_some
    {table : JobTable}
    {pid : Int}
    {job : JobRef}
    {offset : Nat}
    (hWait :
      waitTarget table (PidOrJobArg.ofPid pid) =
        some (job, offset)) :
    ∃ entry,
      table.findEntry pid = some entry ∧
        table.find entry.jobId = some job ∧
        entry.procOffset = offset := by
  unfold waitTarget at hWait
  split at hWait
  · next entry hParse =>
      rcases Option.map_eq_some_iff.mp hWait with
        ⟨found, hFind, hSame⟩
      cases hSame
      exact ⟨entry, parse_entry_iff.mp hParse, hFind, rfl⟩
  · cases hWait
  · cases hWait

/- The entry found stands at the index found. -/
theorem findEntry_of_findProc
    {table : JobTable}
    {pid : Int}
    {index : Nat}
    (hFind : table.procTable.findProc pid = some index) :
    table.findEntry pid = table.procTable.entries[index]? := by
  simp [findEntry, hFind]

theorem procAt_findProc
    {table : JobTable}
    (hTable : table.procTable.WellFormed)
    {pid : Int}
    (hPid : 0 < pid)
    {index : Nat}
    (hProc : ProcAt table pid index) :
    table.procTable.findProc pid = some index := by
  rcases hProc with ⟨entry, hGet, _, rfl⟩
  have hIndex := hTable.sorted.lowerBound_of_key hGet
  exact findProc_eq_some.mpr
    ⟨hPid, hIndex.symm,
      (List.getElem?_eq_some_iff.mp hGet).1⟩

theorem lookupExact_of_match
    {table : JobTable}
    (hTable : table.procTable.WellFormed)
    {pid : Int}
    (hMatch : FirstNotBelowMatches table.procTable pid) :
    LookupExact table pid := by
  unfold FirstNotBelowMatches at hMatch
  split at hMatch
  · next hPid =>
      have hEntry :
          ∀ entry, table.findEntry pid = some entry →
            entry.isDeleted = false ∧ entry.pid = pid := by
        intro entry hFound
        rw [findEntry_eq hTable hPid] at hFound
        exact hMatch entry hFound
      refine ⟨?_, ?_, ?_⟩
      · intro index
        constructor
        · intro hFind
          have hLength := (findProc_eq_some.mp hFind).2.2
          have hGet := List.getElem?_eq_getElem hLength
          have hFound := findEntry_of_findProc hFind
          rw [hGet] at hFound
          exact ⟨_, hGet, hEntry _ hFound⟩
        · exact procAt_findProc hTable hPid
      · intro target hTarget
        rw [killTarget_eq] at hTarget
        split at hTarget
        · next entry hFound =>
            cases hTarget
            exact (hEntry entry hFound).2
        · cases hTarget
          rfl
      · intro job offset hWait
        rcases waitTarget_eq_some hWait with
          ⟨entry, hFound, hJob, hOffset⟩
        have hLive := hEntry entry hFound
        rcases Option.bind_eq_some_iff.mp hFound with
          ⟨index, _, hGet⟩
        exact
          ⟨index, entry, hGet, hLive.1, hLive.2, hJob, hOffset⟩
  · next hPid =>
      have hNone : table.findEntry pid = none :=
        findEntry_nonpos hPid
      refine ⟨?_, ?_, ?_⟩
      · intro index
        constructor
        · intro hFind
          exact absurd (findProc_eq_some.mp hFind).1 hPid
        · rintro ⟨entry, hGet, hLive, hSame⟩
          have hDeleted :=
            hMatch entry (List.mem_of_getElem? hGet) hSame
          rw [hLive] at hDeleted
          cases hDeleted
      · intro target hTarget
        rw [killTarget_eq, hNone] at hTarget
        cases hTarget
        rfl
      · intro job offset hWait
        rcases waitTarget_eq_some hWait with
          ⟨entry, hFound, _⟩
        rw [hNone] at hFound
        cases hFound

theorem match_of_lookupExact
    {table : JobTable}
    (hTable : table.procTable.WellFormed)
    {pid : Int}
    (hExact : LookupExact table pid) :
    FirstNotBelowMatches table.procTable pid := by
  unfold FirstNotBelowMatches
  split
  · next hPid =>
      intro entry hFirst
      rw [← findEntry_eq hTable hPid] at hFirst
      rcases Option.bind_eq_some_iff.mp hFirst with
        ⟨index, hFind, hGet⟩
      rcases (hExact.found index).mp hFind with
        ⟨other, hOther, hLive, hSame⟩
      rw [hGet] at hOther
      cases hOther
      exact ⟨hLive, hSame⟩
  · next hPid =>
      intro entry hMem hSame
      rcases List.mem_iff_getElem?.mp hMem with ⟨index, hGet⟩
      by_contra hLive
      have hFind :=
        (hExact.found index).mpr
          ⟨entry, hGet, by simpa using hLive, hSame⟩
      exact hPid (findProc_eq_some.mp hFind).1

/-
  After any run of the tables, the lookup of a process id is
  exact just when the first entry not below it matches.
-/
theorem lookupExact_iff_of_run
    {table : JobTable}
    {ops : List TableOp}
    (hRun : exec step empty ops = some table)
    (pid : Int) :
    LookupExact table pid ↔
      FirstNotBelowMatches table.procTable pid := by
  have hTable := procTable_wellFormed_of_run hRun
  exact
    ⟨match_of_lookupExact hTable,
      lookupExact_of_match hTable⟩

/- A shell whose only child has process id 34. -/
def oneChild : List TableOp :=
  [.create [Proc.ofPid 34], .attach 0 false]

theorem lookupExact_iff_oneChild :
    ∃ table,
      exec step empty oneChild = some table ∧
        (LookupExact table 34 ↔
          FirstNotBelowMatches table.procTable 34) := by
  cases hRun : exec step empty oneChild with
  | none =>
      exact absurd hRun (by decide +kernel)
  | some table =>
      exact ⟨table, rfl, lookupExact_iff_of_run hRun 34⟩

/- Killing process 12, which is no child, signals 34. -/
theorem lookup_near_miss :
    ¬ ∀ ops table pid,
        exec step empty ops = some table →
        LookupExact table pid := by
  intro hAll
  have hSignal :
      (exec step empty oneChild).map
          (fun table =>
            killTarget table (PidOrJobArg.ofPid 12)) =
        some (some 34) := by
    decide +kernel
  rcases Option.map_eq_some_iff.mp hSignal with
    ⟨table, hRun, hKill⟩
  have hSame :=
    (hAll oneChild table 12 hRun).signalled 34 hKill
  omega

end JobTable

end Job

end Ydsh
