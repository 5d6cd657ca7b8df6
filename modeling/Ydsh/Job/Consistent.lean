import Ydsh.Job.Shell
import Ydsh.Library.FirstGap

/-
  Agreement of the process table with the jobs.

  Main declarations:
    * `JobTable.Holds`
    * `JobTable.EntryOf`
    * `JobTable.Consistent`
    * `JobTable.Consistent.of_heap`
-/

----
-- Invariant
----

namespace Ydsh

namespace Job

open Library

namespace JobObject

def ended (job : JobObject) : Bool :=
  job.procs.all Proc.isTerminated

end JobObject

namespace JobTable

/- A live process of an attached job. -/
structure Holds
    (table : JobTable)
    (job : JobRef)
    (offset : Nat)
    (proc : Proc) : Prop where
  attached : job ∈ table.jobs
  found : table.procAt job offset = some proc
  live : proc.isTerminated = false

/- The entry maps a live process to its job id and offset. -/
def EntryOf
    (table : JobTable)
    (entry : Entry) : Prop :=
  ∃ job proc,
    table.Holds job entry.procOffset proc ∧
      entry.pid = proc.pid ∧
      entry.jobId = table.jobIDOf job

/-
  Attached jobs are numbered in order, available exactly while
  one of their processes is alive, and found through the live
  entries.  A job that has ended leaves a deleted entry.
-/
structure Consistent
    (table : JobTable)
    (children : List Int) : Prop where
  wellFormed : table.procTable.WellFormed
  sorted : SortedBy table.jobIDOf table.jobs
  numbered : ∀ job ∈ table.jobs, 0 < table.jobIDOf job
  attached :
    ∀ job ∈ table.jobs,
      ∃ object,
        table.heap[job]? = some object ∧
          object.state ≠ .uncontrolled ∧
          object.available = !object.ended
  controlled :
    ∀ (job : JobRef) (object : JobObject),
      table.heap[job]? = some object →
      object.procs ≠ [] ∧
        (object.state = .terminated → object.ended = true)
  entries :
    ∀ entry,
      entry ∈ table.procTable.entries ∧
          entry.isDeleted = false ↔
        table.EntryOf entry
  pids :
    ∀ job offset proc,
      table.Holds job offset proc →
      0 < proc.pid ∧ proc.pid ∈ children
  unmarked :
    table.procTable.deletedCount = 0 →
    ∀ job ∈ table.jobs, table.isAvailable job = true

theorem jobIDOf_of_heap
    {table : JobTable}
    {job : JobRef}
    {object : JobObject}
    (hObject : table.heap[job]? = some object) :
    table.jobIDOf job = object.jobID := by
  simp [jobIDOf, hObject]

theorem isAvailable_of_heap
    {table : JobTable}
    {job : JobRef}
    {object : JobObject}
    (hObject : table.heap[job]? = some object) :
    table.isAvailable job = object.available := by
  simp [isAvailable, hObject]

theorem procAt_of_heap
    {table : JobTable}
    {job : JobRef}
    {object : JobObject}
    (hObject : table.heap[job]? = some object)
    (offset : Nat) :
    table.procAt job offset = object.procs[offset]? := by
  simp [procAt, hObject]

theorem Consistent.empty
    (children : List Int) :
    Consistent empty children where
  wellFormed := ProcTable.WellFormed.empty
  sorted := SortedBy.nil _
  numbered := nofun
  attached := nofun
  controlled := nofun
  entries := by
    intro entry
    constructor
    · rintro ⟨hMem, _⟩
      cases hMem
    · rintro ⟨job, proc, hHolds, _⟩
      cases hHolds.attached
  pids := by
    intro job offset proc hHolds
    cases hHolds.attached
  unmarked := nofun

/-
  Objects may change in what the tables do not look at, and
  unattached objects may be added.
-/
theorem Consistent.of_heap
    {table next : JobTable}
    {children : List Int}
    (hTable : table.Consistent children)
    (hJobs : next.jobs = table.jobs)
    (hProcs : next.procTable = table.procTable)
    (hSame :
      ∀ (job : JobRef) (object : JobObject),
        table.heap[job]? = some object →
        ∃ after,
          next.heap[job]? = some after ∧
            after.jobID = object.jobID ∧
            after.procs = object.procs ∧
            after.state = object.state)
    (hControlled :
      ∀ (job : JobRef) (object : JobObject),
        next.heap[job]? = some object →
        object.procs ≠ [] ∧
          (object.state = .terminated → object.ended = true)) :
    next.Consistent children := by
  have hFrame :
      ∀ job ∈ table.jobs,
        next.jobIDOf job = table.jobIDOf job ∧
          next.isAvailable job = table.isAvailable job ∧
          ∀ offset,
            next.procAt job offset = table.procAt job offset := by
    intro job hJob
    rcases hTable.attached job hJob with ⟨object, hObject, _⟩
    rcases hSame job object hObject with
      ⟨after, hAfter, hID, hProcs, hState⟩
    refine ⟨?_, ?_, fun offset => ?_⟩
    · rw [jobIDOf_of_heap hObject, jobIDOf_of_heap hAfter, hID]
    · rw [isAvailable_of_heap hObject, isAvailable_of_heap hAfter]
      simp only [JobObject.available, hState]
    · rw [procAt_of_heap hObject, procAt_of_heap hAfter, hProcs]
  have hHolds :
      ∀ job offset proc,
        next.Holds job offset proc ↔
          table.Holds job offset proc := by
    intro job offset proc
    constructor
    · rintro ⟨hJob, hFound, hLive⟩
      rw [hJobs] at hJob
      rw [(hFrame job hJob).2.2] at hFound
      exact ⟨hJob, hFound, hLive⟩
    · rintro ⟨hJob, hFound, hLive⟩
      refine ⟨hJobs ▸ hJob, ?_, hLive⟩
      rw [(hFrame job hJob).2.2]
      exact hFound
  constructor
  · rw [hProcs]
    exact hTable.wellFormed
  · rw [hJobs]
    exact hTable.sorted.congr (fun job hJob => (hFrame job hJob).1)
  · intro job hJob
    rw [hJobs] at hJob
    rw [(hFrame job hJob).1]
    exact hTable.numbered job hJob
  · intro job hJob
    rw [hJobs] at hJob
    rcases hTable.attached job hJob with
      ⟨object, hObject, hState, hAvailable⟩
    rcases hSame job object hObject with
      ⟨after, hAfter, _, hProcs, hKept⟩
    refine ⟨after, hAfter, hKept ▸ hState, ?_⟩
    simp only [JobObject.available, JobObject.ended, hKept, hProcs]
    exact hAvailable
  · exact hControlled
  · intro entry
    rw [hProcs, hTable.entries entry]
    constructor
    · rintro ⟨job, proc, hHold, hPid, hID⟩
      refine
        ⟨job, proc, (hHolds _ _ _).mpr hHold, hPid, ?_⟩
      rw [(hFrame job hHold.attached).1, hID]
    · rintro ⟨job, proc, hHold, hPid, hID⟩
      have hOld := (hHolds _ _ _).mp hHold
      refine ⟨job, proc, hOld, hPid, ?_⟩
      rw [← (hFrame job hOld.attached).1, hID]
  · intro job offset proc hHold
    exact hTable.pids job offset proc ((hHolds _ _ _).mp hHold)
  · intro hCount job hJob
    rw [hProcs] at hCount
    rw [hJobs] at hJob
    rw [(hFrame job hJob).2.1]
    exact hTable.unmarked hCount job hJob

theorem disowned_procAt
    (table : JobTable)
    (job other : JobRef)
    (offset : Nat) :
    (table.modifyJob job JobObject.disowned).procAt other offset =
      table.procAt other offset := by
  simp only [procAt, modifyJob, List.getElem?_modify]
  cases table.heap[other]? with
  | none => rfl
  | some object =>
      simp only [Option.map_eq_map, Option.map_some,
        Option.bind_some]
      split <;> rfl

/- A job may be disowned. -/
theorem Consistent.detach
    {table : JobTable}
    {children : List Int}
    (hTable : table.Consistent children)
    (job : JobRef) :
    (table.modifyJob job JobObject.disowned).Consistent
      children := by
  have hGet :
      ∀ (other : JobRef),
        (table.modifyJob job JobObject.disowned).heap[other]? =
          (table.heap[other]?).map
            (fun object =>
              if job = other then object.disowned else object) := by
    intro other
    simp only [modifyJob, List.getElem?_modify]
    rfl
  refine hTable.of_heap rfl rfl ?_ ?_
  · intro other object hObject
    rw [hGet, hObject]
    refine ⟨_, rfl, ?_⟩
    split <;> exact ⟨rfl, rfl, rfl⟩
  · intro other object hObject
    rw [hGet] at hObject
    rcases Option.map_eq_some_iff.mp hObject with
      ⟨old, hOld, rfl⟩
    have hControlled := hTable.controlled other old hOld
    split <;> exact hControlled

end JobTable

end Job

end Ydsh
