import Ydsh.Job.Consistent

/-
  Removing the jobs that have ended keeps the tables in
  agreement.

  Main declarations:
    * `JobTable.RemovesTerminated`
    * `JobTable.Consistent.removesTerminated`
    * `JobTable.Consistent.removeTerminatedJobs`
    * `JobTable.Consistent.detachAll`
-/

----
-- Removal
----

namespace Ydsh

namespace Job

open Library

namespace JobTable

----

section

variable {table : JobTable}
variable {children : List Int}

def isEnded
    (table : JobTable)
    (job : JobRef) : Bool :=
  (table.heap[job]?.map JobObject.ended).getD false

/- Exactly the jobs that have ended leave, in the old order. -/
structure RemovesTerminated
    (table next : JobTable) : Prop where
  jobs :
    next.jobs = table.jobs.filter (fun job => !table.isEnded job)
  kept :
    ∀ job ∈ next.jobs, next.jobIDOf job = table.jobIDOf job

theorem foldl_release_heap
    (table : JobTable)
    (jobs : List JobRef)
    (job : JobRef) :
    (jobs.foldl release table).heap[job]? =
      (table.heap[job]?).map
        (fun object =>
          if job ∈ jobs then
            { object with jobID := 0, disown := true }
          else
            object) := by
  induction jobs generalizing table with
  | nil => simp
  | cons first jobs ih =>
      rw [List.foldl_cons, ih]
      simp only [release, modifyJob, List.getElem?_modify]
      by_cases hFirst : first = job
      · subst hFirst
        cases table.heap[first]? with
        | none => rfl
        | some object => simp
      · cases table.heap[job]? with
        | none => rfl
        | some object =>
            simp [hFirst, Ne.symm hFirst]

theorem foldl_release_jobs
    (table : JobTable)
    (jobs : List JobRef) :
    (jobs.foldl release table).jobs = table.jobs := by
  induction jobs generalizing table with
  | nil => rfl
  | cons job jobs ih =>
      rw [List.foldl_cons, ih]
      rfl

/- What the removal does when an entry has been deleted. -/
theorem removeTerminatedJobs_parts
    (table : JobTable)
    (hCount : table.procTable.deletedCount ≠ 0) :
    ∃ released : List JobRef,
      (∀ job ∈ released, table.isAvailable job = false) ∧
        table.removeTerminatedJobs.jobs =
          table.jobs.filter table.isAvailable ∧
        ∀ job : JobRef,
          table.removeTerminatedJobs.heap[job]? =
            (table.heap[job]?).map
              (fun object =>
                if job ∈ released then
                  { object with jobID := 0, disown := true }
                else
                  object) := by
  unfold removeTerminatedJobs
  rw [if_neg hCount]
  have hSame :
      ∀ job,
        JobTable.isAvailable
            { table with procTable := table.procTable.batchedRemove }
            job =
          table.isAvailable job := fun _ => rfl
  simp only [hSame]
  split
  · next hAll =>
      refine ⟨[], nofun, ?_, fun job => ?_⟩
      · exact
          (List.filter_eq_self.mpr
            (fun job hJob => List.all_eq_true.mp hAll job hJob)).symm
      · simp
  · have hKept :=
      compact_eq_filter (fun job => !table.isAvailable job) table.jobs
    simp only [Bool.not_not] at hKept
    refine
      ⟨((compact (fun job => !table.isAvailable job)
          table.jobs).1.drop
            (compact (fun job => !table.isAvailable job)
              table.jobs).2).reverse, ?_, ?_, ?_⟩
    · intro job hJob
      have hDead :=
        compact_drop_dead (fun job => !table.isAvailable job)
          table.jobs (List.mem_reverse.mp hJob)
      simpa using hDead
    · split
      · rw [foldl_release_jobs]
        exact hKept
      · split
        · rw [foldl_release_jobs]
          exact hKept
        · simp only [foldl_release_jobs]
          exact hKept
    · intro job
      split
      · exact foldl_release_heap _ _ job
      · split
        · exact foldl_release_heap _ _ job
        · exact foldl_release_heap _ _ job

theorem Consistent.isAvailable_iff
    (hTable : table.Consistent children)
    {job : JobRef}
    (hJob : job ∈ table.jobs) :
    table.isAvailable job = !table.isEnded job := by
  rcases hTable.attached job hJob with
    ⟨object, hObject, _, hAvailable⟩
  rw [isAvailable_of_heap hObject, hAvailable]
  simp [isEnded, hObject]

/- Removal keeps the processes, and the attached jobs as they are. -/
theorem Consistent.removal_heap
    (hTable : table.Consistent children) :
    table.removeTerminatedJobs.jobs =
        table.jobs.filter table.isAvailable ∧
      (∀ job ∈ table.removeTerminatedJobs.jobs,
        table.removeTerminatedJobs.heap[job]? =
          table.heap[job]?) ∧
      (∀ (job : JobRef) (object : JobObject),
        table.removeTerminatedJobs.heap[job]? = some object →
        ∃ before,
          table.heap[job]? = some before ∧
            object.procs = before.procs ∧
            object.state = before.state) ∧
      ∀ job offset,
        table.removeTerminatedJobs.procAt job offset =
          table.procAt job offset := by
  by_cases hCount : table.procTable.deletedCount = 0
  · have hSame : table.removeTerminatedJobs = table := by
      unfold JobTable.removeTerminatedJobs
      rw [if_pos hCount]
    rw [hSame]
    refine ⟨?_, fun _ _ => rfl, ?_, fun _ _ => rfl⟩
    · exact
        (List.filter_eq_self.mpr (hTable.unmarked hCount)).symm
    · exact fun job object hObject => ⟨object, hObject, rfl, rfl⟩
  · rcases removeTerminatedJobs_parts table hCount with
      ⟨released, hReleased, hJobs, hHeap⟩
    refine ⟨hJobs, ?_, ?_, ?_⟩
    · intro job hJob
      rw [hJobs] at hJob
      have hAvailable := (List.mem_filter.mp hJob).2
      have hFree : job ∉ released := by
        intro hMem
        rw [hReleased job hMem] at hAvailable
        cases hAvailable
      rw [hHeap]
      simp [hFree]
    · intro job object hObject
      rw [hHeap] at hObject
      rcases Option.map_eq_some_iff.mp hObject with
        ⟨before, hBefore, rfl⟩
      refine ⟨before, hBefore, ?_⟩
      split <;> exact ⟨rfl, rfl⟩
    · intro job offset
      unfold procAt
      rw [hHeap]
      cases table.heap[job]? with
      | none => rfl
      | some object =>
          simp only [Option.map_some, Option.bind_some]
          split <;> rfl

theorem Consistent.removesTerminated
    (hTable : table.Consistent children) :
    RemovesTerminated table table.removeTerminatedJobs where
  jobs := by
    rw [hTable.removal_heap.1]
    exact
      List.filter_congr (fun job hJob => hTable.isAvailable_iff hJob)
  kept := by
    intro job hJob
    unfold JobTable.jobIDOf
    rw [hTable.removal_heap.2.1 job hJob]

theorem Consistent.removal_deletedCount
    (table : JobTable) :
    table.removeTerminatedJobs.procTable.deletedCount = 0 := by
  rw [removeTerminatedJobs_procTable]
  split
  · next hCount => exact hCount
  · rfl

/- The live entries are the same before and after a removal. -/
theorem removal_entries
    (table : JobTable)
    (entry : Entry) :
    entry ∈ table.removeTerminatedJobs.procTable.entries ∧
        entry.isDeleted = false ↔
      entry ∈ table.procTable.entries ∧
        entry.isDeleted = false := by
  rw [removeTerminatedJobs_procTable]
  split
  · exact Iff.rfl
  · rw [ProcTable.batchedRemove_entries, List.mem_filter]
    constructor
    · rintro ⟨⟨hMem, _⟩, hLive⟩
      exact ⟨hMem, hLive⟩
    · rintro ⟨hMem, hLive⟩
      exact ⟨⟨hMem, by rw [hLive]; rfl⟩, hLive⟩

/- The tables agree after terminated jobs are removed. -/
theorem Consistent.removeTerminatedJobs
    (hTable : table.Consistent children) :
    table.removeTerminatedJobs.Consistent children := by
  rcases hTable.removal_heap with ⟨hJobs, hKept, hBefore, hProcAt⟩
  have hOld :
      ∀ job ∈ table.removeTerminatedJobs.jobs,
        job ∈ table.jobs ∧ table.isAvailable job = true := by
    intro job hJob
    rw [hJobs] at hJob
    exact List.mem_filter.mp hJob
  have hID :
      ∀ job ∈ table.removeTerminatedJobs.jobs,
        table.removeTerminatedJobs.jobIDOf job =
          table.jobIDOf job :=
    hTable.removesTerminated.kept
  have hHolds :
      ∀ job offset proc,
        table.removeTerminatedJobs.Holds job offset proc ↔
          table.Holds job offset proc := by
    intro job offset proc
    constructor
    · rintro ⟨hJob, hFound, hLive⟩
      rw [hProcAt] at hFound
      exact ⟨(hOld job hJob).1, hFound, hLive⟩
    · rintro ⟨hJob, hFound, hLive⟩
      refine ⟨?_, (hProcAt job offset).trans hFound, hLive⟩
      rw [hJobs]
      refine List.mem_filter.mpr ⟨hJob, ?_⟩
      rcases hTable.attached job hJob with
        ⟨object, hObject, _, hAvailable⟩
      rw [procAt_of_heap hObject] at hFound
      rw [isAvailable_of_heap hObject, hAvailable,
        Bool.not_eq_true']
      exact
        List.all_eq_false.mpr
          ⟨proc, List.mem_of_getElem? hFound, by rw [hLive]; simp⟩
  constructor
  · rw [removeTerminatedJobs_procTable]
    split
    · exact hTable.wellFormed
    · exact hTable.wellFormed.batchedRemove
  · refine SortedBy.congr ?_ hID
    rw [hJobs]
    exact hTable.sorted.filter _
  · intro job hJob
    rw [hID job hJob]
    exact hTable.numbered job (hOld job hJob).1
  · intro job hJob
    rw [hKept job hJob]
    exact hTable.attached job (hOld job hJob).1
  · intro job object hObject
    rcases hBefore job object hObject with
      ⟨before, hHeap, hProcs, hState⟩
    rw [hProcs, hState, JobObject.ended, hProcs]
    exact hTable.controlled job before hHeap
  · intro entry
    rw [removal_entries, hTable.entries entry]
    constructor
    · rintro ⟨job, proc, hHold, hPid, hNumber⟩
      have hNew := (hHolds _ _ _).mpr hHold
      refine ⟨job, proc, hNew, hPid, ?_⟩
      rw [hID job hNew.attached, hNumber]
    · rintro ⟨job, proc, hHold, hPid, hNumber⟩
      refine ⟨job, proc, (hHolds _ _ _).mp hHold, hPid, ?_⟩
      rw [hNumber, hID job hHold.attached]
  · intro job offset proc hHold
    exact hTable.pids job offset proc ((hHolds _ _ _).mp hHold)
  · intro _ job hJob
    unfold JobTable.isAvailable
    rw [hKept job hJob]
    exact (hOld job hJob).2

/- Detached jobs keep their processes. -/
theorem detachAll_procAt
    (table : JobTable)
    (job : JobRef)
    (offset : Nat) :
    table.detachAll.procAt job offset =
      table.procAt job offset := by
  have hFold :
      ∀ (jobs : List JobRef) (start : JobTable),
        (jobs.foldl
            (fun table job =>
              table.modifyJob job
                (fun object =>
                  { object with
                    jobID := 0
                    disown := true
                    state := .uncontrolled }))
            start).procAt job offset =
          start.procAt job offset := by
    intro jobs
    induction jobs with
    | nil => exact fun _ => rfl
    | cons first jobs ih =>
        intro start
        rw [List.foldl_cons, ih]
        simp only [procAt, modifyJob, List.getElem?_modify]
        cases start.heap[job]? with
        | none => rfl
        | some object =>
            simp only [Option.map_eq_map, Option.map_some,
              Option.bind_some]
            split <;> rfl
  exact hFold table.jobs table

/- A child process starts with no jobs. -/
theorem Consistent.detachAll
    (hTable : table.Consistent children)
    (inherited : List Int) :
    table.detachAll.Consistent inherited := by
  have hFold :
      ∀ (jobs : List JobRef) (start : JobTable),
        (∀ (job : JobRef) (object : JobObject),
          start.heap[job]? = some object →
          object.procs ≠ [] ∧
            (object.state = .terminated → object.ended = true)) →
        ∀ (job : JobRef) (object : JobObject),
          (jobs.foldl
              (fun table job =>
                table.modifyJob job
                  (fun object =>
                    { object with
                      jobID := 0
                      disown := true
                      state := .uncontrolled }))
              start).heap[job]? = some object →
          object.procs ≠ [] ∧
            (object.state = .terminated → object.ended = true) := by
    intro jobs
    induction jobs with
    | nil => exact fun _ hStart => hStart
    | cons first jobs ih =>
        intro start hStart
        refine ih _ ?_
        intro job object hObject
        simp only [modifyJob, List.getElem?_modify] at hObject
        rcases Option.map_eq_some_iff.mp hObject with
          ⟨before, hBefore, rfl⟩
        have hOld := hStart job before hBefore
        split
        · exact ⟨hOld.1, by rintro ⟨⟩⟩
        · exact hOld
  have hEmpty := Consistent.empty inherited
  exact
    { hEmpty with
      controlled := hFold table.jobs table hTable.controlled
      entries := by
        intro entry
        constructor
        · rintro ⟨hMem, _⟩
          cases hMem
        · rintro ⟨job, proc, hHolds, _⟩
          cases hHolds.attached
      pids := by
        intro job offset proc hHolds
        cases hHolds.attached
      attached := by rintro _ ⟨⟩
      numbered := by rintro _ ⟨⟩
      unmarked := by rintro _ _ ⟨⟩
      sorted := SortedBy.nil _ }

end

end JobTable

end Job

end Ydsh
