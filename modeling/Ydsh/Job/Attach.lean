import Ydsh.Job.Consistent

/-
  Attaching a job keeps the tables in agreement.

  Main declarations:
    * `ProcTable.mem_add`
    * `JobTable.FreshProcs`
    * `JobTable.AttachesSmallest`
    * `JobTable.Consistent.attach`
-/

----
-- Adding Entries
----

namespace Ydsh

namespace Job

open Library

----

namespace ProcTable

/- A process id that no entry has is added. -/
theorem mem_addProc
    {table : ProcTable}
    {pid : Int}
    {jobId procOffset : Nat}
    (hJob : jobId ≠ 0)
    (hFresh : 0 ≤ pid → ∀ entry ∈ table.entries, entry.pid ≠ pid)
    {entry : Entry} :
    entry ∈ (table.addProc pid jobId procOffset).1.entries ↔
      entry ∈ table.entries ∨
        (0 ≤ pid ∧ entry = { pid, jobId, procOffset }) := by
  unfold addProc
  by_cases hPid : pid < 0
  · rw [if_pos (Or.inl hPid)]
    constructor
    · exact Or.inl
    · rintro (hOld | ⟨hNonneg, _⟩)
      · exact hOld
      · exact absurd hPid (Int.not_lt.mpr hNonneg)
  · rw [if_neg (not_or.mpr ⟨hPid, hJob⟩)]
    have hNonneg := Int.not_lt.mp hPid
    have hMiss :
        (table.entries[table.lowerBoundOf pid]?.map
          Entry.pid) ≠ some pid := by
      intro hHit
      rcases Option.map_eq_some_iff.mp hHit with
        ⟨found, hFound, hSame⟩
      exact
        hFresh hNonneg found (List.mem_of_getElem? hFound) hSame
    simp only [if_neg hMiss]
    have hLe : table.lowerBoundOf pid ≤ table.entries.length :=
      lowerBound_le_length (keyBelow Entry.pid pid) table.entries
    rw [List.mem_insertIdx hLe]
    constructor
    · rintro (rfl | hOld)
      · exact Or.inr ⟨hNonneg, rfl⟩
      · exact Or.inl hOld
    · rintro (hOld | ⟨_, rfl⟩)
      · exact Or.inr hOld
      · exact Or.inl rfl

theorem addProc_deletedCount
    (table : ProcTable)
    (pid : Int)
    (jobId procOffset : Nat) :
    (table.addProc pid jobId procOffset).1.deletedCount =
      table.deletedCount := by
  rcases addProc_cases table pid jobId procOffset with
    hSame | ⟨_, _, _, hInsert⟩
  · rw [hSame]
  · rw [hInsert]

/- The live processes of a job are added, each at its offset. -/
theorem mem_add
    {table : ProcTable}
    {job : JobObject}
    (hJob : job.jobID ≠ 0)
    (hFresh :
      ∀ proc ∈ job.procs,
        0 ≤ proc.pid →
        ∀ entry ∈ table.entries, entry.pid ≠ proc.pid)
    (hDistinct :
      job.procs.Pairwise
        (fun proc other => 0 ≤ proc.pid → proc.pid ≠ other.pid))
    {entry : Entry} :
    entry ∈ (table.add job).entries ↔
      entry ∈ table.entries ∨
        ∃ proc,
          job.procs[entry.procOffset]? = some proc ∧
            0 ≤ proc.pid ∧
            entry.pid = proc.pid ∧
            entry.jobId = job.jobID := by
  have hFold :
      ∀ (procs : List Proc) (start : Nat) (table : ProcTable),
        (∀ proc ∈ procs,
          0 ≤ proc.pid →
          ∀ entry ∈ table.entries, entry.pid ≠ proc.pid) →
        procs.Pairwise
          (fun proc other =>
            0 ≤ proc.pid → proc.pid ≠ other.pid) →
        (entry ∈
            ((procs.zipIdx start).foldl
              (fun table proc =>
                (table.addProc proc.1.pid job.jobID proc.2).1)
              table).entries ↔
          entry ∈ table.entries ∨
            ∃ (offset : Nat) (proc : Proc),
              procs[offset]? = some proc ∧
                0 ≤ proc.pid ∧
                entry =
                  { pid := proc.pid
                    jobId := job.jobID
                    procOffset := start + offset }) := by
    intro procs
    induction procs with
    | nil =>
        intro start table _ _
        simp
    | cons proc procs ih =>
        intro start table hFresh hDistinct
        rcases List.pairwise_cons.mp hDistinct with
          ⟨hHead, hTail⟩
        have hAdded :
            ∀ {found : Entry},
              found ∈
                  (table.addProc proc.pid job.jobID
                    start).1.entries ↔
                found ∈ table.entries ∨
                  (0 ≤ proc.pid ∧
                    found =
                      { pid := proc.pid
                        jobId := job.jobID
                        procOffset := start }) :=
          mem_addProc hJob (hFresh proc List.mem_cons_self)
        rw [List.zipIdx_cons, List.foldl_cons, ih (start + 1)]
        · rw [hAdded, or_assoc]
          refine or_congr Iff.rfl ?_
          constructor
          · rintro (⟨hPid, hEntry⟩ | ⟨offset, found, hFound, hRest⟩)
            · exact ⟨0, proc, rfl, hPid, hEntry⟩
            · refine ⟨offset + 1, found, hFound, hRest.1, ?_⟩
              rw [hRest.2, Nat.add_assoc, Nat.add_comm 1]
          · rintro ⟨offset, found, hFound, hPid, hEntry⟩
            cases offset with
            | zero =>
                cases hFound
                exact Or.inl ⟨hPid, hEntry⟩
            | succ offset =>
                refine Or.inr ⟨offset, found, hFound, hPid, ?_⟩
                rw [hEntry, Nat.add_assoc, Nat.add_comm 1]
        · intro other hOther hPid found hFound
          rcases hAdded.mp hFound with hOld | ⟨hNew, rfl⟩
          · exact
              hFresh other (List.mem_cons_of_mem proc hOther) hPid
                found hOld
          · exact hHead other hOther hNew
        · exact hTail
  unfold add
  rw [hFold job.procs 0 table hFresh hDistinct]
  refine or_congr Iff.rfl ?_
  constructor
  · rintro ⟨offset, proc, hProc, hPid, rfl⟩
    refine ⟨proc, ?_, hPid, rfl, rfl⟩
    rw [Nat.zero_add]
    exact hProc
  · rintro ⟨proc, hProc, hPid, hSame, hID⟩
    refine ⟨entry.procOffset, proc, hProc, hPid, ?_⟩
    rw [Nat.zero_add, ← hSame, ← hID]

theorem add_deletedCount
    (table : ProcTable)
    (job : JobObject) :
    (table.add job).deletedCount = table.deletedCount := by
  unfold add
  generalize job.procs.zipIdx = procs
  induction procs generalizing table with
  | nil => rfl
  | cons proc procs ih =>
      rw [List.foldl_cons, ih, addProc_deletedCount]

end ProcTable

----
-- Attaching
----

namespace JobTable

/- Processes that no entry of the table stands for. -/
structure FreshProcs
    (table : JobTable)
    (children : List Int)
    (procs : List Proc) : Prop where
  live :
    ∀ proc ∈ procs,
      proc.isTerminated = false →
      0 < proc.pid ∧ proc.pid ∈ children ∧
        ∀ entry ∈ table.procTable.entries, entry.pid ≠ proc.pid
  ended :
    ∀ proc ∈ procs, proc.isTerminated = true → proc.pid < 0
  distinct :
    procs.Pairwise
      (fun proc other =>
        proc.isTerminated = false → proc.pid ≠ other.pid)

theorem FreshProcs.live_iff
    {table : JobTable}
    {children : List Int}
    {procs : List Proc}
    (hProcs : table.FreshProcs children procs)
    {proc : Proc}
    (hMem : proc ∈ procs) :
    0 ≤ proc.pid ↔ proc.isTerminated = false := by
  cases hEnded : proc.isTerminated with
  | false =>
      have hLive := (hProcs.live proc hMem hEnded).1
      simp only [iff_true]
      omega
  | true =>
      have hNegative := hProcs.ended proc hMem hEnded
      simp only [Bool.true_eq_false, iff_false]
      omega

/-
  Attaching takes the smallest number that is not in use and
  leaves the other jobs as they are.
-/
structure AttachesSmallest
    (table next : JobTable)
    (job : JobRef) : Prop where
  fresh : job ∉ table.jobs
  jobs :
    ∀ other, other ∈ next.jobs ↔ other = job ∨ other ∈ table.jobs
  positive : 0 < next.jobIDOf job
  unused :
    ∀ other ∈ table.jobs,
      table.jobIDOf other ≠ next.jobIDOf job
  smallest :
    ∀ n, 0 < n → n < next.jobIDOf job →
      ∃ other ∈ table.jobs, table.jobIDOf other = n
  kept :
    ∀ other ∈ table.jobs,
      next.jobIDOf other = table.jobIDOf other

/- The table after a new job has been attached. -/
theorem attach_create
    {table next : JobTable}
    {procs : List Proc}
    {disowned : Bool}
    (hAttach :
      (table.create procs).attach table.heap.length disowned =
        some next) :
    ∃ object added : JobObject,
      object.procs = procs ∧
        object.state = .running ∧
        object.jobID =
          (firstGap (table.create procs).jobIDOf table.jobs + 1) %
            65536 ∧
        added.procs = procs ∧
        added.jobID = object.jobID ∧
        next.heap = table.heap ++ [object] ∧
        next.jobs =
          table.jobs.insertIdx
            (firstGap (table.create procs).jobIDOf table.jobs)
            table.heap.length ∧
        next.procTable = table.procTable.add added := by
  have hObject :
      (table.create procs).heap[table.heap.length]? =
        some (JobObject.create procs) := by
    simp [create]
  have hGap :
      (table.create procs).findEmptyEntry =
        firstGap (table.create procs).jobIDOf table.jobs := rfl
  unfold attach at hAttach
  rw [hObject] at hAttach
  simp only [JobObject.create, ne_eq, not_true_eq_false, if_false,
    hGap] at hAttach
  have hSet :
      ∀ object : JobObject,
        (table.create procs).heap.set table.heap.length object =
          table.heap ++ [object] := by
    intro object
    simp [create]
  cases disowned with
  | true =>
      rw [if_pos rfl] at hAttach
      cases hAttach
      refine
        ⟨{ jobID := _, state := .running, disown := true, procs },
          _, rfl, rfl, rfl, rfl, rfl, ?_, rfl, rfl⟩
      simp only [modifyJob, hSet]
      rw [List.modify_eq_take_drop]
      simp [JobObject.disowned]
  | false =>
      rw [if_neg Bool.false_ne_true] at hAttach
      cases hAttach
      exact ⟨_, _, rfl, rfl, rfl, rfl, rfl, hSet _, rfl, rfl⟩

section

variable {table next : JobTable}
variable {children : List Int}
variable {procs : List Proc}
variable {disowned : Bool}

/- What the objects look like once the job is attached. -/
structure Attached
    (table next : JobTable)
    (procs : List Proc) : Prop where
  gap : AttachesSmallest table next table.heap.length
  sorted : SortedBy next.jobIDOf next.jobs
  object :
    ∃ object : JobObject,
      next.heap[table.heap.length]? = some object ∧
        object.procs = procs ∧
        object.state = .running
  heap :
    ∀ (job : JobRef) (object : JobObject),
      table.heap[job]? = some object →
      next.heap[job]? = some object
  reached :
    ∀ (job : JobRef) (object : JobObject),
      next.heap[job]? = some object →
      job = table.heap.length ∨ table.heap[job]? = some object
  procTable :
    ∃ added : JobObject,
      added.procs = procs ∧
        added.jobID = next.jobIDOf table.heap.length ∧
        next.procTable = table.procTable.add added

theorem Consistent.attached_heap
    (hTable : table.Consistent children)
    {job : JobRef}
    (hJob : job ∈ table.jobs) :
    job < table.heap.length := by
  rcases hTable.attached job hJob with ⟨object, hObject, _⟩
  exact (List.getElem?_eq_some_iff.mp hObject).1

theorem Consistent.attached_of_attach
    (hTable : table.Consistent children)
    (hLength : table.jobs.length < 65535)
    (hAttach :
      (table.create procs).attach table.heap.length disowned =
        some next) :
    Attached table next procs := by
  rcases attach_create hAttach with
    ⟨object, added, hProcs, hState, hID, hAddedProcs, hAddedID,
      hHeap, hJobs, hProcTable⟩
  have hOld :
      ∀ (job : JobRef) (found : JobObject),
        table.heap[job]? = some found →
        next.heap[job]? = some found := by
    intro job found hFound
    rw [hHeap, List.getElem?_append_left
      (List.getElem?_eq_some_iff.mp hFound).1, hFound]
  have hNew : next.heap[table.heap.length]? = some object := by
    rw [hHeap]
    simp
  have hCreated :
      ∀ job ∈ table.jobs,
        (table.create procs).jobIDOf job = table.jobIDOf job := by
    intro job hJob
    simp only [jobIDOf, create]
    rw [List.getElem?_append_left (hTable.attached_heap hJob)]
  have hSorted :
      SortedBy (table.create procs).jobIDOf table.jobs :=
    hTable.sorted.congr hCreated
  have hPos :
      ∀ job ∈ table.jobs,
        0 < (table.create procs).jobIDOf job := by
    intro job hJob
    rw [hCreated job hJob]
    exact hTable.numbered job hJob
  have hGapLe :=
    firstGap_le_length (table.create procs).jobIDOf table.jobs
  have hNumber :
      next.jobIDOf table.heap.length =
        firstGap (table.create procs).jobIDOf table.jobs + 1 := by
    rw [jobIDOf_of_heap hNew, hID]
    exact Nat.mod_eq_of_lt (by omega)
  have hKept :
      ∀ job ∈ table.jobs,
        next.jobIDOf job = table.jobIDOf job := by
    intro job hJob
    rcases hTable.attached job hJob with ⟨found, hFound, _⟩
    rw [jobIDOf_of_heap hFound, jobIDOf_of_heap (hOld job found hFound)]
  refine ⟨⟨?_, ?_, ?_, ?_, ?_, hKept⟩, ?_, ?_, hOld, ?_, ?_⟩
  · intro hMem
    exact Nat.lt_irrefl _ (hTable.attached_heap hMem)
  · intro other
    rw [hJobs, List.mem_insertIdx hGapLe]
  · rw [hNumber]
    exact Nat.succ_pos _
  · intro other hOther
    rw [hNumber, ← hCreated other hOther]
    exact firstGap_unused hSorted hPos hOther
  · intro n hN hBelow
    rw [hNumber] at hBelow
    rcases firstGap_used hSorted hPos hN hBelow with
      ⟨other, hOther, hSame⟩
    exact ⟨other, hOther, (hCreated other hOther).symm.trans hSame⟩
  · rw [hJobs]
    refine hSorted.insertIdx_firstGap hPos ?_ hNumber
    intro other hOther
    rw [hKept other hOther, hCreated other hOther]
  · exact ⟨object, hNew, hProcs, hState⟩
  · intro job found hFound
    rw [hHeap] at hFound
    by_cases hBelow : job < table.heap.length
    · rw [List.getElem?_append_left hBelow] at hFound
      exact Or.inr hFound
    · have hJob := (List.getElem?_eq_some_iff.mp hFound).1
      rw [List.length_append, List.length_singleton] at hJob
      exact
        Or.inl
          (Nat.le_antisymm (Nat.le_of_lt_succ hJob)
            (Nat.le_of_not_lt hBelow))
  · refine ⟨added, hAddedProcs, ?_, hProcTable⟩
    rw [hAddedID, jobIDOf_of_heap hNew]

/- Processes of the attached job and of the others. -/
theorem Consistent.attached_holds
    (hTable : table.Consistent children)
    (hAttached : Attached table next procs)
    {job : JobRef}
    {offset : Nat}
    {proc : Proc} :
    next.Holds job offset proc ↔
      (job = table.heap.length ∧
          procs[offset]? = some proc ∧
          proc.isTerminated = false) ∨
        table.Holds job offset proc := by
  rcases hAttached.object with ⟨object, hObject, hProcs, _⟩
  constructor
  · rintro ⟨hJob, hFound, hLive⟩
    rcases (hAttached.gap.jobs job).mp hJob with rfl | hOld
    · rw [procAt_of_heap hObject, hProcs] at hFound
      exact Or.inl ⟨rfl, hFound, hLive⟩
    · rcases hTable.attached job hOld with ⟨found, hHeap, _⟩
      refine Or.inr ⟨hOld, ?_, hLive⟩
      rw [procAt_of_heap hHeap]
      rw [procAt_of_heap (hAttached.heap job found hHeap)] at hFound
      exact hFound
  · rintro (⟨rfl, hFound, hLive⟩ | ⟨hJob, hFound, hLive⟩)
    · refine ⟨(hAttached.gap.jobs _).mpr (Or.inl rfl), ?_, hLive⟩
      rw [procAt_of_heap hObject, hProcs]
      exact hFound
    · refine ⟨(hAttached.gap.jobs job).mpr (Or.inr hJob), ?_, hLive⟩
      rcases hTable.attached job hJob with ⟨found, hHeap, _⟩
      rw [procAt_of_heap (hAttached.heap job found hHeap)]
      rw [procAt_of_heap hHeap] at hFound
      exact hFound

/- The table agrees with the jobs after a job is attached. -/
theorem Consistent.attach
    (hTable : table.Consistent children)
    (hProcs : table.FreshProcs children procs)
    (hLive : procs.all Proc.isTerminated = false)
    (hMarked : table.procTable.deletedCount = 0)
    (hAttached : Attached table next procs) :
    next.Consistent children ∧
      next.procTable.deletedCount = 0 := by
  have hHolds :
      ∀ job offset proc,
        next.Holds job offset proc ↔
          (job = table.heap.length ∧
              procs[offset]? = some proc ∧
              proc.isTerminated = false) ∨
            table.Holds job offset proc :=
    fun _ _ _ => hTable.attached_holds hAttached
  rcases hAttached.object with ⟨object, hObject, hSame, hRunning⟩
  rcases hAttached.procTable with
    ⟨added, hAddedProcs, hAddedID, hProcTable⟩
  have hCount : next.procTable.deletedCount = 0 := by
    rw [hProcTable, ProcTable.add_deletedCount, hMarked]
  have hEnded : object.ended = false := by
    rw [JobObject.ended, hSame]
    exact hLive
  have hAdd :
      ∀ entry,
        entry ∈ (table.procTable.add added).entries ↔
          entry ∈ table.procTable.entries ∨
            ∃ proc,
              added.procs[entry.procOffset]? = some proc ∧
                0 ≤ proc.pid ∧
                entry.pid = proc.pid ∧
                entry.jobId = added.jobID := by
    intro entry
    refine ProcTable.mem_add ?_ ?_ ?_
    · rw [hAddedID]
      exact Nat.ne_of_gt hAttached.gap.positive
    · intro proc hMem hPid
      rw [hAddedProcs] at hMem
      exact
        (hProcs.live proc hMem
          ((hProcs.live_iff hMem).mp hPid)).2.2
    · rw [hAddedProcs]
      refine List.Pairwise.imp_of_mem ?_ hProcs.distinct
      intro proc other hMem _ hNe hPid
      exact hNe ((hProcs.live_iff hMem).mp hPid)
  refine ⟨⟨?_, hAttached.sorted, ?_, ?_, ?_, ?_, ?_, ?_⟩, hCount⟩
  · rw [hProcTable]
    exact hTable.wellFormed.add added
  · intro job hJob
    rcases (hAttached.gap.jobs job).mp hJob with rfl | hOld
    · exact hAttached.gap.positive
    · rw [hAttached.gap.kept job hOld]
      exact hTable.numbered job hOld
  · intro job hJob
    rcases (hAttached.gap.jobs job).mp hJob with rfl | hOld
    · refine ⟨object, hObject, ?_, ?_⟩
      · rw [hRunning]
        exact JobState.noConfusion
      · rw [hEnded, JobObject.available, hRunning]
        rfl
    · rcases hTable.attached job hOld with ⟨found, hFound, hRest⟩
      exact ⟨found, hAttached.heap job found hFound, hRest⟩
  · intro job found hFound
    rcases hAttached.reached job found hFound with rfl | hOld
    · rw [hObject] at hFound
      cases hFound
      refine ⟨?_, ?_⟩
      · rintro hNil
        rw [← hSame, hNil] at hLive
        cases hLive
      · rw [hRunning]
        exact JobState.noConfusion
    · exact hTable.controlled job found hOld
  · intro entry
    rw [hProcTable, hAdd, or_and_right]
    constructor
    · rintro (hOld | ⟨⟨proc, hFound, hPid, hEntry, hID⟩, _⟩)
      · rcases (hTable.entries entry).mp hOld with
          ⟨job, proc, hHold, hPid, hID⟩
        refine
          ⟨job, proc, (hHolds _ _ _).mpr (Or.inr hHold), hPid, ?_⟩
        rw [hAttached.gap.kept job hHold.attached, hID]
      · rw [hAddedProcs] at hFound
        have hAlive :=
          (hProcs.live_iff (List.mem_of_getElem? hFound)).mp hPid
        exact
          ⟨_, proc,
            (hHolds _ _ _).mpr (Or.inl ⟨rfl, hFound, hAlive⟩),
            hEntry, hID.trans hAddedID⟩
    · rintro ⟨job, proc, hHold, hPid, hID⟩
      rcases (hHolds _ _ _).mp hHold with
        ⟨rfl, hFound, hAlive⟩ | hOld
      · refine Or.inr ⟨⟨proc, ?_, ?_, hPid, ?_⟩, ?_⟩
        · rw [hAddedProcs]
          exact hFound
        · exact
            (hProcs.live_iff (List.mem_of_getElem? hFound)).mpr
              hAlive
        · rw [hID, hAddedID]
        · rw [Entry.isDeleted, hID, beq_eq_false_iff_ne]
          exact Nat.ne_of_gt hAttached.gap.positive
      · refine Or.inl ((hTable.entries entry).mpr ?_)
        refine ⟨job, proc, hOld, hPid, ?_⟩
        rw [hID, hAttached.gap.kept job hOld.attached]
  · intro job offset proc hHold
    rcases (hHolds job offset proc).mp hHold with
      ⟨_, hFound, hAlive⟩ | hOld
    · have hNew :=
        hProcs.live proc (List.mem_of_getElem? hFound) hAlive
      exact ⟨hNew.1, hNew.2.1⟩
    · exact hTable.pids job offset proc hOld
  · intro _ job hJob
    rcases (hAttached.gap.jobs job).mp hJob with rfl | hOld
    · rw [isAvailable_of_heap hObject, JobObject.available, hRunning]
      rfl
    · rcases hTable.attached job hOld with ⟨found, hFound, _⟩
      rw [isAvailable_of_heap (hAttached.heap job found hFound),
        ← isAvailable_of_heap hFound]
      exact hTable.unmarked hMarked job hOld

end

end JobTable

end Job

end Ydsh
