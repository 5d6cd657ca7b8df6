import Ydsh.Job.Consistent
import Ydsh.Job.Lookup

/-
  A report of the operating system keeps the tables in
  agreement.

  Main declarations:
    * `JobTable.firstNotBelow`
    * `JobTable.Recorded`
    * `JobTable.Consistent.updateProcState_cases`
    * `JobTable.Recorded.consistent`
-/

----
-- Looking up a Report
----

namespace Ydsh

namespace Job

open Library

namespace JobTable

----

section

variable {table next : JobTable}
variable {children : List Int}
variable {ret : WaitResult}

/- The first entry whose process id is not below `pid`. -/
def firstNotBelow
    (table : JobTable)
    (pid : Int) : Option Entry :=
  table.procTable.entries.find?
    (fun entry => decide (pid ≤ entry.pid))

/- A live process takes the report; nothing else changes. -/
structure Recorded
    (table next : JobTable)
    (ret : WaitResult)
    (job : JobRef)
    (offset : Nat)
    (index : Nat)
    (proc : Proc)
    (object : JobObject) : Prop where
  holds : table.Holds job offset proc
  pid : proc.pid = ret.pid
  owner : table.heap[job]? = some object
  entry :
    ∃ entry,
      table.procTable.entries[index]? = some entry ∧
        entry.isDeleted = false ∧
        entry.pid = ret.pid
  jobs : next.jobs = table.jobs
  heap :
    next.heap =
      table.heap.set job
        (JobObject.updateState
          { object with
            procs :=
              object.procs.set offset
                (proc.applyStatus ret.status) })
  procTable :
    next.procTable =
      if ret.status.terminates then
        table.procTable.deleteEntry index
      else
        table.procTable

theorem applyStatus_isTerminated
    (proc : Proc)
    (status : WaitStatus) :
    (proc.applyStatus status).isTerminated =
      status.terminates := by
  cases status with
  | exited _ => rfl
  | signaled _ => rfl
  | stopped _ => rfl
  | continued => rfl

/- The number of an attached job leads back to the job. -/
theorem Consistent.findIter_jobIDOf
    (hTable : table.Consistent children)
    {job : JobRef}
    (hJob : job ∈ table.jobs) :
    (table.findIter (table.jobIDOf job)).bind
        (fun iter => table.jobs[iter]?) =
      some job := by
  rcases List.mem_iff_getElem?.mp hJob with ⟨i, hGet⟩
  have hIndex := hTable.sorted.lowerBound_of_key hGet
  unfold findIter
  rw [if_pos (hTable.numbered job hJob)]
  simp only [hIndex, hGet, Option.map_some, if_true,
    Option.bind_some]

/- A live entry stands for the process it was added for. -/
theorem Consistent.entry_holds
    (hTable : table.Consistent children)
    {index : Nat}
    {entry : Entry}
    (hGet : table.procTable.entries[index]? = some entry)
    (hLive : entry.isDeleted = false) :
    ∃ (job : JobRef) (proc : Proc) (object : JobObject),
      table.Holds job entry.procOffset proc ∧
        entry.pid = proc.pid ∧
        (table.findIter entry.jobId).bind
            (fun iter => table.jobs[iter]?) = some job ∧
        table.heap[job]? = some object ∧
        object.procs[entry.procOffset]? = some proc := by
  rcases (hTable.entries entry).mp
      ⟨List.mem_of_getElem? hGet, hLive⟩ with
    ⟨job, proc, hHold, hPid, hID⟩
  rcases hTable.attached job hHold.attached with
    ⟨object, hObject, _⟩
  refine ⟨job, proc, object, hHold, hPid, ?_, hObject, ?_⟩
  · rw [hID]
    exact hTable.findIter_jobIDOf hHold.attached
  · rw [← procAt_of_heap hObject]
    exact hHold.found

/- Two live processes do not share a process id. -/
theorem Consistent.holds_unique
    (hTable : table.Consistent children)
    {job other : JobRef}
    {offset place : Nat}
    {proc found : Proc}
    (hHold : table.Holds job offset proc)
    (hOther : table.Holds other place found)
    (hPid : proc.pid = found.pid) :
    job = other ∧ offset = place := by
  have hFirst :=
    (hTable.entries
        { pid := proc.pid
          jobId := table.jobIDOf job
          procOffset := offset }).mpr
      ⟨job, proc, hHold, rfl, rfl⟩
  have hSecond :=
    (hTable.entries
        { pid := found.pid
          jobId := table.jobIDOf other
          procOffset := place }).mpr
      ⟨other, found, hOther, rfl, rfl⟩
  rcases List.mem_iff_getElem?.mp hFirst.1 with ⟨i, hI⟩
  rcases List.mem_iff_getElem?.mp hSecond.1 with ⟨j, hJ⟩
  have hIndex := hTable.wellFormed.sorted.eq_of_key hI hJ hPid
  rw [hIndex, hJ] at hI
  have hSame := Option.some.inj hI
  have hID : table.jobIDOf other = table.jobIDOf job :=
    congrArg Entry.jobId hSame
  rcases List.mem_iff_getElem?.mp hHold.attached with ⟨k, hK⟩
  rcases List.mem_iff_getElem?.mp hOther.attached with ⟨l, hL⟩
  have hPlace := hTable.sorted.eq_of_key hK hL hID.symm
  rw [hPlace, hL] at hK
  exact
    ⟨(Option.some.inj hK).symm,
      (congrArg Entry.procOffset hSame).symm⟩

/- A process that has not ended keeps its job running. -/
theorem updateState_of_live
    {object : JobObject}
    {proc : Proc}
    {offset : Nat}
    (hFound : object.procs[offset]? = some proc)
    (hLive : proc.isTerminated = false) :
    object.updateState = object := by
  unfold JobObject.updateState
  rw [if_neg]
  intro hEnded
  simp only [Bool.and_eq_true, List.all_eq_true] at hEnded
  have hProc := hEnded.2 proc (List.mem_of_getElem? hFound)
  rw [hLive] at hProc
  cases hProc

/- What a report with a positive process id leads to. -/
theorem Consistent.updateProcState_cases
    (hTable : table.Consistent children)
    (hPid : 0 < ret.pid) :
    (∃ next job offset index proc object,
        table.updateProcState ret = some (next, some (job, offset)) ∧
          Recorded table next ret job offset index proc object) ∨
      (∀ job offset proc,
          table.Holds job offset proc → proc.pid ≠ ret.pid) ∧
        ((∃ entry,
            table.firstNotBelow ret.pid = some entry ∧
              entry.isDeleted = true ∧
              table.updateProcState ret = none) ∨
          ((∀ entry,
              table.firstNotBelow ret.pid = some entry →
              entry.isDeleted = false) ∧
            ∃ found,
              table.updateProcState ret =
                some (table, found))) := by
  have hEntry := findEntry_eq hTable.wellFormed hPid
  unfold findEntry at hEntry
  cases hFind : table.procTable.findProc ret.pid with
  | none =>
      rw [hFind] at hEntry
      have hNone : table.firstNotBelow ret.pid = none := hEntry.symm
      refine Or.inr ⟨?_, Or.inr ⟨?_, none, ?_⟩⟩
      · intro job offset proc hHold hSame
        have hMem :=
          (hTable.entries
              { pid := proc.pid
                jobId := table.jobIDOf job
                procOffset := offset }).mpr
            ⟨job, proc, hHold, rfl, rfl⟩
        have hAbove := List.find?_eq_none.mp hNone _ hMem.1
        rw [hSame] at hAbove
        exact hAbove (decide_eq_true (le_refl _))
      · intro entry hFirst
        rw [hNone] at hFirst
        cases hFirst
      · unfold updateProcState
        rw [hFind]
  | some index =>
      rw [hFind] at hEntry
      rcases findProc_eq_some.mp hFind with ⟨_, _, hLength⟩
      have hGet := List.getElem?_eq_getElem hLength
      generalize table.procTable.entries[index] = entry at hGet
      rw [Option.bind_some, hGet] at hEntry
      have hFirst : table.firstNotBelow ret.pid = some entry :=
        hEntry.symm
      -- a live process with the id is the one found
      have hHit :
          ∀ job offset proc,
            table.Holds job offset proc →
            proc.pid = ret.pid →
            entry =
              { pid := proc.pid
                jobId := table.jobIDOf job
                procOffset := offset } := by
        intro job offset proc hHold hSame
        have hMem :=
          (hTable.entries
              { pid := proc.pid
                jobId := table.jobIDOf job
                procOffset := offset }).mpr
            ⟨job, proc, hHold, rfl, rfl⟩
        rcases List.mem_iff_getElem?.mp hMem.1 with ⟨i, hI⟩
        have hProc : ProcAt table ret.pid i :=
          ⟨_, hI, hMem.2, hSame⟩
        have hFound :=
          procAt_findProc hTable.wellFormed hPid hProc
        rw [hFind] at hFound
        cases hFound
        rw [hGet] at hI
        exact Option.some.inj hI
      cases hDeleted : entry.isDeleted with
      | true =>
          refine Or.inr ⟨?_, Or.inl ⟨entry, hFirst, hDeleted, ?_⟩⟩
          · intro job offset proc hHold hSame
            have hEntry := hHit job offset proc hHold hSame
            rw [hEntry, Entry.isDeleted, beq_iff_eq] at hDeleted
            exact
              absurd hDeleted
                (Nat.ne_of_gt (hTable.numbered job hHold.attached))
          · unfold updateProcState
            simp only [hFind, hGet, hDeleted, if_true]
      | false =>
          rcases hTable.entry_holds hGet hDeleted with
            ⟨job, proc, object, hHold, hSame, hIter, hObject, hProc⟩
          by_cases hHeld : entry.pid = ret.pid
          · left
            have hUpdate :
                proc.updateState ret =
                  proc.applyStatus ret.status := by
              unfold Proc.updateState
              rw [if_neg]
              simp [hHold.live, ← hSame, hHeld]
            refine
              ⟨{ table with
                  heap :=
                    table.heap.set job
                      (JobObject.updateState
                        { object with
                          procs :=
                            object.procs.set entry.procOffset
                              (proc.applyStatus ret.status) })
                  procTable :=
                    if ret.status.terminates then
                      table.procTable.deleteEntry index
                    else
                      table.procTable },
                job, entry.procOffset, index, proc, object, ?_,
                hHold, hSame.symm.trans hHeld, hObject,
                ⟨entry, hGet, hDeleted, hHeld⟩, rfl, rfl, rfl⟩
            unfold updateProcState
            simp only [hFind, hGet, hDeleted, hIter, updateEntry,
              hObject, hProc, hUpdate, if_neg Bool.false_ne_true,
              applyStatus_isTerminated proc]
          · right
            have hUpdate : proc.updateState ret = proc := by
              unfold Proc.updateState
              rw [if_pos]
              rw [Bool.or_eq_true, bne_iff_ne, ← hSame]
              exact Or.inr (Ne.symm hHeld)
            have hSet :
                object.procs.set entry.procOffset proc =
                  object.procs := by
              apply List.ext_getElem?
              intro i
              rw [List.getElem?_set]
              split
              · next hI =>
                  subst hI
                  rw [if_pos (List.getElem?_eq_some_iff.mp hProc).1,
                    hProc]
              · rfl
            have hHeap : table.heap.set job object = table.heap := by
              apply List.ext_getElem?
              intro i
              rw [List.getElem?_set]
              split
              · next hI =>
                  subst hI
                  rw [if_pos (List.getElem?_eq_some_iff.mp hObject).1,
                    hObject]
              · rfl
            refine ⟨?_, Or.inr ⟨?_, some (job, entry.procOffset), ?_⟩⟩
            · intro other offset found hOther hPidSame
              have hEntry := hHit other offset found hOther hPidSame
              rw [hEntry] at hHeld
              exact hHeld hPidSame
            · intro other hOther
              rw [hFirst] at hOther
              cases hOther
              exact hDeleted
            · unfold updateProcState
              simp only [hFind, hGet, hDeleted, hIter, updateEntry,
                hObject, hProc, hUpdate, hHold.live, hSet,
                updateState_of_live hProc hHold.live, hHeap,
                if_neg Bool.false_ne_true]

/- Deleting an entry takes its process id out of the table. -/
theorem mem_deleteEntry
    {procTable : ProcTable}
    (hSorted : SortedBy Entry.pid procTable.entries)
    {index : Nat}
    {entry found : Entry}
    (hGet : procTable.entries[index]? = some entry)
    (hLive : entry.isDeleted = false) :
    found ∈ (procTable.deleteEntry index).entries ∧
        found.isDeleted = false ↔
      (found ∈ procTable.entries ∧ found.isDeleted = false) ∧
        found.pid ≠ entry.pid := by
  have hIndex := (List.getElem?_eq_some_iff.mp hGet).1
  have hEntries :
      (procTable.deleteEntry index).entries =
        procTable.entries.set index entry.markDelete := by
    unfold ProcTable.deleteEntry
    simp only [hGet, hLive, if_neg Bool.false_ne_true]
  rw [hEntries]
  constructor
  · rintro ⟨hMem, hFound⟩
    rcases List.mem_iff_getElem?.mp hMem with ⟨i, hI⟩
    rw [List.getElem?_set] at hI
    split at hI
    · cases hI
      cases hFound
    · next hNe =>
        refine ⟨⟨List.mem_of_getElem? hI, hFound⟩, fun hSame => ?_⟩
        exact hNe (hSorted.eq_of_key hGet hI hSame.symm)
  · rintro ⟨⟨hMem, hFound⟩, hNe⟩
    refine ⟨?_, hFound⟩
    rcases List.mem_iff_getElem?.mp hMem with ⟨i, hI⟩
    refine List.mem_iff_getElem?.mpr ⟨i, ?_⟩
    rw [List.getElem?_set, if_neg, hI]
    rintro rfl
    rw [hGet] at hI
    cases hI
    exact hNe rfl

theorem deleteEntry_deletedCount
    {procTable : ProcTable}
    {index : Nat}
    {entry : Entry}
    (hGet : procTable.entries[index]? = some entry)
    (hLive : entry.isDeleted = false) :
    (procTable.deleteEntry index).deletedCount =
      procTable.deletedCount + 1 := by
  unfold ProcTable.deleteEntry
  simp only [hGet, hLive, if_neg Bool.false_ne_true]

theorem updateState_jobID
    (object : JobObject) :
    object.updateState.jobID = object.jobID := by
  unfold JobObject.updateState
  split <;> rfl

theorem updateState_procs
    (object : JobObject) :
    object.updateState.procs = object.procs := by
  unfold JobObject.updateState
  split <;> rfl

section

variable {job : JobRef}
variable {offset index : Nat}
variable {proc : Proc}
variable {object : JobObject}

theorem Recorded.heap_self
    (hRecorded : Recorded table next ret job offset index proc object) :
    next.heap[job]? =
      some
        (JobObject.updateState
          { object with
            procs :=
              object.procs.set offset
                (proc.applyStatus ret.status) }) := by
  have hJob := (List.getElem?_eq_some_iff.mp hRecorded.owner).1
  rw [hRecorded.heap, List.getElem?_set, if_pos rfl, if_pos hJob]

theorem Recorded.heap_other
    (hRecorded : Recorded table next ret job offset index proc object)
    {other : JobRef}
    (hNe : job ≠ other) :
    next.heap[other]? = table.heap[other]? := by
  rw [hRecorded.heap, List.getElem?_set, if_neg hNe]

/- Every job keeps its number. -/
theorem Recorded.jobIDOf
    (hRecorded : Recorded table next ret job offset index proc object)
    (other : JobRef) :
    next.jobIDOf other = table.jobIDOf other := by
  by_cases hSame : job = other
  · subst hSame
    rw [jobIDOf_of_heap hRecorded.heap_self, updateState_jobID,
      jobIDOf_of_heap hRecorded.owner]
  · unfold JobTable.jobIDOf
    rw [hRecorded.heap_other hSame]

/- Only the process that is reported changes. -/
theorem Recorded.procAt
    (hRecorded : Recorded table next ret job offset index proc object)
    (other : JobRef)
    (place : Nat) :
    next.procAt other place =
      if job = other ∧ offset = place then
        some (proc.applyStatus ret.status)
      else
        table.procAt other place := by
  have hFound := hRecorded.holds.found
  rw [procAt_of_heap hRecorded.owner] at hFound
  have hPlace := (List.getElem?_eq_some_iff.mp hFound).1
  by_cases hSame : job = other
  · subst hSame
    rw [procAt_of_heap hRecorded.heap_self, updateState_procs,
      procAt_of_heap hRecorded.owner, List.getElem?_set]
    by_cases hOffset : offset = place
    · subst hOffset
      rw [if_pos rfl, if_pos hPlace, if_pos ⟨rfl, rfl⟩]
    · rw [if_neg hOffset, if_neg (fun hBoth => hOffset hBoth.2)]
  · rw [if_neg (fun hBoth => hSame hBoth.1)]
    unfold JobTable.procAt
    rw [hRecorded.heap_other hSame]

theorem Recorded.holds_iff
    (hRecorded : Recorded table next ret job offset index proc object)
    {other : JobRef}
    {place : Nat}
    {found : Proc} :
    next.Holds other place found ↔
      (job = other ∧ offset = place ∧
          found = proc.applyStatus ret.status ∧
          ret.status.terminates = false) ∨
        (table.Holds other place found ∧
          ¬ (job = other ∧ offset = place)) := by
  constructor
  · rintro ⟨hJob, hFound, hLive⟩
    rw [hRecorded.jobs] at hJob
    rw [hRecorded.procAt] at hFound
    split at hFound
    · next hHere =>
        cases hFound
        rw [applyStatus_isTerminated] at hLive
        exact Or.inl ⟨hHere.1, hHere.2, rfl, hLive⟩
    · next hElse => exact Or.inr ⟨⟨hJob, hFound, hLive⟩, hElse⟩
  · rintro (⟨rfl, rfl, rfl, hLive⟩ | ⟨⟨hJob, hFound, hLive⟩, hElse⟩)
    · refine ⟨?_, ?_, ?_⟩
      · rw [hRecorded.jobs]
        exact hRecorded.holds.attached
      · rw [hRecorded.procAt, if_pos ⟨rfl, rfl⟩]
      · rw [applyStatus_isTerminated, hLive]
    · refine ⟨?_, ?_, hLive⟩
      · rw [hRecorded.jobs]
        exact hJob
      · rw [hRecorded.procAt, if_neg hElse]
        exact hFound

theorem applyStatus_pid
    (proc : Proc)
    {status : WaitStatus}
    (hRuns : status.terminates = false) :
    (proc.applyStatus status).pid = proc.pid := by
  cases status with
  | exited _ => cases hRuns
  | signaled _ => cases hRuns
  | stopped _ => rfl
  | continued => rfl

/- A job that took a report is available unless it has ended. -/
theorem Recorded.available
    (hTable : table.Consistent children)
    (hRecorded : Recorded table next ret job offset index proc object)
    {after : JobObject}
    (hAfter : next.heap[job]? = some after) :
    after.state ≠ .uncontrolled ∧
      after.available = !after.ended ∧
      after.procs ≠ [] ∧
      (after.state = .terminated → after.ended = true) := by
  rw [hRecorded.heap_self] at hAfter
  have hSame := Option.some.inj hAfter
  rcases hTable.attached job hRecorded.holds.attached with
    ⟨found, hFound, hState, hAvailable⟩
  rw [hRecorded.owner] at hFound
  cases hFound
  have hProcs := (hTable.controlled job object hRecorded.owner).1
  have hProc := hRecorded.holds.found
  rw [procAt_of_heap hRecorded.owner] at hProc
  have hAlive : object.ended = false := by
    cases hEnded : object.ended with
    | false => rfl
    | true =>
        have hAll :=
          List.all_eq_true.mp hEnded proc
            (List.mem_of_getElem? hProc)
        rw [hRecorded.holds.live] at hAll
        cases hAll
  have hRunning : object.state = .running := by
    rw [hAlive] at hAvailable
    exact beq_iff_eq.mp hAvailable
  have hNonempty :
      object.procs.set offset (proc.applyStatus ret.status) ≠
        [] := by
    intro hNil
    have hLength := congrArg List.length hNil
    rw [List.length_set] at hLength
    exact hProcs (List.eq_nil_of_length_eq_zero hLength)
  subst hSame
  unfold JobObject.updateState
  simp only [JobObject.available, hRunning, beq_self_eq_true,
    Bool.true_and, JobObject.ended]
  split
  · next hEnded =>
      simp only [hEnded]
      exact
        ⟨JobState.noConfusion, rfl, hNonempty, fun _ => trivial⟩
  · next hEnded =>
      simp only [Bool.not_eq_true] at hEnded
      simp only [hEnded]
      exact
        ⟨JobState.noConfusion, rfl, hNonempty, by rintro ⟨⟩⟩

/- The tables agree after a report has been recorded. -/
theorem Recorded.consistent
    (hTable : table.Consistent children)
    (hRecorded :
      Recorded table next ret job offset index proc object) :
    next.Consistent (reap children ret) := by
  rcases hRecorded.entry with ⟨entry, hGet, hLive, hPid⟩
  have hSorted := hTable.wellFormed.sorted
  have hElse :
      ∀ {other : JobRef} {place : Nat} {found : Proc},
        table.Holds other place found →
        ¬ (job = other ∧ offset = place) →
        found.pid ≠ ret.pid := by
    intro other place found hOther hNe hSame
    exact
      hNe
        (hTable.holds_unique hRecorded.holds hOther
          (hRecorded.pid.trans hSame.symm))
  have hOwnPid := hRecorded.pid
  constructor
  · rw [hRecorded.procTable]
    split
    · exact hTable.wellFormed.deleteEntry index
    · exact hTable.wellFormed
  · rw [hRecorded.jobs]
    exact
      hTable.sorted.congr (fun other _ => hRecorded.jobIDOf other)
  · intro other hOther
    rw [hRecorded.jobs] at hOther
    rw [hRecorded.jobIDOf]
    exact hTable.numbered other hOther
  · intro other hOther
    rw [hRecorded.jobs] at hOther
    by_cases hSame : job = other
    · subst hSame
      have hAfter := hRecorded.available hTable hRecorded.heap_self
      exact ⟨_, hRecorded.heap_self, hAfter.1, hAfter.2.1⟩
    · rw [hRecorded.heap_other hSame]
      exact hTable.attached other hOther
  · intro other found hFound
    by_cases hSame : job = other
    · subst hSame
      exact (hRecorded.available hTable hFound).2.2
    · rw [hRecorded.heap_other hSame] at hFound
      exact hTable.controlled other found hFound
  · intro found
    have hMem :
        found ∈ next.procTable.entries ∧ found.isDeleted = false ↔
          table.EntryOf found ∧
            (ret.status.terminates = true →
              found.pid ≠ ret.pid) := by
      rw [hRecorded.procTable, ← hTable.entries found]
      split
      · next hEnds =>
          rw [mem_deleteEntry hSorted hGet hLive, hPid]
          simp [hEnds]
      · next hRuns => simp [hRuns]
    rw [hMem]
    constructor
    · rintro ⟨⟨other, held, hHold, hSame, hID⟩, hEnds⟩
      by_cases hHere : job = other ∧ offset = found.procOffset
      · have hHeld : held = proc := by
          have hFound := hHold.found
          rw [← hHere.1, ← hHere.2, hRecorded.holds.found] at hFound
          exact (Option.some.inj hFound).symm
        subst hHeld
        have hRuns : ret.status.terminates = false := by
          cases hStatus : ret.status.terminates with
          | false => rfl
          | true =>
              exact absurd (hSame.trans hOwnPid) (hEnds hStatus)
        refine
          ⟨other, held.applyStatus ret.status,
            hRecorded.holds_iff.mpr
              (Or.inl ⟨hHere.1, hHere.2, rfl, hRuns⟩), ?_, ?_⟩
        · rw [applyStatus_pid held hRuns, hSame]
        · rw [hRecorded.jobIDOf, hID]
      · refine
          ⟨other, held,
            hRecorded.holds_iff.mpr (Or.inr ⟨hHold, hHere⟩),
            hSame, ?_⟩
        rw [hRecorded.jobIDOf, hID]
    · rintro ⟨other, held, hHold, hSame, hID⟩
      rw [hRecorded.jobIDOf] at hID
      rcases hRecorded.holds_iff.mp hHold with
        ⟨rfl, rfl, rfl, hRuns⟩ | ⟨hOld, hNe⟩
      · rw [applyStatus_pid proc hRuns] at hSame
        refine ⟨⟨job, proc, hRecorded.holds, hSame, hID⟩, ?_⟩
        intro hEnds
        rw [hRuns] at hEnds
        cases hEnds
      · refine ⟨⟨other, held, hOld, hSame, hID⟩, fun _ => ?_⟩
        rw [hSame]
        exact hElse hOld hNe
  · intro other place found hHold
    rcases hRecorded.holds_iff.mp hHold with
      ⟨_, _, rfl, hRuns⟩ | ⟨hOld, hNe⟩
    · rw [applyStatus_pid proc hRuns, reap, hRuns]
      exact hTable.pids _ _ proc hRecorded.holds
    · have hChild := hTable.pids other place found hOld
      refine ⟨hChild.1, ?_⟩
      unfold reap
      split
      · refine List.mem_filter.mpr ⟨hChild.2, ?_⟩
        exact bne_iff_ne.mpr (hElse hOld hNe)
      · exact hChild.2
  · intro hCount other hOther
    rw [hRecorded.procTable] at hCount
    rw [hRecorded.jobs] at hOther
    split at hCount
    · rw [deleteEntry_deletedCount hGet hLive] at hCount
      cases hCount
    · next hRuns =>
        by_cases hSame : job = other
        · subst hSame
          have hAfter := hRecorded.available hTable hRecorded.heap_self
          rw [isAvailable_of_heap hRecorded.heap_self, hAfter.2.1,
            Bool.not_eq_true', JobObject.ended, updateState_procs]
          have hFound := hRecorded.holds.found
          rw [procAt_of_heap hRecorded.owner] at hFound
          have hPlace := (List.getElem?_eq_some_iff.mp hFound).1
          refine List.all_eq_false.mpr
            ⟨proc.applyStatus ret.status,
              List.mem_set hPlace _, ?_⟩
          rw [applyStatus_isTerminated]
          exact hRuns
        · unfold JobTable.isAvailable
          rw [hRecorded.heap_other hSame]
          exact hTable.unmarked hCount other hOther

end

/- A child that no attached process stands for may be reaped. -/
theorem Consistent.reap
    (hTable : table.Consistent children)
    (hOther :
      ∀ job offset proc,
        table.Holds job offset proc → proc.pid ≠ ret.pid) :
    table.Consistent (reap children ret) := by
  refine { hTable with pids := ?_ }
  intro job offset proc hHold
  have hChild := hTable.pids job offset proc hHold
  refine ⟨hChild.1, ?_⟩
  unfold Job.reap
  split
  · refine List.mem_filter.mpr ⟨hChild.2, ?_⟩
    exact bne_iff_ne.mpr (hOther job offset proc hHold)
  · exact hChild.2

end

end JobTable

end Job

end Ydsh
