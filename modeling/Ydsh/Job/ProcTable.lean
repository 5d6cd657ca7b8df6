import Mathlib.Data.Int.Order.Basic
import Mathlib.Tactic.Common
import Ydsh.Library.Compaction
import Ydsh.Library.SortedVector

/-
  Child processes and jobs, and the mapping from process ids
  to jobs.

  A job owns the processes of one pipeline.  Descriptors are
  left out: no operation on the tables reads them.

  Entries of the table are kept sorted by process id.  An entry is deleted
  by setting its job id to zero and is removed later, together
  with every other deleted one.

  Main declarations:
    * `Proc`
    * `Proc.updateState`
    * `JobObject`
    * `JobObject.updateState`
    * `ProcTable`
    * `ProcTable.addProc`
    * `ProcTable.findProc`
    * `ProcTable.deleteProc`
    * `ProcTable.batchedRemove`
    * `ProcTable.WellFormed`
-/

----
-- Wait Results
----

namespace Ydsh

namespace Job

/- The cases told apart by the macros on a wait status. -/
inductive WaitStatus where
  | exited (status : Nat)
  | signaled (sigNum : Nat)
  | stopped (sigNum : Nat)
  | continued
  deriving DecidableEq, Repr

structure WaitResult where
  pid : Int
  status : WaitStatus
  deriving DecidableEq, Repr

inductive ProcState where
  | running
  | stopped
  | terminated
  deriving DecidableEq, Repr

structure Proc where
  pid : Int
  state : ProcState
  exitStatus : Nat
  deriving DecidableEq, Repr

namespace Proc

def ofPid (pid : Int) : Proc :=
  { pid, state := .running, exitStatus := 0 }

def isTerminated (proc : Proc) : Bool :=
  proc.state == .terminated

/- An exit status is an `unsigned char`. -/
def applyStatus
    (proc : Proc) : WaitStatus → Proc
  | .exited status =>
      { pid := -1
        state := .terminated
        exitStatus := status % 256 }
  | .signaled sigNum =>
      { pid := -1
        state := .terminated
        exitStatus := (sigNum + 128) % 256 }
  | .stopped sigNum =>
      { proc with
        state := .stopped
        exitStatus := (sigNum + 128) % 256 }
  | .continued => { proc with state := .running }

/- A result for another process is ignored. -/
def updateState
    (proc : Proc)
    (ret : WaitResult) : Proc :=
  if proc.isTerminated || ret.pid != proc.pid then
    proc
  else
    proc.applyStatus ret.status

end Proc

inductive JobState where
  | running
  | terminated
  | uncontrolled
  deriving DecidableEq, Repr

structure JobObject where
  jobID : Nat
  state : JobState
  disown : Bool
  procs : List Proc
  deriving DecidableEq, Repr

namespace JobObject

def create (procs : List Proc) : JobObject :=
  { jobID := 0, state := .running, disown := false, procs }

def available (job : JobObject) : Bool :=
  job.state == .running

/- A job ends when all of its processes have ended. -/
def updateState (job : JobObject) : JobObject :=
  if job.available && job.procs.all Proc.isTerminated then
    { job with state := .terminated }
  else
    job

def disowned (job : JobObject) : JobObject :=
  { job with disown := true }

end JobObject

end Job

end Ydsh

namespace Ydsh

namespace Job

open Library

structure Entry where
  pid : Int
  jobId : Nat
  procOffset : Nat
  deriving DecidableEq, Repr

def Entry.isDeleted (entry : Entry) : Bool :=
  entry.jobId == 0

def Entry.markDelete (entry : Entry) : Entry :=
  { entry with jobId := 0 }

@[simp] theorem Entry.markDelete_pid
    (entry : Entry) :
    entry.markDelete.pid = entry.pid :=
  rfl

@[simp] theorem Entry.markDelete_isDeleted
    (entry : Entry) :
    entry.markDelete.isDeleted = true :=
  rfl

----
-- Table
----

structure ProcTable where
  entries : List Entry
  deletedCount : Nat
  deriving DecidableEq, Repr

namespace ProcTable

def empty : ProcTable :=
  { entries := [], deletedCount := 0 }

/- The iterator `std::lower_bound` returns for a process id. -/
def lowerBoundOf
    (table : ProcTable)
    (pid : Int) : Nat :=
  lowerBound (keyBelow Entry.pid pid) table.entries

/-
  An entry is inserted unless an entry, deleted or not, has
  the process id already.
-/
def addProc
    (table : ProcTable)
    (pid : Int)
    (jobId procOffset : Nat) : ProcTable × Option Nat :=
  if pid < 0 ∨ jobId = 0 then
    (table, none)
  else
    let iter := table.lowerBoundOf pid
    if (table.entries[iter]?.map Entry.pid) = some pid then
      (table, none)
    else
      ({ table with
          entries :=
            table.entries.insertIdx iter
              { pid, jobId, procOffset } },
        some iter)

/- Only the end of the table is told apart from a hit. -/
def findProc
    (table : ProcTable)
    (pid : Int) : Option Nat :=
  if pid > 0 then
    let iter := table.lowerBoundOf pid
    if iter = table.entries.length then
      none
    else
      some iter
  else
    none

def deleteEntry
    (table : ProcTable)
    (index : Nat) : ProcTable :=
  match table.entries[index]? with
  | none => table
  | some entry =>
      if entry.isDeleted then
        table
      else
        { entries := table.entries.set index entry.markDelete
          deletedCount := table.deletedCount + 1 }

def deleteProc
    (table : ProcTable)
    (pid : Int) : ProcTable × Bool :=
  match table.findProc pid with
  | some index => (table.deleteEntry index, true)
  | none => (table, false)

def batchedRemove (table : ProcTable) : ProcTable :=
  let result := compact Entry.isDeleted table.entries
  { entries := result.1.take result.2
    deletedCount := 0 }

def clear (_table : ProcTable) : ProcTable :=
  empty

/- Add every process of a job under the job's id. -/
def add
    (table : ProcTable)
    (job : JobObject) : ProcTable :=
  job.procs.zipIdx.foldl
    (fun table proc =>
      (table.addProc proc.1.pid job.jobID proc.2).1)
    table

----
-- Well-Formed Tables
----

/-
  The order the search relies on, and the meaning of the
  counter that triggers a removal.
-/
structure WellFormed (table : ProcTable) : Prop where
  sorted : SortedBy Entry.pid table.entries
  nonneg : ∀ entry ∈ table.entries, 0 ≤ entry.pid
  deletedCount_eq :
    table.deletedCount =
      table.entries.countP Entry.isDeleted

theorem WellFormed.empty : WellFormed empty where
  sorted := SortedBy.nil Entry.pid
  nonneg := by simp [ProcTable.empty]
  deletedCount_eq := rfl

/- What `addProc` can do to a table. -/
theorem addProc_cases
    (table : ProcTable)
    (pid : Int)
    (jobId procOffset : Nat) :
    (table.addProc pid jobId procOffset).1 = table ∨
      (0 ≤ pid ∧ jobId ≠ 0 ∧
        (table.entries[table.lowerBoundOf pid]?.map
          Entry.pid) ≠ some pid ∧
        (table.addProc pid jobId procOffset).1 =
          { table with
            entries :=
              table.entries.insertIdx
                (table.lowerBoundOf pid)
                { pid, jobId, procOffset } }) := by
  by_cases hArgs : pid < 0 ∨ jobId = 0
  · exact Or.inl (by simp [addProc, hArgs])
  · by_cases hFound :
        (table.entries[table.lowerBoundOf pid]?.map
          Entry.pid) = some pid
    · exact Or.inl (by simp [addProc, hArgs, hFound])
    · have hParts := not_or.mp hArgs
      refine Or.inr ⟨by omega, hParts.2, hFound, ?_⟩
      simp [addProc, hArgs, hFound]

/- Without a hit at the lower bound no entry has the pid. -/
theorem pid_ne_of_lowerBound
    {table : ProcTable}
    (hSorted : SortedBy Entry.pid table.entries)
    {pid : Int}
    (hMiss :
      (table.entries[table.lowerBoundOf pid]?.map
        Entry.pid) ≠ some pid) :
    ∀ entry ∈ table.entries, entry.pid ≠ pid := by
  intro entry hMem hPid
  rcases List.mem_iff_getElem?.mp hMem with ⟨i, hGet⟩
  have hIndex := hSorted.lowerBound_of_key hGet
  apply hMiss
  rw [lowerBoundOf, ← hPid, hIndex, hGet]
  rfl

theorem WellFormed.addProc
    {table : ProcTable}
    (hTable : WellFormed table)
    (pid : Int)
    (jobId procOffset : Nat) :
    WellFormed (table.addProc pid jobId procOffset).1 := by
  rcases addProc_cases table pid jobId procOffset with
    hSame | ⟨hPid, hJob, hMiss, hInsert⟩
  · rw [hSame]
    exact hTable
  · rw [hInsert]
    refine ⟨?_, ?_, ?_⟩
    · exact
        hTable.sorted.insertIdx
          (a := { pid, jobId, procOffset })
          (pid_ne_of_lowerBound hTable.sorted hMiss)
    · intro entry hMem
      rcases List.eq_or_mem_of_mem_insertIdx hMem with
        rfl | hOld
      · exact hPid
      · exact hTable.nonneg entry hOld
    · have hLive :
          Entry.isDeleted { pid, jobId, procOffset } =
            false := by
        simp [Entry.isDeleted, hJob]
      have hPerm :=
        List.perm_insertIdx
          { pid, jobId, procOffset : Entry }
          table.entries
          (lowerBound_le_length
            (keyBelow Entry.pid pid) table.entries)
      simp only [lowerBoundOf]
      rw [hPerm.countP_eq, List.countP_cons]
      simp [hLive, hTable.deletedCount_eq]

theorem WellFormed.deleteEntry
    {table : ProcTable}
    (hTable : WellFormed table)
    (index : Nat) :
    WellFormed (table.deleteEntry index) := by
  unfold ProcTable.deleteEntry
  split
  · exact hTable
  · next entry hGet =>
      split
      · exact hTable
      · next hLive =>
          rcases List.getElem?_eq_some_iff.mp hGet with
            ⟨hIndex, hEntry⟩
          refine ⟨?_, ?_, ?_⟩
          · apply hTable.sorted.of_map_eq
            rw [List.map_set, Entry.markDelete_pid]
            apply List.ext_getElem?
            intro k
            by_cases hK : index = k
            · subst hK
              simp [hIndex, hEntry]
            · rw [List.getElem?_set_ne hK]
          · intro other hMem
            rcases List.mem_or_eq_of_mem_set hMem with
              hOld | rfl
            · exact hTable.nonneg other hOld
            · exact hTable.nonneg entry
                (List.mem_of_getElem? hGet)
          · rw [List.countP_set hIndex, hEntry]
            simp [hLive, hTable.deletedCount_eq]

theorem WellFormed.deleteProc
    {table : ProcTable}
    (hTable : WellFormed table)
    (pid : Int) :
    WellFormed (table.deleteProc pid).1 := by
  unfold ProcTable.deleteProc
  split
  · exact hTable.deleteEntry _
  · exact hTable

/- Batched removal keeps exactly the live entries. -/
theorem batchedRemove_entries
    (table : ProcTable) :
    table.batchedRemove.entries =
      table.entries.filter
        (fun entry => !entry.isDeleted) :=
  compact_eq_filter Entry.isDeleted table.entries

theorem WellFormed.batchedRemove
    {table : ProcTable}
    (hTable : WellFormed table) :
    WellFormed table.batchedRemove where
  sorted := by
    rw [batchedRemove_entries]
    exact hTable.sorted.filter _
  nonneg := by
    intro entry hMem
    rw [batchedRemove_entries] at hMem
    exact hTable.nonneg entry (List.mem_of_mem_filter hMem)
  deletedCount_eq := by
    rw [batchedRemove_entries, List.countP_filter]
    simp [ProcTable.batchedRemove]

theorem WellFormed.clear
    (table : ProcTable) :
    WellFormed table.clear :=
  WellFormed.empty

theorem WellFormed.add
    {table : ProcTable}
    (hTable : WellFormed table)
    (job : JobObject) :
    WellFormed (table.add job) := by
  unfold ProcTable.add
  generalize job.procs.zipIdx = procs
  induction procs generalizing table with
  | nil => exact hTable
  | cons proc procs ih =>
      exact ih (hTable.addProc proc.1.pid job.jobID proc.2)

end ProcTable

end Job

end Ydsh
