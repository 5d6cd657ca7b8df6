import Mathlib.Data.Nat.Basic
import Ydsh.Job.ProcTable
import Ydsh.Library.Run

/-
  The table of jobs and its runs.

  Job objects are shared, so they live in a heap and the table
  holds references to them.  A failing assertion stops the run.

  Main declarations:
    * `JobTable`
    * `JobTable.attach`
    * `JobTable.updateProcState`
    * `JobTable.removeTerminatedJobs`
    * `TableOp`
    * `JobTable.step`
    * `procTable_wellFormed_of_run`
-/

----
-- Table
----

namespace Ydsh

namespace Job

open Library

abbrev JobRef := Nat

structure JobTable where
  heap : List JobObject
  jobs : List JobRef
  procTable : ProcTable
  latest : Option JobRef
  deriving DecidableEq, Repr

namespace JobTable

def empty : JobTable :=
  { heap := []
    jobs := []
    procTable := ProcTable.empty
    latest := none }

def jobIDOf
    (table : JobTable)
    (job : JobRef) : Nat :=
  (table.heap[job]?.map JobObject.jobID).getD 0

def isAvailable
    (table : JobTable)
    (job : JobRef) : Bool :=
  (table.heap[job]?.map JobObject.available).getD false

def isDisowned
    (table : JobTable)
    (job : JobRef) : Bool :=
  (table.heap[job]?.map JobObject.disown).getD false

def modifyJob
    (table : JobTable)
    (job : JobRef)
    (f : JobObject → JobObject) : JobTable :=
  { table with heap := table.heap.modify job f }

/- The first index whose job does not carry its number. -/
def findEmptyEntry (table : JobTable) : Nat :=
  partitionPoint
    (fun midIndex =>
      (table.jobs[midIndex]?.map table.jobIDOf) ==
        some (midIndex + 1))
    0 table.jobs.length

def findIter
    (table : JobTable)
    (jobId : Nat) : Option Nat :=
  if jobId > 0 then
    let iter :=
      lowerBound (keyBelow table.jobIDOf jobId) table.jobs
    if (table.jobs[iter]?.map table.jobIDOf) = some jobId then
      some iter
    else
      none
  else
    none

/- A disowned job is not found. -/
def find
    (table : JobTable)
    (jobId : Nat) : Option JobRef :=
  match table.findIter jobId with
  | none => none
  | some iter =>
      match table.jobs[iter]? with
      | none => none
      | some job =>
          if table.isDisowned job then none else some job

----
-- Operations
----

def create
    (table : JobTable)
    (procs : List Proc) : JobTable :=
  { table with heap := table.heap ++ [JobObject.create procs] }

/- A job id is an `unsigned short`. -/
def attach
    (table : JobTable)
    (job : JobRef)
    (disowned : Bool) : Option JobTable :=
  match table.heap[job]? with
  | none => none
  | some object =>
      if object.jobID ≠ 0 then
        some table
      else
        let ret := table.findEmptyEntry
        let attached :=
          { object with jobID := (ret + 1) % 65536 }
        let table :=
          { table with
            heap := table.heap.set job attached
            jobs := table.jobs.insertIdx ret job
            procTable := table.procTable.add attached }
        if disowned then
          some (table.modifyJob job JobObject.disowned)
        else
          some { table with latest := some job }

def detachAll (table : JobTable) : JobTable :=
  let detached :=
    table.jobs.foldl
      (fun table job =>
        table.modifyJob job
          (fun object =>
            { object with
              jobID := 0
              disown := true
              state := .uncontrolled }))
      table
  { detached with
    jobs := []
    procTable := table.procTable.clear
    latest := none }

/- The update of the process an entry stands for. -/
def updateEntry
    (table : JobTable)
    (ret : WaitResult)
    (index : Nat)
    (entry : Entry)
    (job : JobRef) :
    Option (JobTable × Option (JobRef × Nat)) :=
  match table.heap[job]? with
  | none => none
  | some object =>
      match object.procs[entry.procOffset]? with
      | none => none
      | some proc =>
          let proc := proc.updateState ret
          let updated :=
            { object with
              procs :=
                object.procs.set entry.procOffset proc }
          let procTable :=
            if proc.isTerminated then
              table.procTable.deleteEntry index
            else
              table.procTable
          some
            ({ table with
                heap :=
                  table.heap.set job updated.updateState
                procTable },
              some (job, entry.procOffset))

/-
  Record a wait result in the process it belongs to.  The
  entry found must be live and belong to a job of the table.
-/
def updateProcState
    (table : JobTable)
    (ret : WaitResult) :
    Option (JobTable × Option (JobRef × Nat)) :=
  match table.procTable.findProc ret.pid with
  | none => some (table, none)
  | some index =>
      match table.procTable.entries[index]? with
      | none => none
      | some entry =>
          if entry.isDeleted then
            none
          else
            match (table.findIter entry.jobId).bind
                (fun iter => table.jobs[iter]?) with
            | none => none
            | some job =>
                table.updateEntry ret index entry job

/- A job leaves the table disowned and without a job id. -/
def release
    (table : JobTable)
    (job : JobRef) : JobTable :=
  table.modifyJob job
    (fun object =>
      { object with jobID := 0, disown := true })

def removeTerminatedJobs (table : JobTable) : JobTable :=
  if table.procTable.deletedCount = 0 then
    table
  else
    let table :=
      { table with procTable := table.procTable.batchedRemove }
    if table.jobs.all table.isAvailable then
      table
    else
      let result :=
        compact (fun job => !table.isAvailable job) table.jobs
      let kept := result.1.take result.2
      let released :=
        (result.1.drop result.2).reverse.foldl release
          { table with jobs := kept }
      match table.latest with
      | none => released
      | some job =>
          if table.isAvailable job then
            released
          else
            { released with
              latest :=
                kept.reverse.find?
                  (fun j => !table.isDisowned j) }

----
-- Runs
----

end JobTable

/-
  One call on the tables.  `procUpdateState` is a wait on a
  process of a job, whether or not the job is attached.
-/
inductive TableOp where
  | create (procs : List Proc)
  | attach (job : JobRef) (disowned : Bool)
  | procUpdateState
      (job : JobRef) (offset : Nat) (ret : WaitResult)
  | updateProcState (ret : WaitResult)
  | removeTerminatedJobs
  | detachAll
  | addProc (pid : Int) (jobId procOffset : Nat)
  | deleteProc (pid : Int)
  | batchedRemove
  | clear
  deriving DecidableEq, Repr

namespace JobTable

def step
    (table : JobTable) : TableOp → Option JobTable
  | .create procs => some (table.create procs)
  | .attach job disowned => table.attach job disowned
  | .procUpdateState job offset ret =>
      some (table.modifyJob job
        (fun object =>
          JobObject.updateState
            { object with
              procs :=
                object.procs.modify offset
                  (fun proc => proc.updateState ret) }))
  | .updateProcState ret =>
      (table.updateProcState ret).map Prod.fst
  | .removeTerminatedJobs => some table.removeTerminatedJobs
  | .detachAll => some table.detachAll
  | .addProc pid jobId procOffset =>
      some { table with
        procTable :=
          (table.procTable.addProc pid jobId procOffset).1 }
  | .deleteProc pid =>
      some { table with
        procTable := (table.procTable.deleteProc pid).1 }
  | .batchedRemove =>
      some { table with
        procTable := table.procTable.batchedRemove }
  | .clear =>
      some { table with procTable := table.procTable.clear }

theorem foldl_release_procTable
    (table : JobTable)
    (jobs : List JobRef) :
    (jobs.foldl release table).procTable =
      table.procTable := by
  induction jobs generalizing table with
  | nil => rfl
  | cons job jobs ih =>
      rw [List.foldl_cons, ih]
      rfl

----
-- The Process Table along a Run
----

theorem attach_procTable
    {table next : JobTable}
    {job : JobRef}
    {disowned : Bool}
    (hAttach : table.attach job disowned = some next)
    (hTable : table.procTable.WellFormed) :
    next.procTable.WellFormed := by
  unfold attach at hAttach
  split at hAttach
  · cases hAttach
  · split at hAttach
    · cases hAttach
      exact hTable
    · split at hAttach <;>
      · cases hAttach
        exact hTable.add _

theorem updateProcState_procTable
    {table next : JobTable}
    {ret : WaitResult}
    {found : Option (JobRef × Nat)}
    (hUpdate :
      table.updateProcState ret = some (next, found))
    (hTable : table.procTable.WellFormed) :
    next.procTable.WellFormed := by
  unfold updateProcState at hUpdate
  split at hUpdate
  · cases hUpdate
    exact hTable
  · next index _ =>
      split at hUpdate
      · cases hUpdate
      · split at hUpdate
        · cases hUpdate
        · split at hUpdate
          · cases hUpdate
          · unfold updateEntry at hUpdate
            split at hUpdate
            · cases hUpdate
            · split at hUpdate
              · cases hUpdate
              · cases hUpdate
                dsimp only
                split
                · exact hTable.deleteEntry index
                · exact hTable

theorem removeTerminatedJobs_procTable
    (table : JobTable) :
    table.removeTerminatedJobs.procTable =
      if table.procTable.deletedCount = 0 then
        table.procTable
      else
        table.procTable.batchedRemove := by
  unfold removeTerminatedJobs
  split
  · rfl
  · dsimp only
    split
    · rfl
    · split
      · exact foldl_release_procTable _ _
      · split
        · exact foldl_release_procTable _ _
        · exact foldl_release_procTable _ _

theorem step_procTable
    {table next : JobTable}
    {op : TableOp}
    (hStep : table.step op = some next)
    (hTable : table.procTable.WellFormed) :
    next.procTable.WellFormed := by
  cases op with
  | create procs =>
      cases hStep
      exact hTable
  | attach job disowned => exact attach_procTable hStep hTable
  | procUpdateState job offset ret =>
      cases hStep
      exact hTable
  | updateProcState ret =>
      rcases Option.map_eq_some_iff.mp hStep with
        ⟨⟨updated, found⟩, hUpdate, rfl⟩
      exact updateProcState_procTable hUpdate hTable
  | removeTerminatedJobs =>
      cases hStep
      rw [removeTerminatedJobs_procTable]
      split
      · exact hTable
      · exact hTable.batchedRemove
  | detachAll | clear =>
      cases hStep
      exact ProcTable.WellFormed.clear table.procTable
  | addProc pid jobId procOffset =>
      cases hStep
      exact hTable.addProc pid jobId procOffset
  | deleteProc pid =>
      cases hStep
      exact hTable.deleteProc pid
  | batchedRemove =>
      cases hStep
      exact hTable.batchedRemove

/- Every run keeps the process table sorted and counted. -/
theorem procTable_wellFormed_of_run
    {table : JobTable}
    {ops : List TableOp}
    (hRun : exec step empty ops = some table) :
    table.procTable.WellFormed :=
  exec_invariant
    (I := fun table => table.procTable.WellFormed)
    (fun _ _ _ hTable hStep => step_procTable hStep hTable)
    hRun ProcTable.WellFormed.empty

end JobTable

end Job

end Ydsh
