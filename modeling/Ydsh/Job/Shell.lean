import Ydsh.Job.JobTable

/-
  The shell as the operating system drives it.

  The children of the shell that have not been reaped are kept
  beside its tables.  Processes are forked and attached between
  the wait operations; a wait operation takes the reports of
  the operating system one by one and ends with the removal of
  terminated jobs.

  Main declarations:
    * `WaitOp`
    * `JobTable.waitStart`
    * `JobTable.waitReport`
    * `Phase`
    * `Shell`
    * `ShellEvent`
    * `Shell.step`
-/

----
-- Waiting for a Job
----

namespace Ydsh

namespace Job

open Library

inductive WaitOp where
  | blocking
  | blockUntraced
  | nonblocking
  deriving DecidableEq, Repr

/- The last stopped process, unless some process is running. -/
def findLastStopped : List Proc → Option Proc → Option Proc
  | [], last => last
  | proc :: procs, last =>
      match proc.state with
      | .running => none
      | .stopped => findLastStopped procs (some proc)
      | .terminated => findLastStopped procs last

namespace JobObject

/- The exit status of the last process. -/
def exitStatus (job : JobObject) : Int :=
  ((job.procs.getLast?.map Proc.exitStatus).getD 0 : Nat)

def isControlled (job : JobObject) : Bool :=
  job.state != .uncontrolled

/- A job that is not available is not waited for any more. -/
def wait (job : JobObject) : Int :=
  if job.isControlled then job.exitStatus else -1

def lastStopped
    (job : JobObject)
    (op : WaitOp) : Option Proc :=
  if op = .blockUntraced then
    findLastStopped job.procs none
  else
    none

end JobObject

/- Whether `waitForJobImpl` returns or calls `waitpid` again. -/
inductive WaitStep where
  | finished (status : Int)
  | waiting (lastStatus : Int)
  deriving DecidableEq, Repr

namespace JobObject

def waitStart
    (job : JobObject)
    (op : WaitOp) : WaitStep :=
  if job.available then
    match job.lastStopped op with
    | some proc => .finished proc.exitStatus
    | none => .waiting 0
  else
    .finished job.wait

/- `proc` is the process of this job that was reported. -/
def waitReport
    (job : JobObject)
    (op : WaitOp)
    (lastStatus : Int)
    (proc : Option Proc) : WaitStep :=
  let lastStatus :=
    (proc.map (fun proc => (proc.exitStatus : Int))).getD
      lastStatus
  let stopped :=
    if proc.any (fun proc => proc.state == .stopped) then
      job.lastStopped op
    else
      none
  match stopped with
  | some last => .finished last.exitStatus
  | none =>
      if job.available then
        .waiting lastStatus
      else
        .finished job.exitStatus

end JobObject

namespace JobTable

def procAt
    (table : JobTable)
    (job : JobRef)
    (offset : Nat) : Option Proc :=
  (table.heap[job]?).bind (fun object => object.procs[offset]?)

/- What `waitForJobImpl` does before it calls `waitpid`. -/
def waitStart
    (table : JobTable)
    (job : Option JobRef)
    (op : WaitOp) : WaitStep :=
  match job.bind (fun job => table.heap[job]?) with
  | some object => object.waitStart op
  | none => .waiting 0

/- What it does with a report; a job need not be given. -/
def waitReport
    (table : JobTable)
    (job : Option JobRef)
    (op : WaitOp)
    (lastStatus : Int)
    (found : Option (JobRef × Nat)) : WaitStep :=
  match job with
  | none => .finished 0
  | some job =>
      match table.heap[job]? with
      | none => .waiting lastStatus
      | some object =>
          object.waitReport op lastStatus
            (found.bind
              (fun found =>
                if found.1 = job then
                  object.procs[found.2]?
                else
                  none))

/- The loop of `waitForAll`, up to the next call of `waitpid`. -/
def waitForAllFrom
    (table : JobTable)
    (op : WaitOp)
    (waitOne : Bool) :
    List JobRef → Int → WaitStep × Option (JobRef × List JobRef)
  | [], lastStatus => (.finished lastStatus, none)
  | job :: rest, lastStatus =>
      if table.isDisowned job then
        table.waitForAllFrom op waitOne rest lastStatus
      else
        match table.waitStart (some job) op with
        | .waiting lastStatus =>
            (.waiting lastStatus, some (job, rest))
        | .finished status =>
            if status < 0 || waitOne then
              (.finished status, none)
            else
              table.waitForAllFrom op waitOne rest status

end JobTable

----
-- States
----

inductive WaitCall where
  | waitForJob (job : Option JobRef) (op : WaitOp)
  | waitForAny
  | waitForAll (op : WaitOp) (waitOne : Bool)
  deriving DecidableEq, Repr

/-
  `spawned` holds the processes that have been forked and are
  not in the table yet.  A call is `finishing` until terminated
  jobs have been removed.  After a failed assertion the shell
  is `aborted`.
-/
inductive Phase where
  | idle
  | spawned (procs : List Proc)
  | waitForJob
      (job : Option JobRef) (op : WaitOp) (lastStatus : Int)
  | waitForAny
  | waitForAll
      (job : JobRef) (rest : List JobRef)
      (op : WaitOp) (waitOne : Bool) (lastStatus : Int)
  | finishing (call : WaitCall) (status : Int)
  | returned (call : WaitCall) (status : Int)
  | aborted
  deriving DecidableEq, Repr

structure Shell where
  table : JobTable
  children : List Int
  phase : Phase
  deriving DecidableEq, Repr

inductive ShellEvent where
  | fork (pid : Int)
  | procWait (offset : Nat) (status : WaitStatus)
  | attach (disowned : Bool)
  | abandon
  | child
  | detach (job : JobRef)
  | waitForJob (job : Option JobRef) (op : WaitOp)
  | waitForAny
  | waitForAll (op : WaitOp) (waitOne : Bool)
  | report (ret : WaitResult)
  | noReport
  | waitError
  | removeTerminatedJobs
  deriving DecidableEq, Repr

namespace Phase

/- No call is running, and no process waits to be attached. -/
def isIdle : Phase → Bool
  | idle => true
  | returned _ _ => true
  | _ => false

/- The processes that are not attached yet, outside of waits. -/
def unattached : Phase → Option (List Proc)
  | idle => some []
  | returned _ _ => some []
  | spawned procs => some procs
  | _ => none

/- The shell is inside the loop of a wait operation. -/
def waits : Phase → Bool
  | waitForJob _ _ _ => true
  | waitForAny => true
  | waitForAll _ _ _ _ _ => true
  | _ => false

end Phase

namespace WaitStatus

def terminates : WaitStatus → Bool
  | exited _ => true
  | signaled _ => true
  | _ => false

end WaitStatus

/- A child that has ended is reaped by its report. -/
def reap
    (children : List Int)
    (ret : WaitResult) : List Int :=
  if ret.status.terminates then
    children.filter (fun pid => pid != ret.pid)
  else
    children

----
-- Steps
----

namespace Shell

/- The shell may have inherited children. -/
def start (inherited : List Int) : Shell :=
  { table := JobTable.empty
    children := inherited
    phase := .idle }

def afterJob
    (job : Option JobRef)
    (op : WaitOp) : WaitStep → Phase
  | .finished status => .finishing (.waitForJob job op) status
  | .waiting lastStatus => .waitForJob job op lastStatus

def afterAll
    (op : WaitOp)
    (waitOne : Bool) :
    WaitStep × Option (JobRef × List JobRef) → Phase
  | (.finished status, _) =>
      .finishing (.waitForAll op waitOne) status
  | (.waiting lastStatus, some (job, rest)) =>
      .waitForAll job rest op waitOne lastStatus
  | (.waiting lastStatus, none) =>
      .finishing (.waitForAll op waitOne) lastStatus

/- A job of the loop is done; the loop may go on. -/
def nextJob
    (table : JobTable)
    (job : JobRef)
    (rest : List JobRef)
    (op : WaitOp)
    (waitOne : Bool) : WaitStep → Phase
  | .waiting lastStatus =>
      .waitForAll job rest op waitOne lastStatus
  | .finished status =>
      if status < 0 || waitOne then
        .finishing (.waitForAll op waitOne) status
      else
        afterAll op waitOne
          (table.waitForAllFrom op waitOne rest status)

/- `waitpid` has returned a process id. -/
def afterReport
    (table : JobTable)
    (found : Option (JobRef × Nat)) : Phase → Phase
  | .waitForJob job op lastStatus =>
      afterJob job op (table.waitReport job op lastStatus found)
  | .waitForAll job rest op waitOne lastStatus =>
      nextJob table job rest op waitOne
        (table.waitReport (some job) op lastStatus found)
  | phase => phase

/- `waitpid` has returned 0, which only one mode allows. -/
def afterNoReport (table : JobTable) : Phase → Option Phase
  | .waitForJob job .nonblocking lastStatus =>
      some (afterJob job .nonblocking (.finished lastStatus))
  | .waitForAny => some (.finishing .waitForAny 0)
  | .waitForAll job rest .nonblocking waitOne lastStatus =>
      some
        (nextJob table job rest .nonblocking waitOne
          (.finished lastStatus))
  | _ => none

/- `waitpid` has returned -1. -/
def afterError (table : JobTable) : Phase → Option Phase
  | .waitForJob job op _ =>
      some (afterJob job op (.finished (-1)))
  | .waitForAny => some (.finishing .waitForAny 0)
  | .waitForAll job rest op waitOne _ =>
      some (nextJob table job rest op waitOne (.finished (-1)))
  | _ => none

def report
    (shell : Shell)
    (ret : WaitResult) : Option Shell :=
  if shell.phase.waits ∧ 0 < ret.pid ∧
      ret.pid ∈ shell.children then
    match shell.table.updateProcState ret with
    | none => some { shell with phase := .aborted }
    | some (table, found) =>
        some
          { table
            children := reap shell.children ret
            phase := afterReport table found shell.phase }
  else
    none

/-
  The table holds less than 65535 jobs when a process is
  forked, and the operating system picks an unused process id.
-/
def fork
    (shell : Shell)
    (pid : Int) : Option Shell :=
  if 0 < pid ∧ pid ∉ shell.children ∧
      shell.table.jobs.length < 65535 then
    shell.phase.unattached.map
      (fun procs =>
        { shell with
          children := pid :: shell.children
          phase := .spawned (procs ++ [Proc.ofPid pid]) })
  else
    none

/- A process that is not attached is waited for by its id. -/
def procWait
    (shell : Shell)
    (offset : Nat)
    (status : WaitStatus) : Option Shell :=
  match shell.phase with
  | .spawned procs =>
      (procs[offset]?).bind
        (fun proc =>
          if proc.isTerminated then
            none
          else
            let ret : WaitResult := { pid := proc.pid, status }
            some
              { shell with
                children := reap shell.children ret
                phase :=
                  .spawned
                    (procs.set offset (proc.updateState ret)) })
  | _ => none

/- Jobs are attached when not all of their processes ended. -/
def attach
    (shell : Shell)
    (disowned : Bool) : Option Shell :=
  match shell.phase with
  | .spawned procs =>
      if procs.all Proc.isTerminated then
        none
      else
        ((shell.table.create procs).attach
            shell.table.heap.length disowned).map
          (fun table => { shell with table, phase := .idle })
  | _ => none

def step
    (shell : Shell) : ShellEvent → Option Shell
  | .fork pid => shell.fork pid
  | .procWait offset status => shell.procWait offset status
  | .attach disowned => shell.attach disowned
  | .abandon =>
      shell.phase.unattached.map
        (fun _ => { shell with phase := .idle })
  | .child =>
      shell.phase.unattached.map
        (fun _ =>
          { table := shell.table.detachAll
            children := []
            phase := .idle })
  | .detach job =>
      if shell.phase.isIdle then
        some
          { shell with
            table := shell.table.modifyJob job JobObject.disowned
            phase := .idle }
      else
        none
  | .waitForJob job op =>
      if shell.phase.isIdle then
        some
          { shell with
            phase :=
              afterJob job op (shell.table.waitStart job op) }
      else
        none
  | .waitForAny =>
      if shell.phase.isIdle then
        some { shell with phase := .waitForAny }
      else
        none
  | .waitForAll op waitOne =>
      if shell.phase.isIdle then
        some
          { shell with
            phase :=
              afterAll op waitOne
                (shell.table.waitForAllFrom op waitOne
                  shell.table.jobs 0) }
      else
        none
  | .report ret => shell.report ret
  | .noReport =>
      (afterNoReport shell.table shell.phase).map
        (fun phase => { shell with phase })
  | .waitError =>
      (afterError shell.table shell.phase).map
        (fun phase => { shell with phase })
  | .removeTerminatedJobs =>
      match shell.phase with
      | .finishing call status =>
          some
            { shell with
              table := shell.table.removeTerminatedJobs
              phase := .returned call status }
      | _ => none

end Shell

end Job

end Ydsh
